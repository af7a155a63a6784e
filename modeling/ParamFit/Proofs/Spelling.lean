import Mathlib
import ParamFit.Text.Json

/-! The text of a tree is read back as the tree. Both passes go along the text from the front: what is left
of it is read from where the part before it left the machine. A word or a number only ends with the
character behind it, so its part of the text must be followed by one that does not continue it. -/
namespace ParamFit

/-! ### Numerals -/

namespace Numeral
open Json (isNumeric)

theorem numericOfDigit {c : Char} (digit : c.isDigit) : isNumeric c := by
  simp [isNumeric, digit]

theorem numericBehind {cs : List Char} (behind : ∀ c ∈ cs.dropWhile Char.isDigit, isNumeric c) :
    ∀ c ∈ cs, isNumeric c := by
  rw [← List.takeWhile_append_dropWhile (p := Char.isDigit) (l := cs)]
  exact List.forall_mem_append.mpr ⟨fun c among => numericOfDigit (List.mem_takeWhile_imp among), behind⟩

theorem exponentNumeric {cs : List Char} {e : ℤ} (read : exponent? cs = some e) :
    ∀ c ∈ cs, isNumeric c := by
  have marked {mark : Char} {digits : List Char}
      (holds : ((mark == 'e' || mark == 'E') && !digits.isEmpty && digits.all Char.isDigit) = true) :
      isNumeric mark ∧ ∀ c ∈ digits, isNumeric c := by
    simp only [Bool.and_eq_true, Bool.or_eq_true, beq_iff_eq, List.all_eq_true] at holds
    obtain ⟨⟨letter, -⟩, all⟩ := holds
    refine ⟨?_, fun c among => numericOfDigit (all c among)⟩
    rcases letter with rfl | rfl <;> rfl
  unfold exponent? at read
  split at read
  case h_1 => nofun
  case h_2 mark rest =>
    dsimp only at read
    -- the digits stand behind a minus, a plus or no sign
    split at read
    all_goals
      dsimp only at read
      split at read
      case isFalse => cases read
    case h_1.isTrue holds => simpa using ⟨(marked holds).1, by decide, (marked holds).2⟩
    case h_2.isTrue holds => simpa using ⟨(marked holds).1, by decide, (marked holds).2⟩
    case h_3.isTrue holds => exact List.forall_mem_cons.mpr (marked holds)

theorem fractionNumeric {cs fraction tail : List Char} (read : fraction? cs = some (fraction, tail))
    (after : ∀ c ∈ tail, isNumeric c) : ∀ c ∈ cs, isNumeric c := by
  unfold fraction? at read
  split at read
  case h_1 rest =>
    dsimp only at read
    split at read
    case isTrue => cases read
    case isFalse =>
      cases read
      exact List.forall_mem_cons.mpr ⟨by decide, numericBehind after⟩
  case h_2 =>
    cases read
    exact after

/- The sign of a numeral and what is behind it. -/
def sign : List Char → Bool × List Char
  | '-' :: rest => (true, rest)
  | rest => (false, rest)

def Pieces.readUnsigned? (negative : Bool) (cs : List Char) : Option Pieces := do
  let whole := cs.takeWhile Char.isDigit
  if whole.isEmpty || (whole.length > 1 && whole.head? == some '0') then none
  let rest := cs.dropWhile Char.isDigit
  let (fraction, tail) ← fraction? rest
  return ⟨negative, whole, fraction, ← exponent? tail, rest.isEmpty⟩

theorem Pieces.readSigned (cs : List Char) : Pieces.read? cs = readUnsigned? (sign cs).1 (sign cs).2 := rfl

theorem Pieces.unsignedNumeric {negative : Bool} {cs : List Char} {p : Pieces}
    (read : readUnsigned? negative cs = some p) :
    ∃ c rest, cs = c :: rest ∧ c.isDigit ∧ ∀ d ∈ rest, isNumeric d := by
  unfold readUnsigned? at read
  dsimp only at read
  split at read
  case isTrue => cases read
  case isFalse digits =>
    obtain ⟨⟨fraction, tail⟩, split, read⟩ := Option.bind_eq_some_iff.mp read
    obtain ⟨e, exponent, -⟩ := Option.bind_eq_some_iff.mp read
    have numeric := numericBehind (fractionNumeric split (exponentNumeric exponent))
    cases cs with
    | nil => simp at digits
    | cons c rest =>
      have digit : c.isDigit := by
        by_contra other
        simp [other] at digits
      exact ⟨c, rest, rfl, digit, fun d among => numeric d (List.mem_cons_of_mem c among)⟩

/- A numeral has the characters of numbers only, and begins with a digit or a sign. -/
theorem Pieces.readNumeric {cs : List Char} {p : Pieces} (read : Pieces.read? cs = some p) :
    ∃ c rest, cs = c :: rest ∧ (c.isDigit || c == '-') = true ∧ ∀ d ∈ rest, isNumeric d := by
  obtain ⟨c, rest, behind, digit, numeric⟩ := unsignedNumeric (readSigned cs ▸ read)
  unfold sign at behind
  split at behind
  case h_1 =>
    obtain rfl : _ = c :: rest := behind
    exact ⟨'-', _, rfl, rfl, List.forall_mem_cons.mpr ⟨numericOfDigit digit, numeric⟩⟩
  case h_2 => exact ⟨c, rest, behind, by simp [digit], numeric⟩

/-! ### Counts -/

/- The number to which digits are appended. -/
def followed (n : ℕ) (cs : List Char) : ℕ := cs.foldl (fun n c => 10 * n + digitValue c) n

theorem followedMore (n : ℕ) (cs : List Char) : n ≤ followed n cs := by
  induction cs generalizing n with
  | nil => exact le_refl n
  | cons c rest ih => exact le_trans (by omega) (ih (10 * n + digitValue c))

/- No digit is dropped from a number that fits. -/
theorem fillAll {n : ℕ} {cs : List Char} (fits : followed n cs < 2 ^ 64) :
    fill n cs = (followed n cs, []) := by
  induction cs generalizing n with
  | nil => rfl
  | cons c rest ih =>
    have next : 10 * n + digitValue c < Nat.pow 2 64 := lt_of_le_of_lt (followedMore _ rest) fits
    rw [fill, if_pos next]
    exact ih fits

theorem zeroOfLeading {n : ℕ} (leading : (Nat.toDigits 10 n).head? = some '0') : n = 0 := by
  induction n using Nat.strong_induction_on with
  | _ n ih =>
    rw [Nat.toDigits_eq_if (by decide)] at leading
    split at leading
    case isTrue small =>
      interval_cases n <;> simp_all [Nat.digitChar]
    case isFalse large =>
      rw [List.head?_append_of_ne_nil _ Nat.toDigits_ne_nil] at leading
      have := ih (n / 10) (by omega) leading
      omega

variable (n : ℕ)

theorem digitsOfCount {c : Char} (among : c ∈ Nat.toDigits 10 n) : c.isDigit :=
  Nat.isDigit_of_mem_toDigits (by decide) (by decide) among

theorem followedCount : followed 0 (Nat.toDigits 10 n) = n := by
  refine Eq.trans ?_ (Nat.ofDigitChars_ten_toDigits (n := n))
  rw [followed, Nat.ofDigitChars]
  refine List.foldl_ext _ _ _ fun m c among => ?_
  rw [digitValue, if_pos (digitsOfCount n among)]

theorem piecesOfCount :
    Pieces.read? (Nat.toDigits 10 n) = some ⟨false, Nat.toDigits 10 n, [], 0, true⟩ := by
  have all : (Nat.toDigits 10 n).takeWhile Char.isDigit = Nat.toDigits 10 n :=
    List.takeWhile_eq_self_iff.mpr fun c among => digitsOfCount n among
  have nothing : (Nat.toDigits 10 n).dropWhile Char.isDigit = [] :=
    List.dropWhile_eq_nil_iff.mpr fun c among => digitsOfCount n among
  have unsigned : sign (Nat.toDigits 10 n) = (false, Nat.toDigits 10 n) := by
    unfold sign
    split
    case h_1 digits => exact absurd (digitsOfCount n (digits ▸ List.mem_cons_self)) (by decide)
    case h_2 => rfl
  have short : ¬ ((Nat.toDigits 10 n).isEmpty ||
      (Nat.toDigits 10 n).length > 1 && (Nat.toDigits 10 n).head? == some '0') = true := by
    intro refused
    obtain ⟨long, leading⟩ : 1 < (Nat.toDigits 10 n).length ∧ (Nat.toDigits 10 n).head? = some '0' := by
      simpa using refused
    rw [zeroOfLeading leading] at long
    exact absurd long (by decide)
  rw [Pieces.readSigned, unsigned]
  simp [Pieces.readUnsigned?, all, nothing, short, fraction?, exponent?]

theorem readCount (fits : n < 2 ^ 64) :
    readBounded? (Nat.toDigits 10 n) = some (.decimal false n 0 true) := by
  have value := followedCount n
  have whole : fill 0 (Nat.toDigits 10 n) = (n, []) := by
    rw [fillAll (value.symm ▸ fits), value]
  have digits : ofDigits 10 (Nat.toDigits 10 n) = n := value
  rw [readBounded?, piecesOfCount]
  simp [Pieces.bounded, Pieces.exact, whole, digits]

end Numeral

/-! ### Tokens -/

namespace Json

def Lexer.run (l : Lexer) (cs : List Char) : Option (List Token) := do
  let l ← (← cs.foldlM Lexer.advance l).finish
  return l.tokens.reverse

/- What is read of a text from between two tokens, behind those that were read before. -/
def reads (read : List Token) (cs : List Char) : Option (List Token) := Lexer.run ⟨.between, read, false⟩ cs

/- Neither a word nor a number goes on. -/
def Ends (cs : List Char) : Prop := ∀ c ∈ cs.head?, ¬ c.isAlpha ∧ ¬ isNumeric c

theorem Lexer.runStep {l m : Lexer} {c : Char} {cs : List Char} (step : l.advance c = some m) :
    l.run (c :: cs) = m.run cs := by
  simp [run, step]

theorem Lexer.runEnds {l m : Lexer} {chars cs : List Char}
    (within : l.mode = .word chars ∨ l.mode = .number chars) (finish : l.finish = some m)
    (between : m.mode = .between) (ends : Ends cs) : l.run cs = m.run cs := by
  cases cs with
  | nil =>
    have rests : m.finish = some m := by rw [Lexer.finish, between]
    simp [run, finish, rests]
  | cons c rest =>
    obtain ⟨letter, numeric⟩ := ends c rfl
    have same : l.advance c = m.advance c := by
      rcases within with word | number
      · simp [advance, word, letter, finish, between]
      · simp [advance, number, numeric, finish, between]
    simp [run, same]

variable {read : List Token} {cs : List Char}

theorem readsMark {c : Char} {t : Token} (mark : punctuation? c = some t) :
    reads read (c :: cs) = reads (t :: read) cs := by
  unfold punctuation? at mark
  split at mark <;> cases mark <;> rfl

theorem readsBlank {c : Char} (blank : isBlank c) : reads read (c :: cs) = reads read cs :=
  Lexer.runStep (by simp [Lexer.advance, Lexer.start, blank])

theorem readsNewline (level : ℕ) : reads read (newline level ++ cs) = reads read cs := by
  have spaces (n : ℕ) : reads read (List.replicate n ' ' ++ cs) = reads read cs := by
    induction n with
    | zero => rfl
    | succ n ih => exact (readsBlank rfl).trans ih
  exact (readsBlank rfl).trans (spaces (2 * level))

theorem readsWord {w : List Char} {t : Token} (word : word? w = some t) (ends : Ends cs) :
    reads read (w ++ cs) = reads (t :: read) cs := by
  have goes : reads read (w ++ cs) = Lexer.run ⟨.word w.reverse, read, false⟩ cs := by
    unfold word? at word
    split at word
    case isTrue null => exact null ▸ rfl
    case isFalse =>
      split at word
      case isTrue yes => exact yes ▸ rfl
      case isFalse =>
        split at word
        case isTrue no => exact no ▸ rfl
        case isFalse => cases word
  exact goes.trans (Lexer.runEnds (.inl rfl) (by simp [Lexer.finish, word, Lexer.emit]) rfl ends)

theorem runNumeric {n : List Char} (numeric : ∀ c ∈ n, isNumeric c) (begun : List Char) :
    Lexer.run ⟨.number begun, read, false⟩ (n ++ cs) =
      Lexer.run ⟨.number (n.reverse ++ begun), read, false⟩ cs := by
  induction n generalizing begun with
  | nil => rfl
  | cons c rest ih =>
    obtain ⟨here, later⟩ := List.forall_mem_cons.mp numeric
    refine (Lexer.runStep ?_).trans ((ih later (c :: begun)).trans (by simp))
    exact if_pos here

theorem readsNumber {n : List Char} (number : (Numeral.read? n).isSome) (ends : Ends cs) :
    reads read (n ++ cs) = reads (.number n :: read) cs := by
  have goes : reads read (n ++ cs) = Lexer.run ⟨.number n.reverse, read, false⟩ cs := by
    obtain ⟨p, pieces⟩ := Option.isSome_iff_exists.mp (Option.isSome_map ▸ number)
    obtain ⟨c, rest, rfl, first, numeric⟩ := Numeral.Pieces.readNumeric pieces
    have begins : Lexer.advance ⟨.between, read, false⟩ c = some ⟨.number [c], read, false⟩ := by
      change Lexer.start _ c = _
      have visible : ¬ isBlank c ∧ c ≠ '"' := by
        refine ⟨fun blank => ?_, ?_⟩
        · simp only [isBlank, Bool.or_eq_true, beq_iff_eq, or_assoc] at blank
          rcases blank with rfl | rfl | rfl | rfl <;> cases first
        · rintro rfl
          cases first
      rw [Lexer.start, if_neg visible.1, if_neg visible.2, if_pos first]
    rw [List.reverse_cons]
    exact (Lexer.runStep begins).trans (runNumeric numeric [c])
  exact goes.trans (Lexer.runEnds (.inr rfl) (by simp [Lexer.finish, number, Lexer.emit]) rfl ends)

theorem hexValueDigit (n : ℕ) : hexValue? (hexDigit n) = some (n % 16) := by
  have small : n % 16 < 16 := Nat.mod_lt n (by decide)
  rw [hexDigit]
  generalize n % 16 = d at small
  interval_cases d <;> rfl

theorem readsEscape (s : List Char) (c : Char) :
    Lexer.run ⟨.text s, read, false⟩ (escape c ++ cs) = Lexer.run ⟨.text (c :: s), read, false⟩ cs := by
  rw [escape]
  split_ifs with isQuote isSlash isLine isReturn isTab isBack isFeed control
  · subst isQuote; rfl
  · subst isSlash; rfl
  · subst isLine; rfl
  · subst isReturn; rfl
  · subst isTab; rfl
  · obtain rfl : c = Char.ofNat 8 := Char.toNat_inj.mp isBack
    rfl
  · obtain rfl : c = Char.ofNat 12 := Char.toNat_inj.mp isFeed
    rfl
  · -- two zeros, and the two digits of the code
    have third : Lexer.advance ⟨.code s none 0 2, read, false⟩ (hexDigit (c.toNat / 16)) =
        some ⟨.code s none (c.toNat / 16) 3, read, false⟩ := by
      rw [Lexer.advance]
      dsimp only
      rw [hexValueDigit, Nat.mod_eq_of_lt (by omega)]
      simp
    have last : Lexer.advance ⟨.code s none (c.toNat / 16) 3, read, false⟩ (hexDigit c.toNat) =
        some ⟨.text (c :: s), read, false⟩ := by
      have code : 16 * (c.toNat / 16) + c.toNat % 16 = c.toNat := Nat.div_add_mod _ _
      have single : ¬ 0xD800 ≤ c.toNat ∧ ¬ 0xDC00 ≤ c.toNat := ⟨by omega, by omega⟩
      rw [Lexer.advance]
      dsimp only
      rw [hexValueDigit]
      simp [Lexer.finishCode, code, single]
    exact (Lexer.runStep third).trans (Lexer.runStep last)
  · refine Lexer.runStep ?_
    simp_all [Lexer.advance, Lexer.inText]

theorem runEscaped (s begun : List Char) : Lexer.run ⟨.text begun, read, false⟩ (s.flatMap escape ++ cs) =
    Lexer.run ⟨.text (s.reverse ++ begun), read, false⟩ cs := by
  induction s generalizing begun with
  | nil => rfl
  | cons c rest ih =>
    rw [List.flatMap_cons, List.append_assoc, readsEscape, ih]
    simp

theorem readsQuote (s : String) : reads read (quote s ++ cs) = reads (.text s :: read) cs := by
  have opened : reads read (quote s ++ cs) =
      Lexer.run ⟨.text [], read, false⟩ (s.toList.flatMap escape ++ '"' :: cs) := by
    rw [quote, List.append_assoc]
    rfl
  rw [opened, runEscaped]
  refine Lexer.runStep ?_
  simp [Lexer.advance, Lexer.inText, Lexer.emit]

/-! ### Trees -/

mutual
/- The text of a tree says what the tree is: its numbers are numerals, and none of its texts is torn. -/
def Readable : Json → Prop
  | null | bool _ | text _ => True
  | number cs => (Numeral.read? cs).isSome
  | torn => False
  | list items => ReadableItems items
  | object members => ReadableMembers members

def ReadableItems : List Json → Prop
  | [] => True
  | v :: rest => Readable v ∧ ReadableItems rest

def ReadableMembers : List (String × Json) → Prop
  | [] => True
  | (_, v) :: rest => Readable v ∧ ReadableMembers rest
end

mutual
def lexemes : Json → List Token
  | null => [.null]
  | bool b => [.bool b]
  | number cs => [.number cs]
  | text s => [.text s]
  | torn => [.torn]
  | list [] => [.openList, .closeList]
  | list (v :: rest) => .openList :: lexemes v ++ itemLexemes rest ++ [.closeList]
  | object [] => [.openObject, .closeObject]
  | object ((k, v) :: rest) =>
    .openObject :: .text k :: .colon :: lexemes v ++ memberLexemes rest ++ [.closeObject]

def itemLexemes : List Json → List Token
  | [] => []
  | v :: rest => .comma :: lexemes v ++ itemLexemes rest

def memberLexemes : List (String × Json) → List Token
  | [] => []
  | (k, v) :: rest => .comma :: .text k :: .colon :: lexemes v ++ memberLexemes rest
end

theorem endsOf {c : Char} (other : ¬ c.isAlpha ∧ ¬ isNumeric c) : Ends (c :: cs) := by
  rintro d ⟨⟩
  exact other

theorem endsItems {level : ℕ} {items : List Json} (ends : Ends cs) :
    Ends (prettyItems level items ++ cs) := by
  cases items with
  | nil => exact ends
  | cons v rest => exact endsOf (by decide)

theorem endsMembers {level : ℕ} {members : List (String × Json)} (ends : Ends cs) :
    Ends (prettyMembers level members ++ cs) := by
  cases members with
  | nil => exact ends
  | cons m rest => exact endsOf (by decide)

theorem readsKey {k : String} : reads read (quote k ++ ':' :: ' ' :: cs) =
    reads (.colon :: .text k :: read) cs := by
  rw [readsQuote, readsMark (c := ':') rfl, readsBlank rfl]

mutual
theorem readsTree (level : ℕ) (read : List Token) {cs : List Char} (ends : Ends cs) :
    ∀ v : Json, Readable v → reads read (pretty level v ++ cs) = reads ((lexemes v).reverse ++ read) cs
  | .null, _ => readsWord rfl ends
  | .bool true, _ => readsWord rfl ends
  | .bool false, _ => readsWord rfl ends
  | .number n, readable => by
    rw [pretty, readsNumber (by simpa only [Readable] using readable) ends]
    rfl
  | .text s, _ => readsQuote s
  | .torn, readable => by simp only [Readable] at readable
  | .list [], _ => (readsMark rfl).trans (readsMark rfl)
  | .list (v :: rest), readable => by
    obtain ⟨here, later⟩ : Readable v ∧ ReadableItems rest := by
      simpa only [Readable, ReadableItems] using readable
    have closes : Ends (newline level ++ ']' :: cs) := endsOf (by decide)
    simp only [pretty, List.append_assoc, List.cons_append, List.nil_append]
    rw [readsMark (c := '[') rfl, readsNewline, readsTree (level + 1) _ (endsItems closes) v here,
      readsItems (level + 1) _ closes rest later, readsNewline, readsMark (c := ']') rfl]
    simp [lexemes]
  | .object [], _ => (readsMark rfl).trans (readsMark rfl)
  | .object ((k, v) :: rest), readable => by
    obtain ⟨here, later⟩ : Readable v ∧ ReadableMembers rest := by
      simpa only [Readable, ReadableMembers] using readable
    have closes : Ends (newline level ++ '}' :: cs) := endsOf (by decide)
    simp only [pretty, List.append_assoc, List.cons_append, List.nil_append]
    rw [readsMark (c := '{') rfl, readsNewline, readsKey,
      readsTree (level + 1) _ (endsMembers closes) v here,
      readsMembers (level + 1) _ closes rest later, readsNewline, readsMark (c := '}') rfl]
    simp [lexemes]

theorem readsItems (level : ℕ) (read : List Token) {cs : List Char} (ends : Ends cs) :
    ∀ items : List Json, ReadableItems items →
      reads read (prettyItems level items ++ cs) = reads ((itemLexemes items).reverse ++ read) cs
  | [], _ => rfl
  | v :: rest, readable => by
    obtain ⟨here, later⟩ : Readable v ∧ ReadableItems rest := by
      simpa only [ReadableItems] using readable
    simp only [prettyItems, List.append_assoc, List.cons_append]
    rw [readsMark (c := ',') rfl, readsNewline, readsTree level _ (endsItems ends) v here,
      readsItems level _ ends rest later]
    simp [itemLexemes]

theorem readsMembers (level : ℕ) (read : List Token) {cs : List Char} (ends : Ends cs) :
    ∀ members : List (String × Json), ReadableMembers members →
      reads read (prettyMembers level members ++ cs) = reads ((memberLexemes members).reverse ++ read) cs
  | [], _ => rfl
  | (k, v) :: rest, readable => by
    obtain ⟨here, later⟩ : Readable v ∧ ReadableMembers rest := by
      simpa only [ReadableMembers] using readable
    simp only [prettyMembers, List.append_assoc, List.cons_append, List.nil_append]
    rw [readsMark (c := ',') rfl, readsNewline, readsKey, readsTree level _ (endsMembers ends) v here,
      readsMembers level _ ends rest later]
    simp [memberLexemes]
end

namespace Builder

def run (b : Builder) (ts : List Token) : Option Builder := ts.foldlM advance b

variable {b next : Builder} {stack : List Frame} {ts : List Token}

theorem runStep {t : Token} (step : b.advance t = some next) : b.run (t :: ts) = next.run ts := by
  simp [run, step]

/- Where the first item may stand, a tree is read as elsewhere; it does not begin with the end of a list. -/
theorem runFirst (v : Json) : run ⟨.first, stack⟩ (lexemes v ++ ts) = run ⟨.value, stack⟩ (lexemes v ++ ts) := by
  cases v with
  | list items => cases items <;> rfl
  | object members => cases members <;> rfl
  | _ => rfl

def named (members : List (String × Json)) : List (Option String × Json) :=
  members.map fun m => (some m.1, m.2)

theorem objectNamed (members : List (String × Json)) : object (named members) = .object members := by
  have all : (named members).mapM (fun m => m.1.map (·, m.2)) = some members := by
    induction members with
    | nil => rfl
    | cons m rest ih => simp_all [named]
  rw [object, all]
  rfl

mutual
theorem runTree (stack : List Frame) (ts : List Token) :
    ∀ v : Json, run ⟨.value, stack⟩ (lexemes v ++ ts) = (deliver v stack).bind (run · ts)
  | .null | .bool _ | .number _ | .text _ | .torn | .list [] | .object [] => rfl
  | .list (v :: rest) => by
    simp only [lexemes, List.append_assoc, List.cons_append, List.nil_append]
    rw [runStep (t := .openList) rfl, runFirst, runTree _ _ v]
    refine (runItems stack _ [v] rest).trans ?_
    rw [← List.reverse_cons]
    change (deliver (.list (v :: rest).reverse.reverse) stack).bind _ = _
    rw [List.reverse_reverse]
    rfl
  | .object ((k, v) :: rest) => by
    simp only [lexemes, List.append_assoc, List.cons_append, List.nil_append]
    rw [runStep (t := .openObject) rfl, runStep (t := .text k) rfl, runStep (t := .colon) rfl,
      runTree _ _ v]
    refine (runMembers stack _ [(some k, v)] rest).trans ?_
    rw [← List.reverse_cons]
    change (deliver (object (named ((k, v) :: rest)).reverse.reverse) stack).bind _ = _
    rw [List.reverse_reverse, objectNamed]
    rfl

theorem runItems (stack : List Frame) (ts : List Token) (before : List Json) :
    ∀ items : List Json, run ⟨.next, .list before :: stack⟩ (itemLexemes items ++ ts) =
      run ⟨.next, .list (items.reverse ++ before) :: stack⟩ ts
  | [] => rfl
  | v :: rest => by
    simp only [itemLexemes, List.append_assoc, List.cons_append]
    rw [runStep (t := .comma) rfl, runTree _ _ v]
    refine (runItems stack ts (v :: before) rest).trans ?_
    rw [List.reverse_cons, List.append_assoc]
    rfl

theorem runMembers (stack : List Frame) (ts : List Token) (before : List (Option String × Json)) :
    ∀ members : List (String × Json),
      run ⟨.next, .object before :: stack⟩ (memberLexemes members ++ ts) =
        run ⟨.next, .object ((named members).reverse ++ before) :: stack⟩ ts
  | [] => rfl
  | (k, v) :: rest => by
    simp only [memberLexemes, List.append_assoc, List.cons_append]
    rw [runStep (t := .comma) rfl, runStep (t := .text k) rfl, runStep (t := .colon) rfl, runTree _ _ v]
    refine (runMembers stack ts ((some k, v) :: before) rest).trans ?_
    have later : named ((k, v) :: rest) = (some k, v) :: named rest := rfl
    rw [later, List.reverse_cons, List.append_assoc]
    rfl
end

end Builder

theorem parsePretty {v : Json} (readable : Readable v) : parse? v.toPretty = some v := by
  have tokens : tokens? (pretty 0 v) = some (lexemes v) := by
    have nothing : Ends [] := nofun
    have read := readsTree 0 [] nothing v readable
    rw [List.append_nil, List.append_nil] at read
    exact read.trans (by simp [reads, Lexer.run, Lexer.finish])
  have built : (lexemes v).foldlM Builder.advance {} = some ⟨.done v, []⟩ := by
    have run := Builder.runTree [] [] v
    rwa [List.append_nil] at run
  rw [parse?, toPretty, String.toList_ofList, tokens]
  simp [ofTokens?, built]

end Json
end ParamFit
