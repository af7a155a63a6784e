import ParamFit.Text.Document

/-!
TOML documents. A text is a list of lines that set keys or open a section; the reader takes one
line at a time and inserts what it sets into a tree of tables. A table can be opened once; dotted
keys and deeper headers create tables on their way, which only the like of them may extend. Brackets
and keys may not go too deep. Each reader takes the characters that are left and gives back what it
did not use.
-/
namespace ParamFit.Toml

/-! ### Characters and keys -/

abbrev Chars := List Char

def isBlank (c : Char) : Bool := c == ' ' || c == '\t'

def isPlain (c : Char) : Bool := c == '\t' || (32 ≤ c.toNat && c.toNat != 127)

def isBare (c : Char) : Bool := c.isAlphanum || c == '-' || c == '_'

def skipBlanks (cs : Chars) : Chars := cs.dropWhile isBlank

def lineBreak? : Chars → Option Chars
  | '\n' :: rest => some rest
  | '\r' :: '\n' :: rest => some rest
  | _ => none

def skipComment : Chars → Chars
  | '#' :: rest => rest.dropWhile isPlain
  | cs => cs

def endLine? (cs : Chars) : Option Chars :=
  match skipComment (skipBlanks cs) with
  | [] => some []
  | cs => lineBreak? cs

def skipLines (cs : Chars) : Nat → Chars
  | 0 => cs
  | fuel + 1 =>
    let cs := skipComment (skipBlanks cs)
    match lineBreak? cs with
    | some rest => skipLines rest fuel
    | none => cs

def codePoint? (ds : Chars) : Option Char :=
  if ds.all fun c => (Json.hexValue? c).isSome then
    let n := Numeral.ofDigits 16 ds
    if n < 0xD800 ∨ (0xE000 ≤ n ∧ n < 0x110000) then some (Char.ofNat n) else none
  else none

def escape? : Chars → Option (Char × Chars)
  | 'b' :: rest => some (Char.ofNat 8, rest)
  | 't' :: rest => some ('\t', rest)
  | 'n' :: rest => some ('\n', rest)
  | 'f' :: rest => some (Char.ofNat 12, rest)
  | 'r' :: rest => some ('\r', rest)
  | '"' :: rest => some ('"', rest)
  | '\\' :: rest => some ('\\', rest)
  | 'u' :: rest =>
    if rest.length < 4 then none else (codePoint? (rest.take 4)).map (·, rest.drop 4)
  | 'U' :: rest =>
    if rest.length < 8 then none else (codePoint? (rest.take 8)).map (·, rest.drop 8)
  | _ => none

def basic? (read cs : Chars) : Nat → Option (String × Chars)
  | 0 => none
  | fuel + 1 =>
    match cs with
    | '"' :: rest => some (String.ofList read.reverse, rest)
    | '\\' :: rest => (escape? rest).bind fun (c, rest) => basic? (c :: read) rest fuel
    | c :: rest => if isPlain c then basic? (c :: read) rest fuel else none
    | [] => none

def literal? (cs : Chars) : Option (String × Chars) :=
  let inner := cs.takeWhile fun c => isPlain c && c != '\''
  match cs.drop inner.length with
  | '\'' :: rest => some (String.ofList inner, rest)
  | _ => none

def skipBlankLines : Chars → Chars
  | [] => []
  | '\r' :: '\n' :: rest => skipBlankLines rest
  | c :: rest => if isBlank c || c == '\n' then skipBlankLines rest else c :: rest

def foldedLine? (cs : Chars) : Option Chars := (lineBreak? (skipBlanks cs)).map skipBlankLines

def lines? (quote : Char) (read cs : Chars) : Nat → Option (String × Chars)
  | 0 => none
  | fuel + 1 =>
    let finish (extra : Nat) (rest : Chars) :=
      some (String.ofList (List.replicate extra quote ++ read).reverse, rest)
    let quotes := (cs.takeWhile (· == quote)).length
    if 3 ≤ quotes then
      let extra := min (quotes - 3) 2
      finish extra (cs.drop (extra + 3))
    else
      match lineBreak? cs, cs with
      | some rest, _ => lines? quote ('\n' :: read) rest fuel
      | none, '\\' :: rest =>
        if quote == '\'' then lines? quote ('\\' :: read) rest fuel
        else
          match foldedLine? rest with
          | some rest => lines? quote read rest fuel
          | none => (escape? rest).bind fun (c, rest) => lines? quote (c :: read) rest fuel
      | none, c :: rest => if isPlain c then lines? quote (c :: read) rest fuel else none
      | none, [] => none

def afterOpening (cs : Chars) : Chars := (lineBreak? cs).getD cs

def text? (cs : Chars) : Option (String × Chars) :=
  match cs with
  | '"' :: '"' :: '"' :: rest => lines? '"' [] (afterOpening rest) (cs.length + 1)
  | '\'' :: '\'' :: '\'' :: rest => lines? '\'' [] (afterOpening rest) (cs.length + 1)
  | '"' :: rest => basic? [] rest (cs.length + 1)
  | '\'' :: rest => literal? rest
  | _ => none

def keyPart? (cs : Chars) : Option (String × Chars) :=
  match cs with
  | '"' :: rest => basic? [] rest (cs.length + 1)
  | '\'' :: rest => literal? rest
  | _ =>
    let bare := cs.takeWhile isBare
    if bare.isEmpty then none else some (String.ofList bare, cs.drop bare.length)

def tooDeep : Nat := 80

def parts? (cs : Chars) : Nat → Option (List String × Chars)
  | 0 => none
  | count + 1 => do
    let (part, rest) ← keyPart? (skipBlanks cs)
    match skipBlanks rest with
    | '.' :: rest => do
      let (parts, rest) ← parts? rest count
      return (part :: parts, rest)
    | rest => return ([part], rest)

def key? (cs : Chars) : Option (List String × Chars) := parts? cs (tooDeep - 1)

/-! ### Numbers and moments -/

def joined? : Chars → Option Chars
  | [] => some []
  | c :: '_' :: d :: rest =>
    if c.isAlphanum && d.isAlphanum then (joined? (d :: rest)).map (c :: ·) else none
  | c :: rest => if c == '_' then none else (joined? rest).map (c :: ·)

def largest : Nat := Nat.pow 2 63 - 1

def based? (base : Nat) (digits : Chars) : Option Numeral := do
  let ds ← joined? digits
  if ds.isEmpty then none
  if ds.all fun c => ((Json.hexValue? c).getD 16) < base then
    let n := Numeral.ofDigits base ds
    if n ≤ largest then some (.decimal false n 0 true) else none
  else none

def separated : Chars → Bool
  | c :: '_' :: d :: rest => c.isDigit && d.isDigit && separated (d :: rest)
  | [_, '_'] => false
  | _ :: rest => separated rest
  | [] => true

/- Decimals from here on have no double precision number near them: halfway from the largest one
to the next power of two. -/
def beyondLargest : Nat := (Nat.pow 2 54 - 1) * Nat.pow 2 970

def overflows (digits : Nat) (exponent : Int) : Bool :=
  let magnitude := exponent + (Nat.toDigits 10 digits).length
  if digits = 0 ∨ magnitude < 300 then false
  else if 400 < magnitude then true
  else if 0 ≤ exponent then beyondLargest ≤ digits * Nat.pow 10 exponent.toNat
  else beyondLargest ≤ digits / Nat.pow 10 (-exponent).toNat

/- A number to the base ten. One that is too large is refused, and one too far below zero counts
as infinite. -/
def decimal? (cs : Chars) : Option Numeral := do
  let (negative, body) := match cs with
    | '-' :: r => (true, r)
    | '+' :: r => (false, r)
    | r => (false, r)
  if !(separated body) || body.head? == some '_' || body.head? == some '-' then none
  match ← Numeral.read? (body.filter (· != '_')) with
  | .decimal _ digits exponent true =>
    if digits ≤ largest + (if negative then 1 else 0) then
      some (.decimal (negative && digits != 0) digits exponent true)
    else none
  | .decimal _ digits exponent false =>
    if !(overflows digits exponent) then some (.decimal negative digits exponent false)
    else if negative then some (.infinite true)
    else none
  | n => some n

def twoDigits? (bound : Nat) : Chars → Option (Nat × Chars)
  | a :: b :: rest =>
    let n := Numeral.ofDigits 10 [a, b]
    if a.isDigit && b.isDigit && n ≤ bound then some (n, rest) else none
  | _ => none

def daysIn (year month : Nat) : Nat :=
  if month = 2 then
    if (year % 4 = 0 ∧ year % 100 ≠ 0) ∨ year % 400 = 0 then 29 else 28
  else if month = 4 ∨ month = 6 ∨ month = 9 ∨ month = 11 then 30 else 31

def date? (cs : Chars) : Option Chars := do
  let year := cs.take 4
  if year.length < 4 || !(year.all Char.isDigit) then none
  let '-' :: rest := cs.drop 4 | none
  let (month, rest) ← twoDigits? 12 rest
  let '-' :: rest := rest | none
  let (day, rest) ← twoDigits? 31 rest
  if month = 0 ∨ day = 0 ∨ daysIn (Numeral.ofDigits 10 year) month < day then none else some rest

def time? (cs : Chars) : Option Chars := do
  let (_, rest) ← twoDigits? 23 cs
  let ':' :: rest := rest | none
  let (_, rest) ← twoDigits? 59 rest
  let ':' :: rest := rest | none
  let (_, rest) ← twoDigits? 60 rest
  match rest with
  | '.' :: rest =>
    if (rest.takeWhile Char.isDigit).isEmpty then none else some (rest.dropWhile Char.isDigit)
  | rest => some rest

def isOffset (cs : Chars) : Bool :=
  match cs with
  | [] | ['Z'] | ['z'] => true
  | c :: rest =>
    (c == '+' || c == '-') &&
      match twoDigits? 23 rest with
      | some (_, ':' :: rest) => (twoDigits? 59 rest).any (·.2.isEmpty)
      | _ => false

def isMoment (cs : Chars) : Bool :=
  match date? cs with
  | some [] => true
  | some (c :: rest) =>
    (c == 'T' || c == 't' || c == ' ') && (time? rest).any isOffset
  | none => time? cs == some []

def word? (cs : Chars) : Option Document :=
  match String.ofList cs with
  | "true" => some (.bool true)
  | "false" => some (.bool false)
  | "inf" | "+inf" => some (.number (.infinite false))
  | "-inf" => some (.number (.infinite true))
  | "nan" | "+nan" | "-nan" => some (.number .undefined)
  | _ =>
    match cs with
    | '0' :: 'x' :: ds => (based? 16 ds).map .number
    | '0' :: 'o' :: ds => (based? 8 ds).map .number
    | '0' :: 'b' :: ds => (based? 2 ds).map .number
    | _ => ((decimal? cs).map .number).or (if isMoment cs then some .moment else none)

def isWordChar (c : Char) : Bool := isBare c || c == '+' || c == '.' || c == ':'

def splitWord (cs : Chars) : Chars × Chars :=
  let word := cs.takeWhile isWordChar
  let rest := cs.drop word.length
  match rest with
  | ' ' :: d :: _ =>
    if date? word == some [] && d.isDigit then
      let time := (rest.drop 1).takeWhile isWordChar
      (word ++ ' ' :: time, rest.drop (time.length + 1))
    else (word, rest)
  | _ => (word, rest)

/-! ### The tree of tables -/

/- What a key holds: a value; a table, which headers or dotted keys may have created on their way;
or a list of tables, the last one first. -/
inductive Node where
  | value (d : Document)
  | table (implicit dotted : Bool) (members : List (String × Node))
  | tables (items : List (List (String × Node)))
  deriving Inhabited

abbrev Members := List (String × Node)

def replace (k : String) (n : Node) : Members → Members
  | [] => [(k, n)]
  | (j, m) :: rest => if j == k then (k, n) :: rest else (j, m) :: replace k n rest

/- Change the table at a path, creating tables on the way. Dotted keys end in tables that dotted
keys made, and pass through none that a header opened. -/
def descend (dotted : Bool) (f : Members → Option Members) : List String → Members → Option Members
  | [], ms => f ms
  | k :: rest, ms =>
    match ms.lookup k with
    | none => do return replace k (.table true dotted (← descend dotted f rest [])) ms
    | some (.table implicit wasDotted inner) =>
      if dotted && (!implicit || (rest.isEmpty && !wasDotted)) then none
      else do return replace k (.table implicit wasDotted (← descend dotted f rest inner)) ms
    | some (.tables (last :: older)) =>
      if dotted && rest.isEmpty then none
      else do return replace k (.tables ((← descend dotted f rest last) :: older)) ms
    | some _ => none

def insertNew (k : String) (n : Node) (ms : Members) : Option Members :=
  if (ms.lookup k).isSome then none else some (ms ++ [(k, n)])

def assign (path : List String) (d : Document) (ms : Members) : Option Members :=
  match path.getLast? with
  | some k => descend true (insertNew k (.value d)) path.dropLast ms
  | none => none

/- Open the table at a path: a new one, or one that only deeper headers have created. -/
def openTable (path : List String) (ms : Members) : Option Members :=
  path.getLast?.bind fun k =>
    descend false (fun ms =>
      match ms.lookup k with
      | none => some (ms ++ [(k, .table false false [])])
      | some (.table true false inner) => some (replace k (.table false false inner) ms)
      | some _ => none) path.dropLast ms

def openItem (path : List String) (ms : Members) : Option Members :=
  path.getLast?.bind fun k =>
    descend false (fun ms =>
      match ms.lookup k with
      | none => some (ms ++ [(k, .tables [[]])])
      | some (.tables items) => some (replace k (.tables ([] :: items)) ms)
      | some _ => none) path.dropLast ms

mutual
def Node.document : Node → Document
  | .value d => d
  | .table _ _ ms => .table (documents ms)
  | .tables items => .list (tableDocuments items).reverse

def documents : List (String × Node) → List (String × Document)
  | [] => []
  | (k, n) :: rest => (k, n.document) :: documents rest

def tableDocuments : List (List (String × Node)) → List Document
  | [] => []
  | ms :: rest => .table (documents ms) :: tableDocuments rest
end

/-! ### Values -/

mutual
def value? (depth : Nat) (cs : Chars) : Nat → Option (Document × Chars)
  | 0 => none
  | fuel + 1 =>
    match cs with
    | '[' :: rest =>
      if tooDeep ≤ depth + 1 then none
      else (items? (depth + 1) [] rest fuel).map fun (l, rest) => (.list l, rest)
    | '{' :: rest =>
      if tooDeep ≤ depth + 1 then none
      else
        match skipBlanks rest with
        | '}' :: rest => some (.table [], rest)
        | rest =>
          (members? (depth + 1) [] rest fuel).map fun (ms, rest) => (.table (documents ms), rest)
    | '"' :: _ | '\'' :: _ => (text? cs).map fun (s, rest) => (.text s, rest)
    | _ =>
      let (word, rest) := splitWord cs
      (word? word).map (·, rest)

def items? (depth : Nat) (read : List Document) (cs : Chars) :
    Nat → Option (List Document × Chars)
  | 0 => none
  | fuel + 1 =>
    match skipLines cs (cs.length + 1) with
    | ']' :: rest => some (read.reverse, rest)
    | cs => do
      let (d, rest) ← value? depth cs fuel
      match skipLines rest (rest.length + 1) with
      | ',' :: rest => items? depth (d :: read) rest fuel
      | ']' :: rest => some ((d :: read).reverse, rest)
      | _ => none

def members? (depth : Nat) (read : Members) (cs : Chars) : Nat → Option (Members × Chars)
  | 0 => none
  | fuel + 1 => do
    let (path, rest) ← key? cs
    let '=' :: rest := rest | none
    let (d, rest) ← value? depth (skipBlanks rest) fuel
    let read ← assign path d read
    match skipBlanks rest with
    | ',' :: rest => members? depth read rest fuel
    | '}' :: rest => some (read, rest)
    | _ => none
end

/-! ### Lines -/

structure Reading where
  root : Members := []
  path : List String := []

/- Set a key of the section that is open. A section inside a list is its last table. -/
def Reading.assign (r : Reading) (key : List String) (d : Document) : Option Reading := do
  let root ← descend false (Toml.assign key d) r.path r.root
  return { r with root }

def Reading.line (r : Reading) (cs : Chars) : Option (Reading × Chars) := do
  match skipBlanks cs with
  | '[' :: '[' :: rest =>
    let (path, rest) ← key? rest
    let ']' :: ']' :: rest := rest | none
    return (⟨← openItem path r.root, path⟩, ← endLine? rest)
  | '[' :: rest =>
    let (path, rest) ← key? rest
    let ']' :: rest := rest | none
    return (⟨← openTable path r.root, path⟩, ← endLine? rest)
  | cs =>
    match endLine? cs with
    | some rest => return (r, rest)
    | none =>
      let (path, rest) ← key? cs
      let '=' :: rest := rest | none
      let (d, rest) ← value? 0 (skipBlanks rest) (rest.length + 1)
      return (← r.assign path d, ← endLine? rest)

def Reading.lines (r : Reading) (cs : Chars) : Nat → Option Reading
  | 0 => if cs.isEmpty then some r else none
  | fuel + 1 =>
    if cs.isEmpty then some r
    else (r.line cs).bind fun (r, rest) => r.lines rest fuel

def parse? (s : String) : Option Document :=
  let cs := match s.toList with
    | c :: rest => if c.toNat = 0xFEFF then rest else c :: rest
    | [] => []
  (Reading.lines {} cs (cs.length + 1)).map fun r => .table (documents r.root)

end ParamFit.Toml
