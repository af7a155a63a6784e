import ParamFit.Config.Notation
import ParamFit.Exact
import ParamFit.Proofs.Declaring
import ParamFit.Proofs.Spelling

/-! The text of a setup, read again. Numbers that are not finite have no numeral and are written as nothing.
For a limit this says that there is none; for an error it is no answer, and the setup is not read at all.
The rules of a setup ask for finite values and for finite errors of what varies, but not for finite limits
or for the error of a constant; so a setup that breaks no rule may come back without some of its limits, or
not come back. -/
namespace ParamFit
variable {α : Type} [Scalar α]

/-! ### What is finite -/

def finite? (x : α) : Option α := if Scalar.isFinite x then some x else none

theorem finiteKept {x : Option α} {y : α} (here : x.bind finite? = some y) : x = some y := by
  obtain ⟨z, rfl, same⟩ := Option.bind_eq_some_iff.mp here
  rw [finite?] at same
  split at same
  case isTrue => exact same
  case isFalse => cases same

theorem finiteSame {x : Option α} : x.bind finite? = x ↔ ∀ y ∈ x, Scalar.isFinite y := by
  cases x with
  | none => exact iff_of_true rfl nofun
  | some y => simp [finite?]

namespace Declaration
variable {d : Declaration α}

/- What its text says of a declaration: it has the limits that are finite. -/
def bounded (d : Declaration α) : Declaration α :=
  { d with lower := d.lower.bind finite?, upper := d.upper.bind finite? }

theorem valueFinite (valid : d.violations = []) : Scalar.isFinite d.value := by
  simp only [violations, List.append_eq_nil_iff] at valid
  obtain ⟨⟨⟨⟨_, value⟩, _⟩, _⟩, _⟩ := valid
  split at value
  case isTrue finite => exact finite
  case isFalse => cases value

theorem errorFinite (valid : d.violations = []) (varied : ¬ d.constant) : Scalar.isFinite d.error := by
  simp only [violations, List.append_eq_nil_iff] at valid
  obtain ⟨⟨⟨_, error⟩, _⟩, _⟩ := valid
  split at error
  case isTrue => cases error
  case isFalse fine => simp_all

theorem boundedValid (valid : d.violations = []) : d.bounded.violations = [] := by
  simp only [violations, List.append_eq_nil_iff] at valid ⊢
  obtain ⟨⟨own, apart⟩, unlimited⟩ := valid
  refine ⟨⟨own, ?_⟩, ?_⟩
  · split
    case h_1 lo hi lower upper =>
      rw [finiteKept lower, finiteKept upper] at apart
      exact apart
    case h_2 => rfl
  · split at unlimited
    case isTrue => cases unlimited
    case isFalse none =>
      refine if_neg fun limited => none ?_
      have kept {x : Option α} (given : (x.bind finite?).isSome) : x.isSome :=
        Option.isSome_of_isSome_bind given
      simp only [bounded, Bool.and_eq_true, Bool.or_eq_true] at limited ⊢
      exact ⟨limited.1, limited.2.imp kept kept⟩

theorem boundedSame :
    d.bounded = d ↔ (∀ x ∈ d.lower, Scalar.isFinite x) ∧ ∀ x ∈ d.upper, Scalar.isFinite x := by
  rw [← finiteSame, ← finiteSame]
  constructor
  · exact fun same => ⟨congrArg lower same, congrArg upper same⟩
  · rintro ⟨lower, upper⟩
    rw [bounded, lower, upper]

end Declaration

namespace Setup

/- The setup without the limits that are infinite. -/
def bounded (s : Setup α) : Setup α := { s with parameters := s.parameters.map Declaration.bounded }

theorem declarationsBounded {ds : List (Declaration α)} {seen : List String}
    (valid : declarationViolations seen ds = []) :
    declarationViolations seen (ds.map Declaration.bounded) = [] := by
  induction ds generalizing seen with
  | nil => rfl
  | cons d rest ih =>
    simp only [declarationViolations, List.append_eq_nil_iff] at valid
    obtain ⟨⟨own, fresh⟩, later⟩ := valid
    simp only [List.map_cons, declarationViolations, List.append_eq_nil_iff]
    exact ⟨⟨d.boundedValid own, fresh⟩, ih later⟩

theorem boundedValid {s : Setup α} (valid : s.violations = []) : s.bounded.violations = [] := by
  obtain ⟨settings, declarations⟩ := List.append_eq_nil_iff.mp valid
  exact List.append_eq_nil_iff.mpr ⟨settings, declarationsBounded declarations⟩

theorem boundedSame {s : Setup α} : s.bounded = s ↔ ∀ d ∈ s.parameters,
    (∀ x ∈ d.lower, Scalar.isFinite x) ∧ ∀ x ∈ d.upper, Scalar.isFinite x := by
  have each : s.bounded = s ↔ s.parameters.map Declaration.bounded = s.parameters.map id := by
    rw [List.map_id]
    constructor
    · exact congrArg parameters
    · intro same
      rw [bounded, same]
  rw [each, List.map_inj_left]
  exact forall₂_congr fun d _ => d.boundedSame

end Setup

theorem Settings.strategyLow {s : Settings α} (valid : s.violations = []) : s.strategy ≤ 2 := by
  simp only [violations, List.append_eq_nil_iff] at valid
  obtain ⟨⟨⟨strategy, _⟩, _⟩, _⟩ := valid
  split at strategy
  case isTrue => cases strategy
  case isFalse low => exact not_lt.mp low

theorem Settings.positiveFinite {x : α} (positive : isPositive x) : Scalar.isFinite x :=
  (Bool.and_eq_true_iff.mp positive).1

variable [NumberText α]

/-! ### Numbers -/

def ReadsBack (x : α) : Prop := (Numeral.readBounded? (NumberText.text x)).bind Numeral.toScalar? = some x

/- Those among the numbers that are finite have numerals that read back. -/
def Legible (xs : List α) : Prop := ∀ x ∈ xs, Scalar.isFinite x → ReadsBack x

theorem readableNumeral {cs : List Char} {n : Numeral} (bounded : Numeral.readBounded? cs = some n) :
    (Json.number cs).Readable := by
  obtain ⟨p, pieces, -⟩ := Option.map_eq_some_iff.mp bounded
  simp [Json.Readable, Numeral.read?, pieces]

theorem numberReadable {x : α} (legible : Scalar.isFinite x → ReadsBack x) : (numberJson x).Readable := by
  rw [numberJson]
  split
  case isTrue finite =>
    obtain ⟨n, bounded, -⟩ := Option.bind_eq_some_iff.mp (legible finite)
    exact readableNumeral bounded
  case isFalse => simp only [Json.Readable]

theorem optionReadable {x : Option α} (legible : ∀ y ∈ x, Scalar.isFinite y → ReadsBack y) :
    (optionJson x).Readable := by
  cases x with
  | none => simp only [optionJson, Option.map_none, Option.getD_none, Json.Readable]
  | some y => exact numberReadable (legible y rfl)

/- A number in a document: one that is not finite is missing there. -/
theorem numberDocument {x : α} (legible : Scalar.isFinite x → ReadsBack x) :
    ∃ v, Document.ofJson? (numberJson x) = some v ∧ v.scalar? = finite? x ∧
      v.scalarOrNull? = some (finite? x) := by
  rw [numberJson, finite?]
  split
  case isTrue finite =>
    obtain ⟨n, bounded, value⟩ := Option.bind_eq_some_iff.mp (legible finite)
    exact ⟨.number n, by simp [Document.ofJson?, bounded], by simp [Document.scalar?, value],
      by simp [Document.scalarOrNull?, value]⟩
  case isFalse => exact ⟨.null, by simp [Document.ofJson?], rfl, rfl⟩

theorem optionDocument {x : Option α} (legible : ∀ y ∈ x, Scalar.isFinite y → ReadsBack y) :
    ∃ v, Document.ofJson? (optionJson x) = some v ∧ v.scalarOrNull? = some (x.bind finite?) := by
  cases x with
  | none => exact ⟨.null, by simp [optionJson, Document.ofJson?], rfl⟩
  | some y =>
    obtain ⟨v, document, -, value⟩ := numberDocument (legible y rfl)
    exact ⟨v, document, value⟩

/-! ### Declarations -/

namespace Declaration

def numbers (d : Declaration α) : List α := [d.value, d.error] ++ d.lower.toList ++ d.upper.toList

theorem readable {d : Declaration α} (legible : Legible d.numbers) : d.toJson.Readable := by
  have value := numberReadable (legible d.value (by simp [numbers]))
  have error := numberReadable (legible d.error (by simp [numbers]))
  have lower := optionReadable (x := d.lower) fun y here => legible y (by simp_all [numbers])
  have upper := optionReadable (x := d.upper) fun y here => legible y (by simp_all [numbers])
  simp [toJson, Json.Readable, Json.ReadableMembers, value, error, lower, upper]

theorem document {d : Declaration α} (legible : Legible d.numbers) (value : Scalar.isFinite d.value) :
    ∃ v, Document.ofJson? d.toJson = some v ∧
      ofDocument? true v = if Scalar.isFinite d.error then some d.bounded else none := by
  obtain ⟨x, ofX, readX, -⟩ := numberDocument (legible d.value (by simp [numbers]))
  obtain ⟨e, ofE, readE, -⟩ := numberDocument (legible d.error (by simp [numbers]))
  obtain ⟨lo, ofLo, readLo⟩ := optionDocument (x := d.lower) fun y here =>
    legible y (by simp_all [numbers])
  obtain ⟨hi, ofHi, readHi⟩ := optionDocument (x := d.upper) fun y here =>
    legible y (by simp_all [numbers])
  refine ⟨.table [("name", .text d.name), ("value", x), ("error", e), ("lower", lo), ("upper", hi),
    ("fixed", .bool d.fixed), ("constant", .bool d.constant)], ?_, ?_⟩
  · simp [toJson, Document.ofJson?, Document.ofMembers?, ofX, ofE, ofLo, ofHi]
  · have read : ofDocument? true (.table [("name", .text d.name), ("value", x), ("error", e),
        ("lower", lo), ("upper", hi), ("fixed", .bool d.fixed), ("constant", .bool d.constant)]) =
        (finite? d.error).bind fun error => some { d.bounded with error } := by
      have readX := readX.trans (if_pos value)
      simp [ofDocument?, Document.fits, Document.required, Document.optional, Document.member?,
        Document.text?, Document.bool?, readX, readE, readLo, readHi, bounded]
    rw [read, finite?]
    split <;> rfl

end Declaration

theorem declarationsReadable {ds : List (Declaration α)} (legible : ∀ d ∈ ds, Legible d.numbers) :
    Json.ReadableItems (ds.map Declaration.toJson) := by
  induction ds with
  | nil => simp only [List.map_nil, Json.ReadableItems]
  | cons d rest ih =>
    obtain ⟨here, later⟩ := List.forall_mem_cons.mp legible
    simp only [List.map_cons, Json.ReadableItems]
    exact ⟨d.readable here, ih later⟩

theorem declarationsDocument {ds : List (Declaration α)} (legible : ∀ d ∈ ds, Legible d.numbers)
    (values : ∀ d ∈ ds, Scalar.isFinite d.value) :
    ∃ vs, Document.ofItems? (ds.map Declaration.toJson) = some vs ∧
      vs.mapM (Declaration.ofDocument? true) =
        if ∀ d ∈ ds, Scalar.isFinite d.error then some (ds.map Declaration.bounded) else none := by
  induction ds with
  | nil => exact ⟨[], rfl, by simp⟩
  | cons d rest ih =>
    obtain ⟨v, document, read⟩ := d.document (legible d List.mem_cons_self) (values d List.mem_cons_self)
    obtain ⟨vs, documents, reads⟩ := ih (fun e among => legible e (List.mem_cons_of_mem d among))
      fun e among => values e (List.mem_cons_of_mem d among)
    refine ⟨v :: vs, by simp [Document.ofItems?, document, documents], ?_⟩
    rw [List.mapM_cons, read, reads]
    have all : (∀ e ∈ d :: rest, Scalar.isFinite e.error) ↔
        Scalar.isFinite d.error ∧ ∀ e ∈ rest, Scalar.isFinite e.error := List.forall_mem_cons
    by_cases here : Scalar.isFinite d.error
    · by_cases later : ∀ e ∈ rest, Scalar.isFinite e.error
      · rw [if_pos here, if_pos later, if_pos (all.mpr ⟨here, later⟩)]
        rfl
      · rw [if_pos here, if_neg later, if_neg fun both => later (all.mp both).2]
        rfl
    · rw [if_neg here, if_neg fun both => here (all.mp both).1]
      rfl

/-! ### Settings -/

namespace Settings

def numbers (s : Settings α) : List α := [s.tolerance, s.errorDef] ++ s.precision.toList

theorem countDocument {n bound : ℕ} (fits : n ≤ bound) (word : bound < 2 ^ 64) :
    ∃ v, Document.ofJson? (countJson n) = some v ∧ v.count? bound = some n := by
  refine ⟨.number (.decimal false n 0 true), ?_, ?_⟩
  · simp [countJson, Document.ofJson?, Numeral.readCount n (lt_of_le_of_lt fits word)]
  · simp [Document.count?, Numeral.toCount?, fits]

theorem document {s : Settings α} (legible : Legible s.numbers) (valid : s.violations = [])
    (counts : Count.fits s.maxCalls)
    (small : ∀ eps : α, 0 < eps → eps < 1 → Scalar.isFinite eps) :
    ∃ v, Document.ofJson? s.toJson = some v ∧ ofDocument? true v = some s := by
  have rules := valid
  simp only [violations, List.append_eq_nil_iff] at rules
  obtain ⟨⟨⟨_, tolerance⟩, errorDef⟩, precision⟩ := rules
  have level : s.strategy ≤ Nat.pow 2 32 - 1 := le_trans (strategyLow valid) (by decide)
  have budget : s.maxCalls ≤ Nat.pow 2 64 - 1 := Nat.le_sub_one_of_lt (of_decide_eq_true counts)
  obtain ⟨n, ofN, readN⟩ := countDocument level (by decide)
  obtain ⟨m, ofM, readM⟩ := countDocument budget (by decide)
  obtain ⟨x, ofX, readX, -⟩ := numberDocument (legible s.tolerance (by simp [numbers]))
  obtain ⟨u, ofU, readU, -⟩ := numberDocument (legible s.errorDef (by simp [numbers]))
  obtain ⟨p, ofP, readP⟩ := optionDocument (x := s.precision) fun y here =>
    legible y (by simp_all [numbers])
  have readX := readX.trans (if_pos (positiveFinite (by simpa using tolerance)))
  have readU := readU.trans (if_pos (positiveFinite (by simpa using errorDef)))
  have fine : ∀ eps ∈ s.precision, Scalar.isFinite eps := by
    intro eps given
    rw [Option.mem_def.mp given] at precision
    dsimp only at precision
    split at precision
    case isTrue within => exact small eps within.1 within.2
    case isFalse => cases precision
  have readP := readP.trans (congrArg some (finiteSame.mpr fine))
  have choice : GradientCheck.ofName? s.check.name = some s.check := by cases s.check <;> rfl
  refine ⟨.table [("strategy", n), ("max_fcn", m), ("tolerance", x), ("error_def", u), ("precision", p),
    ("use_analytical_derivatives", .bool s.useDerivatives), ("gradient_check", .text s.check.name)], ?_, ?_⟩
  · simp [toJson, Document.ofJson?, Document.ofMembers?, ofN, ofM, ofX, ofU, ofP]
  · simp [ofDocument?, Document.fits, Document.optional, Document.member?, Document.choice?,
      Document.bool?, readN, readM, readX, readU, readP, choice]

theorem countReadable {n : ℕ} (word : n < 2 ^ 64) : (countJson n).Readable :=
  readableNumeral (Numeral.readCount n word)

theorem readable {s : Settings α} (legible : Legible s.numbers) (valid : s.violations = [])
    (counts : Count.fits s.maxCalls) : s.toJson.Readable := by
  have level := countReadable (lt_of_le_of_lt (strategyLow valid) (by decide))
  have budget := countReadable (of_decide_eq_true counts)
  have tolerance := numberReadable (legible s.tolerance (by simp [numbers]))
  have errorDef := numberReadable (legible s.errorDef (by simp [numbers]))
  have precision := optionReadable (x := s.precision) fun y here => legible y (by simp_all [numbers])
  simp [toJson, Json.Readable, Json.ReadableMembers, level, budget, tolerance, errorDef, precision]

end Settings

namespace Setup

def numbers (s : Setup α) : List α := s.settings.numbers ++ s.parameters.flatMap Declaration.numbers

variable {s : Setup α} (legible : Legible s.numbers)
include legible

theorem legibleSettings : Legible s.settings.numbers :=
  fun x among => legible x (List.mem_append_left _ among)

theorem legibleDeclarations : ∀ d ∈ s.parameters, Legible d.numbers :=
  fun d here x among => legible x (List.mem_append_right _ (List.mem_flatMap.mpr ⟨d, here, among⟩))

variable (valid : s.violations = []) (counts : Count.fits s.settings.maxCalls)
include valid counts

theorem readable : s.toJson.Readable := by
  have settings := Settings.readable (legibleSettings legible) (settingsValid valid) counts
  have declarations := declarationsReadable (legibleDeclarations legible)
  simp [toJson, Json.Readable, Json.ReadableMembers, settings, declarations]

theorem document (small : ∀ eps : α, 0 < eps → eps < 1 → Scalar.isFinite eps) :
    ∃ v, Document.ofJson? s.toJson = some v ∧ ofDocument? true v =
      if ∀ d ∈ s.parameters, Scalar.isFinite d.error then some s.bounded else none := by
  obtain ⟨v, ofSettings, readSettings⟩ :=
    Settings.document (legibleSettings legible) (settingsValid valid) counts small
  obtain ⟨vs, ofDeclarations, readDeclarations⟩ := declarationsDocument (legibleDeclarations legible)
    fun d among => d.valueFinite (declarationValid valid among)
  refine ⟨.table [("minimizer", v), ("parameters", .list vs)], ?_, ?_⟩
  · simp [toJson, Document.ofJson?, Document.ofMembers?, ofSettings, ofDeclarations]
  · have read : ofDocument? true (.table [("minimizer", v), ("parameters", .list vs)]) =
        (vs.mapM (Declaration.ofDocument? true)).bind fun ds => some ⟨s.settings, ds⟩ := by
      simp [ofDocument?, Document.fits, Document.optional, Document.member?, Document.list?, readSettings]
    rw [read, readDeclarations]
    split <;> rfl

theorem readText (small : ∀ eps : α, 0 < eps → eps < 1 → Scalar.isFinite eps) :
    read .json s.toText =
      if ∀ d ∈ s.parameters, Scalar.isFinite d.error then .ok s.bounded else .error .unreadable := by
  obtain ⟨v, ofText, readSetup⟩ := document legible valid counts small
  have parsed : Notation.json.parse? s.toText = some (v, true) := by
    simp [Notation.parse?, toText, Json.parsePretty (readable legible valid counts), ofText]
  simp only [read, ParamFit.read, parsed, Option.bind_eq_bind, Option.bind_some, readSetup]
  by_cases finite : ∀ d ∈ s.parameters, Scalar.isFinite d.error
  · rw [if_pos finite, if_pos finite]
    change checked s.bounded s.bounded.violations = _
    rw [checked, boundedValid valid]
    rfl
  · rw [if_neg finite, if_neg finite]
    rfl

end Setup

/-! ### Infinite numbers -/

/- The extended real numbers. A difference of two infinite ones is infinite. -/
noncomputable instance extendedScalar : Scalar EReal where
  beq a b := decide (a = b)
  ofScientific m s e := ((OfScientific.ofScientific m s e : ℝ) : EReal)
  decidableLT := Classical.decRel _
  decidableLE := Classical.decRel _
  abs a := Max.max a (-a)
  sqrt a := if a = ⊤ then ⊤ else (Scalar.sqrt a.toReal : ℝ)
  sin a := (Scalar.sin a.toReal : ℝ)
  cos a := (Scalar.cos a.toReal : ℝ)
  arcsin a := (Scalar.arcsin a.toReal : ℝ)
  halfPi := (Scalar.halfPi : ℝ)
  resolution := (Scalar.resolution : ℝ)

namespace Extended

/- Whole numbers, with a point. -/
noncomputable instance digits : NumberText EReal where
  text a := Nat.toDigits 10 ⌊a.toReal⌋₊ ++ ['.', '0']

theorem finiteIff (a : EReal) : Scalar.isFinite a ↔ a ≠ ⊥ ∧ a ≠ ⊤ := by
  change decide (a - a = 0) = true ↔ _
  rw [decide_eq_true_iff]
  induction a with
  | bot => simp
  | top => simp
  | coe x => simp

theorem smallFinite (eps : EReal) (above : 0 < eps) (below : eps < 1) : Scalar.isFinite eps :=
  (finiteIff eps).mpr ⟨ne_bot_of_gt above, ne_top_of_lt below⟩

theorem oneFinite : Scalar.isFinite (1 : EReal) :=
  (finiteIff 1).mpr ⟨EReal.coe_ne_bot 1, EReal.coe_ne_top 1⟩

theorem oneReadsBack : ReadsBack (1 : EReal) := by
  have text : NumberText.text (1 : EReal) = ['1', '.', '0'] := by
    change Nat.toDigits 10 ⌊(1 : EReal).toReal⌋₊ ++ ['.', '0'] = _
    rw [EReal.toReal_one, Nat.floor_one]
    rfl
  have numeral : Numeral.readBounded? ['1', '.', '0'] = some (.scaled false 10 (-1)) := by decide
  rw [ReadsBack, text, numeral]
  change ((Numeral.scale? 10 (-1)).map fun x : EReal => if false then -x else x) = some 1
  rw [Numeral.scale?, if_pos (by decide), Numeral.shrink, if_pos (by decide)]
  -- ten, over ten to the first
  change some (((OfScientific.ofScientific 10 false 0 : ℝ) : EReal) /
    ((OfScientific.ofScientific 1 false 1 : ℝ) : EReal)) = some 1
  rw [← EReal.coe_div]
  norm_num

/- One parameter, and settings in which every number is one. -/
noncomputable def lone (d : Declaration EReal) : Setup EReal := ⟨⟨1, 0, 1, 1, none, true, .warn⟩, [d]⟩

theorem loneValid {d : Declaration EReal} (valid : d.violations = []) : (lone d).violations = [] := by
  have positive : Settings.isPositive (1 : EReal) := by
    simp [Settings.isPositive, oneFinite]
  simp [Setup.violations, lone, Settings.violations, positive, Setup.declarationViolations, valid]

theorem loneLegible {d : Declaration EReal} (numbers : ∀ x ∈ d.numbers, x = 1 ∨ ¬ Scalar.isFinite x) :
    Legible (lone d).numbers := by
  have ones : ∀ x ∈ (lone d).numbers, x = 1 ∨ ¬ Scalar.isFinite x := by
    simpa [Setup.numbers, Settings.numbers, lone] using numbers
  intro x among finite
  rcases ones x among with rfl | infinite
  · exact oneReadsBack
  · exact absurd finite infinite

end Extended

namespace Setup
open Extended

/- A setup that breaks no rule has a text, if its finite numbers are legible. What the text is read as is
the setup without its infinite limits, unless a constant has an infinite error; then it is not read. So it is
read as it was written exactly where all limits and the errors of all constants are finite. -/
theorem textReread {s : Setup α} (legible : Legible s.numbers) (valid : s.violations = [])
    (counts : Count.fits s.settings.maxCalls)
    (small : ∀ eps : α, 0 < eps → eps < 1 → Scalar.isFinite eps) :
    (read .json s.toText = if ∀ d ∈ s.parameters, d.constant → Scalar.isFinite d.error then .ok s.bounded
      else .error .unreadable) ∧
    (read .json s.toText = .ok s ↔ ∀ d ∈ s.parameters, (d.constant → Scalar.isFinite d.error) ∧
      (∀ x ∈ d.lower, Scalar.isFinite x) ∧ ∀ x ∈ d.upper, Scalar.isFinite x) := by
  have errors : (∀ d ∈ s.parameters, Scalar.isFinite d.error) ↔
      ∀ d ∈ s.parameters, d.constant → Scalar.isFinite d.error := by
    refine forall₂_congr fun d among => ⟨fun finite _ => finite, fun finite => ?_⟩
    by_cases constant : d.constant
    · exact finite constant
    · exact d.errorFinite (declarationValid valid among) constant
  have text : read .json s.toText = if ∀ d ∈ s.parameters, d.constant → Scalar.isFinite d.error then
      .ok s.bounded else .error .unreadable :=
    (readText legible valid counts small).trans (if_congr errors rfl rfl)
  refine ⟨text, ?_⟩
  rw [text, forall₂_and, ← boundedSame]
  split
  case isTrue finite => exact ⟨fun same => ⟨finite, Except.ok.inj same⟩, fun same => congrArg _ same.2⟩
  case isFalse infinite => exact ⟨nofun, fun same => absurd same.1 infinite⟩

/- A lower limit that is infinite is lost. -/
theorem textRereadBoundless :
    let s := lone { name := "x", value := 1, error := 1, lower := some ⊥ }
    (Legible s.numbers ∧ s.violations = [] ∧ Count.fits s.settings.maxCalls ∧
      ∀ eps : EReal, 0 < eps → eps < 1 → Scalar.isFinite eps) ∧
      read .json s.toText = .ok (lone { name := "x", value := 1, error := 1 }) := by
  intro s
  have infinite : ¬ Scalar.isFinite (⊥ : EReal) := fun finite => ((finiteIff ⊥).mp finite).1 rfl
  have legible : Legible s.numbers := loneLegible (by simp [Declaration.numbers, infinite])
  have valid : s.violations = [] := loneValid (by simp [Declaration.violations, oneFinite])
  have bounded : s.bounded = lone { name := "x", value := 1, error := 1 } := by
    simp [s, lone, Setup.bounded, Declaration.bounded, finite?, infinite]
  obtain ⟨text, -⟩ := textReread legible valid rfl smallFinite
  refine ⟨⟨legible, valid, rfl, smallFinite⟩, text.trans ?_⟩
  rw [bounded]
  exact if_pos (by simp [s, lone])

/- A constant with an infinite error breaks no rule, but its text is not read. -/
theorem textUnread :
    let s := lone { name := "c", value := 1, error := ⊤, constant := true }
    (Legible s.numbers ∧ s.violations = [] ∧ Count.fits s.settings.maxCalls ∧
      ∀ d ∈ s.parameters, d.lower = none ∧ d.upper = none) ∧
      read .json s.toText ≠ .ok s := by
  intro s
  have infinite : ¬ Scalar.isFinite (⊤ : EReal) := fun finite => ((finiteIff ⊤).mp finite).2 rfl
  have legible : Legible s.numbers := loneLegible (by simp [Declaration.numbers, infinite])
  have valid : s.violations = [] := loneValid (by simp [Declaration.violations, oneFinite])
  have text := readText legible valid rfl smallFinite
  rw [if_neg (by simp [s, lone, infinite])] at text
  refine ⟨⟨legible, valid, rfl, by simp [s, lone]⟩, ?_⟩
  simp [text]

end Setup
end ParamFit
