import ParamFit.Text.Json

/-!
What a document says, whichever notation wrote it: values, lists and tables of members. A table
may repeat a name; only a reader that looks for the name refuses it. A list can stand for a table
whose members have an order: then a member is found by its place. What no reader can take,
such as a torn text, may still stand where nobody looks.
-/
namespace ParamFit

inductive Document where
  | null
  | bool (b : Bool)
  | number (n : Numeral)
  | text (s : String)
  | torn
  | moment
  | list (items : List Document)
  | table (members : List (String × Document))
  deriving Inhabited

namespace Document

mutual
def ofJson? : Json → Option Document
  | .null => some null
  | .bool b => some (bool b)
  | .number cs => (Numeral.readBounded? cs).map number
  | .text s => some (text s)
  | .torn => some torn
  | .list items => (ofItems? items).map list
  | .object members => (ofMembers? members).map table

def ofItems? : List Json → Option (List Document)
  | [] => some []
  | v :: rest => do return (← ofJson? v) :: (← ofItems? rest)

def ofMembers? : List (String × Json) → Option (List (String × Document))
  | [] => some []
  | (k, v) :: rest => do return (k, ← ofJson? v) :: (← ofMembers? rest)
end

/- The member of a record, by its name or by its place. A repeated name is refused. A moment is a
record as well, with members that no reader looks for. -/
def member? (d : Document) (name : String) (place : Nat) : Option (Option Document) :=
  match d with
  | table members =>
    match members.filter fun m => m.1 == name with
    | [] => some none
    | [(_, v)] => some (some v)
    | _ => none
  | list items => some items[place]?
  | moment => some none
  | _ => none

def required {β : Type} (d : Document) (name : String) (place : Nat) (f : Document → Option β) :
    Option β := do
  f (← (← d.member? name place))

def optional {β : Type} (d : Document) (name : String) (place : Nat) (f : Document → Option β)
    (missing : β) : Option β := do
  match ← d.member? name place with
  | none => return missing
  | some v => f v

def fits (d : Document) (size : Nat) (strict : Bool) : Bool :=
  match d with
  | list items => !strict || items.length ≤ size
  | _ => true

def scalar? {α : Type} [Scalar α] : Document → Option α
  | number n => n.toScalar?
  | _ => none

def scalarOrNull? {α : Type} [Scalar α] : Document → Option (Option α)
  | null => some none
  | number n => n.toScalar?.map some
  | _ => none

def count? (bound : Nat) : Document → Option Nat
  | number n => n.toCount? bound
  | _ => none

def bool? : Document → Option Bool
  | bool b => some b
  | _ => none

def text? : Document → Option String
  | text s => some s
  | _ => none

def list? : Document → Option (List Document)
  | list items => some items
  | _ => none

/- The name of a choice: a text, or a table whose only member has the name and says nothing. Unless
the reader is `strict`, something empty says nothing as well. -/
def choice? (strict : Bool) : Document → Option String
  | text s => some s
  | table [(s, null)] => some s
  | table [(s, list [])] | table [(s, table [])] => if strict then none else some s
  | _ => none

end Document
end ParamFit
