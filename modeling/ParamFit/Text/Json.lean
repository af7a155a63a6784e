import ParamFit.Text.Numeral

/-!
JSON documents: a tree, its indented text, and a reader. Text is read in two passes, each a machine
that takes one symbol at a time: `Lexer` turns characters into tokens, `Builder` turns tokens into
a tree with a stack of the lists and objects that are still open. Neither can run forever, and
neither looks ahead. Numbers stay texts until someone asks for their value.
-/
namespace ParamFit

/- `torn` stands for a text that holds one half of a pair without the other, and for an object with
such a key: it is well formed, but nobody can tell what it says. -/
inductive Json where
  | null
  | bool (b : Bool)
  | number (text : List Char)
  | text (s : String)
  | torn
  | list (items : List Json)
  | object (members : List (String × Json))
  deriving Inhabited

namespace Json

/-! ### Writing -/

def hexDigit (n : Nat) : Char := Nat.digitChar (n % 16)

def escape (c : Char) : List Char :=
  if c = '"' then ['\\', '"']
  else if c = '\\' then ['\\', '\\']
  else if c = '\n' then ['\\', 'n']
  else if c = '\r' then ['\\', 'r']
  else if c = '\t' then ['\\', 't']
  else if c.toNat = 8 then ['\\', 'b']
  else if c.toNat = 12 then ['\\', 'f']
  else if c.toNat < 32 then ['\\', 'u', '0', '0', hexDigit (c.toNat / 16), hexDigit c.toNat]
  else [c]

def quote (s : String) : List Char := '"' :: s.toList.flatMap escape ++ ['"']

def newline (level : Nat) : List Char := '\n' :: List.replicate (2 * level) ' '

mutual
def pretty (level : Nat) : Json → List Char
  | null => ['n', 'u', 'l', 'l']
  | bool true => ['t', 'r', 'u', 'e']
  | bool false => ['f', 'a', 'l', 's', 'e']
  | number cs => cs
  | text s => quote s
  | torn => '"' :: "\\ud800".toList ++ ['"']
  | list [] => ['[', ']']
  | list (v :: rest) =>
    '[' :: newline (level + 1) ++ pretty (level + 1) v ++ prettyItems (level + 1) rest
      ++ newline level ++ [']']
  | object [] => ['{', '}']
  | object ((k, v) :: rest) =>
    '{' :: newline (level + 1) ++ quote k ++ [':', ' '] ++ pretty (level + 1) v
      ++ prettyMembers (level + 1) rest ++ newline level ++ ['}']

def prettyItems (level : Nat) : List Json → List Char
  | [] => []
  | v :: rest => ',' :: newline level ++ pretty level v ++ prettyItems level rest

def prettyMembers (level : Nat) : List (String × Json) → List Char
  | [] => []
  | (k, v) :: rest =>
    ',' :: newline level ++ quote k ++ [':', ' '] ++ pretty level v ++ prettyMembers level rest
end

def toPretty (v : Json) : String := String.ofList (pretty 0 v)

/-! ### Tokens -/

inductive Token where
  | openList
  | closeList
  | openObject
  | closeObject
  | comma
  | colon
  | null
  | bool (b : Bool)
  | number (text : List Char)
  | text (s : String)
  | torn
  deriving DecidableEq, Repr

def isBlank (c : Char) : Bool := c == ' ' || c == '\n' || c == '\r' || c == '\t'

def isNumeric (c : Char) : Bool :=
  c.isDigit || c == '-' || c == '+' || c == '.' || c == 'e' || c == 'E'

def punctuation? : Char → Option Token
  | '[' => some .openList
  | ']' => some .closeList
  | '{' => some .openObject
  | '}' => some .closeObject
  | ',' => some .comma
  | ':' => some .colon
  | _ => none

def word? (s : List Char) : Option Token :=
  if s = ['n', 'u', 'l', 'l'] then some .null
  else if s = ['t', 'r', 'u', 'e'] then some (.bool true)
  else if s = ['f', 'a', 'l', 's', 'e'] then some (.bool false)
  else none

def shortEscape? : Char → Option Char
  | '"' => some '"'
  | '\\' => some '\\'
  | '/' => some '/'
  | 'b' => some (Char.ofNat 8)
  | 'f' => some (Char.ofNat 12)
  | 'n' => some '\n'
  | 'r' => some '\r'
  | 't' => some '\t'
  | _ => none

def hexValue? (c : Char) : Option Nat :=
  if c.isDigit then some (c.toNat - '0'.toNat)
  else if 'a' ≤ c ∧ c ≤ 'f' then some (c.toNat - 'a'.toNat + 10)
  else if 'A' ≤ c ∧ c ≤ 'F' then some (c.toNat - 'A'.toNat + 10)
  else none

/- Where a lexer is: between tokens, or inside one with the characters read so far, the last one
first. `code` is inside the four digits of an escape; `high` is the unit of a pair that waits for
its other half, and `slash` says that a backslash stood behind it. -/
inductive Mode where
  | between
  | word (read : List Char)
  | number (read : List Char)
  | text (read : List Char)
  | escape (read : List Char)
  | code (read : List Char) (high : Option Nat) (value digits : Nat)
  | pair (read : List Char) (high : Nat) (slash : Bool)

/- `torn` says that the text being read holds one half of a pair without the other. -/
structure Lexer where
  mode : Mode := .between
  tokens : List Token := []
  torn : Bool := false

namespace Lexer

def emit (l : Lexer) (t : Token) : Lexer := { mode := .between, tokens := t :: l.tokens }

def start (l : Lexer) (c : Char) : Option Lexer :=
  if isBlank c then some { l with mode := .between }
  else if c = '"' then some { l with mode := .text [] }
  else if c.isDigit || c == '-' then some { l with mode := .number [c] }
  else if c.isAlpha then some { l with mode := .word [c] }
  else (punctuation? c).map l.emit

def finish (l : Lexer) : Option Lexer :=
  match l.mode with
  | .between => some l
  | .word read => (word? read.reverse).map l.emit
  | .number read =>
    if (Numeral.read? read.reverse).isSome then some (l.emit (.number read.reverse)) else none
  | _ => none

def inText (l : Lexer) (read : List Char) (c : Char) : Option Lexer :=
  if c = '"' then some (l.emit (if l.torn then .torn else .text (String.ofList read.reverse)))
  else if c = '\\' then some { l with mode := .escape read }
  else if c.toNat < 32 then none
  else some { l with mode := .text (c :: read) }

def inEscape (l : Lexer) (read : List Char) (c : Char) : Option Lexer :=
  if c = 'u' then some { l with mode := .code read none 0 0 }
  else (shortEscape? c).map fun e => { l with mode := .text (e :: read) }

def tear (l : Lexer) (read : List Char) : Lexer := { l with mode := .text read, torn := true }

def finishCode (l : Lexer) (read : List Char) (high : Option Nat) (unit : Nat) : Lexer :=
  let isHigh := 0xD800 ≤ unit ∧ unit < 0xDC00
  let isLow := 0xDC00 ≤ unit ∧ unit < 0xE000
  match high with
  | none =>
    if isHigh then { l with mode := .pair read unit false }
    else if isLow then l.tear read
    else { l with mode := .text (Char.ofNat unit :: read) }
  | some h =>
    if isLow then
      let point := 0x10000 + (h - 0xD800) * 0x400 + (unit - 0xDC00)
      { l with mode := .text (Char.ofNat point :: read) }
    else l.tear read

def advance (l : Lexer) (c : Char) : Option Lexer :=
  match l.mode with
  | .between => l.start c
  | .word read =>
    if c.isAlpha then some { l with mode := .word (c :: read) }
    else l.finish.bind (·.start c)
  | .number read =>
    if isNumeric c then some { l with mode := .number (c :: read) }
    else l.finish.bind (·.start c)
  | .text read => l.inText read c
  | .escape read => l.inEscape read c
  | .code read high value digits => do
    let value := 16 * value + (← hexValue? c)
    if digits = 3 then some (l.finishCode read high value)
    else some { l with mode := .code read high value (digits + 1) }
  | .pair read high false =>
    if c = '\\' then some { l with mode := .pair read high true } else (l.tear read).inText read c
  | .pair read high true =>
    if c = 'u' then some { l with mode := .code read (some high) 0 0 }
    else (l.tear read).inEscape read c

end Lexer

def tokens? (cs : List Char) : Option (List Token) := do
  let l ← (← cs.foldlM Lexer.advance {}).finish
  return l.tokens.reverse

/-! ### Trees -/

/- A list or an object that is still open, with what it holds so far, the last one first. A
member that has its key but not its value carries the key. A key that is torn is none. -/
inductive Frame where
  | list (items : List Json)
  | object (members : List (Option String × Json))
  | member (members : List (Option String × Json)) (key : Option String)

inductive Phase where
  | value
  | first
  | key
  | firstKey
  | colon
  | next
  | done (v : Json)

structure Builder where
  phase : Phase := .value
  stack : List Frame := []

namespace Builder

def deliver (v : Json) : List Frame → Option Builder
  | [] => some ⟨.done v, []⟩
  | .list items :: stack => some ⟨.next, .list (v :: items) :: stack⟩
  | .member members k :: stack => some ⟨.next, .object ((k, v) :: members) :: stack⟩
  | .object _ :: _ => none

def value (b : Builder) : Token → Option Builder
  | .null => deliver .null b.stack
  | .bool x => deliver (.bool x) b.stack
  | .number cs => deliver (.number cs) b.stack
  | .text s => deliver (.text s) b.stack
  | .torn => deliver .torn b.stack
  | .openList => some ⟨.first, .list [] :: b.stack⟩
  | .openObject => some ⟨.firstKey, .object [] :: b.stack⟩
  | _ => none

def object (members : List (Option String × Json)) : Json :=
  let named : Option (List (String × Json)) := members.mapM fun m => m.1.map (·, m.2)
  named.elim .torn .object

def close : List Frame → Token → Option Builder
  | .list items :: stack, .closeList => deliver (.list items.reverse) stack
  | .object members :: stack, .closeObject => deliver (object members.reverse) stack
  | _, _ => none

def key : List Frame → Token → Option Builder
  | .object members :: stack, .text k => some ⟨.colon, .member members (some k) :: stack⟩
  | .object members :: stack, .torn => some ⟨.colon, .member members none :: stack⟩
  | _, _ => none

def advance (b : Builder) (t : Token) : Option Builder :=
  match b.phase with
  | .value => b.value t
  | .first => if t = .closeList then close b.stack t else b.value t
  | .key => key b.stack t
  | .firstKey => if t = .closeObject then close b.stack t else key b.stack t
  | .colon => if t = .colon then some { b with phase := .value } else none
  | .next =>
    match t, b.stack with
    | .comma, .list _ :: _ => some { b with phase := .value }
    | .comma, .object _ :: _ => some { b with phase := .key }
    | t, stack => close stack t
  | .done _ => none

end Builder

def ofTokens? (ts : List Token) : Option Json := do
  match (← ts.foldlM Builder.advance {}).phase with
  | .done v => some v
  | _ => none

def parse? (s : String) : Option Json := (tokens? s.toList).bind ofTokens?

end Json
end ParamFit
