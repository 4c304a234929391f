import EventJournal.Json.Basic
import EventJournal.Json.Fraction

/-!
# Writing JSON

The compact text of a value: no blanks, members in their order. In a text only the
quotation mark, the reverse solidus and the control characters below the blank are escaped,
by their short form where there is one.
-/

namespace EventJournal

namespace Json

/-- A character inside a quoted text. -/
def escapeChar (c : Char) : List Char :=
  match c with
  | '"' => ['\\', '"']
  | '\\' => ['\\', '\\']
  | '\n' => ['\\', 'n']
  | '\r' => ['\\', 'r']
  | '\t' => ['\\', 't']
  | '\x08' => ['\\', 'b']
  | '\x0c' => ['\\', 'f']
  | c => if c.toNat < 0x20 then '\\' :: 'u' :: Text.hexadecimal 4 c.toNat else [c]

/-- A text in quotation marks. -/
def quote (s : String) : List Char :=
  '"' :: s.toList.flatMap escapeChar ++ ['"']

/-- A whole number. -/
def renderInteger (n : Int) : List Char :=
  (if n < 0 then ['-'] else []) ++ Text.decimal n.natAbs

mutual

/-- The compact text of a value. -/
def render : Json → List Char
  | null => ['n', 'u', 'l', 'l']
  | bool true => ['t', 'r', 'u', 'e']
  | bool false => ['f', 'a', 'l', 's', 'e']
  | integer n => renderInteger n
  | fraction x => Fraction.render x
  | string s => quote s
  | array items => '[' :: renderItems items ++ [']']
  | object members => '\x7b' :: renderMembers members ++ ['\x7d']

/-- The items of a list, with commas between them. -/
def renderItems : List Json → List Char
  | [] => []
  | v :: rest => render v ++ (if rest.isEmpty then [] else [',']) ++ renderItems rest

/-- The members of an object, with commas between them. -/
def renderMembers : List (String × Json) → List Char
  | [] => []
  | (name, v) :: rest =>
    quote name ++ ':' :: render v ++ (if rest.isEmpty then [] else [',']) ++ renderMembers rest

end

/-- The compact text of a value. -/
def text (v : Json) : String := String.ofList v.render

end Json

end EventJournal
