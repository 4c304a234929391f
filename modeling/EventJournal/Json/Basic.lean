/-!
# JSON values

The values of the data format. A number is a whole number or a binary fraction: a numeral
without point and exponent that fits into sixty-four bits, signed or not, is a whole
number, and every other numeral is a fraction. The members of an object are in ascending
order of their names, each name once.
-/

namespace EventJournal

/-- A JSON value. -/
inductive Json
  /-- The value `null`. -/
  | null
  /-- A truth value. -/
  | bool (value : Bool)
  /-- A whole number of at most sixty-four bits. -/
  | integer (value : Int)
  /-- A binary fraction. -/
  | fraction (value : Float)
  /-- A text. -/
  | string (value : String)
  /-- A list of values. -/
  | array (items : List Json)
  /-- Named values, ascending by name. -/
  | object (members : List (String × Json))

namespace Json

instance : Inhabited Json := ⟨null⟩

/-- Members with one more; a member of the same name is replaced. -/
def putMember (name : String) (value : Json) : List (String × Json) → List (String × Json)
  | [] => [(name, value)]
  | m :: rest =>
    if name < m.1 then (name, value) :: m :: rest
    else if m.1 < name then m :: putMember name value rest
    else (name, value) :: rest

/-- The object of a list of members in any order; of members of one name the last counts. -/
def ofMembers (members : List (String × Json)) : Json :=
  object (members.foldl (fun ms m => putMember m.1 m.2 ms) [])

/-- The member of an object with the given name. -/
def member? : Json → String → Option Json
  | object members, name => (members.find? fun m => m.1 == name).map (·.2)
  | _, _ => none

end Json

end EventJournal
