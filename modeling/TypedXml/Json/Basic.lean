import TypedXml.Entries
import TypedXml.Json.Number

/-!
# JSON values

Objects keep their members in a given order; `Json.sorted` brings the members of an object into the
order of their names, by code points, with the last value of a repeated name.
-/

set_option autoImplicit false

namespace TypedXml

/-- A JSON value. -/
inductive Json where
  /-- The value `null`. -/
  | null
  | bool (b : Bool)
  | number (n : Json.Number)
  | string (s : String)
  | array (items : List Json)
  | object (members : List (String × Json))
  deriving Repr

namespace Json

/-- The JSON number of an integer. -/
def ofInt (n : Int) : Json :=
  .number (.integer n)

/-- Members in the order of their names, each name once. -/
def sortMembers {α : Type} (members : List (String × α)) : List (String × α) :=
  (Entries.ofPairs members).mergeSort fun a b => a.1 ≤ b.1

/-- The object with the given members in the order of their names. -/
def sorted (members : List (String × Json)) : Json :=
  .object (sortMembers members)

/-- The member of an object with a given name; other values have none. -/
def get? (json : Json) (name : String) : Option Json :=
  match json with
  | .object members => members.lookup name
  | _ => none

end Json

end TypedXml
