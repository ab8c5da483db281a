import TypedXml.Instance.Basic
import TypedXml.Instance.Fault
import TypedXml.Json.Basic

/-!
# Construction values

An instance is built from a loosely typed value: scalars, lists and mappings as they come from a
JSON document, together with octets, finished instances and element trees.
-/

set_option autoImplicit false

namespace TypedXml

/-- A loosely typed value. -/
inductive Value where
  | null
  | text (s : String)
  | int (n : Int64)
  | boolean (b : Bool)
  | bytes (b : Octets)
  /-- Occurrences of a repeated particle, or parts by their position. -/
  | list (items : List Value)
  /-- Parts by the key of their particle or the name of their attribute. -/
  | map (entries : List (String × Value))
  | built (node : Instance)
  | element (element : Xml.Element)

namespace Value

/-- The form of a value, as messages tell it. -/
def form : Value → ValueForm
  | .null => .null
  | .text _ => .text
  | .int _ => .int
  | .boolean _ => .boolean
  | .bytes _ => .bytes
  | .list _ => .list
  | .map _ => .map
  | .built _ => .built
  | .element _ => .element

/-- The mapping with the given keys and values; the last value of a repeated key counts. -/
def ofPairs (pairs : List (String × Value)) : Value :=
  .map (Entries.ofPairs pairs)

/-- The value of a JSON number: an integer if it fits 64 bits with a sign, its text otherwise. -/
def ofNumber : Json.Number → Value
  | .integer n =>
    if Int64.minValue.toInt ≤ n ∧ n ≤ Int64.maxValue.toInt then .int (Int64.ofInt n)
    else .text (String.ofList (Json.Number.integer n).text)
  | number => .text (String.ofList number.text)

mutual

/-- The value of a JSON document.  Mappings take the order of their keys. -/
def ofJson : Json → Value
  | .null => .null
  | .bool b => .boolean b
  | .number n => ofNumber n
  | .string s => .text s
  | .array items => .list (ofItems items)
  | .object members => .map (Json.sortMembers (ofMembers members))

/-- The values of the items of a JSON list. -/
def ofItems : List Json → List Value
  | [] => []
  | item :: rest => ofJson item :: ofItems rest

/-- The values of the members of a JSON object, by name. -/
def ofMembers : List (String × Json) → List (String × Value)
  | [] => []
  | (name, value) :: rest => (name, ofJson value) :: ofMembers rest

end

end Value

/-- The scalar of a value for a place with a name; nothing stands for the empty text. -/
def Scalar.ofValue (kind : Kind) (name : String) : Value → Except ConstructionFault Scalar
  | .null => .ok (Scalar.empty kind)
  | .text s => .ok (Scalar.ofDatum kind (.text s))
  | .int n => .ok (Scalar.ofDatum kind (.int n))
  | .boolean b => .ok (Scalar.ofDatum kind (.boolean b))
  | .bytes b => .ok (Scalar.ofDatum kind (.bytes b))
  | value => .error (.expectsScalar name kind value.form)

end TypedXml
