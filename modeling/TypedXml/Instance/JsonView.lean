import TypedXml.Instance.Basic
import TypedXml.Json.Basic

/-!
# Instances as JSON

The JSON view of an instance holds its scalars, fields and attributes under their keys, in the
order of the keys.  Octets appear in their written form and wildcard elements as objects that name
their parts.
-/

set_option autoImplicit false

namespace TypedXml

/-- The JSON view of a scalar; octets appear as their text. -/
def Scalar.toJson (scalar : Scalar) : Json :=
  match scalar.value with
  | .text s => .string s
  | .int n => Json.ofInt n.toInt
  | .boolean b => .bool b
  | .bytes _ => .string scalar.lexical

mutual

/-- The JSON view of an element of a wildcard. -/
def Xml.Element.toJson : Xml.Element → Json
  | ⟨name, _, attributes, text, children⟩ =>
    .object [
      ("attributes", Json.sorted (attributes.entries.map fun entry =>
        (entry.1.text, .string entry.2))),
      ("children", .array (Xml.Element.toJsonAll children)),
      ("name", .string name.text),
      ("text", match text with
        | some s => .string s
        | none => .null)]

/-- The JSON views of a list of elements. -/
def Xml.Element.toJsonAll : List Xml.Element → List Json
  | [] => []
  | element :: rest => Xml.Element.toJson element :: Xml.Element.toJsonAll rest

end

namespace Instance

/-- The members of an object for the attributes of a node. -/
def attributeMembers (attributes : List (String × Scalar)) : List (String × Json) :=
  attributes.map fun entry => (entry.1, entry.2.toJson)

mutual

/-- The JSON view of an instance. -/
def toJson : Instance → Json
  | ⟨_, _, .scalar value⟩ => value.toJson
  | ⟨_, _, .text value attributes⟩ =>
    Json.sorted (("value", value.toJson) :: attributeMembers attributes)
  | ⟨_, _, .fields entries attributes⟩ =>
    Json.sorted (fieldMembers entries ++ attributeMembers attributes)

/-- The JSON views of a list of instances. -/
def toJsonAll : List Instance → List Json
  | [] => []
  | node :: rest => toJson node :: toJsonAll rest

/-- The members of an object for the fields of a node. -/
def fieldMembers : List (String × Field) → List (String × Json)
  | [] => []
  | (key, .one item) :: rest => (key, toJson item) :: fieldMembers rest
  | (key, .many items) :: rest => (key, .array (toJsonAll items)) :: fieldMembers rest
  | (key, .any elements) :: rest =>
    (key, .array (Xml.Element.toJsonAll elements)) :: fieldMembers rest

end

end Instance

end TypedXml
