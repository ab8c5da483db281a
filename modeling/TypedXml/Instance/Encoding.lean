import TypedXml.Instance.Depth
import TypedXml.Xml.Rendering

/-!
# Instances as element trees

Writing an instance needs no schema: names, namespaces and kinds are in the nodes.  Each occurrence
becomes a child of its own, attributes are written without a namespace, and empty text is no text.
-/

set_option autoImplicit false

namespace TypedXml

/-- The text of a scalar, where empty text is no text. -/
def Scalar.text? (scalar : Scalar) : Option String :=
  if scalar.lexical.isEmpty then none else some scalar.lexical

namespace Instance

/-- The attributes of a node as those of an element, without a namespace. -/
def writtenAttributes (attributes : List (String × Scalar)) : Xml.Attributes :=
  Xml.Attributes.ofPairs (attributes.map fun entry =>
    (Name.unqualified entry.1, entry.2.lexical))

mutual

/-- The element tree of an instance. -/
def toElement : Instance → Xml.Element
  | ⟨name, space, .scalar value⟩ =>
    ⟨space.qualify name, some space.preferredPrefix, Xml.Attributes.empty, value.text?, []⟩
  | ⟨name, space, .text value attributes⟩ =>
    ⟨space.qualify name, some space.preferredPrefix, writtenAttributes attributes, value.text?,
      []⟩
  | ⟨name, space, .fields entries attributes⟩ =>
    ⟨space.qualify name, some space.preferredPrefix, writtenAttributes attributes, none,
      fieldElements entries⟩

/-- The element trees of a list of instances. -/
def toElements : List Instance → List Xml.Element
  | [] => []
  | node :: rest => toElement node :: toElements rest

/-- The children that the fields of a node become, in the order of the fields. -/
def fieldElements : List (String × Field) → List Xml.Element
  | [] => []
  | (_, .one item) :: rest => toElement item :: fieldElements rest
  | (_, .many items) :: rest => toElements items ++ fieldElements rest
  | (_, .any elements) :: rest => elements ++ fieldElements rest

end

/-- The document of an instance. -/
def serialize (options : RenderOptions) (node : Instance) : Except Error String :=
  match options.checkDepth node.depth with
  | .error exceeded => .error (.limit exceeded)
  | .ok () => Xml.render options node.toElement

end Instance

end TypedXml
