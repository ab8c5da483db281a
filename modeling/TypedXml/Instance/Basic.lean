import TypedXml.Scalar.Basic
import TypedXml.Xml.Element

/-!
# Instances

An instance is the typed form of an element: a tree of named nodes whose scalars are native values.
A node holds a scalar, a scalar with attributes, or fields with attributes; a field keeps what fits
one particle.
-/

set_option autoImplicit false

namespace TypedXml

mutual

/-- A node of a typed tree: its local name, its namespace and its content. -/
inductive Instance where
  | mk (name : String) (space : Namespace) (content : Content)

/-- What a node holds. -/
inductive Content where
  | scalar (value : Scalar)
  | text (value : Scalar) (attributes : List (String × Scalar))
  /-- The fields of an element, by the keys of their particles, and its attributes. -/
  | fields (entries : List (String × Field)) (attributes : List (String × Scalar))

/-- What fits one particle of a sequence. -/
inductive Field where
  /-- The only occurrence of a particle that occurs at most once. -/
  | one (item : Instance)
  /-- The occurrences of a repeated particle, in order. -/
  | many (items : List Instance)
  /-- The elements that fit a wildcard, in order. -/
  | any (elements : List Xml.Element)

end

namespace Field

/-- The number of occurrences in a field. -/
def count : Field → Nat
  | .one _ => 1
  | .many items => items.length
  | .any elements => elements.length

/-- The typed occurrences, none for a wildcard. -/
def instances : Field → List Instance
  | .one item => [item]
  | .many items => items
  | .any _ => []

/-- The elements of a wildcard, none for a declaration. -/
def elements : Field → List Xml.Element
  | .one _ => []
  | .many _ => []
  | .any elements => elements

end Field

namespace Instance

/-- The local name of a node. -/
def name : Instance → String
  | ⟨name, _, _⟩ => name

/-- The namespace of a node. -/
def space : Instance → Namespace
  | ⟨_, space, _⟩ => space

/-- What a node holds. -/
def content : Instance → Content
  | ⟨_, _, content⟩ => content

/-- The name of a node with its namespace. -/
def qualifiedName (node : Instance) : Name :=
  node.space.qualify node.name

/-- The same node as an element of another name. -/
def renamed (node : Instance) (name : String) (space : Namespace) : Instance :=
  ⟨name, space, node.content⟩

/-- The scalar of a node, none if it has fields. -/
def scalar? (node : Instance) : Option Scalar :=
  match node.content with
  | .scalar value => some value
  | .text value _ => some value
  | .fields _ _ => none

/-- The fields of a node, none if it holds a scalar. -/
def fields (node : Instance) : List (String × Field) :=
  match node.content with
  | .fields entries _ => entries
  | _ => []

/-- The native value of the scalar of a node. -/
def value? (node : Instance) : Option Datum :=
  node.scalar?.map (·.value)

/-- The field of a key. -/
def field? (node : Instance) (key : String) : Option Field :=
  node.fields.lookup key

/-- The only occurrence in the field of a key. -/
def child? (node : Instance) (key : String) : Option Instance :=
  match node.field? key with
  | some (.one item) => some item
  | _ => none

/-- The typed occurrences in the field of a key, none if there is no such field. -/
def childrenOf (node : Instance) (key : String) : List Instance :=
  match node.field? key with
  | some field => field.instances
  | none => []

/-- The elements in the wildcard field of a key, none if there is no such field. -/
def wildcardOf (node : Instance) (key : String) : List Xml.Element :=
  match node.field? key with
  | some (.any elements) => elements
  | _ => []

/-- The attributes of a node; a scalar alone has no place for them. -/
def attributes? (node : Instance) : Option (List (String × Scalar)) :=
  match node.content with
  | .scalar _ => none
  | .text _ attributes => some attributes
  | .fields _ attributes => some attributes

/-- The native value of an attribute. -/
def attribute? (node : Instance) (name : String) : Option Datum :=
  (node.attributes?.bind (·.lookup name)).map (·.value)

/-- Whether a node holds nothing: no text, no field and no attribute. -/
def isNil (node : Instance) : Bool :=
  match node.content with
  | .scalar value => value.lexical.isEmpty
  | .text value attributes => value.lexical.isEmpty && attributes.isEmpty
  | .fields entries attributes => entries.isEmpty && attributes.isEmpty

mutual

/-- Whether two nodes are equal, where fields and attributes are compared by key and not by
order. -/
def same : Instance → Instance → Bool
  | ⟨name, space, content⟩, ⟨otherName, otherSpace, otherContent⟩ =>
    name == otherName && space == otherSpace && sameContent content otherContent

/-- Whether two contents are equal, where fields and attributes are compared by key and not by
order. -/
def sameContent : Content → Content → Bool
  | .scalar value, .scalar other => value == other
  | .text value attributes, .text other others =>
    value == other && Entries.agree (· == ·) attributes others
  | .fields entries attributes, .fields otherEntries others =>
    entries.length == otherEntries.length && sameFields entries otherEntries &&
      Entries.agree (· == ·) attributes others
  | _, _ => false

/-- Whether every field of the first list is in the second one. -/
def sameFields : List (String × Field) → List (String × Field) → Bool
  | [], _ => true
  | (key, field) :: rest, others =>
    (match others.lookup key with
      | some other => sameField field other
      | none => false) && sameFields rest others

/-- Whether two fields hold the same occurrences in the same order. -/
def sameField : Field → Field → Bool
  | .one item, .one other => same item other
  | .many items, .many others => sameAll items others
  | .any elements, .any others => Xml.Element.sameAll elements others
  | _, _ => false

/-- Whether two lists have as many nodes and those at the same places are the same. -/
def sameAll : List Instance → List Instance → Bool
  | [], [] => true
  | node :: rest, other :: others => same node other && sameAll rest others
  | _, _ => false

end

end Instance

end TypedXml
