import TypedXml.Instance.Depth
import TypedXml.Schema.Basic

/-!
# Validity

An instance is valid for a schema if it is one of its top-level elements and every node has the
form, the counts and the values that its type allows.  Validity is a yes or a no without reasons;
a type that cannot be resolved allows nothing.
-/

set_option autoImplicit false

namespace TypedXml

namespace Schema

/-- Whether the declared attributes of a node, or their absence, fit their declarations. -/
def attributesConform (decls : List AttributeDecl) (attributes : List (String × Scalar)) : Bool :=
  decls.all fun decl => decl.allows ((attributes.lookup decl.name).map (·.value))

/-- Whether the number of occurrences of every particle is in its range. -/
def countsConform (particles : List Particle) (fields : List (String × Field)) : Bool :=
  particles.all fun particle =>
    particle.occurs.contains ((fields.lookup particle.key).elim 0 Field.count)

/-- Whether a node has the name of a declaration and is in the target namespace. -/
def isDeclared (schema : Schema) (decl : ElementDecl) (node : Instance) : Bool :=
  node.name == decl.name && node.space.uri == schema.target.uri

mutual

/-- Whether a node has a form that a type allows. -/
def conforms (schema : Schema) : Instance → TypeRef → Bool
  | ⟨_, _, content⟩, type =>
    match schema.resolve type with
    | .error _ => false
    | .ok definition => contentConforms schema content definition

/-- Whether the content of a node has the form, the counts and the values that a type allows. -/
def contentConforms (schema : Schema) : Content → TypeDefinition → Bool
  | .scalar value, .simple type => type.allows value.value
  | .text value attributes, .complex type =>
    match type.content with
    | .simple base => base.allows value.value && attributesConform type.attributes attributes
    | .sequence _ => false
  | .fields entries attributes, .complex type =>
    match type.content with
    | .simple _ => false
    | .sequence particles =>
      fieldsConform schema particles entries && countsConform particles entries &&
        attributesConform type.attributes attributes
  | _, _ => false

/-- Whether every field has the key and the form of a particle and holds what fits it. -/
def fieldsConform (schema : Schema) (particles : List Particle) :
    List (String × Field) → Bool
  | [] => true
  | (key, field) :: rest =>
    (match particles.find? (fun particle => particle.key == key) with
      | some particle => fieldConforms schema field particle
      | none => false) && fieldsConform schema particles rest

/-- Whether a field has the form of a particle and holds what fits it. -/
def fieldConforms (schema : Schema) : Field → Particle → Bool
  | .any _, .any _ => true
  | .one item, .element decl => isDeclared schema decl item && conforms schema item decl.type
  | .many items, .element decl => allConform schema items decl
  | _, _ => false

/-- Whether all nodes are elements of a declaration and have a form that its type allows. -/
def allConform (schema : Schema) : List Instance → ElementDecl → Bool
  | [], _ => true
  | node :: rest, decl =>
    isDeclared schema decl node && conforms schema node decl.type && allConform schema rest decl

end

/-- Whether an instance is valid. -/
def isValid (schema : Schema) (node : Instance) : Bool :=
  node.space.uri == schema.target.uri && node.depth ≤ schema.limits.depth &&
    match schema.element? node.name with
    | some decl => schema.conforms node decl.type
    | none => false

end Schema

end TypedXml
