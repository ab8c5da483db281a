import TypedXml.Instance.Construction

/-!
# Building instances part by part

A builder collects the parts of a complex type one by one, in any order, and is bound to an element
at the end, any number of times.
-/

set_option autoImplicit false

namespace TypedXml

/-- The parts of a complex type that are set so far. -/
structure Builder where
  schema : Schema
  type : ComplexType
  values : List (String × Value)

namespace Schema

/-- A builder of a complex type without any part. -/
def builder (schema : Schema) (type : ComplexType) : Builder :=
  ⟨schema, type, []⟩

/-- A builder for the type of an element; a simple type has no parts to build. -/
def elementBuilder (schema : Schema) (decl : ElementDecl) : Except Error Builder := do
  match ← schema.resolve decl.type with
  | .complex type => pure (schema.builder type)
  | .simple _ => .error (.construction (.nothingToBuild decl.name))

end Schema

namespace Builder

/-- Whether the type has a part of a key. -/
def isKnown (builder : Builder) (key : String) : Bool :=
  (builder.type.particle? key).isSome || (builder.type.attribute? key).isSome ||
    (builder.type.textType?.isSome && key == textKey)

/-- Set the value of a key; a key that is set already keeps its place. -/
def set (builder : Builder) (key : String) (value : Value) : Except Error Builder :=
  if builder.isKnown key then
    .ok { builder with values := Entries.insert key value builder.values }
  else .error (.construction (.unknownBuilderKey key))

/-- The value that is set for a key. -/
def get? (builder : Builder) (key : String) : Option Value :=
  builder.values.lookup key

/-- The parts of a builder as one construction value. -/
def toValue (builder : Builder) : Value :=
  .map builder.values

/-- The instance of an element from the parts of a builder. -/
def bind (builder : Builder) (decl : ElementDecl) : Except Error Instance :=
  let schema := builder.schema
  Construction.node (schema.place (schema.limits.depth - 1) 2) schema.target schema.limits 1
    decl.name (.complex builder.type) builder.toValue

end Builder

end TypedXml
