import TypedXml.Error
import TypedXml.Schema.Component

/-!
# Schemas

A schema declares elements and named types for one namespace.  Looking up and resolving names
happens here; how a schema comes from declarations is told in its assembly.
-/

set_option autoImplicit false

namespace TypedXml

/-- A type that is known by its definition. -/
inductive TypeDefinition where
  | simple (type : SimpleType)
  | complex (type : ComplexType)

namespace TypeDefinition

/-- The name of a type, if it has one. -/
def name? : TypeDefinition → Option String
  | .simple type => type.name?
  | .complex type => type.name?

end TypeDefinition

/-- A schema: a target namespace, named types, top-level elements and limits. -/
structure Schema where
  target : Namespace
  types : List (String × TypeDefinition)
  elements : List ElementDecl
  limits : Limits

namespace Schema

/-- The definition of a type name, if it is declared. -/
def typeDefinition? (schema : Schema) (name : String) : Option TypeDefinition :=
  schema.types.lookup name

/-- The first top-level element of a name. -/
def element? (schema : Schema) (name : String) : Option ElementDecl :=
  schema.elements.find? fun decl => decl.name == name

/-- The top-level element of a name, or the error that there is none. -/
def element (schema : Schema) (name : String) : Except Error ElementDecl :=
  match schema.element? name with
  | some decl => .ok decl
  | none => .error (.unknownElement name schema.target.uri)

/-- The complex type of a name, or the error that there is none. -/
def complexType (schema : Schema) (name : String) : Except Error ComplexType :=
  match schema.typeDefinition? name with
  | some (.complex type) => .ok type
  | _ => .error (.unresolved (.complexType name))

/-- The simple type of a name, or the error that there is none. -/
def simpleType (schema : Schema) (name : String) : Except Error SimpleType :=
  match schema.typeDefinition? name with
  | some (.simple type) => .ok type
  | _ => .error (.unresolved (.simpleType name))

/-- The definition of a type, looked up if the type is given by name. -/
def resolve (schema : Schema) : TypeRef → Except Error TypeDefinition
  | .simple type => .ok (.simple type)
  | .complex type => .ok (.complex type)
  | .named name =>
    match schema.typeDefinition? name with
    | some definition => .ok definition
    | none => .error (.unresolved (.reference name))

/-- The same schema under other limits. -/
def withLimits (schema : Schema) (limits : Limits) : Schema :=
  { schema with limits }

/-- A schema as messages show it: its namespace and how much it declares. -/
def text (schema : Schema) : String :=
  "Schema(" ++ schema.target.text ++
    s!", {schema.elements.length} elements, {schema.types.length} types)"

end Schema

end TypedXml
