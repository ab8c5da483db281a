import TypedXml.Schema.Basic

/-!
# Assembly of schemas

A schema is assembled from a batch of declarations.  First every declaration is registered under
its name; then, with all type names known, the types and the elements are checked.  The first
fault found is reported.
-/

set_option autoImplicit false

namespace TypedXml

/-- One item of a batch. -/
inductive Declaration where
  | element (decl : ElementDecl)
  | complex (type : ComplexType)
  | simple (type : SimpleType)

/-- Refuse a name that is not an NCName. -/
def checkName (name : String) : Except DefinitionFault Unit :=
  if isNCName name then .ok () else .error (.invalidName name)

/-- Refuse particles with invalid keys or ranges, or with a key that was seen before. -/
def checkParticles (seen : List String) : List Particle → Except DefinitionFault Unit
  | [] => .ok ()
  | particle :: rest => do
    checkName particle.key
    particle.occurs.check
    if seen.contains particle.key then .error (.duplicateParticle particle.key)
    else checkParticles (particle.key :: seen) rest

/-- Refuse attributes with invalid names, with a name that was seen before or with the key of a
part of the content. -/
def checkAttributes (contentKeys seen : List String) :
    List AttributeDecl → Except DefinitionFault Unit
  | [] => .ok ()
  | decl :: rest => do
    checkName decl.name
    if seen.contains decl.name then .error (.duplicateAttribute decl.name)
    else if contentKeys.contains decl.name then .error (.attributeIsContent decl.name)
    else checkAttributes contentKeys (decl.name :: seen) rest

/-- Refuse a complex type with an ill-formed particle or attribute, or with a repeated key. -/
def ComplexType.checkParts (type : ComplexType) : Except DefinitionFault Unit := do
  checkParticles [] type.particles
  checkAttributes type.contentKeys [] type.attributes

mutual

/-- Refuse a type that is ill-formed anywhere inside or refers to an undeclared name. -/
def TypeRef.check (declared : String → Bool) : TypeRef → Except Error Unit
  | .simple _ => .ok ()
  | .complex type => type.check declared
  | .named name =>
    if declared name then .ok () else .error (.unresolved (.neverDeclared name))

/-- Refuse a complex type that is ill-formed itself or in the types of its particles. -/
def ComplexType.check (declared : String → Bool) : ComplexType → Except Error Unit
  | ⟨name, content, attributes⟩ => do
    ((ComplexType.mk name content attributes).checkParts).mapError .definition
    content.check declared

/-- Refuse content with a type that is ill-formed anywhere inside or refers to an undeclared
name. -/
def ContentModel.check (declared : String → Bool) : ContentModel → Except Error Unit
  | .simple _ => .ok ()
  | .sequence particles => Particle.checkTypes declared particles

/-- Refuse particles whose types are ill-formed anywhere inside or refer to undeclared names. -/
def Particle.checkTypes (declared : String → Bool) : List Particle → Except Error Unit
  | [] => .ok ()
  | .any _ :: rest => Particle.checkTypes declared rest
  | .element ⟨_, type, _⟩ :: rest => do
    type.check declared
    Particle.checkTypes declared rest

end

namespace Schema

/-- Add a named type, unless the name has a type already. -/
def addType (schema : Schema) (name : String) (definition : TypeDefinition) :
    Except DefinitionFault Schema :=
  if (schema.typeDefinition? name).isSome then .error (.duplicateType name)
  else .ok { schema with types := schema.types ++ [(name, definition)] }

/-- Add a declaration under its name, without a look at the types in it. -/
def register (schema : Schema) : Declaration → Except DefinitionFault Schema
  | .element decl => do
    checkName decl.name
    if (schema.element? decl.name).isSome then .error (.duplicateElement decl.name)
    else .ok { schema with elements := schema.elements ++ [decl] }
  | .complex type =>
    match type.name? with
    | none => .error .unnamedComplexType
    | some name => do
      checkName name
      schema.addType name (.complex type)
  | .simple type =>
    match type.name? with
    | none => .error .unnamedSimpleType
    | some name => do
      checkName name
      schema.addType name (.simple type)

/-- Whether a name has a type. -/
def declares (schema : Schema) (name : String) : Bool :=
  (schema.typeDefinition? name).isSome

/-- Refuse a named type that is ill-formed anywhere inside or refers to an undeclared name. -/
def checkDefinition (schema : Schema) : TypeDefinition → Except Error Unit
  | .simple _ => .ok ()
  | .complex type => type.check schema.declares

/-- Refuse an element with an ill-formed range or type. -/
def checkElement (schema : Schema) (decl : ElementDecl) : Except Error Unit := do
  decl.occurs.check.mapError .definition
  decl.type.check schema.declares

/-- Check the types of a schema and then its elements, up to the first fault. -/
def check (schema : Schema) : Except Error Unit := do
  schema.types.forM fun entry => schema.checkDefinition entry.2
  schema.elements.forM schema.checkElement

/-- The schema without declarations. -/
def empty (target : Namespace) (limits : Limits) : Schema :=
  ⟨target, [], [], limits⟩

/-- The schema of a batch of declarations. -/
def assemble (target : Namespace) (limits : Limits) (declarations : List Declaration) :
    Except Error Schema := do
  let schema ← (declarations.foldlM register (empty target limits)).mapError .definition
  schema.check
  pure schema

/-- The schema of a batch of declarations, with the limits that hold by default. -/
def define (target : Namespace) (declarations : List Declaration) : Except Error Schema :=
  assemble target {} declarations

/-- The declarations of a schema: its types, then its elements. -/
def declarations (schema : Schema) : List Declaration :=
  (schema.types.map fun entry => match entry.2 with
    | .complex type => .complex type
    | .simple type => .simple type) ++
    schema.elements.map .element

/-- The schema with the declarations of another one and some more. -/
def extend (schema : Schema) (declarations : List Declaration) : Except Error Schema :=
  assemble schema.target schema.limits (schema.declarations ++ declarations)

end Schema

end TypedXml
