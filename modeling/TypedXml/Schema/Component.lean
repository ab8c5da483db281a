import TypedXml.Name
import TypedXml.Schema.Occurs
import TypedXml.Schema.SimpleType

/-!
# Complex types and element declarations

The components of a schema contain each other: an element declaration has a type, a complex type
has a sequence of particles, and a particle is an element declaration or a wildcard.  A type can
also be given by name, so that types may contain themselves.
-/

set_option autoImplicit false

namespace TypedXml

/-- A particle that any element fits. -/
structure Wildcard where
  key : String := "any"
  occurs : Occurs := Occurs.once
  deriving DecidableEq, Repr

mutual

/-- The type of an element. -/
inductive TypeRef where
  | simple (type : SimpleType)
  | complex (type : ComplexType)
  | named (name : String)

/-- A complex type: its name, if it has one, its content and its attributes. -/
inductive ComplexType where
  | mk (name : Option String) (content : ContentModel) (attributes : List AttributeDecl)

/-- What a complex type allows between the tags of an element. -/
inductive ContentModel where
  | simple (base : SimpleType)
  | sequence (particles : List Particle)

/-- A place in a sequence. -/
inductive Particle where
  | element (decl : ElementDecl)
  | any (wildcard : Wildcard)

/-- The declaration of an element: its name, its type and how often it may occur. -/
inductive ElementDecl where
  | mk (name : String) (type : TypeRef) (occurs : Occurs)

end

namespace ElementDecl

/-- The name of a declared element. -/
def name : ElementDecl → String
  | ⟨name, _, _⟩ => name

/-- The type of a declared element. -/
def type : ElementDecl → TypeRef
  | ⟨_, type, _⟩ => type

/-- How often a declared element may occur. -/
def occurs : ElementDecl → Occurs
  | ⟨_, _, occurs⟩ => occurs

end ElementDecl

namespace Particle

/-- The key under which instances keep what fits a particle. -/
def key : Particle → String
  | .element decl => decl.name
  | .any wildcard => wildcard.key

/-- How often what fits a particle may occur. -/
def occurs : Particle → Occurs
  | .element decl => decl.occurs
  | .any wildcard => wildcard.occurs

/-- The element declaration of a particle, none for a wildcard. -/
def decl? : Particle → Option ElementDecl
  | .element decl => some decl
  | .any _ => none

end Particle

namespace ComplexType

/-- The name of a complex type, if it has one. -/
def name? : ComplexType → Option String
  | ⟨name, _, _⟩ => name

/-- What a complex type allows between the tags of an element. -/
def content : ComplexType → ContentModel
  | ⟨_, content, _⟩ => content

/-- The attributes that a complex type declares. -/
def attributes : ComplexType → List AttributeDecl
  | ⟨_, _, attributes⟩ => attributes

/-- The particles of a sequence, none if the content is text. -/
def particles (type : ComplexType) : List Particle :=
  match type.content with
  | .simple _ => []
  | .sequence particles => particles

/-- The type of the text, if the content is text. -/
def textType? (type : ComplexType) : Option SimpleType :=
  match type.content with
  | .simple base => some base
  | .sequence _ => none

/-- The first particle of a key. -/
def particle? (type : ComplexType) (key : String) : Option Particle :=
  type.particles.find? fun particle => particle.key == key

/-- The first declared attribute of a name. -/
def attribute? (type : ComplexType) (name : String) : Option AttributeDecl :=
  type.attributes.find? fun decl => decl.name == name

end ComplexType

/-- The key of the text in a construction value for a type whose content is text. -/
def textKey : String := "value"

namespace ComplexType

/-- The keys of the content: that of the text, or those of the particles. -/
def contentKeys (type : ComplexType) : List String :=
  match type.content with
  | .simple _ => [textKey]
  | .sequence particles => particles.map Particle.key

/-- The keys by which a construction value gives the parts of a type: those of its content, then
the names of its attributes. -/
def keys (type : ComplexType) : List String :=
  type.contentKeys ++ type.attributes.map AttributeDecl.name

end ComplexType

/-- The type declared under a written name; a part up to a first colon does not count. -/
def TypeRef.ofWrittenName (written : String) : TypeRef :=
  .named (splitQualified written).2

/-- A type as messages show it: by its name, or by what it is if it has none. -/
def TypeRef.text : TypeRef → String
  | .simple type => type.name?.getD ("xs:" ++ type.kind.name)
  | .complex type => type.name?.getD "(anonymous complexType)"
  | .named name => name

end TypedXml
