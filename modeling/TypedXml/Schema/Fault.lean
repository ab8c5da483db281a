import TypedXml.Scalar.Kind

/-!
# Faults of declarations

Why a batch of declarations is no schema, and why a look-up in a schema finds nothing.
-/

set_option autoImplicit false

namespace TypedXml

/-- What makes a declaration, or a batch of them, ill-formed. -/
inductive DefinitionFault where
  | invalidName (name : String)
  /-- A literal of an enumeration is not a value of the restricted type. -/
  | invalidLiteral (literal : String) (kind : Kind)
  /-- Two literals of an enumeration denote one value; the later one is given. -/
  | duplicateLiteral (literal : String)
  | emptyRange
  /-- The upper bound of an occurrence range lies below the lower one. -/
  | reversedRange (max min : Nat)
  | duplicateParticle (key : String)
  | duplicateAttribute (name : String)
  | attributeIsContent (name : String)
  | duplicateElement (name : String)
  | duplicateType (name : String)
  | unnamedComplexType
  | unnamedSimpleType
  deriving DecidableEq, Repr

/-- What a message says of an ill-formed declaration. -/
def DefinitionFault.message : DefinitionFault → String
  | .invalidName name => "'" ++ name ++ "' is not a valid NCName"
  | .invalidLiteral literal kind =>
    "enumeration literal '" ++ literal ++ "' is not a valid value of xs:" ++ kind.name
  | .duplicateLiteral literal => "enumeration literal '" ++ literal ++ "' is declared twice"
  | .emptyRange => "maxOccurs must be a positive integer"
  | .reversedRange max min =>
    s!"maxOccurs ({max}) must be greater than or equal to minOccurs ({min})"
  | .duplicateParticle key =>
    "particle '" ++ key ++ "' is declared twice in the same sequence"
  | .duplicateAttribute name => "attribute '" ++ name ++ "' is declared twice"
  | .attributeIsContent name =>
    "attribute '" ++ name ++ "' collides with a content key of the same name"
  | .duplicateElement name => "top-level element '" ++ name ++ "' is declared twice"
  | .duplicateType name => "type '" ++ name ++ "' is declared twice"
  | .unnamedComplexType => "top-level complex type must have a name"
  | .unnamedSimpleType => "top-level simple type must have a name"

/-- A type name that leads to no type. -/
inductive UnresolvedType where
  | reference (name : String)
  | neverDeclared (name : String)
  | complexType (name : String)
  | simpleType (name : String)
  deriving DecidableEq, Repr

/-- What a message says of a type name without a type. -/
def UnresolvedType.message : UnresolvedType → String
  | .reference name => "type '" ++ name ++ "' is not declared"
  | .neverDeclared name => "type '" ++ name ++ "' is referenced but never declared"
  | .complexType name => "complex type '" ++ name ++ "' is not declared"
  | .simpleType name => "simple type '" ++ name ++ "' is not declared"

end TypedXml
