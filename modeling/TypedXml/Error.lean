import TypedXml.Instance.Fault
import TypedXml.Limits
import TypedXml.Xml.Fault

/-!
# Errors

Every operation that can fail does so with one of seven categories of error, each with its own
causes.  The message of an error names its category first.
-/

set_option autoImplicit false

namespace TypedXml

/-- An error with its cause. -/
inductive Error where
  | definition (fault : DefinitionFault)
  | unresolved (fault : UnresolvedType)
  /-- A top-level element is not declared in the namespace of the schema. -/
  | unknownElement (name uri : String)
  /-- A value does not fit the place it is given for. -/
  | construction (fault : ConstructionFault)
  /-- An element tree does not fit its declaration. -/
  | mismatch (found : Mismatch)
  | limit (exceeded : LimitExceeded)
  | xml (fault : Xml.Fault)
  deriving DecidableEq, Repr

namespace Error

/-- The categories of errors. -/
inductive Category where
  | typeDefinition
  | unresolvedType
  | unknownElement
  | construction
  | schemaMismatch
  | limitExceeded
  | xml
  deriving DecidableEq, Repr

/-- The category of an error. -/
def category : Error → Category
  | .definition _ => .typeDefinition
  | .unresolved _ => .unresolvedType
  | .unknownElement _ _ => .unknownElement
  | .construction _ => .construction
  | .mismatch _ => .schemaMismatch
  | .limit _ => .limitExceeded
  | .xml _ => .xml

/-- A category as messages show it. -/
def Category.text : Category → String
  | .typeDefinition => "type definition error"
  | .unresolvedType => "unresolved type"
  | .unknownElement => "unknown element"
  | .construction => "construction error"
  | .schemaMismatch => "schema mismatch"
  | .limitExceeded => "limit exceeded"
  | .xml => "XML error"

/-- What a message says of the cause of an error. -/
def detail : Error → String
  | .definition fault => fault.message
  | .unresolved fault => fault.message
  | .unknownElement name uri => "'" ++ name ++ "' is not declared in namespace '" ++ uri ++ "'"
  | .construction fault => fault.message
  | .mismatch found => found.message
  | .limit exceeded => exceeded.message
  | .xml fault => fault.message

/-- The message of an error: its category and what is said of its cause. -/
def message (error : Error) : String :=
  error.category.text ++ ": " ++ error.detail

end Error

end TypedXml
