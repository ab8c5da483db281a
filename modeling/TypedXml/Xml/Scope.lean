import TypedXml.Name
import TypedXml.Xml.Tag

/-!
# Namespace scopes

Inside an element the prefixes are bound by its own declarations and those of the elements around
it; the innermost binding counts.  The prefixes `xml` and `xmlns` are bound once and for all, and
no other prefix can be bound to their namespaces.
-/

set_option autoImplicit false

namespace TypedXml.Xml

/-- The namespace of the prefix `xml`. -/
def xmlUri : List Char := "http://www.w3.org/XML/1998/namespace".toList

/-- The namespace of the prefix `xmlns`. -/
def xmlnsUri : List Char := "http://www.w3.org/2000/xmlns/".toList

/-- The bindings of a place in a document, innermost first; the empty prefix stands for names
without one. -/
structure Scope where
  /-- Pairs of a prefix and a namespace, empty where a declaration takes a binding back. -/
  bindings : List (List Char × List Char)
  deriving DecidableEq, Repr

/-- The prefix that an attribute key binds, if it is a namespace declaration. -/
def declaredPrefix? : List Char → Option (List Char)
  | ['x', 'm', 'l', 'n', 's'] => some []
  | 'x' :: 'm' :: 'l' :: 'n' :: 's' :: ':' :: label => some label
  | _ => none

namespace Scope

/-- The bindings outside of every element. -/
def outermost : Scope :=
  ⟨[("xml".toList, xmlUri), ("xmlns".toList, xmlnsUri)]⟩

/-- The scope with one more binding, unless the binding is reserved.  The declaration of a default
namespace, `key` being `xmlns` itself, is free. -/
def bind (scope : Scope) (key label uri : List Char) : Except Fault Scope :=
  let added : Scope := ⟨(label, uri) :: scope.bindings⟩
  let refused : Except Fault Scope :=
    .error (.reservedBinding (String.ofList label) (String.ofList uri))
  if key == "xmlns".toList then .ok added
  else if label == "xml".toList then if uri == xmlUri then .ok scope else refused
  else if label == "xmlns".toList then refused
  else if uri == xmlUri || uri == xmlnsUri then refused
  else .ok added

/-- The scope inside an element with the given attributes. -/
def enter (scope : Scope) : List WrittenAttribute → Except Fault Scope
  | [] => .ok scope
  | written :: rest =>
    match declaredPrefix? written.key with
    | none => enter scope rest
    | some label =>
      match scope.bind written.key label written.value with
      | .error fault => .error fault
      | .ok scope => enter scope rest

/-- The namespace of elements without a prefix; an empty declaration takes it back. -/
def defaultSpace (scope : Scope) : Option String :=
  match scope.bindings.lookup [] with
  | none | some [] => none
  | some uri => some (String.ofList uri)

/-- The namespace of a prefix, or the fault that nothing binds it. -/
def spaceOf (scope : Scope) (label : List Char) : Except Fault String :=
  match if label.isEmpty then none else scope.bindings.lookup label with
  | none | some [] => .error (.unknownPrefix (String.ofList label))
  | some uri => .ok (String.ofList uri)

/-- The qualified name that a written name has in a scope; without a prefix it is in the namespace
`unprefixed`. -/
def resolve (scope : Scope) (unprefixed : Option String) (written : List Char) :
    Except Fault Name :=
  match splitAtColon written with
  | none => .ok ⟨unprefixed, String.ofList written⟩
  | some (label, localName) =>
    (scope.spaceOf label).map fun uri => ⟨some uri, String.ofList localName⟩

end Scope

end TypedXml.Xml
