import TypedXml.Text.Utf8

/-!
# Names and namespaces

A declared name is an NCName, a name without a colon.  In a document a name is qualified: a local
part together with the URI of its namespace, or without a namespace.  A schema has one target
namespace, a URI with the prefix that it is preferably written with.
-/

set_option autoImplicit false

namespace TypedXml

/-- Whether a name may begin with a character. -/
def isNameStart (c : Char) : Bool :=
  ('A' ≤ c && c ≤ 'Z') || c == '_' || ('a' ≤ c && c ≤ 'z') ||
    (0xC0 ≤ c.toNat && c.toNat ≤ 0xD6) || (0xD8 ≤ c.toNat && c.toNat ≤ 0xF6) ||
    (0xF8 ≤ c.toNat && c.toNat ≤ 0x2FF) || (0x370 ≤ c.toNat && c.toNat ≤ 0x37D)

/-- Whether a character may stand in a name behind the first one. -/
def isNameChar (c : Char) : Bool :=
  isNameStart c || c == '-' || c == '.' || ('0' ≤ c && c ≤ '9') || c.toNat == 0xB7

/-- Whether a character list is an NCName: it is not empty, and each character is allowed at its
place. -/
def isNCNameChars : List Char → Bool
  | [] => false
  | c :: rest => isNameStart c && rest.all isNameChar

/-- Whether a text is an NCName. -/
def isNCName (s : String) : Bool :=
  isNCNameChars s.toList

/-- A character list split at its first colon, if it has one. -/
def splitAtColon (cs : List Char) : Option (List Char × List Char) :=
  match cs.span (· != ':') with
  | (before, ':' :: after) => some (before, after)
  | _ => none

/-- The part before the first colon of a written name, if any, and the local part. -/
def splitQualified (s : String) : Option String × String :=
  match splitAtColon s.toList with
  | some (before, after) => (some (String.ofList before), String.ofList after)
  | none => (none, s)

/-- A qualified name. -/
structure Name where
  /-- The URI of the namespace, or none. -/
  space : Option String
  localName : String
  deriving DecidableEq, Repr

/-- The name without a namespace. -/
def Name.unqualified (localName : String) : Name :=
  ⟨none, localName⟩

/-- A name as messages show it: the namespace in braces before the local part. -/
def Name.text (name : Name) : String :=
  match name.space with
  | some uri => "\x7b" ++ uri ++ "\x7d" ++ name.localName
  | none => name.localName

/-- A namespace and the prefix it is preferably written with. -/
structure Namespace where
  uri : String
  preferredPrefix : String
  deriving DecidableEq, Repr

namespace Namespace

/-- A namespace as messages show it: the preferred prefix and the URI. -/
def text (ns : Namespace) : String :=
  ns.preferredPrefix ++ "=" ++ ns.uri

/-- The name with a local part in a namespace. -/
def qualify (ns : Namespace) (localName : String) : Name :=
  ⟨some ns.uri, localName⟩

/-- Whether a name is the one with a local part in a namespace. -/
def isName (ns : Namespace) (localName : String) (name : Name) : Bool :=
  name == ns.qualify localName

end Namespace

end TypedXml
