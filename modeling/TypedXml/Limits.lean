/-!
# Limits

Bounds on what is read, built and written.  A limit is inclusive: the bound itself is still
allowed, the next larger number is refused.
-/

set_option autoImplicit false

namespace TypedXml

/-- What went beyond its bound, with the number found and the bound. -/
inductive LimitExceeded where
  | depth (found bound : Nat)
  /-- A document has too many octets. -/
  | size (found bound : Nat)
  | attributes (found bound : Nat)
  deriving DecidableEq, Repr

/-- What a message says of an exceeded limit. -/
def LimitExceeded.message : LimitExceeded → String
  | .depth found bound => s!"XML depth {found} exceeds maximum {bound}"
  | .size found bound => s!"XML size {found} bytes exceeds maximum {bound} bytes"
  | .attributes found bound => s!"Attribute count {found} exceeds maximum {bound}"

/-- The greatest nesting depth that is allowed unless another one is chosen. -/
def defaultDepth : Nat := 64

/-- Bounds on documents and instances. -/
structure Limits where
  depth : Nat := defaultDepth
  /-- Greatest number of octets of a document. -/
  size : Nat := 100 * 1024 * 1024
  attributes : Nat := 1000
  deriving DecidableEq, Repr

namespace Limits

/-- Narrow limits, for untrusted input. -/
def strict : Limits := ⟨32, 10 * 1024 * 1024, 100⟩

/-- Wide limits, for trusted input. -/
def permissive : Limits := ⟨256, 1024 * 1024 * 1024, 10000⟩

/-- Refuse a depth beyond the limit. -/
def checkDepth (limits : Limits) (depth : Nat) : Except LimitExceeded Unit :=
  if depth > limits.depth then .error (.depth depth limits.depth) else .ok ()

/-- Refuse a number of octets beyond the limit. -/
def checkSize (limits : Limits) (size : Nat) : Except LimitExceeded Unit :=
  if size > limits.size then .error (.size size limits.size) else .ok ()

/-- Refuse a number of attributes beyond the limit. -/
def checkAttributes (limits : Limits) (count : Nat) : Except LimitExceeded Unit :=
  if count > limits.attributes then .error (.attributes count limits.attributes) else .ok ()

end Limits

/-- How an element tree is written. -/
structure RenderOptions where
  /-- Whether an XML declaration comes first. -/
  declaration : Bool := false
  /-- The number of spaces by which a level is indented, or none for compact text. -/
  indent : Option Nat := none
  maxDepth : Nat := defaultDepth
  deriving DecidableEq, Repr

namespace RenderOptions

/-- A document with its declaration, without indentation, up to the default depth. -/
def document : RenderOptions := ⟨true, none, defaultDepth⟩

/-- Refuse to write a tree that is deeper than the options allow. -/
def checkDepth (options : RenderOptions) (depth : Nat) : Except LimitExceeded Unit :=
  if depth > options.maxDepth then .error (.depth depth options.maxDepth) else .ok ()

end RenderOptions

end TypedXml
