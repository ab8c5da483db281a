import TypedXml.Decimal.Integer
import TypedXml.Octets.Base64
import TypedXml.Octets.Hex
import TypedXml.Text.Blank

/-!
# Kinds of scalar text

A kind is one of the five primitive types of scalar text.  It relates written text to native
values in four ways: `parse` reads text, `format` writes a value, `accepts` tells which values
belong to the kind, and `coerce` brings a value to the form that reading would have given it.
-/

set_option autoImplicit false

namespace TypedXml

/-- A native scalar value. -/
inductive Datum where
  | text (s : String)
  | int (n : Int64)
  | boolean (b : Bool)
  /-- A sequence of octets. -/
  | bytes (b : Octets)
  deriving DecidableEq, Repr

/-- The primitive types of scalar text. -/
inductive Kind where
  | string
  | int
  | boolean
  | hexBinary
  | base64Binary
  deriving DecidableEq, Repr

/-- The word for a truth value. -/
def writeBoolean (b : Bool) : String :=
  if b then "true" else "false"

/-- The truth value that a text denotes; a digit serves as well as a word. -/
def readBoolean? (s : String) : Option Bool :=
  if s == "true" || s == "1" then some true
  else if s == "false" || s == "0" then some false
  else none

/-- The number that a decimal literal denotes, if 32 bits can hold it. -/
def readInt32? (cs : List Char) : Option Int64 :=
  match Decimal.readInt? cs with
  | some n => if -2147483648 ≤ n ∧ n ≤ 2147483647 then some (Int64.ofInt n) else none
  | none => none

/-- The octets that a hexadecimal text denotes. -/
def readHex? (s : String) : Option Octets :=
  Octets.Hex.decode? s.toList

/-- The octets that a base-64 text denotes; blank characters may stand anywhere in it. -/
def readBase64? (s : String) : Option Octets :=
  Octets.Base64.decode? (s.toList.filter (!Text.isBlank ·))

/-- The natural text of a native value. -/
def Datum.display : Datum → String
  | .text s => s
  | .int n => String.ofList (Decimal.writeInt n.toInt)
  | .boolean b => writeBoolean b
  | .bytes b => String.ofList (Octets.Hex.encode b)

/-- A text that is not in the lexical space of a kind. -/
structure LexicalFault where
  kind : Kind
  text : String
  deriving DecidableEq, Repr

namespace Kind

/-- The name of the primitive type. -/
def name : Kind → String
  | .string => "string"
  | .int => "int"
  | .boolean => "boolean"
  | .hexBinary => "hexBinary"
  | .base64Binary => "base64Binary"

/-- Whether the values of a kind are octets. -/
def isBinary : Kind → Bool
  | .hexBinary | .base64Binary => true
  | _ => false

/-- The value that a text denotes, if it is in the lexical space of the kind.  Blank characters at
either end do not count, except in a string. -/
def read? (kind : Kind) (text : String) : Option Datum :=
  let trimmed := Text.trimBlanks text.toList
  match kind with
  | .string => some (.text text)
  | .int => (readInt32? trimmed).map .int
  | .boolean => (readBoolean? (String.ofList trimmed)).map .boolean
  | .hexBinary => (Octets.Hex.decode? trimmed).map .bytes
  | .base64Binary => (readBase64? text).map .bytes

/-- The value that a text denotes in a kind, or the fault that the text is not in its lexical
space. -/
def parse (kind : Kind) (text : String) : Except LexicalFault Datum :=
  match kind.read? text with
  | some value => .ok value
  | none => .error ⟨kind, text⟩

/-- The text of a value in a kind.  A value that does not belong to the kind keeps its natural
text, so that it is still there when it is checked. -/
def format : Kind → Datum → String
  | .hexBinary, .bytes b => String.ofList (Octets.Hex.encode b)
  | .hexBinary, .text s => String.ofList (Octets.Hex.encode (Text.toOctets s))
  | .base64Binary, .bytes b => String.ofList (Octets.Base64.encode b)
  | .base64Binary, .text s => String.ofList (Octets.Base64.encode (Text.toOctets s))
  | _, .bytes b => Text.ofOctetsLossy b
  | _, value => value.display

/-- Whether a value belongs to a kind. -/
def accepts : Kind → Datum → Bool
  | .string, .bytes b => (Text.ofOctets? b).isSome
  | .string, _ => true
  | .int, .int n => -2147483648 ≤ n.toInt && n.toInt ≤ 2147483647
  | .int, .text s => (read? .int s).isSome
  | .boolean, .boolean _ => true
  | .boolean, .text s => (read? .boolean s).isSome
  | .hexBinary, .bytes _ | .hexBinary, .text _ => true
  | .base64Binary, .bytes _ | .base64Binary, .text _ => true
  | _, _ => false

/-- The form of a value that is native to a kind.  A value without such a form stays as it is. -/
def coerce : Kind → Datum → Datum
  | .string, .bytes b =>
    match Text.ofOctets? b with
    | some s => .text s
    | none => .bytes b
  | .string, .int n => .text (Datum.int n).display
  | .string, .boolean b => .text (Datum.boolean b).display
  | .int, .text s => (read? .int s).getD (.text s)
  | .boolean, .text s => (read? .boolean s).getD (.text s)
  | .hexBinary, .text s => .bytes (Text.toOctets s)
  | .base64Binary, .text s => .bytes (Text.toOctets s)
  | _, value => value

end Kind

/-- What a message says of a text outside the lexical space of a kind. -/
def LexicalFault.message (fault : LexicalFault) : String :=
  "'" ++ fault.text ++ "' is not a valid xs:" ++ fault.kind.name ++ " value"

/-- A value in native form stays as it is. -/
theorem Kind.coerce_coerce (kind : Kind) (value : Datum) :
    kind.coerce (kind.coerce value) = kind.coerce value := by
  cases kind <;> cases value <;> try rfl
  case string.bytes b => simp only [coerce]; cases h : Text.ofOctets? b <;> simp [h]
  case int.text s =>
    simp only [coerce, read?]
    cases h : readInt32? (Text.trimBlanks s.toList) <;> simp [h]
  case boolean.text s =>
    simp only [coerce, read?]
    cases h : readBoolean? (String.ofList (Text.trimBlanks s.toList)) <;> simp [h]

end TypedXml
