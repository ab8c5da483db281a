import TypedXml.Name
import TypedXml.Text.Quoted

/-!
# Faults of XML text

What can be wrong with a text that should be a document, from single references up to the number
of root elements.  Positions and lengths are counted in octets.
-/

set_option autoImplicit false

namespace TypedXml.Xml

/-- The pieces of markup that can be cut short by the end of the text. -/
inductive Markup where
  | element
  | instruction
  | bang
  | comment
  | cdata
  | doctype
  deriving DecidableEq, Repr

/-- The name of a piece of markup, as messages show it. -/
def Markup.text : Markup → String
  | .element => "Element"
  | .instruction => "XmlDecl"
  | .bang => "Bang"
  | .comment => "Comment"
  | .cdata => "CData"
  | .doctype => "DOCTYPE"

/-- Faults of a reference between `&` and `;`. -/
inductive ReferenceFault where
  /-- No `;` closes the reference. -/
  | unterminated (start finish : Nat)
  /-- The name is none of the predefined ones. -/
  | unrecognized (start finish : Nat) (name : List Char)
  | nullCharacter (start finish : Nat)
  | longDecimal
  | longHexadecimal
  | notDecimal (c : Char)
  | notHexadecimal (c : Char)
  | noCharacter (number : Nat)
  deriving DecidableEq, Repr

/-- What a message says of a faulty reference. -/
def ReferenceFault.message : ReferenceFault → String
  | .unterminated start finish =>
    s!"Error while escaping character at range {start}..{finish}: Cannot find ';' after '&'"
  | .unrecognized start finish name =>
    s!"Error while escaping character at range {start}..{finish}: Unrecognized escape symbol: " ++
      String.ofList (Text.quote name)
  | .nullCharacter start finish =>
    s!"Error while escaping character at range {start}..{finish}: " ++
      "Null character entity not allowed"
  | .longDecimal => "Cannot convert decimal to utf8"
  | .longHexadecimal => "Cannot convert hexadecimal to utf8"
  | .notDecimal c => "'" ++ c.toString ++ "' is not a valid decimal character"
  | .notHexadecimal c => "'" ++ c.toString ++ "' is not a valid hexadecimal character"
  | .noCharacter number => s!"'{number}' is not a valid codepoint"

/-- Faults in the attributes of a tag. -/
inductive AttributeFault where
  /-- Something else than `=` follows a key. -/
  | expectedEquals
  /-- The key stands at an earlier position, too. -/
  | duplicated (previous : Nat)
  /-- The value does not begin with a quote. -/
  | unquotedValue
  /-- Nothing follows the `=`. -/
  | missingValue
  | unclosedValue (quote : Char)
  deriving DecidableEq, Repr

/-- What a message says of a fault in the attributes of a tag. -/
def AttributeFault.message : AttributeFault → String
  | .expectedEquals => "attribute key must be directly followed by `=` or space"
  | .duplicated previous =>
    s!"duplicated attribute, previous declaration at position {previous}"
  | .unquotedValue => "attribute value must be enclosed in `\"` or `'`"
  | .missingValue => "`=` must be followed by an attribute value"
  | .unclosedValue quote => "missing closing quote `" ++ quote.toString ++ "` in attribute value"

/-- Faults of a document. -/
inductive Fault where
  | cutShort (markup : Markup)
  /-- An exclamation mark is followed by an unknown octet. -/
  | unknownBang (octet : Char)
  | emptyDoctype
  /-- An end tag does not close the element that is open. -/
  | mismatchedEnd (expected found : String)
  /-- A reserved prefix or namespace is bound otherwise than it should. -/
  | reservedBinding (label uri : String)
  | unknownPrefix (label : String)
  /-- An attribute is malformed at a position of its tag. -/
  | attribute (position : Nat) (fault : AttributeFault)
  | textReference (fault : ReferenceFault)
  | valueReference (fault : ReferenceFault)
  | secondRoot (name : Name)
  | noRoot
  | unclosed
  deriving DecidableEq, Repr

/-- The message of a fault of a document, with the position if it has one. -/
def Fault.message : Fault → String
  | .cutShort markup => "Error parsing XML: Unexpected EOF during reading " ++ markup.text
  | .unknownBang octet =>
    "Error parsing XML: Only Comment (`--`), CDATA (`[CDATA[`) and DOCTYPE (`DOCTYPE`) nodes " ++
      "can start with a '!', but symbol `" ++ octet.toString ++ "` found"
  | .emptyDoctype => "Error parsing XML: DOCTYPE declaration must not be empty"
  | .mismatchedEnd expected found =>
    "Error parsing XML: Expecting </" ++ expected ++ "> found </" ++ found ++ ">"
  | .reservedBinding label uri =>
    "Error parsing XML: The namespace prefix '" ++
      String.ofList (Text.quoteOctets (Text.toOctets label)) ++ "' cannot be bound to '" ++
      String.ofList (Text.quoteOctets (Text.toOctets uri)) ++ "'"
  | .unknownPrefix label => "Unknown namespace prefix: " ++ label
  | .attribute position fault =>
    s!"Failed to parse attribute: position {position}: " ++ fault.message
  | .textReference fault => "Failed to unescape text: " ++ fault.message
  | .valueReference fault => "Failed to unescape attribute value: " ++ fault.message
  | .secondRoot name => "document has more than one root element ('" ++ name.text ++ "')"
  | .noRoot => "document has no root element"
  | .unclosed => "unexpected end of document"

end TypedXml.Xml
