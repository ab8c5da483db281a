import TypedXml.Instance.Construction
import TypedXml.Instance.Decoding
import TypedXml.Schema.Assembly

/-!
# SOAP envelopes

The envelope of SOAP 1.1 is declared like any other document: an `Envelope` with an optional
`Header` and an optional `Body`, each open to any elements, and a `Fault` with its four texts.
-/

set_option autoImplicit false

namespace TypedXml.Soap

/-- The namespace of SOAP 1.1 envelopes. -/
def target : Namespace :=
  ⟨"http://schemas.xmlsoap.org/soap/envelope/", "soap"⟩

/-- An optional element that any elements may stand in. -/
def openContent (name : String) : ElementDecl :=
  ⟨name, .complex ⟨none, .sequence [.any ⟨"any", Occurs.zeroOrMore⟩], []⟩, Occurs.optional⟩

/-- The declaration of an envelope with an optional header and an optional body. -/
def envelopeDecl : ElementDecl :=
  ⟨"Envelope",
    .complex ⟨none, .sequence [.element (openContent "Header"), .element (openContent "Body")], []⟩,
    Occurs.once⟩

/-- One of the texts of a fault. -/
def faultText (name : String) (occurs : Occurs) : Particle :=
  .element ⟨name, .simple (SimpleType.ofKind .string), occurs⟩

/-- The declaration of a fault with its four texts, two of them optional. -/
def faultDecl : ElementDecl :=
  ⟨"Fault",
    .complex ⟨none, .sequence [faultText "faultcode" Occurs.once,
      faultText "faultstring" Occurs.once, faultText "faultactor" Occurs.optional,
      faultText "detail" Occurs.optional], []⟩,
    Occurs.once⟩

/-- The schema of SOAP 1.1 envelopes. -/
def schema : Schema :=
  ⟨target, [], [envelopeDecl, faultDecl], {}⟩

/-- The schema is what assembling the envelope and extending it by the fault gives. -/
theorem assemble_eq_schema :
    (Schema.define target [.element envelopeDecl] >>= fun envelopes =>
      envelopes.extend [.element faultDecl]) = .ok schema := by
  rfl

/-- The entry of an envelope for its header or body, which may be an instance, an element or a
list of them. -/
def part (name : String) (payload : Value) : String × Value :=
  (name, .map [("any", payload)])

/-- The envelope around a body. -/
def envelope (body : Value) : Except Error Instance :=
  schema.construct "Envelope" (.map [part "Body" body])

/-- The envelope around a header and a body. -/
def envelopeWithHeader (header body : Value) : Except Error Instance :=
  schema.construct "Envelope" (.map [part "Header" header, part "Body" body])

/-- The fault with a code and a message. -/
def fault (code message : String) : Except Error Instance :=
  schema.construct "Fault" (.map [("faultcode", .text code), ("faultstring", .text message)])

/-- The envelope, or the fault alone, that a document holds. -/
def parse (text : String) : Except Error Instance :=
  schema.deserialize text

end TypedXml.Soap
