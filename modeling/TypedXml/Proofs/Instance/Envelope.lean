import TypedXml.Proofs.Instance.DocumentRoundTrip
import TypedXml.Proofs.Instance.Enumerations

/-!
# Payloads in envelopes

An envelope carries an instance of another schema as an element tree that its own schema does not
look into.  Two levels of elements stand around the tree, so that it may be two levels less deep
than an envelope; the prefixes of its names are chosen together with those of the envelope, and are
others in the tree that is read.  The payload is none the worse for it: its own schema reads it
from the body of the envelope that is read.
-/

set_option autoImplicit false

namespace TypedXml

/-! ## Payloads -/

/-- Whether a type declares an attribute of a name. -/
def ComplexType.hasAttribute (type : ComplexType) (name : String) : Bool :=
  (type.attributes.map AttributeDecl.name).contains name

namespace Schema

variable {schema : Schema} {name : String}

/-- No type of a schema has an attribute of a name. -/
def WithoutAttribute (schema : Schema) (name : String) : Prop :=
  schema.allTypes (fun _ => true) (fun type => !type.hasAttribute name) = true

/-- An attribute that a type does not declare is not at a node of this type. -/
theorem not_mem_of_shaped {complex : ComplexType} {scalars : List (String × Scalar)}
    (h : complex.all (fun _ => true) (fun type => !type.hasAttribute name) = true)
    (hscalars : AttributesShaped complex.attributes scalars) : name ∉ scalars.map Prod.fst := by
  have hnone := ComplexType.holds_of_all h
  unfold ComplexType.hasAttribute at hnone
  rw [Bool.not_eq_true', List.contains_eq_mem, decide_eq_false_iff_not] at hnone
  intro hmem
  exact hnone (hscalars.keys_sublist.subset hmem)

/-- An attribute that no type has is lacking everywhere in an instance in its shape. -/
theorem lacks_of_shaped (hwithout : schema.WithoutAttribute name) {decl : ElementDecl}
    {node : Instance} (h : Shaped schema decl node)
    (htype : decl.type.all (fun _ => true) (fun type => !type.hasAttribute name) = true) :
    node.Everywhere (Instance.Lacks name) := by
  revert htype
  refine Shaped.induct ?scalar ?text ?fields h
  case scalar =>
    intro decl simple value _ _ _
    refine .intro List.not_mem_nil ?_
    rintro item ⟨⟩
  case text =>
    intro decl complex base value attributes resolved _ _ scalars htype
    refine .intro (not_mem_of_shaped (all_of_resolve hwithout htype resolved) scalars) ?_
    rintro item ⟨⟩
  case fields =>
    intro decl complex particles entries attributes resolved content parts scalars htype
    have hall := all_of_resolve hwithout htype resolved
    refine .intro (not_mem_of_shaped hall scalars) ?_
    intro item hitem
    obtain ⟨child, hchild, hlacks⟩ := parts.exists_decl hitem
    rw [← ComplexType.particles_of_sequence content] at hchild
    exact hlacks (ComplexType.all_of_mem hall hchild)

/-- Without wildcards a valid instance in its shape is read again from its element tree. -/
theorem decodeElement_of_shaped (hassembled : schema.Assembled) (hclosed : schema.WithoutWildcards)
    {decl : ElementDecl} {node : Instance} (hdecl : schema.element? name = some decl)
    (hshaped : Shaped schema decl node)
    (hvalid : schema.isValid node = true) : schema.decodeElement node.toElement = .ok node := by
  obtain ⟨hmem, hname⟩ := mem_of_element? hdecl
  have htyped := isTyped_of_mem hassembled hclosed hmem
  obtain ⟨_, hdepth, found, hfound, hconforms⟩ := isValid_eq_true_iff.1 hvalid
  rw [hshaped.name, hname, hdecl] at hfound
  cases hfound
  have hread := recovered_of_shaped hassembled (singleWildcards_of_withoutWildcards hclosed)
    hshaped htyped.isPlain hconforms (wildcardsApart_of_shaped hassembled hclosed hshaped htyped)
  exact hread.decodeElement (hname ▸ hdecl) hdepth

end Schema

/-! ## Envelopes around an element -/

namespace Soap

open Xml.Element (Everywhere Writable IsFreeSpace KeepsNames KeepsText IsUnmixed)

/-- An envelope whose body holds one element. -/
def enclosed (element : Xml.Element) : Instance :=
  ⟨"Envelope", target,
    .fields [("Body", .one ⟨"Body", target, .fields [("any", .any [element])] []⟩)] []⟩

/-- An element of the envelope around another element. -/
def wrapper (name : String) (label : Option String) (child : Xml.Element) : Xml.Element :=
  ⟨target.qualify name, label, .empty, none, [child]⟩

variable {element child : Xml.Element} {name : String} {label : Option String}

/-- An envelope is written as two elements around its payload. -/
theorem toElement_enclosed (element : Xml.Element) :
    (enclosed element).toElement =
      wrapper "Envelope" (some target.preferredPrefix)
        (wrapper "Body" (some target.preferredPrefix) element) := rfl

/-- An envelope is two levels deeper than its payload. -/
theorem depth_enclosed (element : Xml.Element) : (enclosed element).depth = element.depth + 2 := by
  rw [Instance.depth_eq_height, Xml.Element.depth_eq_height]
  simp [enclosed, Instance.height, Instance.heightFields, Xml.Element.heightAll]

/-- A condition holds everywhere around an element if it holds of what is around it and everywhere
in it. -/
theorem everywhere_wrapper {p : Xml.Element → Prop} (hroot : p (wrapper name label child))
    (hchild : Everywhere p child) : Everywhere p (wrapper name label child) :=
  .intro hroot (List.forall_mem_singleton.2 hchild)

/-- The namespace of envelopes can be bound to any prefix. -/
theorem isFreeSpace_target : IsFreeSpace target.uri := by
  refine ⟨by decide, ?_⟩
  unfold Xml.Element.IsReservedSpace
  decide

/-- The namespace of envelopes stands in its declaration without references. -/
theorem isPlainSpace_target : Xml.IsPlainSpace target.uri :=
  Xml.isPlainSpace_iff.2 (by decide)

/-- What is around an element can be written if its name can. -/
theorem writable_wrapper (hname : isNCName name = true) :
    Writable IsFreeSpace (wrapper name (some target.preferredPrefix) child) := by
  refine ⟨hname, ?_, ?_, ?_, ?_⟩
  · rintro _ ⟨⟩
    exact Or.inr (by decide)
  · rintro _ ⟨⟩
    exact isFreeSpace_target
  · rintro _ ⟨⟩
  · rintro _ ⟨⟩

/-- The names around an element are read as they are. -/
theorem keepsNames_wrapper : KeepsNames (wrapper name label child) := by
  refine ⟨?_, ?_, List.not_mem_nil⟩
  · rintro _ ⟨⟩
    exact isPlainSpace_target
  · rintro _ ⟨⟩

/-- There is no text around an element that could be lost. -/
theorem keepsText_wrapper : KeepsText (wrapper name label child) := by
  refine ⟨nofun, ?_⟩
  rintro _ _ ⟨⟩

/-- What is around an element is read as it is, but for its prefix. -/
theorem reread_wrapper (table : PrefixTable) :
    (wrapper name label child).reread table none =
      wrapper name (table.prefixOf? target.uri) (child.reread table none) := by
  rw [Xml.Element.reread_of_keepsNames keepsNames_wrapper,
    Xml.Element.readText_of_keepsText keepsText_wrapper]
  rfl

/-- The envelope is read again, whatever its prefixes. -/
theorem decodeElement_wrapper {outer inner : Option String} (hdepth : element.depth ≤ 62) :
    schema.decodeElement (wrapper "Envelope" outer (wrapper "Body" inner element)) =
      .ok (enclosed element) := by
  refine Schema.decodeElement_eq_ok.2 ⟨?_, envelopeDecl, rfl, rfl⟩
  rw [Xml.Element.depth_eq_height] at hdepth ⊢
  simp only [wrapper, Xml.Element.height, Xml.Element.heightAll]
  show _ ≤ 64
  omega

/-- An envelope is valid whatever element it holds, if that is not too deep. -/
theorem isValid_enclosed (hdepth : element.depth ≤ 62) :
    schema.isValid (enclosed element) = true := by
  have hbelow : (enclosed element).depth ≤ schema.limits.depth := by
    rw [depth_enclosed]
    show _ ≤ 64
    omega
  unfold Schema.isValid
  rw [decide_eq_true hbelow]
  rfl

/-- The envelope of a finished instance holds the element tree of the instance. -/
theorem envelope_built {payload : Instance} (hdepth : payload.depth ≤ 62) :
    envelope (.built payload) = .ok (enclosed payload.toElement) := by
  have helement : Construction.wildcardElement schema.limits 2 "any" (.built payload) =
      .ok payload.toElement := by
    refine check_bind_eq_ok.2 ⟨mapError_eq_ok.2 (Limits.checkDepth_eq_ok.2 ?_), rfl⟩
    show _ ≤ 64
    omega
  have hbody : schema.place 63 2 (openContent "Body") (.map [("any", .built payload)]) =
      .ok ⟨"Body", target, .fields [("any", .any [payload.toElement])] []⟩ := by
    refine bind_eq_ok.2 ⟨_, rfl, ?_⟩
    refine bind_eq_ok.2 ⟨.fields [("any", .any [payload.toElement])] [], ?_, rfl⟩
    refine bind_eq_ok.2 ⟨[("any", .any [payload.toElement])], ?_, rfl⟩
    refine bind_eq_ok.2 ⟨some (.any [payload.toElement]), ?_, rfl⟩
    exact bind_eq_ok.2 ⟨[payload.toElement], mapM_eq_ok.2 (.cons helement .nil), rfl⟩
  refine bind_eq_ok.2 ⟨envelopeDecl, rfl, ?_⟩
  refine bind_eq_ok.2 ⟨_, rfl, ?_⟩
  refine bind_eq_ok.2 ⟨.fields [("Body", .one _)] [], ?_, rfl⟩
  refine bind_eq_ok.2 ⟨[("Body", .one _)], ?_, rfl⟩
  refine bind_eq_ok.2 ⟨some (.one _), ?_, rfl⟩
  exact bind_eq_ok.2 ⟨_, hbody, rfl⟩

/-- An envelope is written, if documents may be as deep as its schema allows. -/
theorem exists_serialize_enclosed {options : RenderOptions} (hdepth : element.depth ≤ 62)
    (hroom : schema.limits.depth ≤ options.maxDepth) :
    ∃ text, (enclosed element).serialize options = .ok text := by
  have hbelow : element.depth + 2 ≤ options.maxDepth :=
    Nat.le_trans (Nat.add_le_add_right hdepth 2) hroom
  have htree : (enclosed element).toElement.depth ≤ options.maxDepth := by
    rwa [Instance.depth_toElement, depth_enclosed]
  rw [Instance.serialize_eq_render]
  exact ⟨_, Xml.render_eq_ok.2 ⟨htree, rfl⟩⟩

/-- The document of an envelope is read as the envelope around the element as it comes back. -/
theorem parse_enclosed {options : RenderOptions} {text : String} (hdepth : element.depth ≤ 62)
    (hwritable : Everywhere (Writable IsFreeSpace) element)
    (hunmixed : Everywhere IsUnmixed element)
    (hattributes : Everywhere (fun element => element.attributes.size ≤ schema.limits.attributes)
      (enclosed element).toElement)
    (hsize : text.utf8ByteSize ≤ schema.limits.size)
    (h : (enclosed element).serialize options = .ok text) :
    parse text = .ok (enclosed (element.reread (enclosed element).toElement.prefixes none)) := by
  have htree : (enclosed element).toElement.depth ≤ schema.limits.depth := by
    rw [Instance.depth_toElement, depth_enclosed]
    exact Nat.add_le_add_right hdepth 2
  have hallWritable : Everywhere (Writable IsFreeSpace) (enclosed element).toElement :=
    everywhere_wrapper (writable_wrapper (by decide))
      (everywhere_wrapper (writable_wrapper (by decide)) hwritable)
  have hallUnmixed : Everywhere IsUnmixed (enclosed element).toElement :=
    everywhere_wrapper (Or.inl rfl) (everywhere_wrapper (Or.inl rfl) hunmixed)
  have hparse := Xml.parse_render hallWritable (Or.inr hallUnmixed) hattributes htree hsize
    (Schema.render_of_serialize h)
  have hreread : (element.reread (enclosed element).toElement.prefixes none).depth ≤ 62 := by
    rwa [Xml.Element.depth_eq_height, Xml.height_reread, ← Xml.Element.depth_eq_height]
  unfold parse Schema.deserialize
  rw [bind_of_eq_ok hparse]
  generalize (enclosed element).toElement.prefixes = table at hreread ⊢
  rw [toElement_enclosed, reread_wrapper, reread_wrapper]
  exact decodeElement_wrapper hreread

/-- Equal elements are in equal envelopes. -/
theorem same_enclosed {other : Xml.Element} (h : element.same other = true) :
    (enclosed element).same (enclosed other) = true := by
  simp [enclosed, Instance.same, Instance.sameContent, Instance.sameFields, Instance.sameField,
    Xml.Element.sameAll, h]
  rfl

/-- A payload survives its envelope.  A valid instance of a schema without wildcards and without
attributes of the name `xmlns`, built from a value without finished instances, fits into an
envelope if it is two levels less deep than one; the envelope is valid and is written, and what is
read from its document is equal to it and holds in its body one element, which the schema of the
payload reads as the payload. -/
theorem parse_envelope {schema : Schema} (hassembled : schema.Assembled)
    (hclosed : schema.WithoutWildcards) (hunbound : schema.WithoutAttribute "xmlns")
    (huri : schema.target.uri ≠ "") (hverbatim : schema.target.IsVerbatim)
    (hpreferred : schema.target.preferredPrefix = "" ∨
      isNCName schema.target.preferredPrefix = true)
    {element : String} {decl : ElementDecl} {value : Value} {payload : Instance}
    (hdecl : schema.element? element = some decl)
    (hloose : schema.isLoose value decl.type = true)
    (hbuilt : schema.construct element value = .ok payload)
    (hvalid : schema.isValid payload = true) (hdepth : payload.depth ≤ 62)
    {options : RenderOptions} (hroom : Soap.schema.limits.depth ≤ options.maxDepth) :
    ∃ env, envelope (.built payload) = .ok env ∧ Soap.schema.isValid env = true ∧
      ∃ text, env.serialize options = .ok text ∧
        (text.utf8ByteSize ≤ Soap.schema.limits.size →
          Everywhere (fun element => element.attributes.size ≤ Soap.schema.limits.attributes)
            env.toElement →
          ∃ read body child, parse text = .ok read ∧ read.same env = true ∧
            read.child? "Body" = some body ∧ body.wildcardOf "any" = [child] ∧
            schema.decodeElement child = .ok payload) := by
  obtain ⟨hmem, _⟩ := Schema.mem_of_element? hdecl
  have hshaped := shaped_of_construct hassembled hdecl hloose hbuilt
  have hregular := Schema.regular_of_shaped hassembled hclosed hshaped
    (Schema.isTyped_of_mem hassembled hclosed hmem)
  have hlacks := Schema.lacks_of_shaped hunbound hshaped (Schema.all_of_mem_elements hunbound hmem)
  have hagain := Schema.decodeElement_of_shaped hassembled hclosed hdecl hshaped hvalid
  have htree : payload.toElement.depth ≤ 62 := by rwa [Instance.depth_toElement]
  obtain ⟨text, htext⟩ := exists_serialize_enclosed htree hroom
  refine ⟨_, envelope_built hdepth, isValid_enclosed htree, text, htext, ?_⟩
  intro hsize hattributes
  have hwritable : Everywhere (Writable IsFreeSpace) payload.toElement :=
    Instance.writable_toElement ⟨huri, hverbatim.unreserved⟩ hpreferred hregular
  have hread := parse_enclosed htree hwritable (Instance.unmixed_toElement hregular) hattributes
    hsize htext
  have hnames := Instance.keepsNames_toElement hverbatim.plain hregular hlacks
  refine ⟨_, _, _, hread, same_enclosed ?_, rfl, rfl, ?_⟩
  · exact Xml.Element.same_reread hnames (Instance.keepsText_toElement hregular)
  · exact Schema.decodeElement_reread hclosed hregular hverbatim.plain hlacks hagain

/-- A declaration of parcels with items, addressed by an attribute. -/
def parcelDecl : ElementDecl :=
  ⟨"parcel",
    .complex ⟨none, .sequence [.element ⟨"item", .simple (.ofKind .string), .oneOrMore⟩],
      [⟨"to", .ofKind .string, true⟩]⟩,
    .once⟩

/-- The schema of parcels.  Its namespace asks for the prefix of the envelope. -/
def parcels : Schema :=
  ⟨⟨"urn:parcels", "soap"⟩, [], [parcelDecl], {}⟩

/-- The schema of parcels is what defining the parcel gives. -/
theorem define_parcels :
    Schema.define ⟨"urn:parcels", "soap"⟩ [.element parcelDecl] = .ok parcels := rfl

/-- A parcel with one item. -/
def parcel : Instance :=
  ⟨"parcel", parcels.target,
    .fields
      [("item", .many [⟨"item", parcels.target, .scalar (.ofDatum .string (.text "a < b"))⟩])]
      [("to", .ofDatum .string (.text "\"R & D\""))]⟩

/-- The parcel is built from its value. -/
theorem construct_parcel :
    parcels.construct "parcel"
      (.map [("item", .list [.text "a < b"]), ("to", .text "\"R & D\"")]) = .ok parcel := rfl

/-- The parcel is two deep. -/
theorem depth_parcel : parcel.depth = 2 :=
  Instance.depth_eq_height parcel

/-- The parcel is valid. -/
theorem isValid_parcel : parcels.isValid parcel = true := by
  rw [Schema.isValid_eq_true_iff, depth_parcel]
  exact ⟨rfl, by decide, parcelDecl, rfl, rfl⟩

/-- The document of the envelope around the parcel, whose namespace gets a made-up prefix as the
preferred one is taken. -/
theorem serialize_enclosed_parcel :
    (enclosed parcel.toElement).serialize {} =
      .ok ("<soap:Envelope xmlns:soap=\"http://schemas.xmlsoap.org/soap/envelope/\" "
        ++ "xmlns:ns1=\"urn:parcels\"><soap:Body><ns1:parcel to=\"&quot;R &amp; D&quot;\">"
        ++ "<ns1:item>a &lt; b</ns1:item></ns1:parcel></soap:Body></soap:Envelope>") := by
  have hdepth : (enclosed parcel.toElement).depth = 4 := by
    rw [depth_enclosed, Instance.depth_toElement, depth_parcel]
  unfold Instance.serialize Xml.render
  rw [Instance.depth_toElement, hdepth]
  decide +kernel

/-- A parcel is read back from its envelope. -/
theorem parse_envelope_parcel :
    ∃ env text read body child, envelope (.built parcel) = .ok env ∧
      env.serialize {} = .ok text ∧ parse text = .ok read ∧ read.same env = true ∧
      read.child? "Body" = some body ∧ body.wildcardOf "any" = [child] ∧
      parcels.decodeElement child = .ok parcel := by
  have hverbatim : parcels.target.IsVerbatim := by
    constructor
    · unfold Xml.Element.IsReservedSpace
      decide
    · exact Xml.isPlainSpace_iff.2 (by decide)
  have hdepth : parcel.depth ≤ 62 := by
    rw [depth_parcel]
    decide
  have hroom : schema.limits.depth ≤ ({} : RenderOptions).maxDepth := Nat.le_refl _
  obtain ⟨env, henvelope, _, text, htext, hread⟩ := parse_envelope
    (Schema.assembled_of_define define_parcels) rfl rfl (by decide) hverbatim (Or.inr (by decide))
    rfl rfl construct_parcel isValid_parcel hdepth hroom
  obtain rfl : enclosed parcel.toElement = env := by
    rw [envelope_built hdepth] at henvelope
    exact Except.ok.inj henvelope
  have hsize : text.utf8ByteSize ≤ schema.limits.size := by
    rw [serialize_enclosed_parcel] at htext
    rw [← Except.ok.inj htext]
    decide +kernel
  have hattributes : Everywhere
      (fun element => element.attributes.size ≤ schema.limits.attributes)
      (enclosed parcel.toElement).toElement := by
    refine everywhere_wrapper (by decide) (everywhere_wrapper (by decide) ?_)
    exact Xml.Element.everywhere_shallow (by decide)
      (List.forall_mem_singleton.2 ⟨by decide, rfl⟩)
  obtain ⟨read, body, child, hparse, hrest⟩ := hread hsize hattributes
  exact ⟨_, text, read, body, child, henvelope, htext, hparse, hrest⟩

end Soap

end TypedXml
