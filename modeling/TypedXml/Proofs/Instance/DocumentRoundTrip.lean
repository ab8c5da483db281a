import TypedXml.Proofs.Instance.Regular

/-!
# Valid instances and their documents

Writing an instance as a document and reading the document gives the instance back if the document
leaves its names as they are.  It does not do so for every schema: a namespace with special
characters is read with references in it, a reserved namespace cannot be declared at all, and an
attribute of the name `xmlns` is taken for a declaration.  `deserialize_serialize` says that these
are the only exceptions, and that none of them gives the instance back.
-/

set_option autoImplicit false

namespace TypedXml

/-! ## Attributes that are taken for declarations -/

namespace Xml.Element

/-- No attribute that is read without a namespace has the name `xmlns`. -/
theorem localName_of_rereadFrom {entries : List (Name × String)}
    (hspaces : ∀ entry ∈ entries, entry.1.space = none) (read : Attributes)
    (hread : ∀ name ∈ Entries.keys read.entries, name.localName ≠ "xmlns") :
    ∀ name ∈ Entries.keys (read.rereadFrom entries).entries, name.localName ≠ "xmlns" := by
  induction entries generalizing read with
  | nil => exact hread
  | cons entry rest ih =>
    rw [List.forall_mem_cons] at hspaces
    unfold Attributes.rereadFrom
    rw [List.foldl_cons]
    split
    · exact ih hspaces.2 read hread
    · next hne =>
      refine ih hspaces.2 _ ?_
      intro name hname
      rcases Entries.mem_keys_insert.1 hname with rfl | hold
      · obtain ⟨⟨space, localName⟩, value⟩ := entry
        cases hspaces.1
        intro heq
        apply hne
        rw [Name.unqualified, ← heq]
        rfl
      · exact hread name hold

/-- An attribute of the name `xmlns` is not among those that are read. -/
theorem valueOf?_reread {attributes : Attributes}
    (hspaces : ∀ entry ∈ attributes.entries, entry.1.space = none) :
    attributes.reread.valueOf? "xmlns" = none := by
  have hread := localName_of_rereadFrom hspaces .empty (by
    rintro name ⟨⟩)
  unfold Attributes.valueOf?
  rw [Option.map_eq_none_iff, List.find?_eq_none]
  intro entry hentry hname
  exact hread entry.1 (List.mem_map_of_mem hentry) (eq_of_beq hname)

/-- A condition on attributes that holds everywhere as they are read holds in the tree that is
read. -/
theorem everywhere_reread {p : Attributes → Prop} {table : PrefixTable} {element : Element}
    (h : Everywhere (fun element => p element.attributes.reread) element) :
    ∀ unprefixed, Everywhere (fun element => p element.attributes)
      (element.reread table unprefixed) := by
  induction h with
  | intro root _ ih =>
    intro unprefixed
    rw [reread_eq]
    refine .intro root ?_
    intro child hchild
    obtain ⟨other, hother, rfl⟩ := List.mem_map.1 hchild
    exact ih other hother _

end Xml.Element

/-! ## The round trip through a document -/

/-- Whether a namespace is read from its declaration as it is. -/
structure Namespace.IsVerbatim (space : Namespace) : Prop where
  unreserved : ¬ Xml.Element.IsReservedSpace space.uri
  plain : Xml.IsPlainSpace space.uri

namespace Schema

variable {schema : Schema} {node : Instance} {options : RenderOptions} {text : String}

/-- The document of an instance is that of its element tree. -/
theorem render_of_serialize (h : node.serialize options = .ok text) :
    Xml.render options node.toElement = .ok text := by
  rwa [Instance.serialize_eq_render] at h

/-- In a reserved namespace no document is read. -/
theorem deserialize_reserved (hregular : node.Everywhere (Instance.IsRegular schema.target))
    (hpreferred : isNCName schema.target.preferredPrefix = true)
    (hreserved : Xml.Element.IsReservedSpace schema.target.uri)
    (h : node.serialize options = .ok text) (read : Instance) :
    schema.deserialize text ≠ .ok read := by
  intro hread
  obtain ⟨root, hroot, _⟩ := bind_eq_ok.1 hread
  have hwritable : Xml.Element.Everywhere (Xml.Element.Writable fun _ => True) node.toElement :=
    Instance.writable_toElement trivial (Or.inr hpreferred) hregular
  have hspace : node.toElement.name.space = some schema.target.uri := by
    rw [Instance.toElement_name, Instance.qualifiedName, hregular.root.space]
    rfl
  exact Xml.parse_render_reserved hwritable (Or.inr (Instance.unmixed_toElement hregular))
    hspace hreserved (render_of_serialize h) root hroot

/-- In any other namespace the tree of the instance is read, as it comes back. -/
theorem deserialize_eq (hregular : node.Everywhere (Instance.IsRegular schema.target))
    (hpreferred : isNCName schema.target.preferredPrefix = true)
    (hfree : Xml.Element.IsFreeSpace schema.target.uri)
    (hattributes : Xml.Element.Everywhere
      (fun element => element.attributes.size ≤ schema.limits.attributes) node.toElement)
    (hdepth : node.depth ≤ schema.limits.depth) (hsize : text.utf8ByteSize ≤ schema.limits.size)
    (h : node.serialize options = .ok text) :
    schema.deserialize text =
      schema.decodeElement (node.toElement.reread node.toElement.prefixes none) := by
  have hwritable := Instance.writable_toElement hfree (Or.inr hpreferred) hregular
  rw [← Instance.depth_toElement] at hdepth
  have hparse := Xml.parse_render hwritable
    (Or.inr (Instance.unmixed_toElement hregular)) hattributes hdepth hsize (render_of_serialize h)
  unfold deserialize
  rw [bind_of_eq_ok hparse]

/-- A tree that comes back is read by the schema only if its namespace comes back as it was. -/
theorem plain_of_decodeElement {table : PrefixTable} {read : Instance}
    (hspace : node.space = schema.target)
    (h : schema.decodeElement (node.toElement.reread table none) = .ok read) :
    Xml.IsPlainSpace schema.target.uri := by
  obtain ⟨_, decl, hroot, _⟩ := decodeElement_eq_ok.1 h
  have hname := (rootDecl?_eq_some.1 hroot).1
  rw [Xml.reread_eq] at hname
  unfold Xml.Element.opened at hname
  rw [Instance.toElement_name, Instance.qualifiedName, hspace] at hname
  have hsame : readSpace schema.target.uri = schema.target.uri := Option.some.inj hname
  unfold readSpace at hsame
  rw [← String.toList_inj, String.toList_ofList] at hsame
  exact Xml.escape_eq_self.1 hsame

/-- What is read from the tree that comes back is equal to the instance only if no node of it has
an attribute of the name `xmlns`. -/
theorem lacks_of_decodeElement (hassembled : schema.Assembled) (hclosed : schema.WithoutWildcards)
    (hregular : node.Everywhere (Instance.IsRegular schema.target)) {table : PrefixTable}
    {read : Instance}
    (h : schema.decodeElement (node.toElement.reread table none) = .ok read)
    (hsame : read.same node = true) : node.Everywhere (Instance.Lacks "xmlns") := by
  obtain ⟨_, decl, hroot, hread⟩ := decodeElement_eq_ok.1 h
  have hdecl := (mem_of_element? (rootDecl?_eq_some.1 hroot).2).1
  have hreadRegular := regular_of_shaped hassembled hclosed (shaped_of_decode _ hread)
    (isTyped_of_mem hassembled hclosed hdecl)
  have hunqualified : Xml.Element.Everywhere
      (fun element => element.attributes.reread.valueOf? "xmlns" = none) node.toElement := by
    refine Instance.everywhere_toElement hregular (hregular.imp ?_)
    intro node hnode
    apply Xml.Element.valueOf?_reread
    rw [Instance.entries_attributes_toElement hnode.keys, List.forall_mem_map]
    exact fun _ _ => rfl
  have hnone : Xml.Element.Everywhere
      (fun element => element.attributes.valueOf? "xmlns" = none)
      (node.toElement.reread table none) :=
    Xml.Element.everywhere_reread (p := fun attributes => attributes.valueOf? "xmlns" = none)
      hunqualified none
  have hlacks := lacks_of_decode hnone hread
  exact Instance.lacks_of_same (hregular.imp fun _ hnode => hnode.keys)
    (hreadRegular.imp fun _ hnode => hnode.keys) hlacks hsame

/-- Where the names are kept, the tree that comes back is read as the instance. -/
theorem decodeElement_reread (hclosed : schema.WithoutWildcards) {table : PrefixTable}
    (hregular : node.Everywhere (Instance.IsRegular schema.target))
    (hplain : Xml.IsPlainSpace schema.target.uri)
    (hlacks : node.Everywhere (Instance.Lacks "xmlns"))
    (h : schema.decodeElement node.toElement = .ok node) :
    schema.decodeElement (node.toElement.reread table none) = .ok node := by
  obtain ⟨hdepth, decl, hroot, hread⟩ := decodeElement_eq_ok.1 h
  have hnames := Instance.keepsNames_toElement hplain hregular hlacks
  have hname : (node.toElement.reread table none).name = node.toElement.name := by
    rw [Xml.Element.reread_of_keepsNames hnames.root]
  have hmem := (mem_of_element? (rootDecl?_eq_some.1 hroot).2).1
  refine decodeElement_eq_ok.2 ⟨?_, decl, ?_, ?_⟩
  · rw [Xml.Element.depth_eq_height] at hdepth ⊢
    rwa [Xml.height_reread]
  · rw [rootDecl?_eq_some, hname]
    exact rootDecl?_eq_some.1 hroot
  · exact decode_reread hclosed hnames (Instance.keepsText_toElement hregular)
      (all_of_mem_elements hclosed hmem) hread

/-- The law of documents: a valid instance of a schema without wildcards, built from a value
without finished instances, is read back from its document if and only if its namespace is read as
it is and no node has an attribute of the name `xmlns`.  Otherwise nothing is read, or something
else than the instance. -/
theorem deserialize_serialize (hassembled : schema.Assembled) (hclosed : schema.WithoutWildcards)
    (huri : schema.target.uri ≠ "") (hpreferred : isNCName schema.target.preferredPrefix = true)
    {name : String} {decl : ElementDecl} {value : Value}
    (hdecl : schema.element? name = some decl)
    (hloose : schema.isLoose value decl.type = true)
    (hbuilt : schema.construct name value = .ok node) (hvalid : schema.isValid node = true)
    (h : node.serialize options = .ok text) (hsize : text.utf8ByteSize ≤ schema.limits.size)
    (hattributes : Xml.Element.Everywhere
      (fun element => element.attributes.size ≤ schema.limits.attributes) node.toElement) :
    (schema.target.IsVerbatim ∧ node.Everywhere (Instance.Lacks "xmlns") →
      schema.deserialize text = .ok node) ∧
    (¬ (schema.target.IsVerbatim ∧ node.Everywhere (Instance.Lacks "xmlns")) →
      ∀ read, schema.deserialize text = .ok read → read.same node = false) := by
  obtain ⟨hmem, hname⟩ := mem_of_element? hdecl
  have htyped := isTyped_of_mem hassembled hclosed hmem
  have hshaped := shaped_of_construct hassembled hdecl hloose hbuilt
  have hregular := regular_of_shaped hassembled hclosed hshaped htyped
  have hfound : schema.element? node.name = some decl := by
    rw [hshaped.name, hname]
    exact hdecl
  unfold isValid at hvalid
  rw [Bool.and_eq_true, Bool.and_eq_true, decide_eq_true_eq, hfound] at hvalid
  obtain ⟨⟨_, hdepth⟩, hconforms⟩ := hvalid
  -- without wildcards nothing has to be kept apart from declarations
  have hagain : schema.decodeElement node.toElement = .ok node := by
    have hread := recovered_of_shaped hassembled (singleWildcards_of_withoutWildcards hclosed)
      hshaped htyped.isPlain hconforms (wildcardsApart_of_shaped hassembled hclosed hshaped htyped)
    exact hread.decodeElement (hname ▸ hdecl) hdepth
  constructor
  · rintro ⟨⟨hunreserved, hplain⟩, hlacks⟩
    rw [deserialize_eq hregular hpreferred ⟨huri, hunreserved⟩ hattributes hdepth hsize h]
    exact decodeElement_reread hclosed hregular hplain hlacks hagain
  · intro hexception read hread
    by_contra hsame
    rw [Bool.not_eq_false] at hsame
    apply hexception
    -- a document that is read at all has told the namespace, and an equal instance the attributes
    by_cases hreserved : Xml.Element.IsReservedSpace schema.target.uri
    · exact absurd hread (deserialize_reserved hregular hpreferred hreserved h read)
    · rw [deserialize_eq hregular hpreferred ⟨huri, hreserved⟩ hattributes hdepth hsize h] at hread
      exact ⟨⟨hreserved, plain_of_decodeElement hregular.root.space hread⟩,
        lacks_of_decodeElement hassembled hclosed hregular hread hsame⟩

/-- A declaration of notes: text with an attribute that a document has another use for. -/
def noteDecl : ElementDecl :=
  ⟨"note", .complex ⟨none, .simple (.ofKind .string), [⟨"xmlns", .ofKind .string, false⟩]⟩, .once⟩

/-- The schema of notes in the namespace of a URI. -/
def noteSchema (uri : String) : Schema :=
  ⟨⟨uri, "n"⟩, [], [noteDecl], {}⟩

/-- The schema of notes is what defining them gives. -/
theorem define_noteSchema (uri : String) :
    Schema.define ⟨uri, "n"⟩ [.element noteDecl] = .ok (noteSchema uri) := rfl

/-- A note without the attribute. -/
def note (uri : String) : Instance :=
  ⟨"note", ⟨uri, "n"⟩, .text (.ofDatum .string (.text "a < b")) []⟩

/-- The note is built from its text. -/
theorem construct_note (uri : String) :
    (noteSchema uri).construct "note" (.text "a < b") = .ok (note uri) := rfl

/-- There is no wildcard in the schema of notes. -/
theorem withoutWildcards_noteSchema (uri : String) : (noteSchema uri).WithoutWildcards := rfl

/-- A note is one deep. -/
theorem depth_note (uri : String) : (note uri).depth = 1 :=
  Instance.depth_eq_height (note uri)

/-- The note is valid. -/
theorem isValid_note (uri : String) : (noteSchema uri).isValid (note uri) = true := by
  have hspace : ((note uri).space.uri == (noteSchema uri).target.uri) = true :=
    beq_self_eq_true uri
  unfold isValid
  rw [hspace, depth_note]
  rfl

/-- The document of the note is the text of its tokens. -/
theorem serialize_note {uri text : String}
    (h : String.ofList ((Xml.documentTokens {} (note uri).toElement).flatMap Xml.Token.write) =
      text) : (note uri).serialize {} = .ok text := by
  rw [Instance.serialize_eq_render, Xml.render_eq_ok, Instance.depth_toElement, depth_note]
  exact ⟨by decide, h⟩

/-- The note has no more attributes than are allowed. -/
theorem attributes_note (uri : String) :
    Xml.Element.Everywhere
      (fun element => element.attributes.size ≤ (noteSchema uri).limits.attributes)
      (note uri).toElement := by
  refine .intro (Nat.zero_le _) ?_
  rintro child ⟨⟩

/-- A note is read back from its document. -/
theorem deserialize_serialize_note :
    ∃ text, (note "urn:notes").serialize {} = .ok text ∧
      (noteSchema "urn:notes").deserialize text = .ok (note "urn:notes") := by
  have hassembled := assembled_of_define (define_noteSchema "urn:notes")
  have hdecl : (noteSchema "urn:notes").element? "note" = some noteDecl := rfl
  have htext : (note "urn:notes").serialize {} =
      .ok "<n:note xmlns:n=\"urn:notes\">a &lt; b</n:note>" := by
    apply serialize_note
    decide +kernel
  have hverbatim : (noteSchema "urn:notes").target.IsVerbatim := by
    constructor
    · unfold Xml.Element.IsReservedSpace
      decide
    · exact Xml.isPlainSpace_iff.2 (by decide)
  have hlacks : (note "urn:notes").Everywhere (Instance.Lacks "xmlns") := by
    refine .intro List.not_mem_nil ?_
    rintro item ⟨⟩
  have hlaw := deserialize_serialize hassembled (withoutWildcards_noteSchema _) (by decide)
    (by decide) hdecl rfl (construct_note "urn:notes") (isValid_note "urn:notes") htext
    (by decide +kernel) (attributes_note _)
  exact ⟨_, htext, hlaw.1 ⟨hverbatim, hlacks⟩⟩

/-- A note in a namespace with an ampersand is not read back from its document. -/
theorem deserialize_note_ampersand :
    Schema.define ⟨"urn:a&b", "n"⟩ [.element noteDecl] = .ok (noteSchema "urn:a&b") ∧
      (noteSchema "urn:a&b").construct "note" (.text "a < b") = .ok (note "urn:a&b") ∧
      (noteSchema "urn:a&b").isValid (note "urn:a&b") = true ∧
      ∃ text, (note "urn:a&b").serialize {} = .ok text ∧
        text.utf8ByteSize ≤ (noteSchema "urn:a&b").limits.size ∧
        ∀ read, (noteSchema "urn:a&b").deserialize text ≠ .ok read := by
  have hassembled := assembled_of_define (define_noteSchema "urn:a&b")
  have hclosed := withoutWildcards_noteSchema "urn:a&b"
  have hdecl : (noteSchema "urn:a&b").element? "note" = some noteDecl := rfl
  have hregular := regular_of_shaped hassembled hclosed
    (shaped_of_construct hassembled hdecl rfl (construct_note "urn:a&b"))
    (isTyped_of_mem hassembled hclosed (mem_of_element? hdecl).1)
  have htext : (note "urn:a&b").serialize {} =
      .ok "<n:note xmlns:n=\"urn:a&amp;b\">a &lt; b</n:note>" := by
    apply serialize_note
    decide +kernel
  have hfree : Xml.Element.IsFreeSpace "urn:a&b" := by
    refine ⟨by decide, ?_⟩
    unfold Xml.Element.IsReservedSpace
    decide
  refine ⟨define_noteSchema _, construct_note _, isValid_note _, _, htext, by decide +kernel, ?_⟩
  intro read hread
  have hdepth : (note "urn:a&b").depth ≤ (noteSchema "urn:a&b").limits.depth := by
    rw [depth_note]
    decide
  rw [deserialize_eq hregular (by decide) hfree (attributes_note _) hdepth (by decide +kernel)
    htext] at hread
  have hplain := plain_of_decodeElement hregular.root.space hread
  have hspecial := hplain '&' (by decide)
  cases hspecial

end Schema

end TypedXml
