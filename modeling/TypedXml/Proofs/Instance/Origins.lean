import TypedXml.Proofs.Instance.Built
import TypedXml.Proofs.Instance.DepthLimit
import TypedXml.Proofs.Instance.Rejection

/-!
# Where instances come from

An instance is built from a value or read from an element.  Where the value is one of plain data,
each node of the instance is built from plain data again, and so in both cases a condition holds of
all nodes if it holds of one node that is just built or read.  One such condition is that scalars
hold octets only under the kinds of octets: every other scalar has come from a text, a number or a
truth value.
-/

set_option autoImplicit false

namespace TypedXml

/-! ## Plain data -/

/-- Whether a value is made of nothing, texts, integers and truth values, by lists and mappings. -/
inductive Value.IsData : Value → Prop
  | null : IsData .null
  | text (s : String) : IsData (.text s)
  | int (n : Int64) : IsData (.int n)
  | boolean (b : Bool) : IsData (.boolean b)
  | list {items : List Value} (data : ∀ item ∈ items, IsData item) : IsData (.list items)
  | map {entries : List (String × Value)} (data : ∀ entry ∈ entries, IsData entry.2) :
      IsData (.map entries)

namespace Value.IsData

variable {value slot part : Value}

/-- Plain data is no finished instance. -/
theorem ne_built (h : value.IsData) (node : Instance) : value ≠ .built node := by
  rintro rfl
  cases h

/-- What plain data has under a key is plain data. -/
theorem of_lookup (h : value.IsData) (keys : List String) {key : String}
    (hslot : (value.entries keys).lookup key = some slot) : slot.IsData := by
  cases h with
  | list data => exact data slot (List.of_mem_zip (mem_of_lookup hslot)).2
  | map data => exact data (key, slot) (mem_of_lookup hslot)
  | _ => cases hslot

/-- The parts of plain data are plain data. -/
theorem of_mem_parts (h : value.IsData) (hpart : part ∈ value.parts) : part.IsData := by
  cases h with
  | list data => exact data part hpart
  | null | text | int | boolean | map =>
    obtain rfl := List.mem_singleton.1 hpart
    constructor <;> assumption

end Value.IsData

namespace Schema

variable {schema : Schema} {type : TypeRef}

/-- A value by position holds no finished instance if none of its items does. -/
theorem looseParts_of_forall {keys : List String} {items : List Value}
    (h : ∀ item ∈ items, ∀ slot, schema.looseSlot item slot = true) :
    schema.looseParts type keys items = true := by
  induction items generalizing keys with
  | nil => cases keys <;> rfl
  | cons item rest ih =>
    rw [List.forall_mem_cons] at h
    cases keys with
    | nil => rfl
    | cons key keys => rw [looseParts, h.1, ih h.2, Bool.and_self]

/-- A value by key holds no finished instance if none of its entries does. -/
theorem looseEntries_of_forall {entries : List (String × Value)}
    (h : ∀ entry ∈ entries, ∀ slot, schema.looseSlot entry.2 slot = true) :
    schema.looseEntries type entries = true := by
  induction entries with
  | nil => rfl
  | cons entry rest ih =>
    rw [List.forall_mem_cons] at h
    rw [looseEntries, h.1, ih h.2, Bool.and_self]

/-- A repeated part holds no finished instance if none of its items does. -/
theorem looseAll_of_forall {items : List Value}
    (h : ∀ item ∈ items, schema.isLoose item type = true) :
    schema.looseAll type items = true := by
  induction items with
  | nil => rfl
  | cons item rest ih =>
    rw [List.forall_mem_cons] at h
    rw [looseAll, h.1, ih h.2, Bool.and_self]

end Schema

/-- Plain data holds no finished instance, whatever the type that it is for. -/
theorem Value.IsData.isLoose (schema : Schema) {value : Value} (h : value.IsData) :
    (∀ type, schema.isLoose value type = true) ∧ ∀ slot, schema.looseSlot value slot = true := by
  induction h with
  | null | text | int | boolean => exact ⟨fun _ => rfl, fun _ => rfl⟩
  | list data ih =>
    refine ⟨fun type => ?_, fun slot => ?_⟩
    · rw [Schema.isLoose]
      exact Schema.looseParts_of_forall fun item hitem => (ih item hitem).2
    · cases slot with
      | none => rfl
      | some particle =>
        cases particle with
        | any wildcard => rfl
        | element decl =>
          rw [Schema.looseSlot]
          exact Schema.looseAll_of_forall fun item hitem => (ih item hitem).1 decl.type
  | map data ih =>
    have hentries : ∀ type, schema.looseEntries type _ = true := fun type =>
      Schema.looseEntries_of_forall fun entry hentry => (ih entry hentry).2
    refine ⟨fun type => ?_, fun slot => ?_⟩
    · rw [Schema.isLoose]
      exact hentries type
    · cases slot with
      | none => rfl
      | some particle =>
        cases particle with
        | any wildcard => rfl
        | element decl =>
          rw [Schema.looseSlot]
          exact hentries decl.type

/-! ## Nodes built from plain data -/

namespace Schema

variable {schema : Schema}

/-- Every node of what is placed is placed itself, for a value of plain data. -/
theorem everywhere_of_place {p : Instance → Prop}
    (hnode : ∀ levels depth decl value node, value.IsData →
      schema.place levels depth decl value = .ok node → p node) {levels depth : Nat}
    {decl : ElementDecl} {value : Value} {node : Instance} (hdata : value.IsData)
    (h : schema.place levels depth decl value = .ok node) : node.Everywhere p := by
  induction levels generalizing depth decl value node with
  | zero => cases h
  | succ levels ih =>
    refine .intro (hnode _ _ _ _ _ hdata h) ?_
    obtain ⟨_, _, hbuilds⟩ := builds_of_place hdata.ne_built h
    cases hbuilds with
    | scalar => rintro item ⟨⟩
    | text => rintro item ⟨⟩
    | @fields complex particles built scalars content parts given =>
      have hfields : FieldsShaped (fun _ item => item.Everywhere p) particles built := by
        refine Construction.fields_shaped ?_ parts
        intro child _ slot hslot part hpart item hitem
        exact ih ((hdata.of_lookup _ hslot).of_mem_parts hpart) hitem
      intro item hitem
      obtain ⟨_, _, hinside⟩ := hfields.exists_decl hitem
      exact hinside

end Schema

/-! ## Where octets stand -/

/-- Whether a scalar holds octets only if its kind is one of octets. -/
def Scalar.PlacesOctets (scalar : Scalar) : Prop :=
  ∀ octets, scalar.value = .bytes octets → scalar.kind.isBinary = true

/-- Whether the scalars that a node holds itself have octets only under the kinds of octets. -/
def Instance.PlacesOctets (node : Instance) : Prop :=
  ∀ scalar ∈ node.ownScalars, scalar.PlacesOctets

namespace Kind

variable {kind : Kind} {octets : Octets}

/-- Only kinds of octets read octets. -/
theorem isBinary_of_read? {text : String} (h : kind.read? text = some (.bytes octets)) :
    kind.isBinary = true := by
  cases kind with
  | string => cases h
  | int | boolean =>
    rw [read?, Option.map_eq_some_iff] at h
    obtain ⟨_, _, h⟩ := h
    cases h
  | hexBinary | base64Binary => rfl

/-- Only kinds of octets bring another value to octets. -/
theorem isBinary_of_coerce {datum : Datum} (hdatum : ∀ octets, datum ≠ .bytes octets)
    (h : kind.coerce datum = .bytes octets) : kind.isBinary = true := by
  have hread : ∀ text, (kind.read? text).getD (.text text) = .bytes octets →
      kind.isBinary = true := by
    intro text htext
    cases hread : kind.read? text with
    | none =>
      rw [hread] at htext
      cases htext
    | some value =>
      rw [hread, Option.getD_some] at htext
      rw [htext] at hread
      exact isBinary_of_read? hread
  cases datum with
  | text text =>
    cases kind with
    | string => cases h
    | int | boolean => exact hread text h
    | hexBinary | base64Binary => rfl
  | int n => cases kind <;> cases h
  | boolean b => cases kind <;> cases h
  | bytes b => exact absurd rfl (hdatum b)

end Kind

/-- A scalar that is read has octets only under a kind of octets. -/
theorem Scalar.placesOctets_of_read? {kind : Kind} {text : String} {scalar : Scalar}
    (hkind : scalar.kind = kind) (hread : kind.read? text = some scalar.value) :
    scalar.PlacesOctets := by
  intro octets hvalue
  rw [hvalue] at hread
  rw [hkind]
  exact Kind.isBinary_of_read? hread

namespace Construction

variable {place : Placing} {name : String} {entries : List (String × Value)} {value : Value}

/-- A scalar that is made from plain data has octets only under a kind of octets. -/
theorem placesOctets_of_ofValue {kind : Kind} {scalar : Scalar} (hdata : value.IsData)
    (h : Scalar.ofValue kind name value = .ok scalar) : scalar.PlacesOctets := by
  cases hdata with
  | null | text | int | boolean =>
    cases h
    exact fun octets => Kind.isBinary_of_coerce nofun
  | list | map => cases h

/-- Attributes that are made from plain data have octets only under kinds of octets. -/
theorem placesOctets_of_attributes {decls : List AttributeDecl} {scalars : List (String × Scalar)}
    (hdata : ∀ key slot, entries.lookup key = some slot → slot.IsData)
    (h : attributes entries decls = .ok scalars) : ∀ entry ∈ scalars, entry.2.PlacesOctets := by
  induction decls generalizing scalars with
  | nil =>
    cases h
    exact nofun
  | cons decl rest ih =>
    rw [attributes] at h
    split at h
    · exact ih h
    · exact ih h
    · next value _ hvalue =>
      obtain ⟨scalar, hscalar, h⟩ := bind_eq_ok.1 h
      obtain ⟨others, hothers, h⟩ := bind_eq_ok.1 h
      cases h
      exact List.forall_mem_cons.2
        ⟨placesOctets_of_ofValue (hdata _ _ hvalue) hscalar, ih hothers⟩

/-- A text that is made from plain data has octets only under a kind of octets, and so have its
attributes. -/
theorem placesOctets_of_text {type : ComplexType} {base : SimpleType} {scalar : Scalar}
    {scalars : List (String × Scalar)} (hdata : value.IsData)
    (h : text name type base value = .ok (.text scalar scalars)) :
    scalar.PlacesOctets ∧ ∀ entry ∈ scalars, entry.2.PlacesOctets := by
  have hentries : ∀ {entries : List (String × Value)},
      (∀ key slot, entries.lookup key = some slot → slot.IsData) →
        textOfEntries name type base entries = .ok (.text scalar scalars) →
          scalar.PlacesOctets ∧ ∀ entry ∈ scalars, entry.2.PlacesOctets := by
    intro entries hentries h
    obtain ⟨_, _, heq, hscalar, hscalars, _⟩ := parts_of_textOfEntries h
    cases heq
    refine ⟨placesOctets_of_ofValue ?_ hscalar, placesOctets_of_attributes hentries hscalars⟩
    cases hlookup : entries.lookup textKey with
    | none => exact .null
    | some slot => exact hentries _ _ hlookup
  unfold text at h
  split at h
  · exact hentries (fun _ _ => hdata.of_lookup []) h
  · next items =>
    obtain ⟨entries, hpositional, h⟩ := bind_eq_ok.1 h
    rw [positional] at hpositional
    split at hpositional
    · cases hpositional
    · cases hpositional
      exact hentries (fun _ _ => hdata.of_lookup type.keys) h
  · obtain ⟨found, hfound, h⟩ := bind_eq_ok.1 h
    cases h
    refine ⟨placesOctets_of_ofValue hdata hfound, ?_⟩
    rintro entry ⟨⟩

end Construction

namespace Instance

variable {name : String} {space : Namespace}

/-- A node with a scalar alone holds no other one. -/
theorem placesOctets_scalar {value : Scalar} (h : value.PlacesOctets) :
    PlacesOctets ⟨name, space, .scalar value⟩ :=
  List.forall_mem_singleton.2 h

/-- A node with a scalar and attributes holds no other ones. -/
theorem placesOctets_text {value : Scalar} {attributes : List (String × Scalar)}
    (hvalue : value.PlacesOctets) (hattributes : ∀ entry ∈ attributes, entry.2.PlacesOctets) :
    PlacesOctets ⟨name, space, .text value attributes⟩ :=
  List.forall_mem_cons.2 ⟨hvalue, List.forall_mem_map.2 hattributes⟩

/-- A node with fields holds the scalars of its attributes itself. -/
theorem placesOctets_fields {entries : List (String × Field)}
    {attributes : List (String × Scalar)}
    (hattributes : ∀ entry ∈ attributes, entry.2.PlacesOctets) :
    PlacesOctets ⟨name, space, .fields entries attributes⟩ :=
  List.forall_mem_map.2 hattributes

end Instance

namespace Schema

variable {schema : Schema}

/-- A node that is made from plain data has octets only under kinds of octets. -/
theorem placesOctets_of_place {levels depth : Nat} {decl : ElementDecl} {value : Value}
    {node : Instance} (hdata : value.IsData)
    (h : schema.place levels depth decl value = .ok node) : node.PlacesOctets := by
  cases levels with
  | zero => cases h
  | succ levels =>
    obtain ⟨_, _, hbuilds⟩ := builds_of_place hdata.ne_built h
    cases hbuilds with
    | scalar given =>
      exact Instance.placesOctets_scalar (Construction.placesOctets_of_ofValue hdata given)
    | text content given =>
      obtain ⟨hscalar, hscalars⟩ := Construction.placesOctets_of_text hdata given
      exact Instance.placesOctets_text hscalar hscalars
    | fields content parts given =>
      exact Instance.placesOctets_fields
        (Construction.placesOctets_of_attributes (fun _ _ => hdata.of_lookup _) given)

/-- Attributes that are read have octets only under kinds of octets. -/
theorem AttributesRead.placesOctets {attributes : Xml.Attributes} {decls : List AttributeDecl}
    {scalars : List (String × Scalar)} (h : AttributesRead attributes decls scalars) :
    ∀ entry ∈ scalars, entry.2.PlacesOctets := by
  induction h with
  | done => exact nofun
  | absent missing optional others ih => exact ih
  | present found kind read others ih =>
    exact List.forall_mem_cons.2 ⟨Scalar.placesOctets_of_read? kind read, ih⟩

/-- A node that is read has octets only under kinds of octets. -/
theorem Reads.placesOctets {element : Xml.Element} {localName : String} {type : TypeRef}
    {node : Instance} (h : Reads schema element localName type node) : node.PlacesOctets := by
  cases h with
  | scalar resolved childless kind read =>
    exact Instance.placesOctets_scalar (Scalar.placesOctets_of_read? kind read)
  | text resolved content childless kind read scalars =>
    exact Instance.placesOctets_text (Scalar.placesOctets_of_read? kind read) scalars.placesOctets
  | fields resolved content parts scalars =>
    exact Instance.placesOctets_fields scalars.placesOctets

/-! ## Instances of a top-level element -/

/-- Whether an instance of a top-level element is built from plain data or read from an element. -/
inductive Produces (schema : Schema) (name : String) (node : Instance) : Prop
  | built {value : Value} (data : value.IsData) (built : schema.construct name value = .ok node)
  | read {element : Xml.Element} (named : element.name.localName = name)
      (read : schema.decodeElement element = .ok node)

variable {name : String} {node : Instance}

/-- What is known of an instance of a top-level element, wherever it comes from. -/
theorem Produces.shaped (hassembled : schema.Assembled) (h : schema.Produces name node) :
    ∃ decl, schema.element? name = some decl ∧ Shaped schema decl node ∧
      node.height ≤ schema.limits.depth ∧ node.Everywhere Instance.PlacesOctets := by
  cases h with
  | built data built =>
    obtain ⟨decl, hdecl, hplace⟩ := bind_eq_ok.1 built
    rw [element_eq_ok] at hdecl
    have hdepth := depth_le_of_construct built
    rw [Instance.depth_eq_height] at hdepth
    exact ⟨decl, hdecl, shaped_of_construct hassembled hdecl ((data.isLoose schema).1 _) built,
      hdepth, everywhere_of_place (fun _ _ _ _ _ => placesOctets_of_place) data hplace⟩
  | @read element named read =>
    obtain ⟨hdepth, decl, hroot, hread⟩ := decodeElement_eq_ok.1 read
    rw [← named]
    have hdecl := (rootDecl?_eq_some.1 hroot).2
    have hheight := height_le_of_decode element hread
    rw [Xml.Element.depth_eq_height] at hdepth
    have hplaces : node.Everywhere Instance.PlacesOctets :=
      everywhere_of_decode (fun _ _ _ _ _ => Reads.placesOctets)
        (Xml.Element.Everywhere.of_forall (fun _ => trivial) element) hread
    exact ⟨decl, hdecl, shaped_of_decode element hread, hheight.trans hdepth, hplaces⟩

end Schema

end TypedXml
