import TypedXml.Proofs.Instance.DepthLimit
import TypedXml.Proofs.Instance.Reread

/-!
# Nothing, in values, instances and elements

A value that stands for nothing, an instance that holds nothing and an element without text,
children and attributes are three forms of one thing.  Under a type, nothing is built as one
content, which depends on the form of the type and the kind of its text alone; whatever is read
from an empty element is that content again.

Conversely an instance can be told to hold nothing by its element tree.  This needs that no field
is kept for nothing, which is so for whatever is read and for whatever is built without finished
instances.
-/

set_option autoImplicit false

namespace TypedXml

/-- An element without text, children or attributes. -/
structure Xml.Element.IsBare (element : Xml.Element) : Prop where
  text : element.text = none
  children : element.children = []
  attributes : element.attributes.entries = []

/-- What nothing is made of under a type. -/
def TypeDefinition.emptyContent : TypeDefinition → Content
  | .simple type => .scalar (Scalar.empty type.kind)
  | .complex type =>
    match type.content with
    | .simple base => .text (Scalar.empty base.kind) []
    | .sequence _ => .fields [] []

/-! ## Empty text -/

namespace Scalar

/-- The empty scalar is written as the empty text. -/
theorem lexical_empty (kind : Kind) : (empty kind).lexical = "" := by
  cases kind <;> rfl

/-- A kind that reads the empty text reads it as the empty scalar; the other kinds refuse it. -/
theorem eq_empty_of_read? {scalar : Scalar} {kind : Kind} (hkind : scalar.kind = kind)
    (h : kind.read? "" = some scalar.value) : scalar = empty kind := by
  refine Scalar.ext hkind (Option.some.inj (h.symm.trans ?_))
  cases kind with
  | string => rfl
  | int => cases h
  | boolean => cases h
  | hexBinary => rfl
  | base64Binary => rfl

/-- A scalar has no text if and only if it is written as the empty one. -/
theorem text?_eq_none_iff {scalar : Scalar} :
    scalar.text? = none ↔ scalar.lexical.isEmpty = true := by
  rw [text?]
  split
  · next hempty => simp [hempty]
  · next hfilled => simp [hfilled]

end Scalar

/-! ## Building nothing -/

namespace Construction

variable {place : Placing} {limits : Limits} {depth : Nat}

/-- Without entries there are no fields. -/
theorem fields_of_no_entries (particles : List Particle) :
    fields place limits depth [] particles = .ok [] := by
  induction particles with
  | nil => rfl
  | cons particle rest ih => exact ih

/-- Without entries there are no attributes. -/
theorem attributes_of_no_entries (decls : List AttributeDecl) : attributes [] decls = .ok [] := by
  induction decls with
  | nil => rfl
  | cons decl rest ih => exact ih

/-- Nothing is built as the empty content of each type. -/
theorem content_null (name : String) (definition : TypeDefinition) :
    content place limits depth name .null definition = .ok definition.emptyContent := by
  cases definition with
  | simple type => rfl
  | complex type =>
    rw [content, TypeDefinition.emptyContent]
    cases type.content with
    | simple base => rfl
    | sequence particles =>
      simp only [sequence, sequenceOfEntries, fields_of_no_entries, attributes_of_no_entries]
      rfl

end Construction

/-- Nothing is built at every place, as long as there is a level left for it. -/
theorem Schema.place_null {schema : Schema} {levels depth : Nat} {decl : ElementDecl}
    {definition : TypeDefinition} (hresolved : schema.resolve decl.type = .ok definition) :
    schema.place (levels + 1) depth decl .null =
      .ok ⟨decl.name, schema.target, definition.emptyContent⟩ := by
  rw [place, bind_of_eq_ok hresolved, Construction.node, Construction.content_null]
  · rfl
  · intro built h
    cases h

/-! ## Reading empty elements -/

namespace Schema

variable {schema : Schema}

/-- From an element without attributes no attribute is read. -/
theorem AttributesRead.eq_nil {attributes : Xml.Attributes} {decls : List AttributeDecl}
    {scalars : List (String × Scalar)} (h : AttributesRead attributes decls scalars)
    (hnone : attributes.entries = []) : scalars = [] := by
  induction h with
  | done => rfl
  | absent missing optional others ih => exact ih
  | present found kind read others ih =>
    rw [Xml.Attributes.valueOf?, hnone] at found
    cases found

/-- From no children no field is read. -/
theorem FieldsRead.eq_nil {particles : List Particle} {entries : List (String × Field)}
    (h : FieldsRead schema particles [] entries) : entries = [] := by
  generalize hchildren : ([] : List Child) = children at h
  induction h with
  | done => rfl
  | absent enough run rest ih => exact ih hchildren
  | present nonempty enough run read rest ih =>
    obtain ⟨htaken, _⟩ := List.append_eq_nil_iff.1 hchildren.symm
    exact absurd htaken nonempty

/-- Where reading an empty element gives an instance, it holds nothing. -/
theorem eq_empty_of_decode {element : Xml.Element} {localName : String} {type : TypeRef}
    {definition : TypeDefinition} {node : Instance}
    (hresolved : schema.resolve type = .ok definition) (hempty : element.isEmpty = true)
    (hnone : element.attributes.entries = [])
    (h : schema.decode element localName type = .ok node) :
    node = ⟨localName, schema.target, definition.emptyContent⟩ := by
  rw [Xml.Element.isEmpty, Bool.and_eq_true, String.isEmpty_iff, List.isEmpty_iff] at hempty
  obtain ⟨htext, hchildren⟩ := hempty
  cases decode_eq_ok.1 h with
  | scalar resolved childless kind read =>
    rw [hresolved] at resolved
    cases resolved
    rw [htext] at read
    rw [Scalar.eq_empty_of_read? kind read, TypeDefinition.emptyContent]
  | text resolved content childless kind read scalars =>
    rw [hresolved] at resolved
    cases resolved
    rw [htext] at read
    rw [Scalar.eq_empty_of_read? kind read, scalars.eq_nil hnone]
    simp only [TypeDefinition.emptyContent, content]
  | fields resolved content parts scalars =>
    rw [hresolved] at resolved
    cases resolved
    rw [hchildren] at parts
    rw [FieldsRead.eq_nil parts, scalars.eq_nil hnone]
    simp only [TypeDefinition.emptyContent, content]

end Schema

/-! ## Instances whose fields are filled -/

namespace Instance

/-- No field of a node is kept for nothing. -/
def IsFilled (node : Instance) : Prop :=
  ∀ entry ∈ node.fields, entry.2.count ≠ 0

end Instance

/-- An instance in the shape of its declaration keeps no field for nothing. -/
theorem Shaped.everywhere_isFilled {schema : Schema} {decl : ElementDecl} {node : Instance}
    (h : Shaped schema decl node) : node.Everywhere Instance.IsFilled := by
  refine Shaped.induct ?scalar ?text ?fields h
  case scalar => exact fun _ _ => .intro nofun nofun
  case text => exact fun _ _ _ _ => .intro nofun nofun
  case fields =>
    intro decl complex particles entries attributes _ _ parts _
    refine .intro ?_ ?_
    · intro entry hentry
      obtain ⟨particle, _, _, hshaped⟩ := parts.particle_of_mem hentry
      exact hshaped.count_ne_zero
    · intro item hitem
      obtain ⟨_, _, hinside⟩ := parts.exists_decl hitem
      exact hinside

namespace Instance

/-- An element has no attributes if and only if its instance has none. -/
theorem writtenAttributes_eq_nil_iff {attributes : List (String × Scalar)} :
    (writtenAttributes attributes).entries = [] ↔ attributes = [] := by
  constructor
  · intro h
    cases attributes with
    | nil => rfl
    | cons entry rest =>
      have hkey : Name.unqualified entry.1 ∈
          Entries.keys (writtenAttributes (entry :: rest)).entries :=
        Entries.mem_keys_ofPairs List.mem_cons_self
      rw [h] at hkey
      cases hkey
  · rintro rfl
    rfl

/-- An instance whose fields are filled holds nothing if and only if its element is bare. -/
theorem isNil_iff_isBare {node : Instance} (hfilled : node.IsFilled) :
    node.isNil = true ↔ node.toElement.IsBare := by
  obtain ⟨name, space, content⟩ := node
  cases content with
  | scalar value =>
    rw [isNil, toElement]
    constructor
    · intro hempty
      exact ⟨Scalar.text?_eq_none_iff.2 hempty, rfl, rfl⟩
    · intro hbare
      exact Scalar.text?_eq_none_iff.1 hbare.text
  | text value attributes =>
    rw [isNil, toElement]
    simp only [content, Bool.and_eq_true, List.isEmpty_iff]
    constructor
    · rintro ⟨hempty, hnone⟩
      exact ⟨Scalar.text?_eq_none_iff.2 hempty, rfl, writtenAttributes_eq_nil_iff.2 hnone⟩
    · intro hbare
      exact ⟨Scalar.text?_eq_none_iff.1 hbare.text,
        writtenAttributes_eq_nil_iff.1 hbare.attributes⟩
  | fields entries attributes =>
    have hchildren : fieldElements entries = [] ↔ entries = [] :=
      fieldElements_eq_nil_iff fun key field hmem =>
        mt Field.written_eq_nil_iff.1 (hfilled (key, field) hmem)
    rw [isNil, toElement]
    simp only [content, Bool.and_eq_true, List.isEmpty_iff]
    constructor
    · rintro ⟨hnone, hplain⟩
      exact ⟨rfl, hchildren.2 hnone, writtenAttributes_eq_nil_iff.2 hplain⟩
    · intro hbare
      exact ⟨hchildren.1 hbare.children, writtenAttributes_eq_nil_iff.1 hbare.attributes⟩

end Instance

/-! ## Nothing at the root -/

namespace Instance

variable (name : String) (space : Namespace) (definition : TypeDefinition)

/-- The empty content keeps no field for nothing. -/
theorem isFilled_emptyContent : IsFilled ⟨name, space, definition.emptyContent⟩ := by
  cases definition with
  | simple type => exact nofun
  | complex type =>
    rw [TypeDefinition.emptyContent]
    cases type.content with
    | simple base => exact nofun
    | sequence particles => exact nofun

/-- A node with the empty content holds nothing. -/
theorem isNil_emptyContent : isNil ⟨name, space, definition.emptyContent⟩ = true := by
  cases definition with
  | simple type => simp [TypeDefinition.emptyContent, isNil, content, Scalar.lexical_empty]
  | complex type =>
    rw [TypeDefinition.emptyContent]
    cases type.content with
    | simple base => simp [isNil, content, Scalar.lexical_empty]
    | sequence particles => rfl

end Instance

namespace Schema

variable {schema : Schema}

/-- At every node of an instance in the shape of its declaration, holding nothing is being written
as a bare element. -/
theorem everywhere_isNil_iff_isBare {decl : ElementDecl} {node : Instance}
    (h : Shaped schema decl node) :
    node.Everywhere fun item => item.isNil = true ↔ item.toElement.IsBare :=
  h.everywhere_isFilled.imp fun _ => Instance.isNil_iff_isBare

/-- Nothing, an instance that holds nothing and an empty element are the same thing.  Under a
top-level element nothing is built as an instance that holds nothing and whose element is bare, and
an empty element of its name is read as this instance if it is read at all.  Of whatever is built
without finished instances or is read, exactly those nodes hold nothing whose elements are bare. -/
theorem null_nil_bare (hassembled : schema.Assembled) :
    (∀ name decl, schema.element? name = some decl → 1 ≤ schema.limits.depth →
      ∃ node, schema.construct name .null = .ok node ∧ node.isNil = true ∧
        node.toElement.IsBare ∧
        ∀ element found, element.name = schema.target.qualify name → element.isEmpty = true →
          element.attributes.entries = [] → schema.decodeElement element = .ok found →
            found = node) ∧
    (∀ name decl value node, schema.element? name = some decl →
      schema.isLoose value decl.type = true → schema.construct name value = .ok node →
        node.Everywhere fun item => item.isNil = true ↔ item.toElement.IsBare) ∧
    ∀ element node, schema.decodeElement element = .ok node →
      node.Everywhere fun item => item.isNil = true ↔ item.toElement.IsBare := by
  refine ⟨?_, ?_, ?_⟩
  · intro name decl hdecl hlimit
    have hmem := (mem_of_element? hdecl).1
    obtain ⟨definition, hresolved⟩ :=
      exists_resolve (all_of_mem_elements hassembled.allTypes hmem)
    have hnil := Instance.isNil_emptyContent decl.name schema.target definition
    refine ⟨⟨decl.name, schema.target, definition.emptyContent⟩, ?_, hnil, ?_, ?_⟩
    · obtain ⟨levels, hlevels⟩ := Nat.exists_eq_succ_of_ne_zero (Nat.one_le_iff_ne_zero.1 hlimit)
      rw [construct, element, hdecl, placeRoot, hlevels]
      exact place_null hresolved
    · exact (Instance.isNil_iff_isBare (Instance.isFilled_emptyContent _ _ _)).1 hnil
    · intro element found hnamed hempty hnone h
      obtain ⟨_, other, hother, hread⟩ := decodeElement_eq_ok.1 h
      have hfound := (rootDecl?_eq_some.1 hother).2
      rw [hnamed, Namespace.qualify, hdecl] at hfound
      cases hfound
      exact eq_empty_of_decode hresolved hempty hnone hread
  · intro name decl value node hdecl hloose h
    exact everywhere_isNil_iff_isBare (shaped_of_construct hassembled hdecl hloose h)
  · intro element node h
    obtain ⟨_, decl, _, hread⟩ := decodeElement_eq_ok.1 h
    exact everywhere_isNil_iff_isBare (shaped_of_decode element hread)

/-- A box with an empty box inside, and one more as an element. -/
def nestedBoxValue : Value :=
  .map [("rest", .built emptyBox), ("box", .map [("rest", .list [])])]

/-- A box with the empty box and its element inside. -/
def nestedBox : Instance :=
  ⟨"box", boxes.target,
    .fields [("box", .one emptyBox), ("rest", .any [emptyBox.toElement])] []⟩

/-- The nested box is built from its value. -/
theorem construct_nestedBox : boxes.construct "box" nestedBoxValue = .ok nestedBox := by
  have hcheck : Construction.checkBelow boxes.limits 1 emptyBox.depth = .ok () := by
    rw [Instance.depth_eq_height]
    rfl
  have hrest : Construction.wildcard boxes.limits 1 "rest" (.built emptyBox) =
      .ok (some (.any [emptyBox.toElement])) := by
    refine bind_eq_ok.2 ⟨[emptyBox.toElement], mapM_eq_ok.2 (.cons ?_ .nil), rfl⟩
    exact bind_eq_ok.2 ⟨(), hcheck, rfl⟩
  refine bind_eq_ok.2 ⟨⟨"box", .named "Box", .once⟩, rfl, bind_eq_ok.2 ⟨.complex boxType, rfl, ?_⟩⟩
  refine bind_eq_ok.2 ⟨_, bind_eq_ok.2 ⟨_, ?_, rfl⟩, rfl⟩
  refine bind_eq_ok.2 ⟨some (.one emptyBox), rfl, ?_⟩
  exact bind_eq_ok.2 ⟨_, bind_eq_ok.2 ⟨_, hrest, rfl⟩, rfl⟩

/-- The empty box is read from its element. -/
theorem decodeElement_emptyBox : boxes.decodeElement emptyBox.toElement = .ok emptyBox := by
  refine decodeElement_eq_ok.2 ⟨?_, ⟨"box", .named "Box", .once⟩, rfl, rfl⟩
  rw [Xml.Element.depth_eq_height]
  decide

/-- Nothing is an empty box, which is read from an empty element; in a box with a box inside
exactly the inner one holds nothing. -/
theorem null_nil_bare_boxes :
    boxes.Assembled ∧ boxes.construct "box" .null = .ok emptyBox ∧ emptyBox.isNil = true ∧
      emptyBox.toElement.IsBare ∧ boxes.decodeElement emptyBox.toElement = .ok emptyBox ∧
      emptyBox.Everywhere (fun item => item.isNil = true ↔ item.toElement.IsBare) ∧
      boxes.isLoose nestedBoxValue (.named "Box") = true ∧
      boxes.construct "box" nestedBoxValue = .ok nestedBox ∧
      nestedBox.Everywhere (fun item => item.isNil = true ↔ item.toElement.IsBare) ∧
      ¬ nestedBox.toElement.IsBare := by
  have hassembled : boxes.Assembled := assembled_of_define define_boxes
  have hdecl : boxes.element? "box" = some ⟨"box", .named "Box", .once⟩ := rfl
  obtain ⟨hnull, hbuilt, hdecoded⟩ := null_nil_bare hassembled
  obtain ⟨node, hnode, hnil, hbare, hread⟩ := hnull "box" _ hdecl (by decide)
  have hempty : emptyBox = node :=
    hread _ _ rfl rfl rfl decodeElement_emptyBox
  subst hempty
  have hloose : boxes.isLoose nestedBoxValue (.named "Box") = true := by decide
  have hnested := hbuilt "box" _ _ _ hdecl hloose construct_nestedBox
  refine ⟨hassembled, hnode, hnil, hbare, decodeElement_emptyBox,
    hdecoded _ _ decodeElement_emptyBox, hloose, construct_nestedBox, hnested, ?_⟩
  rw [← hnested.root]
  decide

end Schema

end TypedXml
