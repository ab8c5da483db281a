import TypedXml.Proofs.Instance.Enumerations
import TypedXml.Proofs.Instance.WrittenFields

/-!
# Instances that a reader rejects

A scalar need not be of the form that its kind asks for, and is written all the same, so that it is
still there when it is checked.  A reader has only the text of it: where this is in the lexical
space of the kind, the reader finds the value that it denotes and not the one that was written.
`Instance.asRead` is the instance with these values in place of its own.  A reader gets nothing else
from an instance in the shape of its declaration, and rejects it if and only if that is not valid.
-/

set_option autoImplicit false

namespace TypedXml

/-- Results that a relation leaves no choice for are the image of the list. -/
theorem eq_map_of_forall₂ {α β : Type} {rel : α → β → Prop} {f : α → β} {l : List α}
    {results : List β} (h : List.Forall₂ rel l results)
    (hrel : ∀ a ∈ l, ∀ b, rel a b → b = f a) : results = l.map f := by
  induction h with
  | nil => rfl
  | cons hfirst _ ih =>
    rw [List.forall_mem_cons] at hrel
    rw [List.map_cons, hrel.1 _ hfirst, ih hrel.2]

/-! ## Values that texts denote -/

/-- The scalar that the text of a scalar is read as, itself if the text is not in the lexical space
of its kind. -/
def Scalar.asRead (scalar : Scalar) : Scalar :=
  match scalar.kind.read? scalar.lexical with
  | some value => .ofDatum scalar.kind value
  | none => scalar

namespace Scalar

variable {scalar read : Scalar} {kind : Kind}

/-- A scalar is read under its own kind. -/
theorem kind_asRead (scalar : Scalar) : scalar.asRead.kind = scalar.kind := by
  unfold asRead
  split
  · rfl
  · rfl

/-- What the text of a scalar is read as. -/
theorem eq_asRead (hkind : scalar.kind = kind) (hread : read.kind = kind)
    (hvalue : kind.read? (scalar.text?.getD "") = some read.value) : read = scalar.asRead := by
  subst hkind
  rw [getD_text?] at hvalue
  unfold asRead
  rw [hvalue]
  exact Scalar.ext hread (Kind.native_of_read? hvalue).2.symm

/-- Where the value that is read belongs to the kind, it is what the text denotes. -/
theorem read?_asRead (hkind : scalar.kind = kind)
    (haccepts : kind.accepts scalar.asRead.value = true) :
    kind.read? (scalar.text?.getD "") = some scalar.asRead.value := by
  subst hkind
  rw [getD_text?]
  unfold asRead at haccepts ⊢
  cases hread : scalar.kind.read? scalar.lexical with
  | some value => exact congrArg some (Kind.native_of_read? hread).2.symm
  | none =>
    rw [hread] at haccepts
    rw [read?_lexical haccepts] at hread
    cases hread

/-- A scalar of a form that its kind accepts is read as itself, and so is one whose text is not in
the lexical space. -/
theorem asRead_eq_self (h : scalar.kind.accepts scalar.value = true ∨
    ¬ scalar.kind.IsLexical scalar.lexical) : scalar.asRead = scalar := by
  rcases h with haccepts | hnot
  · have hvalue := read?_lexical haccepts
    rw [← getD_text?] at hvalue
    exact (eq_asRead rfl rfl hvalue).symm
  · unfold asRead
    split
    · next value hread => exact absurd ⟨value, hread⟩ hnot
    · rfl

end Scalar

/-! ## Values in disguise -/

namespace Kind

/-- Whether a kind can refuse a value of some form and still read the text of it. -/
def canDisguise : Kind → Datum → Bool
  | .string, .bytes _ | .int, .bytes _ | .boolean, .bytes _ => true
  | .boolean, .int _ | .hexBinary, .int _ | .base64Binary, .int _ => true
  | .base64Binary, .boolean _ => true
  | _, _ => false

/-- An integer whose text can be read as one is in range. -/
theorem accepts_int_of_isLexical {n : Int64} (h : Kind.int.IsLexical (Kind.int.format (.int n))) :
    Kind.int.accepts (.int n) = true := by
  obtain ⟨value, hvalue⟩ := h
  have htrim := Text.trimBlanks_eq_self
    (fun c (hc : c ∈ Decimal.writeInt n.toInt) => Decimal.isBlank_of_mem_writeInt hc)
  simp only [read?, format, Datum.display, String.toList_ofList, htrim, readInt32?,
    Decimal.readInt?_writeInt] at hvalue
  split at hvalue
  · next hbounds => simpa [accepts] using hbounds
  · cases hvalue

/-- Octets can be in disguise outside of the binary kinds, integers but in strings and integers, and
truth values in base 64; texts never are. -/
theorem accepts_or_not_isLexical {kind : Kind} {value : Datum}
    (h : kind.canDisguise value = false) :
    kind.accepts value = true ∨ ¬ kind.IsLexical (kind.format value) := by
  cases value with
  | text s =>
    cases kind with
    | int | boolean =>
      rw [or_iff_not_imp_right, not_not]
      exact Option.isSome_iff_exists.2
    | string | hexBinary | base64Binary => exact Or.inl rfl
  | int n =>
    cases kind with
    | string => exact Or.inl rfl
    | int =>
      rw [or_iff_not_imp_right, not_not]
      exact accepts_int_of_isLexical
    | boolean | hexBinary | base64Binary => cases h
  | boolean b =>
    cases kind with
    | string | boolean => exact Or.inl rfl
    | int | hexBinary =>
      refine Or.inr ?_
      rintro ⟨value, hvalue⟩
      cases b <;> cases hvalue
    | base64Binary => cases h
  | bytes b =>
    cases kind with
    | hexBinary | base64Binary => exact Or.inl rfl
    | string | int | boolean => cases h

end Kind

namespace Instance

/-- The scalars that the texts of attributes are read as. -/
def attributesAsRead (attributes : List (String × Scalar)) : List (String × Scalar) :=
  attributes.map fun entry => (entry.1, entry.2.asRead)

mutual

/-- The instance that the texts of an instance are read as. -/
def asRead : Instance → Instance
  | ⟨name, space, .scalar value⟩ => ⟨name, space, .scalar value.asRead⟩
  | ⟨name, space, .text value attributes⟩ =>
    ⟨name, space, .text value.asRead (attributesAsRead attributes)⟩
  | ⟨name, space, .fields entries attributes⟩ =>
    ⟨name, space, .fields (fieldsAsRead entries) (attributesAsRead attributes)⟩

/-- The instances that the texts of a list of instances are read as. -/
def allAsRead : List Instance → List Instance
  | [] => []
  | item :: rest => asRead item :: allAsRead rest

/-- The fields that the texts of fields are read as. -/
def fieldsAsRead : List (String × Field) → List (String × Field)
  | [] => []
  | (key, .one item) :: rest => (key, .one (asRead item)) :: fieldsAsRead rest
  | (key, .many items) :: rest => (key, .many (allAsRead items)) :: fieldsAsRead rest
  | (key, .any elements) :: rest => (key, .any elements) :: fieldsAsRead rest

end

/-- A list of instances is read one by one. -/
theorem allAsRead_eq_map (items : List Instance) : allAsRead items = items.map asRead := by
  induction items with
  | nil => rfl
  | cons item rest ih => rw [allAsRead, ih, List.map_cons]

end Instance

/-- The same for the field of a particle. -/
def Field.asRead : Field → Field
  | .one item => .one item.asRead
  | .many items => .many (items.map Instance.asRead)
  | .any elements => .any elements

/-- Texts do not matter for the number of occurrences. -/
theorem Field.count_asRead (field : Field) : field.asRead.count = field.count := by
  cases field with
  | one item => rfl
  | many items => exact List.length_map _
  | any elements => rfl

/-- A field is read as itself if its occurrences are. -/
theorem Field.asRead_eq_self {field : Field} (h : ∀ item ∈ field.instances, item.asRead = item) :
    field.asRead = field := by
  cases field with
  | one item => rw [asRead, h item List.mem_cons_self]
  | many items =>
    have hitems : items.map Instance.asRead = items.map id := List.map_congr_left h
    rw [asRead, hitems, List.map_id]
  | any elements => rfl

namespace Instance

/-- Fields are read one by one, under their keys. -/
theorem fieldsAsRead_eq_map (entries : List (String × Field)) :
    fieldsAsRead entries = entries.map fun entry => (entry.1, entry.2.asRead) := by
  induction entries with
  | nil => rfl
  | cons entry rest ih =>
    obtain ⟨key, field⟩ := entry
    rw [List.map_cons, ← ih]
    cases field with
    | one item => rfl
    | many items => rw [fieldsAsRead, allAsRead_eq_map, Field.asRead]
    | any elements => rfl

/-- Texts do not matter for the name of a node. -/
theorem name_asRead (node : Instance) : node.asRead.name = node.name := by
  obtain ⟨name, space, content⟩ := node
  cases content with
  | scalar value => rfl
  | text value attributes => rfl
  | fields entries attributes => rfl

mutual

/-- Texts do not matter for the height of an instance. -/
theorem height_asRead : (node : Instance) → node.asRead.height = node.height
  | ⟨_, _, .scalar _⟩ => rfl
  | ⟨_, _, .text _ _⟩ => rfl
  | ⟨_, _, .fields entries _⟩ => by
    rw [asRead, height, height, heightFields_asRead entries]

/-- The same for a list of instances. -/
theorem heightAll_asRead : (items : List Instance) → heightAll (allAsRead items) = heightAll items
  | [] => rfl
  | item :: rest => by
    rw [allAsRead, heightAll, heightAll, height_asRead item, heightAll_asRead rest]

/-- The same for a list of fields. -/
theorem heightFields_asRead : (entries : List (String × Field)) →
    heightFields (fieldsAsRead entries) = heightFields entries
  | [] => rfl
  | (_, .one item) :: rest => by
    rw [fieldsAsRead, heightFields, heightFields, height_asRead item, heightFields_asRead rest]
  | (_, .many items) :: rest => by
    rw [fieldsAsRead, heightFields, heightFields, heightAll_asRead items,
      heightFields_asRead rest]
  | (_, .any elements) :: rest => by
    rw [fieldsAsRead, heightFields, heightFields, heightFields_asRead rest]

end

/-- Texts do not matter for the depth of an instance. -/
theorem depth_asRead (node : Instance) : node.asRead.depth = node.depth := by
  rw [depth_eq_height, depth_eq_height, height_asRead]

/-- The scalars that a node holds itself. -/
def ownScalars (node : Instance) : List Scalar :=
  node.scalar?.toList ++ node.scalars.map Prod.snd

/-- Whether no scalar of a node is in disguise: of a form that its kind refuses, with a text that is
in the lexical space of the kind. -/
def IsUndisguised (node : Instance) : Prop :=
  ∀ scalar ∈ node.ownScalars,
    scalar.kind.accepts scalar.value = true ∨ ¬ scalar.kind.IsLexical scalar.lexical

/-- Where no scalar is in disguise, all texts are read as the scalars that they are written from. -/
theorem asRead_eq_self {node : Instance} (h : node.Everywhere IsUndisguised) :
    node.asRead = node := by
  induction h with
  | @intro node root inside ih =>
    have hscalars : ∀ entry ∈ node.scalars, entry.2.asRead = entry.2 := by
      intro entry hentry
      exact Scalar.asRead_eq_self
        (root _ (List.mem_append_right _ (List.mem_map_of_mem hentry)))
    obtain ⟨name, space, content⟩ := node
    cases content with
    | scalar value =>
      rw [asRead, Scalar.asRead_eq_self (root value List.mem_cons_self)]
    | text value attributes =>
      have hattributes : attributesAsRead attributes = attributes := map_snd_eq_self hscalars
      rw [asRead, Scalar.asRead_eq_self (root value List.mem_cons_self), hattributes]
    | fields entries attributes =>
      have hfields : ∀ entry ∈ entries, entry.2.asRead = entry.2 := by
        intro entry hentry
        exact Field.asRead_eq_self fun item hitem =>
          ih item (List.mem_flatMap.2 ⟨entry, hentry, hitem⟩)
      have hattributes : attributesAsRead attributes = attributes := map_snd_eq_self hscalars
      rw [asRead, hattributes, fieldsAsRead_eq_map, map_snd_eq_self hfields]

end Instance

/-! ## Instances in their shape -/

namespace Schema

variable {schema : Schema}

section

variable {attributes : Xml.Attributes} {decls : List AttributeDecl}
  {scalars : List (String × Scalar)}

/-- Attributes in their shape are read as what their texts denote. -/
theorem AttributesRead.eq_asRead {read : List (String × Scalar)}
    (h : AttributesRead attributes decls read) (hshaped : AttributesShaped decls scalars)
    (hdistinct : (decls.map AttributeDecl.name).Nodup)
    (hvalues : ∀ decl ∈ decls,
      attributes.valueOf? decl.name = (scalars.lookup decl.name).map Scalar.lexical) :
    read = Instance.attributesAsRead scalars := by
  induction hshaped generalizing read with
  | done =>
    cases h
    rfl
  | @absent decl rest scalars others ih =>
    have hkeys := List.nodup_cons.1 hdistinct
    rw [List.forall_mem_cons] at hvalues
    have hmissing : scalars.lookup decl.name = none :=
      lookup_eq_none_of_not_mem fun hmem => hkeys.1 (others.keys_sublist.subset hmem)
    cases h with
    | absent _ _ hothers => exact ih hothers hkeys.2 hvalues.2
    | present found _ _ _ =>
      rw [hvalues.1, hmissing] at found
      cases found
  | @present decl rest scalar scalars kind others ih =>
    have hkeys := List.nodup_cons.1 hdistinct
    rw [List.forall_mem_cons, List.lookup_cons_self] at hvalues
    have hrest : ∀ other ∈ rest,
        attributes.valueOf? other.name = (scalars.lookup other.name).map Scalar.lexical := by
      intro other hother
      rw [hvalues.2 other hother, lookup_cons_of_ne (ne_of_nodup_cons hdistinct hother)]
    cases h with
    | absent missing _ _ =>
      rw [hvalues.1] at missing
      cases missing
    | present found readKind hread hothers =>
      rw [hvalues.1] at found
      cases found
      rw [← Scalar.getD_text?] at hread
      rw [Scalar.eq_asRead kind readKind hread, ih hothers hkeys.2 hrest]
      rfl

/-- What the texts of attributes in their shape denote is read if it fits the declarations. -/
theorem attributesRead_asRead (hshaped : AttributesShaped decls scalars)
    (hdistinct : (decls.map AttributeDecl.name).Nodup)
    (hvalues : ∀ decl ∈ decls,
      attributes.valueOf? decl.name = (scalars.lookup decl.name).map Scalar.lexical)
    (hconform : attributesConform decls (Instance.attributesAsRead scalars) = true) :
    AttributesRead attributes decls (Instance.attributesAsRead scalars) := by
  rw [attributesConform, List.all_eq_true] at hconform
  simp only [Instance.attributesAsRead, lookup_map_snd] at hconform
  induction hshaped with
  | done => exact .done
  | @absent decl rest scalars others ih =>
    have hkeys := List.nodup_cons.1 hdistinct
    rw [List.forall_mem_cons] at hvalues hconform
    have hmissing : scalars.lookup decl.name = none :=
      lookup_eq_none_of_not_mem fun hmem => hkeys.1 (others.keys_sublist.subset hmem)
    have hoptional := hconform.1
    rw [hmissing] at hoptional hvalues
    refine .absent hvalues.1 ?_ (ih hkeys.2 hvalues.2 hconform.2)
    simpa [AttributeDecl.allows] using hoptional
  | @present decl rest scalar scalars kind others ih =>
    have hkeys := List.nodup_cons.1 hdistinct
    rw [List.forall_mem_cons, List.lookup_cons_self] at hvalues hconform
    have hread : decl.type.kind.read? scalar.lexical = some scalar.asRead.value := by
      rw [← Scalar.getD_text?]
      exact Scalar.read?_asRead kind (accepts_of_allows hconform.1)
    refine .present hvalues.1 (scalar.kind_asRead.trans kind) hread (ih hkeys.2 ?_ ?_)
    · intro other hother
      rw [hvalues.2 other hother, lookup_cons_of_ne (ne_of_nodup_cons hdistinct hother)]
    · intro other hother
      have hfits := hconform.2 other hother
      rwa [lookup_cons_of_ne (ne_of_nodup_cons hdistinct hother)] at hfits

end

section

variable {particle : Particle} {field other : Field}

/-- Whether an instance is read for a declaration as what its texts denote or not at all, and is
read if that conforms. -/
structure ReadsTexts (schema : Schema) (decl : ElementDecl) (node : Instance) : Prop where
  name : node.qualifiedName = schema.target.qualify decl.name
  eq_asRead : ∀ read, schema.decode node.toElement decl.name decl.type = .ok read →
    read = node.asRead
  read_asRead : conforms schema node.asRead decl.type = true →
    schema.decode node.toElement decl.name decl.type = .ok node.asRead

/-- A field in its shape is read as what its texts denote, if it is read. -/
theorem FieldRead.eq_asRead {taken : List Child} (h : FieldRead taken particle other)
    (htaken : taken = field.written.map schema.child)
    (hshaped : FieldShaped (ReadsTexts schema) particle field) (hdecl : particle.decl? ≠ none) :
    other = field.asRead := by
  cases hshaped with
  | @one decl item single shaped =>
    cases h with
    | one _ read =>
      cases htaken
      rw [shaped.eq_asRead _ read, Field.asRead]
    | many repeated _ =>
      rw [single] at repeated
      cases repeated
  | @many decl items repeated nonempty shaped =>
    cases h with
    | one single _ =>
      rw [single] at repeated
      cases repeated
    | many _ read =>
      rw [htaken, Field.written, List.map_map, List.forall₂_map_left_iff] at read
      rw [Field.asRead, eq_map_of_forall₂ read fun item hitem => (shaped item hitem).eq_asRead]
  | any nonempty => exact absurd rfl hdecl

/-- What the texts of a field in its shape denote is read if it conforms. -/
theorem fieldRead_asRead (hshaped : FieldShaped (ReadsTexts schema) particle field)
    (hdecl : particle.decl? ≠ none)
    (hconforms : fieldConforms schema field.asRead particle = true) :
    FieldRead (field.written.map schema.child) particle field.asRead := by
  cases hshaped with
  | @one decl item single shaped =>
    rw [Field.asRead, fieldConforms, Bool.and_eq_true] at hconforms
    exact .one single (shaped.read_asRead hconforms.2)
  | @many decl items repeated nonempty shaped =>
    rw [Field.asRead, fieldConforms] at hconforms
    refine .many repeated ?_
    rw [Field.written, List.map_map, List.forall₂_map_left_iff, List.forall₂_map_right_iff,
      List.forall₂_same]
    intro item hitem
    exact (shaped item hitem).read_asRead
      (conforms_of_allConform hconforms _ (List.mem_map_of_mem hitem))
  | any nonempty => exact absurd rfl hdecl

end

/-- Fields in their shape are read as what their texts denote, if they are read. -/
theorem FieldsReread.eq_asRead {particles : List Particle} {entries others : List (String × Field)}
    (h : FieldsReread schema particles entries others)
    (hgood : FieldsShaped (ReadsTexts schema) particles entries)
    (hdistinct : (particles.map Particle.key).Nodup)
    (hdecls : ∀ particle ∈ particles, particle.decl? ≠ none) :
    others = Instance.fieldsAsRead entries := by
  have hpairs : List.Forall₂
      (fun entry other => other.1 = entry.1 ∧ other.2 = entry.2.asRead) entries others :=
    h.forall₂ (fun field other => other = field.asRead)
      fun particle hparticle field other hmem hread =>
        hread.eq_asRead rfl (hgood.fieldShaped_of_mem hdistinct hparticle hmem)
          (hdecls particle hparticle)
  rw [Instance.fieldsAsRead_eq_map]
  exact eq_map_of_forall₂ hpairs fun entry _ other hother => Prod.ext hother.1 hother.2

/-- What the texts of fields in their shape denote is read if it conforms and is as much as the
particles ask for. -/
theorem fieldsReread_asRead {particles : List Particle} {entries : List (String × Field)}
    (hgood : FieldsShaped (ReadsTexts schema) particles entries)
    (hdistinct : (particles.map Particle.key).Nodup)
    (hdecls : ∀ particle ∈ particles, particle.decl? ≠ none)
    (hconform : fieldsConform schema particles (Instance.fieldsAsRead entries) = true)
    (hcounts : countsConform particles (Instance.fieldsAsRead entries) = true) :
    FieldsReread schema particles entries (Instance.fieldsAsRead entries) := by
  rw [Instance.fieldsAsRead_eq_map] at hconform hcounts
  have hcounted : Counted particles entries := by
    intro particle hparticle
    have hcount := List.all_eq_true.1 hcounts particle hparticle
    rw [lookup_map_snd] at hcount
    cases hfield : entries.lookup particle.key with
    | none =>
      rw [hfield] at hcount
      exact hcount
    | some field =>
      rw [hfield] at hcount
      rw [Option.elim_some, ← Field.count_asRead]
      exact hcount
  obtain ⟨others, hothers, _⟩ := exists_fieldsReread (fun _ _ => True) hgood hdistinct hcounted (by
    intro particle hparticle field hmem hshaped
    have hfits := fieldConforms_of_mem hconform (List.mem_map.2 ⟨_, hmem, rfl⟩)
      (find?_key_of_mem hdistinct hparticle)
    exact ⟨_, fieldRead_asRead hshaped (hdecls particle hparticle) hfits, trivial⟩)
  rwa [← hothers.eq_asRead hgood hdistinct hdecls]

/-- Instances in their shape are read as what their texts denote, if they are read. -/
theorem readsTexts_of_shaped (hassembled : schema.Assembled) (hclosed : schema.WithoutWildcards)
    {decl : ElementDecl} {node : Instance} (h : Shaped schema decl node) :
    schema.IsTyped decl → schema.ReadsTexts decl node := by
  refine Shaped.induct ?scalar ?text ?fields h
  case scalar =>
    intro decl simple value resolved kind _
    refine ⟨rfl, ?_, ?_⟩
    · intro read hread
      obtain ⟨_, other, readKind, hvalue, rfl⟩ := (decode_simple_eq_ok resolved).1 hread
      rw [Scalar.eq_asRead kind readKind hvalue, Instance.asRead]
    · intro hconforms
      rw [Instance.asRead, conforms_scalar resolved] at hconforms
      exact (decode_simple_eq_ok resolved).2 ⟨rfl, _, value.kind_asRead.trans kind,
        Scalar.read?_asRead kind (accepts_of_allows hconforms), rfl⟩
  case text =>
    intro decl complex base value attributes resolved content kind scalars htyped
    have hnames := (htyped.regular hassembled resolved).names_distinct
    have hvalues := Instance.valueOf?_writtenAttributes (scalars.keys_sublist.nodup hnames)
    refine ⟨rfl, ?_, ?_⟩
    · intro read hread
      obtain ⟨_, other, others, readKind, hvalue, hscalars, rfl⟩ :=
        (decode_text_eq_ok resolved content).1 hread
      rw [Scalar.eq_asRead kind readKind hvalue,
        hscalars.eq_asRead scalars hnames fun decl _ => hvalues decl.name, Instance.asRead]
    · intro hconforms
      rw [Instance.asRead, conforms_text resolved content, Bool.and_eq_true] at hconforms
      exact (decode_text_eq_ok resolved content).2 ⟨rfl, _, _, value.kind_asRead.trans kind,
        Scalar.read?_asRead kind (accepts_of_allows hconforms.1),
        attributesRead_asRead scalars hnames (fun decl _ => hvalues decl.name) hconforms.2, rfl⟩
  case fields =>
    intro decl complex particles entries attributes resolved content parts scalars htyped
    have hnames := (htyped.regular hassembled resolved).names_distinct
    obtain ⟨hdistinct, hdecls, htypes⟩ := htyped.particles hassembled hclosed resolved content
    have hvalues := Instance.valueOf?_writtenAttributes (scalars.keys_sublist.nodup hnames)
    have hgood : FieldsShaped schema.ReadsTexts particles entries :=
      parts.mono fun child hchild item hitem => hitem (htypes child hchild)
    have hnamed := fieldsNamed_of_shaped (hgood.mono fun _ _ _ h => h.name) hdistinct hdecls
    refine ⟨rfl, ?_, ?_⟩
    · intro read hread
      obtain ⟨others, otherScalars, hothers, hscalars, rfl⟩ :=
        (decode_sequence_eq_ok resolved content).1 hread
      have hreread := (fieldsRead_written_iff hnamed hdistinct hdecls).1 hothers
      rw [hreread.eq_asRead hgood hdistinct hdecls,
        hscalars.eq_asRead scalars hnames fun decl _ => hvalues decl.name, Instance.asRead]
    · intro hconforms
      rw [Instance.asRead, conforms_fields resolved content, Bool.and_eq_true,
        Bool.and_eq_true] at hconforms
      obtain ⟨⟨hfields, hcounts⟩, hattributes⟩ := hconforms
      have hreread := fieldsReread_asRead hgood hdistinct hdecls hfields hcounts
      exact (decode_sequence_eq_ok resolved content).2 ⟨_, _,
        (fieldsRead_written_iff hnamed hdistinct hdecls).2 hreread,
        attributesRead_asRead scalars hnames (fun decl _ => hvalues decl.name) hattributes, rfl⟩

/-! ## Rejection -/

/-- What the receiver makes of an instance that is not valid, built from a value without finished
instances: it rejects the instance if and only if what its texts denote is not valid either, and so
it always does where no scalar is in disguise. -/
theorem isValid_read_eq_false_iff (hassembled : schema.Assembled)
    (hclosed : schema.WithoutWildcards) {name : String} {decl : ElementDecl} {value : Value}
    {node : Instance} (hdecl : schema.element? name = some decl)
    (hloose : schema.isLoose value decl.type = true)
    (hbuilt : schema.construct name value = .ok node) (hinvalid : schema.isValid node = false) :
    ((∀ read, schema.decodeElement node.toElement = .ok read → schema.isValid read = false) ↔
      schema.isValid node.asRead = false) ∧
    (node.Everywhere Instance.IsUndisguised →
      ∀ read, schema.decodeElement node.toElement = .ok read → schema.isValid read = false) := by
  obtain ⟨hmem, hname⟩ := mem_of_element? hdecl
  have hdecl' : schema.element? decl.name = some decl := hname ▸ hdecl
  have htyped := isTyped_of_mem hassembled hclosed hmem
  have hshaped := shaped_of_construct hassembled hdecl hloose hbuilt
  have hreads := readsTexts_of_shaped hassembled hclosed hshaped htyped
  have hlaw : (∀ read, schema.decodeElement node.toElement = .ok read →
      schema.isValid read = false) ↔ schema.isValid node.asRead = false := by
    constructor
    · intro hrejected
      by_contra hvalid
      rw [Bool.not_eq_false] at hvalid
      obtain ⟨_, hdepth, found, hfound, hconforms⟩ := isValid_eq_true_iff.1 hvalid
      rw [Instance.name_asRead, hshaped.name, hdecl'] at hfound
      cases hfound
      rw [Instance.depth_asRead] at hdepth
      have hread := (decodeElement_toElement_eq_ok hdecl' hreads.name).2
        ⟨hdepth, hreads.read_asRead hconforms⟩
      rw [hrejected _ hread] at hvalid
      cases hvalid
    · intro hrejected read hread
      rw [decodeElement_toElement_eq_ok hdecl' hreads.name] at hread
      rw [hreads.eq_asRead read hread.2]
      exact hrejected
  refine ⟨hlaw, ?_⟩
  intro hundisguised
  rw [hlaw, Instance.asRead_eq_self hundisguised]
  exact hinvalid

/-- The declaration of lamps of a colour, which are on or off. -/
def lampDecl : ElementDecl :=
  ⟨"lamp", .complex ⟨none, .sequence [.element ⟨"color", .simple colorType, .once⟩,
    .element ⟨"on", .simple (.ofKind .boolean), .once⟩], []⟩, .once⟩

/-- The schema of lamps. -/
def lamps : Schema :=
  ⟨⟨"urn:lamps", "l"⟩, [], [lampDecl], {}⟩

/-- The schema of lamps is what defining the lamp gives. -/
theorem define_lamps : define ⟨"urn:lamps", "l"⟩ [.element lampDecl] = .ok lamps := rfl

/-- A value of a lamp, with anything for whether it is on. -/
def lampValue (color : String) (on : Value) : Value :=
  .map [("color", .text color), ("on", on)]

/-- A lamp with anything for whether it is on. -/
def lamp (color : String) (on : Datum) : Instance :=
  ⟨"lamp", lamps.target, .fields [
    ("color", .one ⟨"color", lamps.target, .scalar (.ofDatum .string (.text color))⟩),
    ("on", .one ⟨"on", lamps.target, .scalar (.ofDatum .boolean on)⟩)] []⟩

/-- A lamp is built with a number for whether it is on. -/
theorem construct_lamp_int (color : String) :
    lamps.construct "lamp" (lampValue color (.int 1)) = .ok (lamp color (.int 1)) := rfl

/-- A lamp is built with a text for whether it is on that denotes no truth value. -/
theorem construct_lamp_text (color : String) :
    lamps.construct "lamp" (lampValue color (.text "maybe")) = .ok (lamp color (.text "maybe")) :=
  rfl

/-- A lamp is two deep. -/
theorem depth_lamp (color : String) (on : Datum) : (lamp color on).depth = 2 :=
  Instance.depth_eq_height _

/-- A lamp is not valid if it does not conform to its type. -/
theorem isValid_lamp_false {color : String} {on : Datum}
    (h : conforms lamps (lamp color on) lampDecl.type = false) :
    lamps.isValid (lamp color on) = false := by
  rw [Bool.eq_false_iff, Ne, isValid_eq_true_iff]
  rintro ⟨_, _, found, hfound, hconforms⟩
  cases hfound
  rw [h] at hconforms
  cases hconforms

/-- A lamp of a colour that is not listed is rejected although its number is read as a truth value,
and so is a lamp with a text that denotes no truth value. -/
theorem isValid_read_lamp :
    (lamps.isValid (lamp "blue" (.int 1)) = false ∧
      ∀ read, lamps.decodeElement (lamp "blue" (.int 1)).toElement = .ok read →
        lamps.isValid read = false) ∧
    (lamps.isValid (lamp "red" (.text "maybe")) = false ∧
      ∀ read, lamps.decodeElement (lamp "red" (.text "maybe")).toElement = .ok read →
        lamps.isValid read = false) := by
  have hassembled := assembled_of_define define_lamps
  have hdecl : lamps.element? "lamp" = some lampDecl := rfl
  have hblue : lamps.isValid (lamp "blue" (.int 1)) = false := isValid_lamp_false (by decide)
  have hmaybe : lamps.isValid (lamp "red" (.text "maybe")) = false :=
    isValid_lamp_false (by decide)
  refine ⟨⟨hblue, ?_⟩, hmaybe, ?_⟩
  · have hlaw := isValid_read_eq_false_iff hassembled rfl hdecl rfl
      (construct_lamp_int "blue") hblue
    have hread : (lamp "blue" (.int 1)).asRead = lamp "blue" (.boolean true) := rfl
    rw [hlaw.1, hread]
    exact isValid_lamp_false (by decide)
  · have hlaw := isValid_read_eq_false_iff hassembled rfl hdecl rfl
      (construct_lamp_text "red") hmaybe
    have hplain : ∀ {name : String} {scalar : Scalar},
        scalar.kind.canDisguise scalar.value = false →
          Instance.Everywhere Instance.IsUndisguised ⟨name, lamps.target, .scalar scalar⟩ := by
      intro name scalar hscalar
      refine .intro (List.forall_mem_singleton.2 ?_) nofun
      exact Kind.accepts_or_not_isLexical hscalar
    refine hlaw.2 (.intro (List.forall_mem_nil _) ?_)
    exact List.forall_mem_cons.2 ⟨hplain rfl, List.forall_mem_singleton.2 (hplain rfl)⟩

/-- A lamp that is on by a number is not valid, and is read as one that is. -/
theorem isValid_read_lamp_int :
    lamps.construct "lamp" (lampValue "red" (.int 1)) = .ok (lamp "red" (.int 1)) ∧
      lamps.isValid (lamp "red" (.int 1)) = false ∧
      lamps.decodeElement (lamp "red" (.int 1)).toElement = .ok (lamp "red" (.boolean true)) ∧
      lamps.isValid (lamp "red" (.boolean true)) = true := by
  refine ⟨construct_lamp_int "red", isValid_lamp_false (by decide), ?_, ?_⟩
  · refine decodeElement_eq_ok.2 ⟨?_, lampDecl, rfl, rfl⟩
    rw [Instance.depth_toElement, depth_lamp]
    decide
  · refine isValid_eq_true_iff.2 ⟨rfl, ?_, lampDecl, rfl, by decide⟩
    rw [depth_lamp]
    decide

end Schema

end TypedXml
