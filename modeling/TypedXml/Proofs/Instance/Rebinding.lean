import TypedXml.Proofs.Instance.Built
import TypedXml.Proofs.Instance.Enumerations

/-!
# Finished instances in a new place

A finished instance that is put under another declaration keeps the form of the type that it was
built for, and validity does not look at all of it: fields may stand in any order, one occurrence
may stand where a list is declared or a list where there is at most one, a scalar may be of another
kind, and attributes that are not declared do not count.  Reading takes all of this from the type.
So a valid instance is read again if and only if it is in the form of its type everywhere, where
only the order of its attributes is free.
-/

set_option autoImplicit false

namespace TypedXml

namespace Schema

/-- Whether attributes are declared and of the kinds that are declared. -/
def AttributesInForm (decls : List AttributeDecl) (attributes : List (String × Scalar)) : Prop :=
  ∀ name scalar, (name, scalar) ∈ attributes →
    ∃ decl ∈ decls, decl.name = name ∧ scalar.kind = decl.type.kind

/-- Whether an instance is in the form that reading gives to its type: its fields in the order of
the particles, one occurrence where there is at most one and a list elsewhere, its scalars of the
kinds that are declared, and its attributes among those that are declared. -/
inductive InForm (schema : Schema) : TypeRef → Instance → Prop
  | scalar {type : TypeRef} {simple : SimpleType} {name : String} {space : Namespace}
      {value : Scalar} (resolved : schema.resolve type = .ok (.simple simple))
      (kind : value.kind = simple.kind) : InForm schema type ⟨name, space, .scalar value⟩
  | text {type : TypeRef} {complex : ComplexType} {base : SimpleType} {name : String}
      {space : Namespace} {value : Scalar} {attributes : List (String × Scalar)}
      (resolved : schema.resolve type = .ok (.complex complex))
      (content : complex.content = .simple base) (kind : value.kind = base.kind)
      (scalars : AttributesInForm complex.attributes attributes) :
      InForm schema type ⟨name, space, .text value attributes⟩
  | fields {type : TypeRef} {complex : ComplexType} {particles : List Particle} {name : String}
      {space : Namespace} {entries : List (String × Field)} {attributes : List (String × Scalar)}
      (resolved : schema.resolve type = .ok (.complex complex))
      (content : complex.content = .sequence particles)
      (parts : FieldsShaped (fun decl item => InForm schema decl.type item) particles entries)
      (scalars : AttributesInForm complex.attributes attributes) :
      InForm schema type ⟨name, space, .fields entries attributes⟩

variable {schema : Schema}

/-! ## Attributes -/

section

variable {decls : List AttributeDecl} {own read : List (String × Scalar)}

/-- Without attributes all of them are in form. -/
theorem attributesInForm_nil : AttributesInForm decls [] :=
  fun _ _ hmem => absurd hmem List.not_mem_nil

/-- Attributes in their shape are in form. -/
theorem inForm_of_shaped (h : AttributesShaped decls read) : AttributesInForm decls read := by
  induction h with
  | done => exact attributesInForm_nil
  | absent others ih =>
    intro name scalar hmem
    obtain ⟨decl, hdecl, hfits⟩ := ih name scalar hmem
    exact ⟨decl, List.mem_cons_of_mem _ hdecl, hfits⟩
  | @present decl rest first scalars kind others ih =>
    intro name scalar hmem
    rcases List.mem_cons.1 hmem with heq | hrest
    · cases heq
      exact ⟨decl, List.mem_cons_self, rfl, kind⟩
    · obtain ⟨other, hother, hfits⟩ := ih name scalar hrest
      exact ⟨other, List.mem_cons_of_mem _ hother, hfits⟩

/-- Attributes that agree with those that are read are in the same form. -/
theorem AttributesInForm.of_agree (h : AttributesInForm decls read)
    (hread : (read.map Prod.fst).Nodup) (hown : (own.map Prod.fst).Nodup)
    (hagree : Entries.agree (· == ·) read own = true) : AttributesInForm decls own := by
  intro name scalar hmem
  have hkey := Entries.mem_keys_of_agree hagree hread (List.mem_map_of_mem hmem)
  obtain ⟨⟨key, value⟩, hentry, rfl⟩ := List.mem_map.1 hkey
  have hvalue := Entries.lookup_of_agree hagree hentry
  rw [lookup_of_mem hown hmem] at hvalue
  cases hvalue
  exact h _ _ hentry

/-- Attributes in form that fit their declarations are read from their texts. -/
theorem AttributesInForm.read?_lexical (h : AttributesInForm decls own)
    (hdistinct : (decls.map AttributeDecl.name).Nodup)
    (hconform : attributesConform decls own = true) {decl : AttributeDecl} (hdecl : decl ∈ decls)
    {scalar : Scalar} (hfound : own.lookup decl.name = some scalar) :
    scalar.kind = decl.type.kind ∧ decl.type.kind.read? scalar.lexical = some scalar.value := by
  obtain ⟨other, hother, hname, hkind⟩ := h _ _ (mem_of_lookup hfound)
  obtain rfl := List.inj_on_of_nodup_map hdistinct hother hdecl hname
  have hallows := List.all_eq_true.1 hconform other hdecl
  rw [hfound] at hallows
  refine ⟨hkind, ?_⟩
  rw [← hkind]
  apply Scalar.read?_lexical
  rw [hkind]
  exact accepts_of_allows hallows

/-- Attributes in form that fit their declarations are written as texts that can be read. -/
theorem AttributesInForm.attributesDerive (h : AttributesInForm decls own)
    (hown : (own.map Prod.fst).Nodup) (hdistinct : (decls.map AttributeDecl.name).Nodup)
    (hconform : attributesConform decls own = true) :
    AttributesDerive decls (Instance.writtenAttributes own) := by
  have hvalues := Instance.valueOf?_writtenAttributes hown
  constructor
  · intro decl hdecl hrequired
    have hallows := List.all_eq_true.1 hconform decl hdecl
    rw [hvalues]
    cases hfound : own.lookup decl.name with
    | none =>
      rw [hfound, Option.map_none, AttributeDecl.allows, hrequired] at hallows
      cases hallows
    | some scalar => exact ⟨scalar.lexical, rfl⟩
  · intro decl hdecl text htext
    rw [hvalues, Option.map_eq_some_iff] at htext
    obtain ⟨scalar, hfound, rfl⟩ := htext
    exact ⟨_, (h.read?_lexical hdistinct hconform hdecl hfound).2⟩

/-- What is read for a declared attribute in form is the attribute. -/
theorem AttributesInForm.lookup_read (h : AttributesInForm decls own)
    (hown : (own.map Prod.fst).Nodup) (hdistinct : (decls.map AttributeDecl.name).Nodup)
    (hconform : attributesConform decls own = true)
    (hread : AttributesRead (Instance.writtenAttributes own) decls read) {decl : AttributeDecl}
    (hdecl : decl ∈ decls) : read.lookup decl.name = own.lookup decl.name := by
  have hvalues := Instance.valueOf?_writtenAttributes hown
  rcases hread.lookup hdistinct hdecl with
    ⟨hnone, hmissing, _⟩ | ⟨text, scalar, htext, hscalar, hkind, hvalue⟩
  · rw [hvalues, Option.map_eq_none_iff] at hnone
    rw [hmissing, hnone]
  · rw [hvalues, Option.map_eq_some_iff] at htext
    obtain ⟨other, hfound, rfl⟩ := htext
    obtain ⟨hotherKind, hother⟩ := h.read?_lexical hdistinct hconform hdecl hfound
    rw [hother, Option.some.injEq] at hvalue
    rw [hscalar, hfound, Scalar.ext (hkind.trans hotherKind.symm) hvalue.symm]

/-- Attributes in form that fit their declarations are read again, but for their order. -/
theorem AttributesInForm.exists_read (h : AttributesInForm decls own)
    (hown : (own.map Prod.fst).Nodup) (hdistinct : (decls.map AttributeDecl.name).Nodup)
    (hconform : attributesConform decls own = true) :
    ∃ read, AttributesRead (Instance.writtenAttributes own) decls read ∧
      Entries.agree (· == ·) read own = true := by
  obtain ⟨read, hread⟩ :=
    exists_attributesRead (h.attributesDerive hown hdistinct hconform)
  have hlookup : ∀ decl ∈ decls, read.lookup decl.name = own.lookup decl.name :=
    fun _ => h.lookup_read hown hdistinct hconform hread
  have hform := inForm_of_shaped hread.shaped
  have hkeys := hread.shaped.keys_sublist.nodup hdistinct
  -- what is read stands in the order of the declarations, and so is only a permutation
  refine ⟨read, hread, Entries.agree_of_perm ?_ hown⟩
  rw [List.perm_ext_iff_of_nodup (.of_map _ hkeys) (.of_map _ hown)]
  rintro ⟨name, scalar⟩
  constructor
  · intro hmem
    obtain ⟨decl, hdecl, rfl, _⟩ := hform name scalar hmem
    exact mem_of_lookup ((hlookup decl hdecl).symm.trans (lookup_of_mem hkeys hmem))
  · intro hmem
    obtain ⟨decl, hdecl, rfl, _⟩ := h name scalar hmem
    exact mem_of_lookup ((hlookup decl hdecl).trans (lookup_of_mem hown hmem))

end

/-! ## Fields -/

section

variable {particle : Particle} {field other : Field}

/-- Whether an instance is read for a declaration as one that is equal to it. -/
def ReadSame (schema : Schema) (decl : ElementDecl) (node : Instance) : Prop :=
  ∃ read, schema.decode node.toElement decl.name decl.type = .ok read ∧ read.same node = true

/-- A field that is read as an equal one has the form of its particle. -/
theorem FieldRead.shaped_of_same {good : ElementDecl → Instance → Prop} {taken : List Child}
    (h : FieldRead taken particle other) (htaken : taken = field.written.map schema.child)
    (hne : field.written ≠ []) (hsame : Instance.sameField other field = true)
    (hgood : ∀ decl, particle = .element decl → ∀ item ∈ field.instances,
      schema.ReadSame decl item → good decl item) : FieldShaped good particle field := by
  cases h with
  | any =>
    cases field with
    | any elements => exact .any hne
    | one | many => simp [Instance.sameField] at hsame
  | @one child decl read single hread =>
    cases field with
    | one item =>
      cases htaken
      rw [Instance.sameField] at hsame
      exact .one single (hgood decl rfl item List.mem_cons_self ⟨read, hread, hsame⟩)
    | many | any => simp [Instance.sameField] at hsame
  | @many taken decl reads repeated hread =>
    cases field with
    | many items =>
      rw [Field.written, Ne, List.map_eq_nil_iff] at hne
      rw [Instance.sameField, Instance.sameAll_iff] at hsame
      rw [htaken, Field.written, List.map_map, List.forall₂_map_left_iff] at hread
      refine .many repeated hne ?_
      intro item hitem
      exact hgood decl rfl item hitem (exists_of_forall₂ hread hsame hitem)
    | one | any => simp [Instance.sameField] at hsame

/-- A field in the form of its particle is read as an equal one. -/
theorem exists_fieldRead_same (h : FieldShaped (ReadSame schema) particle field)
    (hdecl : particle.decl? ≠ none) :
    ∃ other, FieldRead (field.written.map schema.child) particle other ∧
      Instance.sameField other field = true := by
  cases h with
  | @one decl item single shaped =>
    obtain ⟨read, hread, hsame⟩ := shaped
    refine ⟨.one read, .one single hread, ?_⟩
    rw [Instance.sameField]
    exact hsame
  | @many decl items repeated nonempty shaped =>
    obtain ⟨reads, hreads⟩ := exists_forall₂ shaped
    refine ⟨.many reads, .many repeated ?_, ?_⟩
    · rw [Field.written, List.map_map, List.forall₂_map_left_iff]
      exact hreads.imp fun _ _ h => h.1
    · rw [Instance.sameField, Instance.sameAll_iff]
      exact (hreads.imp fun _ _ h => h.2).flip
  | any nonempty => exact absurd rfl hdecl

/-- Fields that are read as equal ones are in the form of their particles. -/
theorem FieldsReread.shaped_of_same {good : ElementDecl → Instance → Prop}
    {particles : List Particle} {entries others : List (String × Field)}
    (h : FieldsReread schema particles entries others)
    (hentries : FieldsNamed schema.target entries)
    (hsame : Instance.sameFields others entries = true)
    (hgood : ∀ decl, .element decl ∈ particles → ∀ field, (decl.name, field) ∈ entries →
      ∀ item ∈ field.instances, schema.ReadSame decl item → good decl item) :
    FieldsShaped good particles entries := by
  refine h.shaped ?_
  intro particle hparticle field other hfield hother hread
  obtain ⟨found, hfound, hequal⟩ := Instance.exists_of_sameFields hsame hother
  rw [lookup_of_mem hentries.distinct hfield] at hfound
  cases hfound
  refine hread.shaped_of_same rfl (hentries.nonempty _ field hfield) hequal ?_
  rintro decl rfl
  exact hgood decl hparticle field hfield

/-- A field that conforms to its particle has the shape that this gives to its occurrences. -/
theorem fieldShaped_of_conforms {good better : ElementDecl → Instance → Prop}
    (h : FieldShaped good particle field)
    (hconforms : fieldConforms schema field particle = true)
    (himp : ∀ decl, particle = .element decl → ∀ item ∈ field.instances, good decl item →
      schema.isDeclared decl item = true → conforms schema item decl.type = true →
        better decl item) : FieldShaped better particle field := by
  cases h with
  | @one decl item single shaped =>
    rw [fieldConforms, Bool.and_eq_true] at hconforms
    exact .one single
      (himp decl rfl item List.mem_cons_self shaped hconforms.1 hconforms.2)
  | @many decl items repeated nonempty shaped =>
    rw [fieldConforms, allConform_iff] at hconforms
    refine .many repeated nonempty ?_
    intro item hitem
    obtain ⟨hdeclared, hitemConforms⟩ := hconforms item hitem
    exact himp decl rfl item hitem (shaped item hitem) hdeclared hitemConforms
  | any nonempty => exact .any nonempty

/-- Fields in the form of their particles are read as equal ones. -/
theorem exists_fieldsReread_same {particles : List Particle} {entries : List (String × Field)}
    (h : FieldsShaped (ReadSame schema) particles entries)
    (hdistinct : (particles.map Particle.key).Nodup)
    (hdecls : ∀ particle ∈ particles, particle.decl? ≠ none)
    (hcounted : Counted particles entries) :
    ∃ others, FieldsReread schema particles entries others ∧ others.length = entries.length ∧
      Instance.sameFields others entries = true := by
  obtain ⟨others, hothers, hpairs⟩ := exists_fieldsReread
    (fun field other => Instance.sameField other field = true) h hdistinct hcounted
    fun particle hparticle field _ hshaped => exists_fieldRead_same hshaped (hdecls _ hparticle)
  have hkeys := h.keys_sublist.nodup hdistinct
  refine ⟨others, hothers, hpairs.length_eq.symm, Instance.sameFields_of_forall ?_⟩
  intro key other hother
  obtain ⟨⟨_, field⟩, hfield, hname, hsame⟩ := exists_of_mem_results hpairs hother
  cases hname
  exact ⟨field, lookup_of_mem hkeys hfield, hsame⟩

end

/-! ## Instances -/

/-- An instance that is read as an equal one is in the form of its type. -/
theorem inForm_of_readSame (hassembled : schema.Assembled) (hclosed : schema.WithoutWildcards)
    {node : Instance} (hbuilt : node.Everywhere (Instance.IsBuilt schema.target)) :
    ∀ {decl : ElementDecl}, schema.IsTyped decl → schema.ReadSame decl node →
      schema.InForm decl.type node := by
  induction hbuilt with
  | @intro node root inside ih =>
    rintro decl htyped ⟨read, hread, hsame⟩
    cases decode_eq_ok.1 hread with
    | scalar resolved childless kind hvalue =>
      rw [Instance.same_scalar_iff.1 hsame]
      exact .scalar resolved kind
    | @text complex base value attributes resolved content childless kind hvalue scalars =>
      have hkeys := scalars.shaped.keys_sublist.nodup
        (htyped.regular hassembled resolved).names_distinct
      obtain ⟨others, rfl, hagree⟩ := Instance.same_text_iff.1 hsame
      exact .text resolved content kind
        ((inForm_of_shaped scalars.shaped).of_agree hkeys root.scalars hagree)
    | @fields complex particles entries attributes resolved content parts scalars =>
      have hkeys := scalars.shaped.keys_sublist.nodup
        (htyped.regular hassembled resolved).names_distinct
      obtain ⟨hdistinct, hdecls, htypes⟩ := htyped.particles hassembled hclosed resolved content
      obtain ⟨others, otherScalars, rfl, _, hfields, hagree⟩ := Instance.same_fields_iff.1 hsame
      -- reading goes through the particles in order, and so it succeeds in that order only
      have hreread := (fieldsRead_written_iff root.fields hdistinct hdecls).1 parts
      refine .fields resolved content ?_
        ((inForm_of_shaped scalars.shaped).of_agree hkeys root.scalars hagree)
      refine hreread.shaped_of_same root.fields hfields ?_
      intro child hchild field hfield item hitem hread
      exact ih item (List.mem_flatMap.2 ⟨_, hfield, hitem⟩) (htypes child hchild) hread

/-- An instance that conforms to its type and is in the form of it is read as an equal one. -/
theorem readSame_of_inForm (hassembled : schema.Assembled) (hclosed : schema.WithoutWildcards)
    {node : Instance} (hbuilt : node.Everywhere (Instance.IsBuilt schema.target)) :
    ∀ {decl : ElementDecl}, schema.IsTyped decl → schema.InForm decl.type node →
      schema.isDeclared decl node = true → conforms schema node decl.type = true →
        schema.ReadSame decl node := by
  induction hbuilt with
  | @intro node root inside ih =>
    intro decl htyped hform hdeclared hconforms
    rw [isDeclared, Bool.and_eq_true, beq_iff_eq] at hdeclared
    obtain ⟨hname, _⟩ := hdeclared
    have hspace := root.space
    cases hform with
    | @scalar _ simple name space value resolved kind =>
      cases hname
      cases hspace
      rw [conforms_scalar resolved] at hconforms
      have hread := Scalar.read?_getD_text? kind (accepts_of_allows hconforms)
      exact ⟨_, decode_eq_ok.2 (.scalar resolved rfl kind hread), Instance.same_scalar_iff.2 rfl⟩
    | @text _ complex base name space value attributes resolved content kind scalars =>
      cases hname
      cases hspace
      have hnames := (htyped.regular hassembled resolved).names_distinct
      rw [conforms_text resolved content, Bool.and_eq_true] at hconforms
      have hread := Scalar.read?_getD_text? kind (accepts_of_allows hconforms.1)
      obtain ⟨read, hscalars, hagree⟩ := scalars.exists_read root.scalars hnames hconforms.2
      exact ⟨_, decode_eq_ok.2 (.text resolved content rfl kind hread hscalars),
        Instance.same_text_iff.2 ⟨_, rfl, hagree⟩⟩
    | @fields _ complex particles name space entries attributes resolved content parts scalars =>
      cases hname
      cases hspace
      have hnames := (htyped.regular hassembled resolved).names_distinct
      obtain ⟨hdistinct, hdecls, htypes⟩ := htyped.particles hassembled hclosed resolved content
      rw [conforms_fields resolved content, Bool.and_eq_true, Bool.and_eq_true] at hconforms
      obtain ⟨⟨hfields, hcounts⟩, hattributes⟩ := hconforms
      -- validity looks at each field under the particle of its key, and the form puts it there
      have hgood : FieldsShaped schema.ReadSame particles entries := by
        refine parts.imp ?_
        intro particle hparticle field hfield hshaped
        have hfits := fieldConforms_of_mem hfields hfield (find?_key_of_mem hdistinct hparticle)
        refine fieldShaped_of_conforms hshaped hfits ?_
        rintro child rfl item hitem hitemForm
        exact ih item (List.mem_flatMap.2 ⟨_, hfield, hitem⟩) (htypes child hparticle) hitemForm
      obtain ⟨others, hreread, hlength, hsame⟩ :=
        exists_fieldsReread_same hgood hdistinct hdecls (List.all_eq_true.1 hcounts)
      have hread := (fieldsRead_written_iff root.fields hdistinct hdecls).2 hreread
      obtain ⟨read, hscalars, hagree⟩ := scalars.exists_read root.scalars hnames hattributes
      exact ⟨_, decode_eq_ok.2 (.fields resolved content hread hscalars),
        Instance.same_fields_iff.2 ⟨_, _, rfl, hlength, hsame, hagree⟩⟩

/-- A valid instance, built from a value that may hold instances that the schema built, is read
again as an equal one if and only if it is in the form of its type.  Validity asks for less: it
allows fields in another order, one occurrence in place of a list or a list in place of one, scalars
of another kind, and attributes that are not declared. -/
theorem exists_read_same_iff (hassembled : schema.Assembled) (hclosed : schema.WithoutWildcards)
    {name : String} {decl : ElementDecl} {value : Value} {node : Instance}
    (hdecl : schema.element? name = some decl) (hown : schema.HoldsOwn value)
    (hbuilt : schema.construct name value = .ok node) (hvalid : schema.isValid node = true) :
    (∃ read, schema.decodeElement node.toElement = .ok read ∧ read.same node = true) ↔
      schema.InForm decl.type node := by
  obtain ⟨hmem, hname⟩ := mem_of_element? hdecl
  have hdecl' : schema.element? decl.name = some decl := hname ▸ hdecl
  have htyped := isTyped_of_mem hassembled hclosed hmem
  obtain ⟨hnodes, hnode⟩ := hown.everywhere_isBuilt hassembled hclosed hdecl hbuilt
  have hspace := hnodes.root.space
  obtain ⟨_, hdepth, found, hfound, hconforms⟩ := isValid_eq_true_iff.1 hvalid
  rw [hnode, hdecl'] at hfound
  cases hfound
  have hqualified : node.qualifiedName = schema.target.qualify decl.name := by
    rw [Instance.qualifiedName, hspace, hnode]
  simp only [decodeElement_toElement_eq_ok hdecl' hqualified]
  constructor
  · rintro ⟨read, ⟨_, hread⟩, hsame⟩
    exact inForm_of_readSame hassembled hclosed hnodes htyped ⟨read, hread, hsame⟩
  · intro hform
    have hdeclared : schema.isDeclared decl node = true := by
      rw [isDeclared, hnode, hspace, beq_self_eq_true, beq_self_eq_true, Bool.and_self]
    obtain ⟨read, hread, hsame⟩ :=
      readSame_of_inForm hassembled hclosed hnodes htyped hform hdeclared hconforms
    exact ⟨read, ⟨hdepth, hread⟩, hsame⟩

/-- The type of points, with their coordinates and their attributes in some order. -/
def pointType (first second : String) (attributes : List AttributeDecl) : TypeRef :=
  .complex ⟨none, .sequence [.element ⟨first, .simple (.ofKind .int), .once⟩,
    .element ⟨second, .simple (.ofKind .int), .once⟩], attributes⟩

/-- The unit of a point. -/
def unitDecl : AttributeDecl :=
  ⟨"unit", .ofKind .string, true⟩

/-- The scale of a point. -/
def scaleDecl : AttributeDecl :=
  ⟨"scale", .ofKind .int, false⟩

/-- A drawing of a spot, whose attributes are in another order than those of a point, and of a
mirrored point, whose coordinates are in another order. -/
def drawingDecl : ElementDecl :=
  ⟨"drawing", .complex ⟨none, .sequence [
    .element ⟨"spot", pointType "x" "y" [scaleDecl, unitDecl], .optional⟩,
    .element ⟨"mirror", pointType "y" "x" [unitDecl, scaleDecl], .optional⟩], []⟩, .once⟩

/-- The schema of points and drawings. -/
def drawings : Schema :=
  ⟨⟨"urn:drawings", "d"⟩, [],
    [⟨"point", pointType "x" "y" [unitDecl, scaleDecl], .once⟩, drawingDecl], {}⟩

/-- The schema of drawings is what defining points and drawings gives. -/
theorem define_drawings :
    define ⟨"urn:drawings", "d"⟩
      [.element ⟨"point", pointType "x" "y" [unitDecl, scaleDecl], .once⟩,
        .element drawingDecl] = .ok drawings := rfl

/-- The value of a point. -/
def pointValue : Value :=
  .map [("x", .int 1), ("y", .int 2), ("unit", .text "cm"), ("scale", .int 5)]

/-- A point in the place of a name. -/
def point (name : String) : Instance :=
  let coordinate := fun name number =>
    ⟨name, drawings.target, .scalar (.ofDatum .int (.int number))⟩
  ⟨name, drawings.target, .fields [("x", .one (coordinate "x" 1)), ("y", .one (coordinate "y" 2))]
    [("unit", .ofDatum .string (.text "cm")), ("scale", .ofDatum .int (.int 5))]⟩

/-- The value of a drawing with a finished point in one of its places. -/
def drawingValue (name : String) : Value :=
  .map [(name, .built (point "point"))]

/-- A drawing with a finished point in one of its places. -/
def drawing (name : String) : Instance :=
  ⟨"drawing", drawings.target, .fields [(name, .one (point name))] []⟩

/-- The point is built from its value. -/
theorem construct_point : drawings.construct "point" pointValue = .ok (point "point") := rfl

/-- The finished point in the value of a drawing is one that the schema built. -/
theorem holdsOwn_drawingValue (name : String) : drawings.HoldsOwn (drawingValue name) := by
  refine .map (List.forall_mem_singleton.2 (.built (.map ?_) construct_point))
  intro entry hentry
  simp only [List.mem_cons, List.not_mem_nil, or_false] at hentry
  rcases hentry with rfl | rfl | rfl | rfl
  · exact .int 1
  · exact .int 2
  · exact .text "cm"
  · exact .int 5

/-- A finished point is taken as it is under the name of its new place. -/
theorem place_point {decl : ElementDecl} {definition : TypeDefinition}
    (resolved : drawings.resolve decl.type = .ok definition) :
    drawings.place 63 2 decl (.built (point "point")) = .ok (point decl.name) := by
  have hbelow : Construction.checkBelow drawings.limits 1 (point "point").depth = .ok () := by
    rw [Instance.depth_eq_height]
    rfl
  exact bind_eq_ok.2 ⟨definition, resolved, bind_eq_ok.2 ⟨(), hbelow, rfl⟩⟩

/-- The drawing is built from its value, with the finished point in either place. -/
theorem construct_drawing {name : String} (h : name = "spot" ∨ name = "mirror") :
    drawings.construct "drawing" (drawingValue name) = .ok (drawing name) := by
  refine bind_eq_ok.2 ⟨drawingDecl, rfl, bind_eq_ok.2 ⟨_, rfl, ?_⟩⟩
  refine bind_eq_ok.2 ⟨.fields [(name, .one (point name))] [], ?_, rfl⟩
  refine bind_eq_ok.2 ⟨[(name, .one (point name))], ?_, ?_⟩
  · rcases h with rfl | rfl
    · exact bind_eq_ok.2 ⟨_, bind_eq_ok.2 ⟨_, place_point rfl, rfl⟩, rfl⟩
    · exact bind_eq_ok.2 ⟨_, bind_eq_ok.2 ⟨_, place_point rfl, rfl⟩, rfl⟩
  · rcases h with rfl | rfl
    · rfl
    · rfl

/-- A drawing is three deep. -/
theorem depth_drawing (name : String) : (drawing name).depth = 3 :=
  Instance.depth_eq_height _

/-- A drawing is valid with the finished point in either place. -/
theorem isValid_drawing {name : String} (h : name = "spot" ∨ name = "mirror") :
    drawings.isValid (drawing name) = true := by
  refine isValid_eq_true_iff.2 ⟨rfl, ?_, drawingDecl, rfl, ?_⟩
  · rw [depth_drawing]
    decide
  · rcases h with rfl | rfl
    · decide
    · decide

/-- A drawing with the finished point in the place of a spot is in the form of its type. -/
theorem inForm_spot : drawings.InForm drawingDecl.type (drawing "spot") := by
  refine .fields rfl rfl (.present (.one rfl ?_) (.absent .done)) attributesInForm_nil
  refine .fields rfl rfl (.present (.one rfl (.scalar rfl rfl))
    (.present (.one rfl (.scalar rfl rfl)) .done)) ?_
  intro name scalar hscalar
  simp only [List.mem_cons, List.not_mem_nil, or_false, Prod.mk.injEq] at hscalar
  rcases hscalar with ⟨rfl, rfl⟩ | ⟨rfl, rfl⟩
  · exact ⟨unitDecl, List.mem_cons_of_mem _ List.mem_cons_self, rfl, rfl⟩
  · exact ⟨scaleDecl, List.mem_cons_self, rfl, rfl⟩

/-- A point in the place of a spot is read again, with its attributes in the order of a spot. -/
theorem exists_read_same_spot :
    drawings.construct "drawing" (drawingValue "spot") = .ok (drawing "spot") ∧
      drawings.isValid (drawing "spot") = true ∧
      ∃ read, drawings.decodeElement (drawing "spot").toElement = .ok read ∧
        read.same (drawing "spot") = true := by
  have hbuilt := construct_drawing (Or.inl rfl)
  have hvalid := isValid_drawing (Or.inl rfl)
  refine ⟨hbuilt, hvalid, ?_⟩
  exact (exists_read_same_iff (assembled_of_define define_drawings) rfl rfl
    (holdsOwn_drawingValue "spot") hbuilt hvalid).2 inForm_spot

/-- A point in the place of a mirrored point is valid, but its coordinates are not in the order of
the type, and so it is not read again. -/
theorem not_read_mirror :
    drawings.HoldsOwn (drawingValue "mirror") ∧
      drawings.construct "drawing" (drawingValue "mirror") = .ok (drawing "mirror") ∧
      drawings.isValid (drawing "mirror") = true ∧
      ∀ read, drawings.decodeElement (drawing "mirror").toElement ≠ .ok read := by
  refine ⟨holdsOwn_drawingValue "mirror", construct_drawing (Or.inr rfl),
    isValid_drawing (Or.inr rfl), ?_⟩
  intro read hread
  obtain ⟨_, decl, hdecl, hread⟩ := decodeElement_eq_ok.1 hread
  cases hdecl
  cases hread

end Schema

end TypedXml
