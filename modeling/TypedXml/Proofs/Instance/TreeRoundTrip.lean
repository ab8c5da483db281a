import TypedXml.Instance.Validity
import TypedXml.Proofs.Instance.Shape
import TypedXml.Proofs.Instance.Writing

/-!
# Valid instances are read again from their element trees

Reading is greedy: a wildcard takes whatever no later declaration names, and no particle ever gives
a child back.  A valid instance is read again all the same if its sequences have at most one
wildcard each and the elements in a wildcard do not bear the name of a declaration beside it.  Then
the run of each particle ends where its field ends, for what stands behind it belongs to particles
that follow, and bears their names or lies in their wildcard.
-/

set_option autoImplicit false

namespace TypedXml

/-! ## Conditions on sequences with wildcards -/

/-- The number of wildcards in a sequence. -/
def ComplexType.wildcards (type : ComplexType) : Nat :=
  type.particles.countP fun particle => particle.decl?.isNone

namespace Schema

/-- Whether an element bears the name of a declaration in a sequence. -/
def isNamedIn (schema : Schema) (particles : List Particle) (element : Xml.Element) : Bool :=
  (particles.filterMap Particle.decl?).any fun decl => schema.isNamed decl.name element

mutual

/-- Whether no element in a wildcard of an instance bears the name of a declaration in the same
sequence. -/
def wildcardsApart (schema : Schema) : Instance → TypeRef → Bool
  | ⟨_, _, .fields entries _⟩, type =>
    match schema.resolve type with
    | .ok (.complex complex) => fieldsApart schema complex.particles entries
    | _ => true
  | _, _ => true

/-- The same for the fields of a sequence. -/
def fieldsApart (schema : Schema) (particles : List Particle) : List (String × Field) → Bool
  | [] => true
  | (key, field) :: rest =>
    (match particles.find? (fun particle => particle.key == key) with
      | some particle => fieldApart schema particles field particle
      | none => true) && fieldsApart schema particles rest

/-- The same for the field of a particle. -/
def fieldApart (schema : Schema) (particles : List Particle) : Field → Particle → Bool
  | .any elements, _ => elements.all fun element => !schema.isNamedIn particles element
  | .one item, .element decl => wildcardsApart schema item decl.type
  | .many items, .element decl => allApart schema items decl.type
  | _, _ => true

/-- The same for a list of instances. -/
def allApart (schema : Schema) : List Instance → TypeRef → Bool
  | [], _ => true
  | item :: rest, type => wildcardsApart schema item type && allApart schema rest type

end

variable {schema : Schema}

/-- The declarations in a sequence are those of its particles. -/
theorem mem_decls_of_element {particles : List Particle} {decl : ElementDecl} :
    decl ∈ particles.filterMap Particle.decl? ↔ .element decl ∈ particles := by
  rw [List.mem_filterMap]
  constructor
  · rintro ⟨particle, hmem, hdecl⟩
    cases particle with
    | any wildcard => cases hdecl
    | element other =>
      cases hdecl
      exact hmem
  · intro hmem
    exact ⟨_, hmem, rfl⟩

/-- An element bears the name of no declaration if it is called otherwise than each of them. -/
theorem isNamedIn_eq_false {particles : List Particle} {element : Xml.Element} :
    schema.isNamedIn particles element = false ↔
      ∀ decl, .element decl ∈ particles → schema.isNamed decl.name element = false := by
  unfold isNamedIn
  rw [List.any_eq_false]
  constructor
  · intro h decl hdecl
    rw [← Bool.not_eq_true]
    exact h decl (mem_decls_of_element.2 hdecl)
  · intro h decl hdecl
    rw [Bool.not_eq_true]
    exact h decl (mem_decls_of_element.1 hdecl)

/-- An element of one name has no other one. -/
theorem isNamed_eq_false_of_ne {name other : String} {element : Xml.Element}
    (h : element.name = schema.target.qualify name) (hne : other ≠ name) :
    schema.isNamed other element = false := by
  unfold isNamed Namespace.isName
  rw [h, beq_eq_false_iff_ne]
  intro heq
  exact hne (congrArg Name.localName heq).symm

/-! ## Fields that are read again -/

/-- The number of occurrences of each particle is in its range. -/
def Counted (particles : List Particle) (entries : List (String × Field)) : Prop :=
  ∀ particle ∈ particles,
    particle.occurs.contains ((entries.lookup particle.key).elim 0 Field.count) = true

/-- A field stands for as many elements as it has occurrences. -/
theorem length_written (field : Field) : field.written.length = field.count := by
  cases field with
  | one item => rfl
  | many items => simp [Field.written, Field.count]
  | any elements => rfl

/-- A count in a range is enough, and before it there is room for one more. -/
theorem enough_of_contains {occurs : Occurs} {count : Nat} (h : occurs.contains count = true) :
    occurs.isMissing count = false ∧ ∀ k < count, occurs.isFull k = false := by
  unfold Occurs.contains at h
  rw [Bool.and_eq_true, Bool.not_eq_true', Bool.not_eq_true'] at h
  refine ⟨h.1, ?_⟩
  intro k hk
  have hexceeded := h.2
  unfold Occurs.isExceeded at hexceeded
  unfold Occurs.isFull
  cases hmax : occurs.max with
  | none => rfl
  | some max =>
    rw [hmax] at hexceeded
    simp only [decide_eq_false_iff_not] at hexceeded ⊢
    omega

/-- The element of an instance that is read again bears the name of its declaration. -/
theorem isNamed_of_readAgain {decl : ElementDecl} {item : Instance}
    (h : ReadAgain schema decl item) : schema.isNamed decl.name item.toElement = true := by
  unfold isNamed Namespace.isName
  rw [h.name, beq_self_eq_true]

variable {particle : Particle} {particles later : List Particle} {field : Field}
  {entries : List (String × Field)}

/-- No element in a wildcard bears the name of a declaration. -/
def Apart (schema : Schema) (particles : List Particle) (entries : List (String × Field)) : Prop :=
  ∀ key elements, (key, .any elements) ∈ entries →
    ∀ element ∈ elements, schema.isNamedIn particles element = false

/-- An element that no declaration names is named by none of those behind the first. -/
theorem isNamedIn_of_cons {element : Xml.Element}
    (h : schema.isNamedIn (particle :: later) element = false) :
    schema.isNamedIn later element = false := by
  rw [isNamedIn_eq_false] at h ⊢
  intro decl hdecl
  exact h decl (List.mem_cons_of_mem _ hdecl)

/-- A field in its shape is read from its elements if its occurrences are read again. -/
theorem fieldRead_written (h : FieldShaped (ReadAgain schema) particle field) :
    FieldRead (field.written.map schema.child) particle field := by
  cases h with
  | one single shaped => exact .one single shaped
  | @many decl items repeated nonempty shaped =>
    refine .many repeated ?_
    rw [Field.written, List.map_map, List.forall₂_map_left_iff, List.forall₂_same]
    exact shaped
  | @any wildcard elements nonempty =>
    have hback : (elements.map schema.child).map (·.element) = elements := by
      rw [List.map_map]
      exact List.map_id _
    have hread : FieldRead (elements.map schema.child) (.any wildcard)
        (.any ((elements.map schema.child).map (·.element))) := .any
    rwa [hback] at hread

/-- A field in its shape is written as one element or more. -/
theorem written_ne_nil (h : FieldShaped (ReadAgain schema) particle field) :
    field.written.map schema.child ≠ [] := by
  rw [Ne, List.map_eq_nil_iff, Field.written_eq_nil_iff]
  exact h.count_ne_zero

/-- The elements of a field fit its particle. -/
theorem childFits_written (h : FieldShaped (ReadAgain schema) particle field)
    (hapart : Apart schema (particle :: later) ((particle.key, field) :: entries)) :
    ∀ child ∈ field.written.map schema.child, schema.childFits later particle child = true := by
  intro child hchild
  obtain ⟨element, helement, rfl⟩ := List.mem_map.1 hchild
  show schema.fits later element particle = true
  cases h with
  | one single shaped =>
    rw [Field.written, List.mem_singleton] at helement
    rw [helement]
    exact isNamed_of_readAgain shaped
  | many repeated nonempty shaped =>
    obtain ⟨item, hitem, rfl⟩ := List.mem_map.1 helement
    exact isNamed_of_readAgain (shaped item hitem)
  | @any wildcard elements nonempty =>
    have hnamed := isNamedIn_of_cons (hapart _ _ List.mem_cons_self element helement)
    show (!schema.isNamedIn later element) = true
    rw [hnamed, Bool.not_false]

/-- An element that fields stand for bears the name of a declaration or lies in a wildcard. -/
theorem named_or_wild (h : FieldsShaped (ReadAgain schema) particles entries)
    {element : Xml.Element} (helement : element ∈ Instance.fieldElements entries) :
    (∃ decl, .element decl ∈ particles ∧ schema.isNamed decl.name element = true) ∨
      ∃ wildcard key elements, .any wildcard ∈ particles ∧ (key, .any elements) ∈ entries ∧
        element ∈ elements := by
  induction h with
  | done => cases helement
  | absent rest ih =>
    rcases ih helement with ⟨decl, hdecl, hnamed⟩ | ⟨wildcard, key, elements, hwild, hentry, hmem⟩
    · exact Or.inl ⟨decl, List.mem_cons_of_mem _ hdecl, hnamed⟩
    · exact Or.inr ⟨wildcard, key, elements, List.mem_cons_of_mem _ hwild, hentry, hmem⟩
  | @present particle later field entries shaped rest ih =>
    rw [Instance.fieldElements_cons, List.mem_append] at helement
    rcases helement with hfirst | hrest
    · cases shaped with
      | @one decl item single shaped =>
        rw [Field.written, List.mem_singleton] at hfirst
        rw [hfirst]
        exact Or.inl ⟨decl, List.mem_cons_self, isNamed_of_readAgain shaped⟩
      | @many decl items repeated nonempty shaped =>
        obtain ⟨item, hitem, rfl⟩ := List.mem_map.1 hfirst
        exact Or.inl ⟨decl, List.mem_cons_self, isNamed_of_readAgain (shaped item hitem)⟩
      | @any wildcard elements nonempty =>
        exact Or.inr ⟨wildcard, _, elements, List.mem_cons_self, List.mem_cons_self, hfirst⟩
    · rcases ih hrest with ⟨decl, hdecl, hnamed⟩ | ⟨wildcard, key, elements, hwild, hentry, hmem⟩
      · exact Or.inl ⟨decl, List.mem_cons_of_mem _ hdecl, hnamed⟩
      · exact Or.inr ⟨wildcard, key, elements, List.mem_cons_of_mem _ hwild,
          List.mem_cons_of_mem _ hentry, hmem⟩

/-- No element that stands behind the field of a particle fits the particle. -/
theorem fits_eq_false_of_behind (h : FieldsShaped (ReadAgain schema) later entries)
    (hdistinct : ((particle :: later).map Particle.key).Nodup)
    (hsingle : (particle :: later).countP (fun particle => particle.decl?.isNone) ≤ 1)
    (hapart : Apart schema (particle :: later) entries) {element : Xml.Element}
    (helement : element ∈ Instance.fieldElements entries) :
    schema.fits later element particle = false := by
  rw [List.map_cons, List.nodup_cons] at hdistinct
  cases particle with
  | element decl =>
    show schema.isNamed decl.name element = false
    rcases named_or_wild h helement with
      ⟨other, hother, hnamed⟩ | ⟨_, key, elements, _, hentry, hmem⟩
    · apply isNamed_eq_false_of_ne (isNamed_iff.1 hnamed)
      intro heq
      apply hdistinct.1
      exact List.mem_map.2 ⟨.element other, hother, heq.symm⟩
    · have hnamed := hapart key elements hentry element hmem
      exact isNamedIn_eq_false.1 hnamed decl List.mem_cons_self
  | any wildcard =>
    show (!schema.isNamedIn later element) = false
    rw [Bool.not_eq_false']
    rcases named_or_wild h helement with ⟨other, hother, hnamed⟩ | ⟨wild, _, _, hwild, _, _⟩
    · by_contra hnot
      rw [Bool.not_eq_true, isNamedIn_eq_false] at hnot
      rw [hnot other hother] at hnamed
      cases hnamed
    · have hpos : 0 < later.countP (fun particle => particle.decl?.isNone) :=
        List.countP_pos_iff.2 ⟨_, hwild, rfl⟩
      rw [List.countP_cons_of_pos (by rfl)] at hsingle
      omega

/-- Fields in their shape are read again from their elements. -/
theorem fieldsRead_of_shaped (h : FieldsShaped (ReadAgain schema) particles entries)
    (hdistinct : (particles.map Particle.key).Nodup)
    (hsingle : particles.countP (fun particle => particle.decl?.isNone) ≤ 1)
    (hcounted : Counted particles entries) (hapart : Apart schema particles entries) :
    FieldsRead schema particles ((Instance.fieldElements entries).map schema.child) entries := by
  induction h with
  | done => exact .done
  | @absent particle later entries rest ih =>
    have hkeys := List.nodup_cons.1 hdistinct
    have hlater : later.countP (fun particle => particle.decl?.isNone) ≤ 1 :=
      Nat.le_trans (List.Sublist.countP_le (List.sublist_cons_self _ _)) hsingle
    have hmissing : entries.lookup particle.key = none := by
      apply lookup_eq_none_of_not_mem
      intro hmem
      exact hkeys.1 (rest.keys_sublist.subset hmem)
    have hcount := hcounted particle List.mem_cons_self
    rw [hmissing] at hcount
    have hread := ih hkeys.2 hlater
      (fun other hother => hcounted other (List.mem_cons_of_mem _ hother))
      (fun key elements hentry element helement =>
        isNamedIn_of_cons (hapart key elements hentry element helement))
    -- what stands behind must not fit, or the particle would take it
    refine .absent (enough_of_contains hcount).1 (isRun_nil.2 (Or.inr ?_)) hread
    intro child hchild
    obtain ⟨element, helement, rfl⟩ := List.mem_map.1 (List.mem_of_mem_head? hchild)
    exact fits_eq_false_of_behind rest hdistinct hsingle hapart helement
  | @present particle later field entries shaped rest ih =>
    have hkeys := List.nodup_cons.1 hdistinct
    have hlater : later.countP (fun particle => particle.decl?.isNone) ≤ 1 :=
      Nat.le_trans (List.Sublist.countP_le (List.sublist_cons_self _ _)) hsingle
    have hcount := hcounted particle List.mem_cons_self
    rw [List.lookup_cons_self] at hcount
    have hlength : (field.written.map schema.child).length = field.count := by
      rw [List.length_map, length_written]
    obtain ⟨henough, hroom⟩ := enough_of_contains hcount
    have hbehind : Apart schema (particle :: later) entries :=
      fun key elements hentry => hapart key elements (List.mem_cons_of_mem _ hentry)
    have hcounts : Counted later entries := by
      intro other hother
      have hcount := hcounted other (List.mem_cons_of_mem _ hother)
      rwa [lookup_cons_of_ne (ne_of_nodup_cons hdistinct hother)] at hcount
    have hread := ih hkeys.2 hlater hcounts
      (fun key elements hentry element helement =>
        isNamedIn_of_cons (hbehind key elements hentry element helement))
    rw [Instance.fieldElements_cons, List.map_append]
    refine .present (written_ne_nil shaped) ?_ ⟨childFits_written shaped hapart, ?_, ?_⟩
      (fieldRead_written shaped).decodeField hread
    · rw [hlength]
      exact henough
    · intro k hk
      rw [hlength] at hk
      rw [Nat.zero_add]
      exact hroom k hk
    · refine Or.inr ?_
      intro child hchild
      obtain ⟨element, helement, rfl⟩ := List.mem_map.1 (List.mem_of_mem_head? hchild)
      exact fits_eq_false_of_behind rest hdistinct hsingle hbehind helement

/-! ## Conformity and the parts of a node -/

/-- Attributes in their shape that fit their declarations are not lost by writing. -/
theorem attributesKept_of_shaped {decls : List AttributeDecl} {scalars : List (String × Scalar)}
    (h : AttributesShaped decls scalars) (hdistinct : (decls.map AttributeDecl.name).Nodup)
    (hconform : attributesConform decls scalars = true) : AttributesKept decls scalars := by
  unfold attributesConform at hconform
  rw [List.all_eq_true] at hconform
  induction h with
  | done => exact .done
  | @absent decl rest scalars others ih =>
    have hkeys := List.nodup_cons.1 hdistinct
    rw [List.forall_mem_cons] at hconform
    have hmissing : decl.name ∉ scalars.map Prod.fst := by
      intro hmem
      exact hkeys.1 (others.keys_sublist.subset hmem)
    have hoptional := hconform.1
    rw [lookup_eq_none_of_not_mem hmissing] at hoptional
    refine .absent ?_ (ih hkeys.2 hconform.2)
    simpa [AttributeDecl.allows] using hoptional
  | @present decl rest scalar scalars kind others ih =>
    have hkeys := List.nodup_cons.1 hdistinct
    rw [List.forall_mem_cons] at hconform
    have hallows := hconform.1
    rw [List.lookup_cons_self, Option.map_some] at hallows
    have haccepts : decl.type.kind.accepts scalar.value = true := by
      unfold AttributeDecl.allows SimpleType.allows at hallows
      exact (Bool.and_eq_true _ _ ▸ hallows).1
    refine .present kind haccepts (ih hkeys.2 ?_)
    intro other hother
    have hother' := hconform.2 other hother
    rwa [lookup_cons_of_ne (ne_of_nodup_cons hdistinct hother)] at hother'

/-- Where fields conform, each of them conforms to the particle of its key. -/
theorem fieldConforms_of_mem {key : String} (h : fieldsConform schema particles entries = true)
    (hmem : (key, field) ∈ entries)
    (hfind : particles.find? (fun other => other.key == key) = some particle) :
    fieldConforms schema field particle = true := by
  induction entries with
  | nil => cases hmem
  | cons entry rest ih =>
    obtain ⟨k, f⟩ := entry
    unfold fieldsConform at h
    rw [Bool.and_eq_true] at h
    rcases List.mem_cons.1 hmem with heq | hrest
    · cases heq
      have hfirst := h.1
      rwa [hfind] at hfirst
    · exact ih h.2 hrest

/-- Where wildcards are apart in fields, they are in each of them. -/
theorem fieldApart_of_mem {key : String}
    (h : fieldsApart schema particles entries = true) (hmem : (key, field) ∈ entries)
    (hfind : particles.find? (fun other => other.key == key) = some particle) :
    fieldApart schema particles field particle = true := by
  induction entries with
  | nil => cases hmem
  | cons entry rest ih =>
    obtain ⟨k, f⟩ := entry
    unfold fieldsApart at h
    rw [Bool.and_eq_true] at h
    rcases List.mem_cons.1 hmem with heq | hrest
    · cases heq
      have hfirst := h.1
      rwa [hfind] at hfirst
    · exact ih h.2 hrest

/-- A value that a simple type allows belongs to its kind. -/
theorem accepts_of_allows {simple : SimpleType} {value : Datum}
    (h : simple.allows value = true) : simple.kind.accepts value = true := by
  unfold SimpleType.allows at h
  rw [Bool.and_eq_true] at h
  exact h.1

section

variable {type : TypeRef} {complex : ComplexType} {name : String} {space : Namespace}
  {attributes : List (String × Scalar)}

/-- A node with a scalar alone conforms to a simple type if this allows its value. -/
theorem conforms_scalar {simple : SimpleType} {value : Scalar}
    (resolved : schema.resolve type = .ok (.simple simple)) :
    conforms schema ⟨name, space, .scalar value⟩ type = simple.allows value.value := by
  unfold conforms
  rw [resolved]
  rfl

/-- A node with text conforms to a type whose content is text if this allows its value and its
attributes fit. -/
theorem conforms_text {base : SimpleType} {value : Scalar}
    (resolved : schema.resolve type = .ok (.complex complex))
    (content : complex.content = .simple base) :
    conforms schema ⟨name, space, .text value attributes⟩ type =
      (base.allows value.value && attributesConform complex.attributes attributes) := by
  unfold conforms
  rw [resolved]
  simp only [contentConforms, content]

/-- A node with fields conforms to a sequence if its fields, their counts and its attributes do. -/
theorem conforms_fields (resolved : schema.resolve type = .ok (.complex complex))
    (content : complex.content = .sequence particles) :
    conforms schema ⟨name, space, .fields entries attributes⟩ type =
      (fieldsConform schema particles entries && countsConform particles entries &&
        attributesConform complex.attributes attributes) := by
  unfold conforms
  rw [resolved]
  simp only [contentConforms, content]

/-- Wildcards are apart in a node with fields if they are in its fields. -/
theorem wildcardsApart_fields (resolved : schema.resolve type = .ok (.complex complex)) :
    wildcardsApart schema ⟨name, space, .fields entries attributes⟩ type =
      fieldsApart schema complex.particles entries := by
  unfold wildcardsApart
  rw [resolved]

end

/-- Where all nodes are elements of a declaration, each of them conforms to its type. -/
theorem conforms_of_allConform {decl : ElementDecl} {items : List Instance}
    (h : allConform schema items decl = true) :
    ∀ item ∈ items, conforms schema item decl.type = true := by
  induction items with
  | nil => simp
  | cons item rest ih =>
    unfold allConform at h
    rw [Bool.and_eq_true, Bool.and_eq_true] at h
    exact List.forall_mem_cons.2 ⟨h.1.2, ih h.2⟩

/-- Where wildcards are apart in a list of nodes, they are in each of them. -/
theorem wildcardsApart_of_allApart {type : TypeRef} {items : List Instance}
    (h : allApart schema items type = true) :
    ∀ item ∈ items, wildcardsApart schema item type = true := by
  induction items with
  | nil => simp
  | cons item rest ih =>
    unfold allApart at h
    rw [Bool.and_eq_true] at h
    exact List.forall_mem_cons.2 ⟨h.1, ih h.2⟩

/-! ## The round trip -/

/-- Every sequence of a schema has at most one wildcard. -/
def SingleWildcards (schema : Schema) : Prop :=
  schema.allTypes (fun _ => true) (fun type => decide (type.wildcards ≤ 1)) = true

/-- The complex types that are written in a type are regular and have at most one wildcard in each
sequence. -/
structure IsPlain (schema : Schema) (type : TypeRef) : Prop where
  parts : type.all schema.declares (fun type => type.checkParts.isOk) = true
  single : type.all (fun _ => true) (fun type => decide (type.wildcards ≤ 1)) = true

/-- Whether an instance is read again for a declaration if it is valid for it. -/
def Recovered (schema : Schema) (decl : ElementDecl) (node : Instance) : Prop :=
  schema.IsPlain decl.type → conforms schema node decl.type = true →
    wildcardsApart schema node decl.type = true → ReadAgain schema decl node

/-- A field that conforms has occurrences that are read again, if these are so where they are
valid. -/
theorem readAgain_of_recovered (h : FieldShaped (Recovered schema) particle field)
    (hplain : ∀ decl, particle = .element decl → schema.IsPlain decl.type)
    (hconforms : fieldConforms schema field particle = true)
    (hapart : fieldApart schema particles field particle = true) :
    FieldShaped (ReadAgain schema) particle field := by
  cases h with
  | @one decl item single shaped =>
    unfold fieldConforms at hconforms
    rw [Bool.and_eq_true] at hconforms
    unfold fieldApart at hapart
    exact .one single (shaped (hplain decl rfl) hconforms.2 hapart)
  | @many decl items repeated nonempty shaped =>
    unfold fieldConforms at hconforms
    unfold fieldApart at hapart
    refine .many repeated nonempty ?_
    intro item hitem
    exact shaped item hitem (hplain decl rfl) (conforms_of_allConform hconforms item hitem)
      (wildcardsApart_of_allApart hapart item hitem)
  | any nonempty => exact .any nonempty

/-- Fields whose wildcards are apart have no element in a wildcard that a declaration names. -/
theorem apart_of_fieldsApart (h : FieldsShaped (ReadAgain schema) particles entries)
    (hdistinct : (particles.map Particle.key).Nodup)
    (hapart : fieldsApart schema particles entries = true) : Apart schema particles entries := by
  intro key elements hentry element helement
  obtain ⟨particle, hparticle, rfl, _⟩ := h.particle_of_mem hentry
  have helements := fieldApart_of_mem hapart hentry (find?_key_of_mem hdistinct hparticle)
  unfold fieldApart at helements
  rw [List.all_eq_true] at helements
  simpa using helements element helement

/-- A valid instance in its shape is read again from its element tree. -/
theorem recovered_of_shaped (hassembled : schema.Assembled) (hsingle : schema.SingleWildcards)
    {decl : ElementDecl} {node : Instance} (h : Shaped schema decl node) :
    Recovered schema decl node := by
  refine Shaped.induct ?scalar ?text ?fields h
  case scalar =>
    intro decl simple value resolved kind _ hconforms _
    rw [conforms_scalar resolved] at hconforms
    have hread := Scalar.read?_getD_text? kind (accepts_of_allows hconforms)
    exact decode_eq_ok.2 (.scalar resolved rfl kind hread)
  case text =>
    intro decl complex base value attributes resolved content kind scalars hplain hconforms _
    have hregular := regular_of_all (all_of_resolve hassembled.allTypes hplain.parts resolved)
    rw [conforms_text resolved content, Bool.and_eq_true] at hconforms
    have hread := Scalar.read?_getD_text? kind (accepts_of_allows hconforms.1)
    have hkept := attributesKept_of_shaped scalars hregular.names_distinct hconforms.2
    exact decode_eq_ok.2 (.text resolved content rfl kind hread
      (hkept.read_written hregular.names_distinct))
  case fields =>
    intro decl complex particles entries attributes resolved content parts scalars hplain
      hconforms hapart
    have hall := all_of_resolve hassembled.allTypes hplain.parts resolved
    have hcount := all_of_resolve hsingle hplain.single resolved
    have hregular := regular_of_all hall
    have hparticles := ComplexType.particles_of_sequence content
    have hdistinct := hregular.keys_distinct
    rw [hparticles] at hdistinct
    rw [conforms_fields resolved content, Bool.and_eq_true, Bool.and_eq_true] at hconforms
    obtain ⟨⟨hfields, hcounts⟩, hattributes⟩ := hconforms
    rw [wildcardsApart_fields resolved, hparticles] at hapart
    -- keys are distinct, so that validation has looked at each field under its own particle
    have hgood : FieldsShaped (ReadAgain schema) particles entries := by
      refine parts.imp ?_
      intro particle hparticle field hfield hshaped
      have hfind := find?_key_of_mem hdistinct hparticle
      refine readAgain_of_recovered hshaped ?_ (fieldConforms_of_mem hfields hfield hfind)
        (fieldApart_of_mem hapart hfield hfind)
      rintro child rfl
      rw [← hparticles] at hparticle
      exact ⟨ComplexType.all_of_mem hall hparticle, ComplexType.all_of_mem hcount hparticle⟩
    have hwildcards : particles.countP (fun particle => particle.decl?.isNone) ≤ 1 := by
      have hholds := ComplexType.holds_of_all hcount
      rw [decide_eq_true_eq, ComplexType.wildcards, hparticles] at hholds
      exact hholds
    have hcounted : Counted particles entries := List.all_eq_true.1 hcounts
    have hclear := apart_of_fieldsApart hgood hdistinct hapart
    have hkept := attributesKept_of_shaped scalars hregular.names_distinct hattributes
    exact decode_eq_ok.2 (.fields resolved content
      (fieldsRead_of_shaped hgood hdistinct hwildcards hcounted hclear)
      (hkept.read_written hregular.names_distinct))

/-- Writing and reading a valid instance gives the instance back, if it is built from a value
without finished instances, no sequence of the schema has two wildcards, and no element in a
wildcard bears the name of a declaration beside it. -/
theorem decodeElement_toElement_of_construct (hassembled : schema.Assembled)
    (hsingle : schema.SingleWildcards) {name : String} {decl : ElementDecl} {value : Value}
    {node : Instance} (hdecl : schema.element? name = some decl)
    (hloose : schema.isLoose value decl.type = true)
    (hbuilt : schema.construct name value = .ok node) (hvalid : schema.isValid node = true)
    (hapart : schema.wildcardsApart node decl.type = true) :
    schema.decodeElement node.toElement = .ok node := by
  obtain ⟨hmem, hname⟩ := mem_of_element? hdecl
  have hplain : schema.IsPlain decl.type :=
    ⟨all_of_mem_elements hassembled.allTypes hmem, all_of_mem_elements hsingle hmem⟩
  have hshaped := shaped_of_construct hassembled hdecl hloose hbuilt
  have hfound : schema.element? node.name = some decl := by
    rw [hshaped.name, hname]
    exact hdecl
  unfold isValid at hvalid
  rw [Bool.and_eq_true, Bool.and_eq_true, decide_eq_true_eq, hfound] at hvalid
  obtain ⟨⟨_, hdepth⟩, hconforms⟩ := hvalid
  have hagain := recovered_of_shaped hassembled hsingle hshaped hplain hconforms hapart
  exact hagain.decodeElement (hname ▸ hdecl) hdepth

/-- An envelope with an element in its wildcard is read again. -/
theorem envelope_roundTrip :
    let note : Xml.Element := ⟨⟨none, "note"⟩, none, .empty, some "hi", []⟩
    let body : Instance := ⟨"Body", Soap.target, .fields [("any", .any [note])] []⟩
    let envelope : Instance := ⟨"Envelope", Soap.target, .fields [("Body", .one body)] []⟩
    Soap.envelope (.element note) = .ok envelope ∧ Soap.schema.isValid envelope = true ∧
      Soap.schema.decodeElement envelope.toElement = .ok envelope := by
  intro note body envelope
  have hdepth : note.depth = 1 := Xml.Element.depth_eq_height note
  have hnote : Construction.wildcardElement Soap.schema.limits 2 "any" (.element note) =
      .ok note := by
    simp only [Construction.wildcardElement, Construction.checkBelow, hdepth]
    rfl
  have hbody : Soap.schema.place 63 2 (Soap.openContent "Body")
      (.map [("any", .element note)]) = .ok body := by
    refine bind_eq_ok.2 ⟨_, rfl, ?_⟩
    refine bind_eq_ok.2 ⟨.fields [("any", .any [note])] [], ?_, rfl⟩
    refine bind_eq_ok.2 ⟨[("any", .any [note])], ?_, rfl⟩
    refine bind_eq_ok.2 ⟨some (.any [note]), ?_, rfl⟩
    exact bind_eq_ok.2 ⟨[note], mapM_eq_ok.2 (.cons hnote .nil), rfl⟩
  have hbuilt : Soap.envelope (.element note) = .ok envelope := by
    refine bind_eq_ok.2 ⟨Soap.envelopeDecl, rfl, ?_⟩
    refine bind_eq_ok.2 ⟨_, rfl, ?_⟩
    refine bind_eq_ok.2 ⟨.fields [("Body", .one body)] [], ?_, rfl⟩
    refine bind_eq_ok.2 ⟨[("Body", .one body)], ?_, rfl⟩
    refine bind_eq_ok.2 ⟨some (.one body), ?_, rfl⟩
    exact bind_eq_ok.2 ⟨body, hbody, rfl⟩
  have hvalid : Soap.schema.isValid envelope = true := by
    have hreach : envelope.depth = 3 := Instance.depth_eq_height envelope
    unfold isValid
    rw [hreach]
    rfl
  refine ⟨hbuilt, hvalid, ?_⟩
  apply decodeElement_toElement_of_construct Soap.schema_assembled ?_ rfl ?_ hbuilt hvalid ?_
  · rfl
  · rfl
  · rfl

end Schema

end TypedXml
