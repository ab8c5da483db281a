import TypedXml.Proofs.Instance.Grammar

/-!
# Fields that are written and read

The fields of a node are written one behind the other, and only the names of the elements tell which
of them belong together.  Where no key stands twice, and each field is written as elements that bear
its key, this is enough: in a schema without wildcards each particle takes the elements of the field
of its key and no others.  So reading what fields are written as goes field by field, and it fails
where the fields are not in the order of the particles.
-/

set_option autoImplicit false

namespace TypedXml

/-- Two ways to cut a list in two are one if the elements in front can be told from those behind. -/
theorem append_inj_of_forall {α : Type} {p : α → Bool} {front behind front' behind' : List α}
    (h : front ++ behind = front' ++ behind') (hfront : ∀ a ∈ front, p a = true)
    (hbehind : ∀ a ∈ behind, p a = false) (hfront' : ∀ a ∈ front', p a = true)
    (hbehind' : ∀ a ∈ behind', p a = false) : front = front' ∧ behind = behind' := by
  have hfilter : ∀ {front behind : List α}, (∀ a ∈ front, p a = true) →
      (∀ a ∈ behind, p a = false) → (front ++ behind).filter p = front := by
    intro front behind hfront hbehind
    have hnone : behind.filter p = [] := by
      rw [List.filter_eq_nil_iff]
      intro a ha
      rw [hbehind a ha]
      exact Bool.false_ne_true
    rw [List.filter_append, List.filter_eq_self.2 hfront, hnone, List.append_nil]
  have hsame : front = front' := by
    rw [← hfilter hfront hbehind, h, hfilter hfront' hbehind']
  subst hsame
  exact ⟨rfl, List.append_cancel_left h⟩

namespace Instance

/-- An element that fields are written as is one that some field is written as. -/
theorem mem_fieldElements {entries : List (String × Field)} {element : Xml.Element} :
    element ∈ fieldElements entries ↔
      ∃ key field, (key, field) ∈ entries ∧ element ∈ field.written := by
  induction entries with
  | nil => simp [fieldElements]
  | cons entry rest ih =>
    obtain ⟨key, field⟩ := entry
    rw [fieldElements_cons, List.mem_append, ih]
    constructor
    · rintro (hfirst | ⟨other, found, hmem, hwritten⟩)
      · exact ⟨key, field, List.mem_cons_self, hfirst⟩
      · exact ⟨other, found, List.mem_cons_of_mem _ hmem, hwritten⟩
    · rintro ⟨other, found, hmem, hwritten⟩
      rcases List.mem_cons.1 hmem with heq | hrest
      · cases heq
        exact Or.inl hwritten
      · exact Or.inr ⟨other, found, hrest, hwritten⟩

end Instance

/-- Fields that can be told from the elements they are written as: no key stands twice, and each
field is written as one or more elements that bear its key. -/
structure FieldsNamed (space : Namespace) (entries : List (String × Field)) : Prop where
  distinct : (entries.map Prod.fst).Nodup
  nonempty : ∀ key field, (key, field) ∈ entries → field.written ≠ []
  named : ∀ key field, (key, field) ∈ entries → ∀ element ∈ field.written,
    element.name = space.qualify key

namespace FieldsNamed

variable {space : Namespace} {key : String} {field : Field} {entries : List (String × Field)}

/-- Behind the first field the others can be told from their elements, too. -/
theorem tail (h : FieldsNamed space ((key, field) :: entries)) : FieldsNamed space entries :=
  ⟨(List.nodup_cons.1 h.distinct).2,
    fun other found hmem => h.nonempty other found (List.mem_cons_of_mem _ hmem),
    fun other found hmem => h.named other found (List.mem_cons_of_mem _ hmem)⟩

/-- An element that fields are written as bears the key of one of them. -/
theorem exists_key (h : FieldsNamed space entries) {element : Xml.Element}
    (helement : element ∈ Instance.fieldElements entries) :
    ∃ key ∈ entries.map Prod.fst, element.name = space.qualify key := by
  obtain ⟨key, field, hmem, hwritten⟩ := Instance.mem_fieldElements.1 helement
  exact ⟨key, List.mem_map_of_mem hmem, h.named key field hmem element hwritten⟩

/-- Fields that are written as nothing are none. -/
theorem eq_nil (h : FieldsNamed space entries) (hnone : Instance.fieldElements entries = []) :
    entries = [] :=
  (Instance.fieldElements_eq_nil_iff h.nonempty).1 hnone

variable {schema : Schema}

/-- The elements of the first field bear its key. -/
theorem isNamed_first (h : FieldsNamed schema.target ((key, field) :: entries)) :
    ∀ child ∈ field.written.map schema.child, schema.isNamed key child.element = true := by
  intro child hchild
  obtain ⟨element, helement, rfl⟩ := List.mem_map.1 hchild
  exact Schema.isNamed_iff.2 (h.named key field List.mem_cons_self element helement)

/-- No element that fields are written as bears a key that is not one of theirs. -/
theorem isNamed_eq_false (h : FieldsNamed schema.target entries)
    (hkey : key ∉ entries.map Prod.fst) :
    ∀ child ∈ (Instance.fieldElements entries).map schema.child,
      schema.isNamed key child.element = false := by
  intro child hchild
  obtain ⟨element, helement, rfl⟩ := List.mem_map.1 hchild
  obtain ⟨other, hother, hname⟩ := h.exists_key helement
  refine Schema.isNamed_eq_false_of_ne hname ?_
  rintro rfl
  exact hkey hother

/-- Where a child that bears a name comes first, this name is the key of the first field. -/
theorem key_eq_of_isNamed (h : FieldsNamed schema.target ((key, field) :: entries)) {name : String}
    {child : Child} {children behind : List Child}
    (hchildren : child :: children = field.written.map schema.child ++ behind)
    (hnamed : schema.isNamed name child.element = true) : key = name := by
  obtain ⟨element, elements, hwritten⟩ :=
    List.exists_cons_of_ne_nil (h.nonempty key field List.mem_cons_self)
  have hfirst := h.isNamed_first (schema.child element) (by simp [hwritten])
  rw [hwritten] at hchildren
  obtain ⟨rfl, _⟩ := List.cons.inj hchildren
  have hname := (Schema.isNamed_iff.1 hfirst).symm.trans (Schema.isNamed_iff.1 hnamed)
  exact congrArg Name.localName hname

end FieldsNamed

namespace Schema

variable {schema : Schema}

/-- What the fields of a node are read as, from the elements that they are written as: for each
particle the field of its key, if there are as many elements as it asks for. -/
inductive FieldsReread (schema : Schema) :
    List Particle → List (String × Field) → List (String × Field) → Prop
  | done : FieldsReread schema [] [] []
  | absent {particle : Particle} {later : List Particle} {entries others : List (String × Field)}
      (counted : particle.occurs.contains 0 = true)
      (rest : FieldsReread schema later entries others) :
      FieldsReread schema (particle :: later) entries others
  | present {particle : Particle} {later : List Particle} {field other : Field}
      {entries others : List (String × Field)}
      (counted : particle.occurs.contains field.count = true)
      (read : FieldRead (field.written.map schema.child) particle other)
      (rest : FieldsReread schema later entries others) :
      FieldsReread schema (particle :: later) ((particle.key, field) :: entries)
        ((particle.key, other) :: others)

/-- The keys of fields that are read again are those of particles, in their order. -/
theorem FieldsReread.keys_sublist {particles : List Particle}
    {entries others : List (String × Field)} (h : FieldsReread schema particles entries others) :
    (entries.map Prod.fst).Sublist (particles.map Particle.key) := by
  induction h with
  | done => exact .slnil
  | absent _ _ ih => exact .cons _ ih
  | present _ _ _ ih => exact .cons_cons _ ih

/-- A child that is read as part of a field bears the name of a declaration. -/
theorem FieldsRead.exists_decl {particles : List Particle} {children : List Child}
    {entries : List (String × Field)} (h : FieldsRead schema particles children entries)
    (hdecls : ∀ particle ∈ particles, particle.decl? ≠ none) :
    ∀ child ∈ children, ∃ decl, .element decl ∈ particles ∧
      schema.isNamed decl.name child.element = true := by
  induction h with
  | done => simp
  | absent enough run rest ih =>
    intro child hchild
    obtain ⟨decl, hdecl, hnamed⟩ := ih (List.forall_mem_cons.1 hdecls).2 child hchild
    exact ⟨decl, List.mem_cons_of_mem _ hdecl, hnamed⟩
  | @present particle later taken left field entries nonempty enough run read rest ih =>
    rw [List.forall_mem_cons] at hdecls
    rw [List.forall_mem_append]
    constructor
    · intro child hchild
      cases particle with
      | any wildcard => exact absurd rfl hdecls.1
      | element decl => exact ⟨decl, List.mem_cons_self, run.all_fit child hchild⟩
    · intro child hchild
      obtain ⟨decl, hdecl, hnamed⟩ := ih hdecls.2 child hchild
      exact ⟨decl, List.mem_cons_of_mem _ hdecl, hnamed⟩

variable {particles : List Particle} {entries others : List (String × Field)}

/-- The elements of a field are those that its particle takes. -/
theorem fieldsReread_of_fieldsRead {children : List Child}
    (h : FieldsRead schema particles children others)
    (hchildren : children = (Instance.fieldElements entries).map schema.child)
    (hentries : FieldsNamed schema.target entries)
    (hdistinct : (particles.map Particle.key).Nodup)
    (hdecls : ∀ particle ∈ particles, particle.decl? ≠ none) :
    FieldsReread schema particles entries others := by
  induction h generalizing entries with
  | done =>
    rw [hentries.eq_nil (List.map_eq_nil_iff.1 hchildren.symm)]
    exact .done
  | absent enough run rest ih =>
    exact .absent (Occurs.contains_iff.2 (run.allows enough))
      (ih hchildren hentries (List.nodup_cons.1 hdistinct).2 (List.forall_mem_cons.1 hdecls).2)
  | @present particle later taken left other others nonempty enough run read rest ih =>
    have hkeys := List.nodup_cons.1 hdistinct
    rw [List.forall_mem_cons] at hdecls
    cases particle with
    | any wildcard => exact absurd rfl hdecls.1
    | element decl =>
      cases entries with
      | nil => exact absurd (List.append_eq_nil_iff.1 hchildren).1 nonempty
      | cons entry remaining =>
        obtain ⟨key, field⟩ := entry
        rw [Instance.fieldElements_cons, List.map_append] at hchildren
        -- the first child is the first element of the first field, and so they agree in name
        have hkey : key = decl.name := by
          obtain ⟨child, others, rfl⟩ := List.exists_cons_of_ne_nil nonempty
          exact hentries.key_eq_of_isNamed hchildren (run.all_fit child List.mem_cons_self)
        subst hkey
        have hcut := append_inj_of_forall
          (p := fun child : Child => schema.isNamed decl.name child.element) hchildren
          run.all_fit ?behind hentries.isNamed_first
          (hentries.tail.isNamed_eq_false (List.nodup_cons.1 hentries.distinct).1)
        case behind =>
          intro child hchild
          obtain ⟨later, hlater, hnamed⟩ := rest.exists_decl hdecls.2 child hchild
          refine isNamed_eq_false_of_ne (isNamed_iff.1 hnamed) ?_
          intro heq
          exact hkeys.1 (List.mem_map.2 ⟨_, hlater, heq.symm⟩)
        obtain ⟨rfl, rfl⟩ := hcut
        have hlength : (field.written.map schema.child).length = field.count := by
          rw [List.length_map, length_written]
        refine .present ?_ (fieldRead_of_decodeField read nonempty run.room)
          (ih rfl hentries.tail hkeys.2 hdecls.2)
        rw [← hlength]
        exact Occurs.contains_iff.2 (run.allows enough)

/-- Where each particle takes the elements of the field of its key, the children are read as these
fields. -/
theorem fieldsRead_of_fieldsReread (h : FieldsReread schema particles entries others)
    (hentries : FieldsNamed schema.target entries)
    (hdistinct : (particles.map Particle.key).Nodup)
    (hdecls : ∀ particle ∈ particles, particle.decl? ≠ none) :
    FieldsRead schema particles ((Instance.fieldElements entries).map schema.child) others := by
  -- the elements behind a field bear the keys of later particles
  have hstops : ∀ {particle : Particle} {later : List Particle} {entries : List (String × Field)},
      FieldsNamed schema.target entries →
      (entries.map Prod.fst).Sublist (later.map Particle.key) →
      ((particle :: later).map Particle.key).Nodup → particle.decl? ≠ none →
        ∀ child ∈ ((Instance.fieldElements entries).map schema.child).head?,
          schema.childFits later particle child = false := by
    intro particle later entries hentries hsublist hdistinct hdecl child hchild
    cases particle with
    | any wildcard => exact absurd rfl hdecl
    | element decl =>
      have hkey : decl.name ∉ entries.map Prod.fst := fun hkey =>
        (List.nodup_cons.1 hdistinct).1 (hsublist.subset hkey)
      exact hentries.isNamed_eq_false hkey child (List.mem_of_mem_head? hchild)
  induction h with
  | done => exact .done
  | @absent particle later entries others counted rest ih =>
    have hnodup := (List.nodup_cons.1 hdistinct).2
    rw [List.forall_mem_cons] at hdecls
    exact .absent (enough_of_contains counted).1
      (isRun_nil.2 (Or.inr (hstops hentries rest.keys_sublist hdistinct hdecls.1)))
      (ih hentries hnodup hdecls.2)
  | @present particle later field other entries others counted read rest ih =>
    have hnodup := (List.nodup_cons.1 hdistinct).2
    rw [List.forall_mem_cons] at hdecls
    have hlength : (field.written.map schema.child).length = field.count := by
      rw [List.length_map, length_written]
    have hfits : ∀ child ∈ field.written.map schema.child,
        schema.childFits later particle child = true := by
      cases particle with
      | any wildcard => exact absurd rfl hdecls.1
      | element decl => exact hentries.isNamed_first
    rw [Instance.fieldElements_cons, List.map_append]
    refine .present ?_ ?_ (isRun_of_allows hfits ?_
      (hstops hentries.tail rest.keys_sublist hdistinct hdecls.1)) read.decodeField
      (ih hentries.tail hnodup hdecls.2)
    · rw [Ne, List.map_eq_nil_iff]
      exact hentries.nonempty _ field List.mem_cons_self
    · rw [hlength]
      exact (enough_of_contains counted).1
    · rw [hlength]
      exact Occurs.contains_iff.1 counted

/-- Without wildcards the fields of a node are read field by field from the elements that they are
written as. -/
theorem fieldsRead_written_iff (hentries : FieldsNamed schema.target entries)
    (hdistinct : (particles.map Particle.key).Nodup)
    (hdecls : ∀ particle ∈ particles, particle.decl? ≠ none) :
    FieldsRead schema particles ((Instance.fieldElements entries).map schema.child) others ↔
      FieldsReread schema particles entries others :=
  ⟨fun h => fieldsReread_of_fieldsRead h rfl hentries hdistinct hdecls,
    fun h => fieldsRead_of_fieldsReread h hentries hdistinct hdecls⟩

/-! ## Fields and what they are read as -/

/-- What holds between each field and what it is read as holds between all of them. -/
theorem FieldsReread.forall₂ (rel : Field → Field → Prop)
    (h : FieldsReread schema particles entries others)
    (hrel : ∀ particle ∈ particles, ∀ field other, (particle.key, field) ∈ entries →
      FieldRead (field.written.map schema.child) particle other → rel field other) :
    List.Forall₂ (fun entry other => other.1 = entry.1 ∧ rel entry.2 other.2) entries others := by
  induction h with
  | done => exact .nil
  | absent counted rest ih =>
    exact ih fun particle hparticle => hrel particle (List.mem_cons_of_mem _ hparticle)
  | present counted read rest ih =>
    refine .cons ⟨rfl, hrel _ List.mem_cons_self _ _ List.mem_cons_self read⟩ (ih ?_)
    intro particle hparticle field other hmem
    exact hrel particle (List.mem_cons_of_mem _ hparticle) field other
      (List.mem_cons_of_mem _ hmem)

variable {good : ElementDecl → Instance → Prop}

/-- Fields that are read are in the order of the particles. -/
theorem FieldsReread.shaped (h : FieldsReread schema particles entries others)
    (hgood : ∀ particle ∈ particles, ∀ field other, (particle.key, field) ∈ entries →
      (particle.key, other) ∈ others →
        FieldRead (field.written.map schema.child) particle other →
          FieldShaped good particle field) : FieldsShaped good particles entries := by
  induction h with
  | done => exact .done
  | absent counted rest ih =>
    exact .absent (ih fun particle hparticle => hgood particle (List.mem_cons_of_mem _ hparticle))
  | present counted read rest ih =>
    refine .present
      (hgood _ List.mem_cons_self _ _ List.mem_cons_self List.mem_cons_self read) (ih ?_)
    intro particle hparticle field other hfield hother
    exact hgood particle (List.mem_cons_of_mem _ hparticle) field other
      (List.mem_cons_of_mem _ hfield) (List.mem_cons_of_mem _ hother)

/-- Fields in their shape, as many as their particles ask for, are read if each of them is. -/
theorem exists_fieldsReread (rel : Field → Field → Prop) (h : FieldsShaped good particles entries)
    (hdistinct : (particles.map Particle.key).Nodup) (hcounted : Counted particles entries)
    (hread : ∀ particle ∈ particles, ∀ field, (particle.key, field) ∈ entries →
      FieldShaped good particle field →
        ∃ other, FieldRead (field.written.map schema.child) particle other ∧ rel field other) :
    ∃ others, FieldsReread schema particles entries others ∧
      List.Forall₂ (fun entry other => other.1 = entry.1 ∧ rel entry.2 other.2) entries others := by
  induction h with
  | done => exact ⟨[], .done, .nil⟩
  | @absent particle later entries rest ih =>
    have hkeys := List.nodup_cons.1 hdistinct
    have hmissing : entries.lookup particle.key = none :=
      lookup_eq_none_of_not_mem fun hmem => hkeys.1 (rest.keys_sublist.subset hmem)
    have hcount := hcounted particle List.mem_cons_self
    rw [hmissing] at hcount
    obtain ⟨others, hothers, hrel⟩ := ih hkeys.2
      (fun other hother => hcounted other (List.mem_cons_of_mem _ hother))
      (fun other hother => hread other (List.mem_cons_of_mem _ hother))
    exact ⟨others, .absent hcount hothers, hrel⟩
  | @present particle later field entries shaped rest ih =>
    have hcount := hcounted particle List.mem_cons_self
    rw [List.lookup_cons_self] at hcount
    obtain ⟨other, hother, hfirst⟩ := hread particle List.mem_cons_self field List.mem_cons_self
      shaped
    obtain ⟨others, hothers, hrel⟩ := ih (List.nodup_cons.1 hdistinct).2
      (by
        intro other hother
        have hcount := hcounted other (List.mem_cons_of_mem _ hother)
        rwa [lookup_cons_of_ne (ne_of_nodup_cons hdistinct hother)] at hcount)
      (fun other hother field hfield =>
        hread other (List.mem_cons_of_mem _ hother) field (List.mem_cons_of_mem _ hfield))
    exact ⟨_, .present hcount hother hothers, .cons ⟨rfl, hfirst⟩ hrel⟩

/-- Fields whose elements bear the names of their declarations can be told from these elements. -/
theorem fieldsNamed_of_shaped {space : Namespace}
    (h : FieldsShaped (fun decl item => item.qualifiedName = space.qualify decl.name)
      particles entries)
    (hdistinct : (particles.map Particle.key).Nodup)
    (hdecls : ∀ particle ∈ particles, particle.decl? ≠ none) : FieldsNamed space entries := by
  have hshaped : ∀ key field, (key, field) ∈ entries → field.written ≠ [] ∧
      ∀ element ∈ field.written, element.name = space.qualify key := by
    intro key field hmem
    obtain ⟨particle, hparticle, rfl, hfield⟩ := h.particle_of_mem hmem
    cases hfield with
    | @one decl item single named =>
      refine ⟨List.cons_ne_nil _ _, List.forall_mem_singleton.2 ?_⟩
      rw [Instance.toElement_name, named]
      rfl
    | @many decl items repeated nonempty named =>
      refine ⟨?_, List.forall_mem_map.2 ?_⟩
      · rwa [Field.written, Ne, List.map_eq_nil_iff]
      · intro item hitem
        rw [Instance.toElement_name, named item hitem]
        rfl
    | any nonempty => exact absurd rfl (hdecls _ hparticle)
  exact ⟨h.keys_sublist.nodup hdistinct, fun key field hmem => (hshaped key field hmem).1,
    fun key field hmem => (hshaped key field hmem).2⟩

end Schema

end TypedXml
