import TypedXml.Proofs.Instance.Bisimulation
import TypedXml.Proofs.Instance.Grammar
import TypedXml.Proofs.Schema.WellFormed

/-!
# Named types and inline copies of them

A reference in a batch can be replaced by a copy of the definition that it leads to.  The copy is
well-formed where it stands, since the definition is, so the batch is still accepted.  A recursive
type can then be met through the copy and through the references that are left, but whether types
agree up to replaced references is a bisimulation, and so nothing else changes.
-/

set_option autoImplicit false

namespace TypedXml

/-- Whether a type comes from another one by replacing references in it, any number of them, by
copies of their definitions, in which references may be replaced in turn. -/
inductive TypeRef.Expands (table : List (String × TypeDefinition)) : TypeRef → TypeRef → Prop
  | simple {type : SimpleType} : Expands table (.simple type) (.simple type)
  | kept {name : String} : Expands table (.named name) (.named name)
  | complex {type other : ComplexType} (inside : type.Alike (Expands table) other) :
      Expands table (.complex type) (.complex other)
  | inlined {name : String} {definition copy : TypeDefinition}
      (declared : table.lookup name = some definition)
      (copied : definition.Alike (Expands table) copy) :
      Expands table (.named name) copy.toRef

/-- The same for the types in a declaration; its name stays. -/
inductive Declaration.Expands (table : List (String × TypeDefinition)) :
    Declaration → Declaration → Prop
  | element {decl other : ElementDecl} (decls : decl.Alike (TypeRef.Expands table) other) :
      Expands table (.element decl) (.element other)
  | complex {type other : ComplexType} (inside : type.Alike (TypeRef.Expands table) other)
      (name : other.name? = type.name?) : Expands table (.complex type) (.complex other)
  | simple {type : SimpleType} : Expands table (.simple type) (.simple type)

variable {table : List (String × TypeDefinition)}

/-- A complex type is alike to itself if the types of its particles are related to themselves. -/
theorem ComplexType.Alike.of_particles {rel : TypeRef → TypeRef → Prop} {type : ComplexType}
    (h : ∀ decl, .element decl ∈ type.particles → rel decl.type decl.type) :
    type.Alike rel type := by
  obtain ⟨name, content, attributes⟩ := type
  apply ComplexType.Alike.mk
  cases content with
  | simple base => exact .simple
  | sequence particles =>
    refine .sequence (List.forall₂_same.2 ?_)
    intro particle hparticle
    cases particle with
    | element decl =>
      obtain ⟨name, type, occurs⟩ := decl
      exact .element (.mk (h _ hparticle))
    | any wildcard => exact .any

/-- No reference has to be replaced. -/
theorem TypeRef.Expands.refl (type : TypeRef) : type.Expands table type := by
  induction type using TypeRef.induct with
  | simple type => exact .simple
  | named name => exact .kept
  | complex type ih => exact .complex (.of_particles ih)

/-- A complex type is alike to itself, as no reference in it has to be replaced. -/
theorem ComplexType.alike_self (type : ComplexType) :
    type.Alike (TypeRef.Expands table) type :=
  .of_particles fun decl _ => .refl decl.type

/-! ## What the batches declare -/

section

variable {batch others : List Declaration}

/-- The elements of both batches are alike one by one. -/
theorem elementsOf_expands (h : List.Forall₂ (Declaration.Expands table) batch others) :
    List.Forall₂ (ElementDecl.Alike (TypeRef.Expands table)) (elementsOf batch)
      (elementsOf others) := by
  refine filterMap_forall₂ h ?_
  intro declaration other hexpands
  cases hexpands with
  | element decls => exact .some decls
  | complex inside name => exact .none
  | simple => exact .none

/-- The definitions of both batches have the same names and are alike one by one. -/
theorem definitionsOf_expands (h : List.Forall₂ (Declaration.Expands table) batch others) :
    List.Forall₂ (fun definition copy : TypeDefinition =>
        copy.name? = definition.name? ∧ definition.Alike (TypeRef.Expands table) copy)
      (definitionsOf batch) (definitionsOf others) := by
  refine filterMap_forall₂ h ?_
  intro declaration other hexpands
  cases hexpands with
  | element decls => exact .none
  | complex inside name => exact .some ⟨name, .complex inside⟩
  | simple => exact .some ⟨rfl, .simple⟩

/-- The types of both batches stand under the same names and are alike one by one. -/
theorem typesOf_expands (h : List.Forall₂ (Declaration.Expands table) batch others) :
    List.Forall₂ (fun entry other : String × TypeDefinition =>
        other.1 = entry.1 ∧ entry.2.Alike (TypeRef.Expands table) other.2)
      (typesOf batch) (typesOf others) := by
  refine filterMap_forall₂ (definitionsOf_expands h) ?_
  rintro definition copy ⟨hname, halike⟩
  unfold TypeDefinition.binding?
  rw [hname]
  cases definition.name? with
  | none => exact .none
  | some name => exact .some ⟨rfl, halike⟩

/-! ## The batch is still well-formed -/

/-- The types of particles are written in a batch if their complex type is. -/
theorem isWritten_of_particle {complex : ComplexType} {decl : ElementDecl}
    (h : IsWritten batch (.complex complex)) (hdecl : .element decl ∈ complex.particles) :
    IsWritten batch decl.type := by
  obtain ⟨declaration, hmem, hwritten⟩ := h
  refine ⟨declaration, hmem, ?_⟩
  -- the declaration is the outermost type of the walk, so that the walk goes on inside
  generalize declaration.type = outer at hwritten
  induction hwritten with
  | itself => exact .inside hdecl .itself
  | inside hother _ ih => exact .inside hother ih

/-- The types that a batch declares are written in it. -/
theorem isWritten_of_mem_typesOf {entry : String × TypeDefinition} (h : entry ∈ typesOf batch) :
    IsWritten batch entry.2.toRef := by
  obtain ⟨declaration, hmem, htype⟩ := Schema.exists_declaration_of_mem_typesOf h
  refine ⟨declaration, hmem, ?_⟩
  rw [htype]
  exact .itself

/-- A type that is alike to a well-formed one is well-formed. -/
theorem ComplexType.WellFormed.of_alike {rel : TypeRef → TypeRef → Prop}
    {type other : ComplexType} (h : type.Alike rel other) (htype : type.WellFormed) :
    other.WellFormed := by
  have hparticle : ∀ {P : Particle → Prop}, (∀ particle twin, particle.Alike rel twin →
      P particle → P twin) → (∀ particle ∈ type.particles, P particle) →
        ∀ twin ∈ other.particles, P twin := by
    intro P himp hall twin htwin
    obtain ⟨particle, hmem, halike⟩ := exists_of_mem_results h.particles htwin
    exact himp particle twin halike (hall particle hmem)
  refine ⟨hparticle ?_ htype.keys_valid, ?_, hparticle ?_ htype.ranges_sane, ?_, ?_, ?_⟩
  · intro particle twin halike hkey
    rwa [halike.key_eq]
  · rw [keys_eq_of_alike h.particles]
    exact htype.keys_distinct
  · intro particle twin halike hrange
    rwa [halike.occurs_eq]
  · rw [h.attributes_eq]
    exact htype.names_valid
  · rw [h.attributes_eq]
    exact htype.names_distinct
  · rw [h.attributes_eq, h.contentKeys_eq]
    exact htype.apart

/-- A complex type of the new batch stands for one of the old batch. -/
theorem exists_complex_of_expands {type : TypeRef} {other : ComplexType}
    (hwritten : IsWritten batch type) (h : type.Expands (typesOf batch) (.complex other)) :
    ∃ complex : ComplexType, IsWritten batch (.complex complex) ∧
      complex.Alike (TypeRef.Expands (typesOf batch)) other := by
  generalize hother : TypeRef.complex other = twin at h
  cases h with
  | simple => cases hother
  | kept => cases hother
  | complex inside =>
    cases hother
    exact ⟨_, hwritten, inside⟩
  | inlined declared copied =>
    have hdefinition := isWritten_of_mem_typesOf (mem_of_lookup declared)
    cases copied with
    | simple => cases hother
    | complex types =>
      cases hother
      exact ⟨_, hdefinition, types⟩

/-- What is written in the new batch comes from what is written in the old one. -/
theorem exists_written_of_expands {inner twin : TypeRef} (hinner : inner.IsWrittenIn twin) :
    ∀ {type : TypeRef}, IsWritten batch type → type.Expands (typesOf batch) twin →
      ∃ original, IsWritten batch original ∧ original.Expands (typesOf batch) inner := by
  induction hinner with
  | itself => exact fun hwritten h => ⟨_, hwritten, h⟩
  | @inside other twinDecl hdecl _ ih =>
    intro type hwritten h
    obtain ⟨complex, hcomplex, halike⟩ := exists_complex_of_expands hwritten h
    obtain ⟨particle, hparticle, hrel⟩ := exists_of_mem_results halike.particles hdecl
    rcases hrel with ⟨⟨related⟩⟩
    exact ih (isWritten_of_particle hcomplex hparticle) related

/-- A reference that is left stood there before. -/
theorem eq_named_of_expands {type : TypeRef} {name : String}
    (h : type.Expands table (.named name)) : type = .named name := by
  generalize hnamed : TypeRef.named name = twin at h
  cases h with
  | simple => cases hnamed
  | kept => rfl
  | complex inside => cases hnamed
  | inlined declared copied =>
    cases copied with
    | simple => cases hnamed
    | complex types => cases hnamed

/-- A batch in which references are replaced is well-formed if it was before. -/
theorem WellFormed.of_expands (h : List.Forall₂ (Declaration.Expands (typesOf batch)) batch others)
    (hbatch : WellFormed batch) : WellFormed others := by
  have helements := elementsOf_expands h
  have hdefinitions := definitionsOf_expands h
  have hnames : (elementsOf others).map ElementDecl.name =
      (elementsOf batch).map ElementDecl.name :=
    map_eq_of_forall₂ helements fun _ _ ⟨_⟩ => rfl
  have hkeys : (typesOf others).map Prod.fst = (typesOf batch).map Prod.fst :=
    map_eq_of_forall₂ (typesOf_expands h) fun _ _ hentry => hentry.1
  have hwritten : ∀ {inner : TypeRef}, IsWritten others inner →
      ∃ original, IsWritten batch original ∧ original.Expands (typesOf batch) inner := by
    rintro inner ⟨other, hother, hinner⟩
    obtain ⟨declaration, hmem, hexpands⟩ := exists_of_mem_results h hother
    have htype : declaration.type.Expands (typesOf batch) other.type := by
      rcases hexpands with ⟨⟨related⟩⟩ | inside | _
      · exact related
      · exact .complex inside
      · exact .simple
    exact exists_written_of_expands hinner ⟨declaration, hmem, .itself⟩ htype
  constructor
  · intro other hother
    obtain ⟨decl, hdecl, ⟨_⟩⟩ := exists_of_mem_results helements hother
    have hvalid := hbatch.elements_valid _ hdecl
    exact hvalid
  · rw [hnames]
    exact hbatch.elements_distinct
  · intro other hother
    obtain ⟨decl, hdecl, ⟨_⟩⟩ := exists_of_mem_results helements hother
    have hsane := hbatch.elements_sane _ hdecl
    exact hsane
  · intro copy hcopy
    obtain ⟨definition, hdefinition, hname, _⟩ := exists_of_mem_results hdefinitions hcopy
    rw [hname]
    exact hbatch.types_valid definition hdefinition
  · rw [hkeys]
    exact hbatch.types_distinct
  · intro other hother
    obtain ⟨original, horiginal, hexpands⟩ := hwritten hother
    obtain ⟨complex, hcomplex, halike⟩ := exists_complex_of_expands horiginal hexpands
    exact (hbatch.complex_wellFormed complex hcomplex).of_alike halike
  · intro name hname
    obtain ⟨original, horiginal, hexpands⟩ := hwritten hname
    rw [eq_named_of_expands hexpands] at horiginal
    rw [hkeys]
    exact hbatch.names_declared name horiginal

end

/-! ## Nothing else changes -/

namespace Schema

variable {target : Namespace} {limits : Limits} {batch others : List Declaration}
  {schema : Schema}

/-- The schemas of both batches cannot be told apart. -/
theorem bisimilar_expands
    (h : List.Forall₂ (Declaration.Expands (typesOf batch)) batch others) :
    Bisimilar (TypeRef.Expands (typesOf batch)) ⟨target, typesOf batch, elementsOf batch, limits⟩
      ⟨target, typesOf others, elementsOf others, limits⟩ := by
  refine ⟨rfl, rfl, ?_⟩
  intro type twin hexpands
  cases hexpands with
  | simple => exact Or.inr ⟨_, _, rfl, rfl, .simple⟩
  | complex inside => exact Or.inr ⟨_, _, rfl, rfl, .complex inside⟩
  | @kept name =>
    unfold resolve typeDefinition?
    have hfound := lookup_forall₂ (typesOf_expands h) name
    simp only
    generalize (typesOf batch).lookup name = definition, (typesOf others).lookup name = copy
      at hfound
    cases hfound with
    | some halike => exact Or.inr ⟨_, _, rfl, rfl, halike⟩
    | none => exact Or.inl ⟨_, rfl, rfl⟩
  | @inlined name definition copy declared copied =>
    refine Or.inr ⟨definition, copy, ?_, ?_, copied⟩
    · unfold resolve typeDefinition?
      simp only [declared]
    · cases copy with
      | simple type => rfl
      | complex type => rfl

/-- A named type behaves like inline copies of it.  Where references in the batch of a schema are
replaced by copies of the definitions that they lead to, the batch is accepted, and every value,
instance and element gives the same under both schemas. -/
theorem same_of_expands (h : assemble target limits batch = .ok schema)
    (hothers : List.Forall₂ (Declaration.Expands schema.types) batch others) :
    ∃ inlined, assemble target limits others = .ok inlined ∧
      (∀ name value, inlined.construct name value = schema.construct name value) ∧
      (∀ node, inlined.isValid node = schema.isValid node) ∧
      ∀ element, inlined.decodeElement element = schema.decodeElement element := by
  obtain ⟨hbatch, rfl⟩ := assemble_eq_ok.1 h
  have hsame : Bisimilar (TypeRef.Expands (typesOf batch))
      ⟨target, typesOf batch, elementsOf batch, limits⟩
      ⟨target, typesOf others, elementsOf others, limits⟩ := bisimilar_expands hothers
  have hroot : ∀ name, Option.Rel (ElementDecl.Alike (TypeRef.Expands (typesOf batch)))
      (element? ⟨target, typesOf batch, elementsOf batch, limits⟩ name)
      (element? ⟨target, typesOf others, elementsOf others, limits⟩ name) := by
    intro name
    refine find?_forall₂ (elementsOf_expands hothers) ?_
    rintro _ _ ⟨_⟩
    rfl
  exact ⟨_, assemble_eq_ok.2 ⟨hbatch.of_expands hothers, rfl⟩,
    fun name value => hsame.construct_eq (hroot name) value,
    fun node => hsame.isValid_eq (hroot node.name),
    fun element => hsame.decodeElement_eq (hroot element.name.localName)⟩

/-- The type of sections with the reference to itself replaced by a copy, in which the sections are
referred to again. -/
def unfoldedSectionType : ComplexType :=
  ⟨some "Section", .sequence [.element ⟨"title", .simple (.ofKind .string), .once⟩,
    .element ⟨"section", .complex sectionType, .zeroOrMore⟩], [⟨"level", .ofKind .int, true⟩]⟩

/-- Outlines behave the same with one more level of sections written out. -/
theorem same_unfolded_outline :
    ∃ inlined, define outline.target [.complex unfoldedSectionType,
        .element ⟨"section", .named "Section", .once⟩] = .ok inlined ∧
      (∀ name value, inlined.construct name value = outline.construct name value) ∧
      (∀ node, inlined.isValid node = outline.isValid node) ∧
      ∀ element, inlined.decodeElement element = outline.decodeElement element := by
  have hcopied : TypeDefinition.Alike (TypeRef.Expands outline.types) (.complex sectionType)
      (.complex sectionType) := .complex sectionType.alike_self
  have hunfolded : sectionType.Alike (TypeRef.Expands outline.types) unfoldedSectionType :=
    .mk (.sequence (.cons (.element (.mk .simple)) (.cons (.element (.mk (.inlined rfl hcopied)))
      .nil)))
  exact same_of_expands define_outline
    (.cons (.complex hunfolded rfl) (.cons (.element (.mk .kept)) .nil))

end Schema

end TypedXml
