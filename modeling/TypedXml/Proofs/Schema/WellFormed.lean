import TypedXml.Proofs.Schema.Assembled

/-!
# Well-formed batches

Assembly goes through a batch twice, first to register names and then to check types, and each time
it stops at the first fault.  Here is said of a batch as it is written what both passes ask of it:
names are valid and distinct, ranges are sane, and wherever a type is written in it, however deep,
its parts can be told apart and its references are declared.  `assemble_eq_ok` says that assembly
accepts exactly these batches, and that the schema holds what the batch declares, in its order.
-/

set_option autoImplicit false

namespace TypedXml

/-! ## Types that are written in types -/

/-- Whether a type is written in another one: it is that type itself, or it is written in the type
of one of its particles.  What a reference leads to is not written where the reference is. -/
inductive TypeRef.IsWrittenIn (inner : TypeRef) : TypeRef → Prop
  | itself : IsWrittenIn inner inner
  | inside {complex : ComplexType} {decl : ElementDecl}
      (declared : .element decl ∈ complex.particles) (written : IsWrittenIn inner decl.type) :
      IsWrittenIn inner (.complex complex)

/-- A statement about all types holds if it holds of simple types and references and goes over from
the types of the particles of a complex type to the complex type. -/
theorem TypeRef.induct {P : TypeRef → Prop} (simple : ∀ type, P (.simple type))
    (named : ∀ name, P (.named name))
    (complex : ∀ type : ComplexType,
      (∀ decl, .element decl ∈ type.particles → P decl.type) → P (.complex type))
    (type : TypeRef) : P type := by
  refine TypeRef.rec (motive_1 := P)
    (motive_2 := fun type => ∀ decl, .element decl ∈ type.particles → P decl.type)
    (motive_3 := fun content => ∀ decl,
      .element decl ∈ (ComplexType.mk none content []).particles → P decl.type)
    (motive_4 := fun particle => ∀ decl, particle = .element decl → P decl.type)
    (motive_5 := fun decl => P decl.type)
    (motive_6 := fun particles => ∀ decl, .element decl ∈ particles → P decl.type)
    simple (fun type ih => complex type ih) named (fun _ _ _ ih => ih) ?text (fun _ ih => ih)
    ?element ?any (fun _ _ _ ih => ih) ?none ?first type
  case text =>
    rintro base decl ⟨⟩
  case element =>
    rintro decl ih other ⟨⟩
    exact ih
  case any =>
    rintro wildcard decl ⟨⟩
  case none =>
    rintro decl ⟨⟩
  case first =>
    intro particle rest hparticle hrest decl hdecl
    rcases List.mem_cons.1 hdecl with rfl | hlater
    · exact hparticle decl rfl
    · exact hrest decl hlater

/-! ## Sound ranges and parts -/

/-- Whether a range has no upper bound, or one that allows an occurrence and is not below the
lower bound. -/
def Occurs.IsSane (occurs : Occurs) : Prop :=
  ∀ max ∈ occurs.max, 1 ≤ max ∧ occurs.min ≤ max

/-- A range passes its check if and only if it is sane. -/
theorem Occurs.check_eq_ok {occurs : Occurs} : occurs.check = .ok () ↔ occurs.IsSane := by
  obtain ⟨min, max⟩ := occurs
  unfold Occurs.check Occurs.IsSane
  match max with
  | none => simp
  | some 0 => simp
  | some (max + 1) =>
    by_cases hreversed : max + 1 < min
    · simp [hreversed]
    · simp [hreversed, Nat.le_of_not_lt hreversed]

/-- Whether the parts of a complex type have valid names, can be told apart by them, and occur in
sane ranges. -/
structure ComplexType.WellFormed (type : ComplexType) : Prop where
  keys_valid : ∀ particle ∈ type.particles, isNCName particle.key = true
  keys_distinct : (type.particles.map Particle.key).Nodup
  ranges_sane : ∀ particle ∈ type.particles, particle.occurs.IsSane
  names_valid : ∀ decl ∈ type.attributes, isNCName decl.name = true
  names_distinct : (type.attributes.map AttributeDecl.name).Nodup
  /-- No attribute is named like a particle, or, where the content is text, like the text. -/
  apart : ∀ decl ∈ type.attributes, decl.name ∉ type.contentKeys

/-- The parts of a type pass their check if and only if they are well-formed. -/
theorem ComplexType.checkParts_eq_ok_iff {type : ComplexType} :
    type.checkParts = .ok () ↔ type.WellFormed := by
  rw [checkParts_eq_ok]
  constructor
  · intro h
    exact ⟨h.keys_valid, h.keys_distinct, fun particle hparticle =>
      Occurs.check_eq_ok.1 (h.ranges_sane particle hparticle), h.names_valid, h.names_distinct,
      h.apart⟩
  · intro h
    exact ⟨h.keys_valid, fun particle hparticle =>
      Occurs.check_eq_ok.2 (h.ranges_sane particle hparticle), h.keys_distinct, h.names_valid,
      h.names_distinct, h.apart⟩

/-! ## The check of a type -/

section

variable {declared : String → Bool}

/-- Particles pass the check of their types if and only if the types of the declarations among them
do. -/
theorem Particle.checkTypes_eq_ok {particles : List Particle} :
    Particle.checkTypes declared particles = .ok () ↔
      ∀ decl, .element decl ∈ particles → decl.type.check declared = .ok () := by
  induction particles with
  | nil => simp [Particle.checkTypes]
  | cons particle rest ih =>
    cases particle with
    | any wildcard =>
      rw [Particle.checkTypes, ih]
      simp
    | element decl =>
      obtain ⟨name, type, occurs⟩ := decl
      rw [Particle.checkTypes, check_bind_eq_ok, ih]
      simp [ElementDecl.type]

/-- A complex type passes its check if and only if it is well-formed and the types of its particles
pass theirs. -/
theorem ComplexType.check_eq_ok {type : ComplexType} :
    type.check declared = .ok () ↔ type.WellFormed ∧
      ∀ decl, .element decl ∈ type.particles → decl.type.check declared = .ok () := by
  obtain ⟨name, content, attributes⟩ := type
  rw [ComplexType.check, check_bind_eq_ok, mapError_eq_ok, checkParts_eq_ok_iff]
  cases content with
  | simple base => simp [ContentModel.check, particles, ComplexType.content]
  | sequence particles => rw [ContentModel.check, Particle.checkTypes_eq_ok]; rfl

/-- What is written in a type that passes its check passes its own. -/
theorem TypeRef.check_of_isWrittenIn {inner type : TypeRef} (h : inner.IsWrittenIn type)
    (hcheck : type.check declared = .ok ()) : inner.check declared = .ok () := by
  induction h with
  | itself => exact hcheck
  | inside hmem _ ih =>
    rw [TypeRef.check, ComplexType.check_eq_ok] at hcheck
    exact ih (hcheck.2 _ hmem)

/-- A type passes its check if and only if the complex types that are written in it are well-formed
and the names that are written in it are declared. -/
theorem TypeRef.check_eq_ok {type : TypeRef} :
    type.check declared = .ok () ↔
      (∀ complex, (TypeRef.complex complex).IsWrittenIn type → complex.WellFormed) ∧
        ∀ name, (TypeRef.named name).IsWrittenIn type → declared name = true := by
  constructor
  · intro h
    constructor
    · intro complex hwritten
      have hcheck := check_of_isWrittenIn hwritten h
      rw [TypeRef.check, ComplexType.check_eq_ok] at hcheck
      exact hcheck.1
    · intro name hwritten
      have hcheck := check_of_isWrittenIn hwritten h
      rw [TypeRef.check] at hcheck
      by_contra hname
      rw [if_neg hname] at hcheck
      cases hcheck
  · induction type using TypeRef.induct with
    | simple type =>
      intro _
      rfl
    | named name =>
      rintro ⟨_, hnames⟩
      rw [TypeRef.check, if_pos (hnames name .itself)]
    | complex type ih =>
      rintro ⟨hcomplex, hnames⟩
      rw [TypeRef.check, ComplexType.check_eq_ok]
      refine ⟨hcomplex type .itself, ?_⟩
      intro decl hdecl
      exact ih decl hdecl ⟨fun complex hwritten => hcomplex complex (.inside hdecl hwritten),
        fun name hwritten => hnames name (.inside hdecl hwritten)⟩

end

/-! ## What a batch declares -/

/-- A definition in the place of a type. -/
def TypeDefinition.toRef : TypeDefinition → TypeRef
  | .simple type => .simple type
  | .complex type => .complex type

namespace Declaration

/-- The element of a declaration, none for a type. -/
def decl? : Declaration → Option ElementDecl
  | .element decl => some decl
  | .complex _ => none
  | .simple _ => none

/-- The type definition of a declaration, none for an element. -/
def definition? : Declaration → Option TypeDefinition
  | .element _ => none
  | .complex type => some (.complex type)
  | .simple type => some (.simple type)

/-- The type that a declaration gives to an element or to a name. -/
def type : Declaration → TypeRef
  | .element decl => decl.type
  | .complex type => .complex type
  | .simple type => .simple type

/-- A declaration is that of an element or that of a type. -/
theorem element_or_definition (declaration : Declaration) :
    (∃ decl, declaration = .element decl) ∨
      ∃ definition, declaration.definition? = some definition ∧ declaration.decl? = none := by
  cases declaration with
  | element decl => exact Or.inl ⟨decl, rfl⟩
  | complex type => exact Or.inr ⟨.complex type, rfl, rfl⟩
  | simple type => exact Or.inr ⟨.simple type, rfl, rfl⟩

/-- The type of a declaration of a type is this type. -/
theorem type_of_definition? {declaration : Declaration} {definition : TypeDefinition}
    (h : declaration.definition? = some definition) : declaration.type = definition.toRef := by
  cases declaration with
  | element decl => cases h
  | complex type =>
    cases h
    rfl
  | simple type =>
    cases h
    rfl

/-- The type of a declaration of an element is that of the element. -/
theorem type_of_decl? {declaration : Declaration} {decl : ElementDecl}
    (h : declaration.decl? = some decl) : declaration.type = decl.type := by
  cases declaration with
  | element decl =>
    cases h
    rfl
  | complex type => cases h
  | simple type => cases h

end Declaration

/-- A definition under its name, if it has one. -/
def TypeDefinition.binding? (definition : TypeDefinition) : Option (String × TypeDefinition) :=
  definition.name?.map (·, definition)

/-- The elements that a batch declares, in order. -/
def elementsOf (batch : List Declaration) : List ElementDecl :=
  batch.filterMap Declaration.decl?

/-- The type definitions in a batch, in order. -/
def definitionsOf (batch : List Declaration) : List TypeDefinition :=
  batch.filterMap Declaration.definition?

/-- The types that a batch declares, in order and under their names. -/
def typesOf (batch : List Declaration) : List (String × TypeDefinition) :=
  (definitionsOf batch).filterMap TypeDefinition.binding?

/-- Whether a type is written somewhere in a batch. -/
def IsWritten (batch : List Declaration) (inner : TypeRef) : Prop :=
  ∃ declaration ∈ batch, inner.IsWrittenIn declaration.type

/-- What a batch has to be in order to be a schema. -/
structure WellFormed (batch : List Declaration) : Prop where
  elements_valid : ∀ decl ∈ elementsOf batch, isNCName decl.name = true
  elements_distinct : ((elementsOf batch).map ElementDecl.name).Nodup
  elements_sane : ∀ decl ∈ elementsOf batch, decl.occurs.IsSane
  types_valid : ∀ definition ∈ definitionsOf batch,
    ∃ name, definition.name? = some name ∧ isNCName name = true
  types_distinct : ((typesOf batch).map Prod.fst).Nodup
  complex_wellFormed : ∀ type, IsWritten batch (.complex type) → type.WellFormed
  names_declared : ∀ name, IsWritten batch (.named name) → name ∈ (typesOf batch).map Prod.fst

namespace Schema

variable {schema registered : Schema} {declaration : Declaration} {batch : List Declaration}

/-! ## Registration -/

/-- A schema with the types and elements of a batch behind its own. -/
def adding (schema : Schema) (batch : List Declaration) : Schema :=
  { schema with
    types := schema.types ++ typesOf batch
    elements := schema.elements ++ elementsOf batch }

/-- Whether no two types and no two elements of a schema have the same name. -/
structure NamesDistinct (schema : Schema) : Prop where
  elements : (schema.elements.map ElementDecl.name).Nodup
  types : (schema.types.map Prod.fst).Nodup

/-- Whether a batch gives valid names, and ones that neither it nor a schema gives twice. -/
structure CanRegister (schema : Schema) (batch : List Declaration) : Prop where
  elements_valid : ∀ decl ∈ elementsOf batch, isNCName decl.name = true
  types_valid : ∀ definition ∈ definitionsOf batch,
    ∃ name, definition.name? = some name ∧ isNCName name = true
  distinct : (schema.adding batch).NamesDistinct

/-- A batch is added one declaration after the other. -/
theorem adding_cons :
    schema.adding (declaration :: batch) = (schema.adding [declaration]).adding batch := by
  have hone : declaration :: batch = [declaration] ++ batch := rfl
  unfold adding typesOf elementsOf definitionsOf
  rw [hone, List.filterMap_append, List.filterMap_append, List.filterMap_append,
    List.append_assoc, List.append_assoc]

/-- Names that are distinct with a batch are distinct without it. -/
theorem NamesDistinct.of_adding (h : (schema.adding batch).NamesDistinct) :
    schema.NamesDistinct := by
  obtain ⟨helements, htypes⟩ := h
  rw [adding, List.map_append, List.nodup_append] at helements htypes
  exact ⟨helements.1, htypes.1⟩

/-- A batch can be registered if and only if its first declaration can, and the rest can behind
it. -/
theorem canRegister_cons :
    schema.CanRegister (declaration :: batch) ↔
      schema.CanRegister [declaration] ∧ (schema.adding [declaration]).CanRegister batch := by
  have helements :
      elementsOf (declaration :: batch) = elementsOf [declaration] ++ elementsOf batch :=
    List.filterMap_append (l := [declaration])
  have hdefinitions :
      definitionsOf (declaration :: batch) = definitionsOf [declaration] ++ definitionsOf batch :=
    List.filterMap_append (l := [declaration])
  constructor
  · rintro ⟨hvalid, htypes, hdistinct⟩
    rw [helements, List.forall_mem_append] at hvalid
    rw [hdefinitions, List.forall_mem_append] at htypes
    rw [adding_cons] at hdistinct
    exact ⟨⟨hvalid.1, htypes.1, hdistinct.of_adding⟩, hvalid.2, htypes.2, hdistinct⟩
  · rintro ⟨⟨hvalid, htypes, _⟩, hvalidRest, htypesRest, hdistinct⟩
    refine ⟨?_, ?_, by rwa [adding_cons]⟩
    · rw [helements, List.forall_mem_append]
      exact ⟨hvalid, hvalidRest⟩
    · rw [hdefinitions, List.forall_mem_append]
      exact ⟨htypes, htypesRest⟩

/-- The names of elements are those that are found. -/
theorem element?_isSome {name : String} :
    (schema.element? name).isSome = true ↔ name ∈ schema.elements.map ElementDecl.name := by
  unfold element?
  rw [List.find?_isSome, List.mem_map]
  simp only [beq_iff_eq]

/-- The names of types are those that are found. -/
theorem typeDefinition?_isSome {name : String} :
    (schema.typeDefinition? name).isSome = true ↔ name ∈ schema.types.map Prod.fst := by
  unfold typeDefinition?
  rw [List.lookup_isSome_iff, List.mem_map]
  simp only [beq_iff_eq]
  simp only [eq_comm]

/-- An element is registered if and only if its name is valid and new. -/
theorem register_element_eq_ok {decl : ElementDecl} :
    schema.register (.element decl) = .ok registered ↔
      isNCName decl.name = true ∧ decl.name ∉ schema.elements.map ElementDecl.name ∧
        registered = { schema with elements := schema.elements ++ [decl] } := by
  rw [register, check_bind_eq_ok, checkName_eq_ok]
  split
  · next hbound => simp [element?_isSome.1 hbound]
  · next hfree =>
    rw [element?_isSome] at hfree
    constructor
    · rintro ⟨hvalid, hok⟩
      exact ⟨hvalid, hfree, (Except.ok.inj hok).symm⟩
    · rintro ⟨hvalid, _, rfl⟩
      exact ⟨hvalid, rfl⟩

/-- A type is added under a name if and only if this is valid and new. -/
theorem addType_eq_ok {name : String} {definition : TypeDefinition} :
    (checkName name >>= fun _ => schema.addType name definition) = .ok registered ↔
      isNCName name = true ∧ name ∉ schema.types.map Prod.fst ∧
        registered = { schema with types := schema.types ++ [(name, definition)] } := by
  rw [check_bind_eq_ok, checkName_eq_ok, addType]
  split
  · next hbound => simp [typeDefinition?_isSome.1 hbound]
  · next hfree =>
    rw [typeDefinition?_isSome] at hfree
    constructor
    · rintro ⟨hvalid, hok⟩
      exact ⟨hvalid, hfree, (Except.ok.inj hok).symm⟩
    · rintro ⟨hvalid, _, rfl⟩
      exact ⟨hvalid, rfl⟩

/-- A definition is registered if and only if it has a name that is valid and new. -/
theorem register_definition_eq_ok {definition : TypeDefinition}
    (h : declaration.definition? = some definition) :
    schema.register declaration = .ok registered ↔
      ∃ name, definition.name? = some name ∧ isNCName name = true ∧
        name ∉ schema.types.map Prod.fst ∧
        registered = { schema with types := schema.types ++ [(name, definition)] } := by
  cases declaration with
  | element decl => cases h
  | complex type =>
    cases h
    rw [register, TypeDefinition.name?]
    cases type.name? with
    | none => simp
    | some name => simp [addType_eq_ok]
  | simple type =>
    cases h
    rw [register, TypeDefinition.name?]
    cases type.name? with
    | none => simp
    | some name => simp [addType_eq_ok]

/-- An element is added behind the others. -/
theorem adding_element {decl : ElementDecl} :
    schema.adding [.element decl] = { schema with elements := schema.elements ++ [decl] } := by
  simp [adding, typesOf, elementsOf, definitionsOf, Declaration.decl?, Declaration.definition?]

/-- Registering one declaration. -/
theorem register_eq_ok (h : schema.NamesDistinct) :
    schema.register declaration = .ok registered ↔
      schema.CanRegister [declaration] ∧ registered = schema.adding [declaration] := by
  rcases declaration.element_or_definition with
    ⟨decl, rfl⟩ | ⟨definition, hdefinition, hdecl⟩
  · rw [register_element_eq_ok, adding_element]
    constructor
    · rintro ⟨hvalid, hfresh, rfl⟩
      refine ⟨⟨List.forall_mem_singleton.2 hvalid, ?_, ?_⟩, rfl⟩
      · rintro definition ⟨⟩
      · rw [adding_element]
        exact ⟨nodup_map_append_singleton.2 ⟨h.elements, hfresh⟩, h.types⟩
    · rintro ⟨hcan, rfl⟩
      have hnodup := hcan.distinct.elements
      rw [adding_element] at hnodup
      exact ⟨hcan.elements_valid decl List.mem_cons_self, (nodup_map_append_singleton.1 hnodup).2,
        rfl⟩
  · have hdefinitions : definitionsOf [declaration] = [definition] := by
      simp [definitionsOf, hdefinition]
    have helements : elementsOf [declaration] = [] := by
      simp [elementsOf, hdecl]
    have hadding : ∀ name, definition.name? = some name →
        schema.adding [declaration] =
          { schema with types := schema.types ++ [(name, definition)] } := by
      intro name hname
      simp [adding, typesOf, hdefinitions, helements, TypeDefinition.binding?, hname]
    rw [register_definition_eq_ok hdefinition]
    constructor
    · rintro ⟨name, hname, hvalid, hfresh, rfl⟩
      refine ⟨⟨?_, ?_, ?_⟩, (hadding name hname).symm⟩
      · rw [helements]
        rintro decl ⟨⟩
      · rw [hdefinitions, List.forall_mem_singleton]
        exact ⟨name, hname, hvalid⟩
      · rw [hadding name hname]
        exact ⟨h.elements, nodup_map_append_singleton.2 ⟨h.types, hfresh⟩⟩
    · rintro ⟨hcan, rfl⟩
      have hnames := hcan.types_valid
      rw [hdefinitions, List.forall_mem_singleton] at hnames
      obtain ⟨name, hname, hvalid⟩ := hnames
      have hnodup := hcan.distinct.types
      rw [hadding name hname] at hnodup ⊢
      exact ⟨name, hname, hvalid, (nodup_map_append_singleton.1 hnodup).2, rfl⟩

/-- Registering a batch: it gives valid names, and none of them twice. -/
theorem foldlM_register_eq_ok (h : schema.NamesDistinct) :
    batch.foldlM register schema = .ok registered ↔
      schema.CanRegister batch ∧ registered = schema.adding batch := by
  induction batch generalizing schema with
  | nil =>
    have hadding : schema.adding [] = schema := by
      simp [adding, typesOf, elementsOf, definitionsOf]
    rw [List.foldlM_nil, hadding]
    constructor
    · intro hok
      refine ⟨⟨?_, ?_, by rwa [hadding]⟩, (Except.ok.inj hok).symm⟩
      · rintro decl ⟨⟩
      · rintro definition ⟨⟩
    · rintro ⟨_, rfl⟩
      rfl
  | cons declaration rest ih =>
    have hadding :
        schema.adding (declaration :: rest) = (schema.adding [declaration]).adding rest :=
      adding_cons
    rw [List.foldlM_cons, bind_eq_ok, canRegister_cons, hadding]
    constructor
    · rintro ⟨next, hnext, hrest⟩
      obtain ⟨hcan, rfl⟩ := (register_eq_ok h).1 hnext
      obtain ⟨hcanRest, rfl⟩ := (ih hcan.distinct).1 hrest
      exact ⟨⟨hcan, hcanRest⟩, rfl⟩
    · rintro ⟨⟨hcan, hcanRest⟩, rfl⟩
      exact ⟨_, (register_eq_ok h).2 ⟨hcan, rfl⟩, (ih hcan.distinct).2 ⟨hcanRest, rfl⟩⟩

/-! ## Assembly -/

/-- Without declarations no name stands twice. -/
theorem namesDistinct_empty {target : Namespace} {limits : Limits} :
    (empty target limits).NamesDistinct :=
  ⟨List.nodup_nil, List.nodup_nil⟩

/-- A batch that is added to nothing is all that there is. -/
theorem adding_empty {target : Namespace} {limits : Limits} :
    (empty target limits).adding batch = ⟨target, typesOf batch, elementsOf batch, limits⟩ := by
  simp [adding, empty]

/-- The check of a definition is that of a type. -/
theorem checkDefinition_eq {definition : TypeDefinition} :
    schema.checkDefinition definition = definition.toRef.check schema.declares := by
  cases definition with
  | simple type => rfl
  | complex type => rfl

/-- An element passes its check if and only if its range is sane and its type passes. -/
theorem checkElement_eq_ok {decl : ElementDecl} :
    schema.checkElement decl = .ok () ↔
      decl.occurs.IsSane ∧ decl.type.check schema.declares = .ok () := by
  rw [checkElement, check_bind_eq_ok, mapError_eq_ok, Occurs.check_eq_ok]

/-- A schema passes its check if and only if all its types do and all its elements. -/
theorem check_eq_ok :
    schema.check = .ok () ↔
      (∀ entry ∈ schema.types, entry.2.toRef.check schema.declares = .ok ()) ∧
        ∀ decl ∈ schema.elements,
          decl.occurs.IsSane ∧ decl.type.check schema.declares = .ok () := by
  rw [check, check_bind_eq_ok, forM_eq_ok, forM_eq_ok]
  simp only [checkDefinition_eq, checkElement_eq_ok]

/-- The types that a batch declares are its definitions, each under its own name. -/
theorem mem_typesOf {name : String} {definition : TypeDefinition} :
    (name, definition) ∈ typesOf batch ↔
      definition ∈ definitionsOf batch ∧ definition.name? = some name := by
  simp only [typesOf, List.mem_filterMap, TypeDefinition.binding?, Option.map_eq_some_iff,
    Prod.mk.injEq]
  constructor
  · rintro ⟨_, hmem, _, hname, rfl, rfl⟩
    exact ⟨hmem, hname⟩
  · rintro ⟨hmem, hname⟩
    exact ⟨definition, hmem, name, hname, rfl, rfl⟩

/-- A type that a batch declares is that of one of its declarations. -/
theorem exists_declaration_of_mem_typesOf {entry : String × TypeDefinition}
    (h : entry ∈ typesOf batch) : ∃ declaration ∈ batch, declaration.type = entry.2.toRef := by
  obtain ⟨declaration, hmem, hfound⟩ := List.mem_filterMap.1 (mem_typesOf.1 h).1
  exact ⟨declaration, hmem, Declaration.type_of_definition? hfound⟩

/-- What is written in a batch is written in one of its types or below one of its elements. -/
theorem isWritten_iff {inner : TypeRef}
    (hnamed : ∀ definition ∈ definitionsOf batch, ∃ name, definition.name? = some name) :
    IsWritten batch inner ↔
      (∃ entry ∈ typesOf batch, inner.IsWrittenIn entry.2.toRef) ∨
        ∃ decl ∈ elementsOf batch, inner.IsWrittenIn decl.type := by
  constructor
  · rintro ⟨declaration, hmem, hwritten⟩
    rcases declaration.element_or_definition with ⟨decl, rfl⟩ | ⟨definition, hdefinition, _⟩
    · exact Or.inr ⟨decl, List.mem_filterMap.2 ⟨_, hmem, rfl⟩, hwritten⟩
    · have hin : definition ∈ definitionsOf batch := List.mem_filterMap.2 ⟨_, hmem, hdefinition⟩
      obtain ⟨name, hname⟩ := hnamed definition hin
      rw [Declaration.type_of_definition? hdefinition] at hwritten
      exact Or.inl ⟨(name, definition), mem_typesOf.2 ⟨hin, hname⟩, hwritten⟩
  · rintro (⟨entry, hentry, hwritten⟩ | ⟨decl, hdecl, hwritten⟩)
    · obtain ⟨declaration, hmem, htype⟩ := exists_declaration_of_mem_typesOf hentry
      exact ⟨declaration, hmem, by rwa [htype]⟩
    · obtain ⟨declaration, hmem, hfound⟩ := List.mem_filterMap.1 hdecl
      exact ⟨declaration, hmem, by rwa [Declaration.type_of_decl? hfound]⟩

/-- The types and the elements of a schema pass their checks if and only if what is written in them
is well-formed and declared, and the elements occur in sane ranges. -/
theorem check_collected_eq_ok {target : Namespace} {limits : Limits}
    (hvalid : ∀ definition ∈ definitionsOf batch,
      ∃ name, definition.name? = some name ∧ isNCName name = true) :
    check ⟨target, typesOf batch, elementsOf batch, limits⟩ = .ok () ↔
      (∀ decl ∈ elementsOf batch, decl.occurs.IsSane) ∧
      (∀ type, IsWritten batch (.complex type) → type.WellFormed) ∧
      ∀ name, IsWritten batch (.named name) → name ∈ (typesOf batch).map Prod.fst := by
  have hdeclares : ∀ name, declares ⟨target, typesOf batch, elementsOf batch, limits⟩ name = true ↔
      name ∈ (typesOf batch).map Prod.fst := fun name => typeDefinition?_isSome
  have hwritten : ∀ {inner : TypeRef}, IsWritten batch inner ↔
      (∃ entry ∈ typesOf batch, inner.IsWrittenIn entry.2.toRef) ∨
        ∃ decl ∈ elementsOf batch, inner.IsWrittenIn decl.type :=
    isWritten_iff fun definition hdefinition =>
      (hvalid definition hdefinition).imp fun _ hname => hname.1
  rw [check_eq_ok]
  simp only [TypeRef.check_eq_ok, hdeclares]
  constructor
  · rintro ⟨htypes, helements⟩
    refine ⟨fun decl hdecl => (helements decl hdecl).1, ?_, ?_⟩
    · intro type htype
      rcases hwritten.1 htype with ⟨entry, hentry, hin⟩ | ⟨decl, hdecl, hin⟩
      · exact (htypes entry hentry).1 type hin
      · exact (helements decl hdecl).2.1 type hin
    · intro name hname
      rcases hwritten.1 hname with ⟨entry, hentry, hin⟩ | ⟨decl, hdecl, hin⟩
      · exact (htypes entry hentry).2 name hin
      · exact (helements decl hdecl).2.2 name hin
  · rintro ⟨hsane, hcomplex, hnames⟩
    constructor
    · intro entry hentry
      exact ⟨fun type hin => hcomplex type (hwritten.2 (Or.inl ⟨entry, hentry, hin⟩)),
        fun name hin => hnames name (hwritten.2 (Or.inl ⟨entry, hentry, hin⟩))⟩
    · intro decl hdecl
      exact ⟨hsane decl hdecl,
        fun type hin => hcomplex type (hwritten.2 (Or.inr ⟨decl, hdecl, hin⟩)),
        fun name hin => hnames name (hwritten.2 (Or.inr ⟨decl, hdecl, hin⟩))⟩

/-- Assembly accepts exactly the well-formed batches, and the schema holds what the batch declares,
in its order. -/
theorem assemble_eq_ok {target : Namespace} {limits : Limits} :
    assemble target limits batch = .ok schema ↔
      WellFormed batch ∧ schema = ⟨target, typesOf batch, elementsOf batch, limits⟩ := by
  rw [assemble, bind_eq_ok]
  constructor
  · rintro ⟨registered, hregistered, h⟩
    obtain ⟨hcheck, h⟩ := check_bind_eq_ok.1 h
    cases h
    obtain ⟨hcan, rfl⟩ := (foldlM_register_eq_ok namesDistinct_empty).1
      (mapError_eq_ok.1 hregistered)
    have hdistinct := hcan.distinct
    rw [adding_empty] at hcheck hdistinct
    obtain ⟨hsane, hcomplex, hnames⟩ := (check_collected_eq_ok hcan.types_valid).1 hcheck
    exact ⟨⟨hcan.elements_valid, hdistinct.elements, hsane, hcan.types_valid, hdistinct.types,
      hcomplex, hnames⟩, adding_empty⟩
  · rintro ⟨hbatch, rfl⟩
    have hcan : (empty target limits).CanRegister batch := by
      refine ⟨hbatch.elements_valid, hbatch.types_valid, ?_⟩
      rw [adding_empty]
      exact ⟨hbatch.elements_distinct, hbatch.types_distinct⟩
    have hregistered := (foldlM_register_eq_ok namesDistinct_empty).2 ⟨hcan, rfl⟩
    refine ⟨_, mapError_eq_ok.2 hregistered, check_bind_eq_ok.2 ⟨?_, ?_⟩⟩
    · rw [adding_empty, check_collected_eq_ok hbatch.types_valid]
      exact ⟨hbatch.elements_sane, hbatch.complex_wellFormed, hbatch.names_declared⟩
    · rw [adding_empty]
      rfl

end Schema

end TypedXml
