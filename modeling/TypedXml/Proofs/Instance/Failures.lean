import TypedXml.Proofs.Instance.Grammar
import TypedXml.Proofs.Schema.WellFormed

/-!
# How construction and reading fail

Every name that a type is given by in an assembled schema leads to a definition, and a walk through
types meets only such names.  So construction fails only by values that do not fit and by limits,
and reading only by elements that do not fit and by limits; neither meets a type that is unresolved.
-/

set_option autoImplicit false

namespace TypedXml

/-- Whether an error tells of a value that does not fit its place or goes beyond a limit. -/
def IsUnfit (error : Error) : Prop :=
  error.category = .construction ∨ error.category = .limitExceeded

/-- Whether the errors of a sort are, among others, all faults of values and all depths below a
given one that a limit does not allow. -/
structure CoversBelow (sort : Error → Prop) (limits : Limits) (depth : Nat) : Prop where
  fault : ∀ fault, sort (.construction fault)
  limit : ∀ found, depth < found → sort (.limit (.depth found limits.depth))

/-- Faults of values and exceeded depths are errors of values that do not fit. -/
theorem coversBelow_isUnfit (limits : Limits) (depth : Nat) : CoversBelow IsUnfit limits depth :=
  ⟨fun _ => Or.inl rfl, fun _ _ => Or.inr rfl⟩

/-- Errors that cover what is below a depth cover what is below a deeper one. -/
theorem CoversBelow.mono {sort : Error → Prop} {limits : Limits} {depth deeper : Nat}
    (h : CoversBelow sort limits depth) (hdeeper : depth ≤ deeper) :
    CoversBelow sort limits deeper :=
  ⟨h.fault, fun found hfound => h.limit found (Nat.lt_of_le_of_lt hdeeper hfound)⟩

namespace Construction

variable {sort : Error → Prop} {place : Placing} {limits : Limits} {depth : Nat}
  {name key : String} {value : Value}

/-- A finished tree is refused only for its depth. -/
theorem failsOnly_checkBelow (hsort : CoversBelow sort limits depth) {treeDepth : Nat}
    (htree : 0 < treeDepth) : FailsOnly sort (checkBelow limits depth treeDepth) := by
  unfold checkBelow Limits.checkDepth
  split
  · exact failsOnly_error (hsort.limit _ (Nat.lt_add_of_pos_right htree))
  · exact failsOnly_ok

/-- A wildcard refuses a value only for its form or its depth. -/
theorem failsOnly_wildcardElement (hsort : CoversBelow sort limits depth) :
    FailsOnly sort (wildcardElement limits depth key value) := by
  unfold wildcardElement
  split
  · next node =>
    exact (failsOnly_checkBelow hsort node.depth_pos).bind fun _ _ => failsOnly_ok
  · next element =>
    exact (failsOnly_checkBelow hsort element.depth_pos).bind fun _ _ => failsOnly_ok
  · exact failsOnly_error (hsort.fault _)

/-- A wildcard fails only by the form or the depth of what is given for it. -/
theorem failsOnly_wildcard (hsort : CoversBelow sort limits depth) :
    FailsOnly sort (wildcard limits depth key value) := by
  unfold wildcard
  extract_lets items
  split
  · exact failsOnly_ok
  · exact (failsOnly_mapM fun _ _ => failsOnly_wildcardElement hsort).bind fun _ _ => failsOnly_ok

/-- A declaration fails only by the form of the value or by one of its occurrences. -/
theorem failsOnly_declared (hfault : ∀ fault, sort (.construction fault)) {decl : ElementDecl}
    (hplace : ∀ part, FailsOnly sort (place decl part)) :
    FailsOnly sort (declared place decl value) := by
  unfold declared
  split
  · split
    · exact failsOnly_error (hfault _)
    · exact (hplace _).bind fun _ _ => failsOnly_ok
  · split
    · exact failsOnly_ok
    · exact (failsOnly_mapM fun part _ => hplace part).bind fun _ _ => failsOnly_ok
    · exact failsOnly_error (hfault _)

/-- Fields fail only by a fault of a value, a limit, or a failure below. -/
theorem failsOnly_fields (hsort : CoversBelow sort limits depth)
    {entries : List (String × Value)} {particles : List Particle}
    (hplace : ∀ decl, .element decl ∈ particles → ∀ part, FailsOnly sort (place decl part)) :
    FailsOnly sort (fields place limits depth entries particles) := by
  induction particles with
  | nil => exact failsOnly_ok
  | cons particle rest ih =>
    have hrest := ih fun decl hdecl => hplace decl (List.mem_cons_of_mem _ hdecl)
    unfold fields
    split
    · exact hrest
    · next value _ =>
      have hfield : FailsOnly sort (field place limits depth value particle) := by
        cases particle with
        | any wildcard => exact failsOnly_wildcard hsort
        | element decl => exact failsOnly_declared hsort.fault (hplace decl List.mem_cons_self)
      refine hfield.bind fun first _ => hrest.bind fun others _ => ?_
      split
      · exact failsOnly_ok
      · exact failsOnly_ok

/-- A sequence fails only by a fault of its value, a limit, or a failure below. -/
theorem failsOnly_sequence (hsort : CoversBelow sort limits depth) {type : ComplexType}
    {particles : List Particle}
    (hplace : ∀ decl, .element decl ∈ particles → ∀ part, FailsOnly sort (place decl part)) :
    FailsOnly sort (sequence place limits depth name type particles value) := by
  have hentries : ∀ entries, FailsOnly sort
      (sequenceOfEntries place limits depth name type particles entries) := by
    intro entries
    exact (failsOnly_fields hsort hplace).bind fun _ _ =>
      (failsOnly_mapError hsort.fault).bind fun _ _ =>
        (failsOnly_mapError hsort.fault).bind fun _ _ => failsOnly_ok
  unfold sequence
  split
  · exact hentries []
  · exact hentries _
  · exact (failsOnly_mapError hsort.fault).bind fun entries _ => hentries entries
  · exact failsOnly_error (hsort.fault _)

/-- The content of a node fails only by a fault of its value, a limit, or a failure below. -/
theorem failsOnly_content (hsort : CoversBelow sort limits depth) {definition : TypeDefinition}
    (hplace : ∀ type, definition = .complex type → ∀ decl, .element decl ∈ type.particles →
      ∀ part, FailsOnly sort (place decl part)) :
    FailsOnly sort (content place limits depth name value definition) := by
  unfold content
  split
  · exact failsOnly_mapError hsort.fault
  · next type =>
    split
    · exact failsOnly_mapError hsort.fault
    · next particles hparticles =>
      apply failsOnly_sequence hsort
      rw [← ComplexType.particles_of_sequence hparticles]
      exact hplace type rfl

/-- A node fails to be built only by a fault of its value, a limit, or a failure below. -/
theorem failsOnly_node (hsort : CoversBelow sort limits (depth - 1)) {target : Namespace}
    {definition : TypeDefinition}
    (hplace : ∀ type, definition = .complex type → ∀ decl, .element decl ∈ type.particles →
      ∀ part, FailsOnly sort (place decl part)) :
    FailsOnly sort (node place target limits depth name definition value) := by
  unfold node
  split
  · next built => exact (failsOnly_checkBelow hsort built.depth_pos).bind fun _ _ => failsOnly_ok
  · exact (failsOnly_content (hsort.mono (Nat.sub_le depth 1)) hplace).bind fun _ _ => failsOnly_ok

end Construction

namespace Schema

variable {schema : Schema}

/-- In an assembled schema construction fails only by values that do not fit and by limits. -/
theorem failsOnly_place (hassembled : schema.Assembled) {levels depth : Nat} {decl : ElementDecl}
    {value : Value}
    (htype : decl.type.all schema.declares (fun type => type.checkParts.isOk) = true) :
    FailsOnly IsUnfit (schema.place levels depth decl value) := by
  induction levels generalizing depth decl value with
  | zero => exact failsOnly_error (Or.inr rfl)
  | succ levels ih =>
    obtain ⟨definition, hresolved⟩ := exists_resolve htype
    rw [place, bind_of_eq_ok hresolved]
    apply Construction.failsOnly_node (coversBelow_isUnfit _ _)
    rintro type rfl child hchild part
    exact ih (ComplexType.all_of_mem (all_of_resolve hassembled.allTypes htype hresolved) hchild)

/-- In an assembled schema construction fails only by an unknown element, a value that does not fit,
or a limit. -/
theorem failsOnly_construct (hassembled : schema.Assembled) {name : String} {value : Value} :
    FailsOnly (fun error => error.category = .unknownElement ∨ IsUnfit error)
      (schema.construct name value) := by
  unfold construct element
  split
  · next decl hdecl =>
    have hmem := (mem_of_element? hdecl).1
    intro error h
    exact Or.inr (failsOnly_place hassembled (all_of_mem_elements hassembled.allTypes hmem) error h)
  · exact failsOnly_error (Or.inl rfl)

/-- In an assembled schema reading fails only by elements that do not fit and by limits. -/
theorem failsOnly_decodeElement (hassembled : schema.Assembled) {element : Xml.Element} :
    FailsOnly (fun error => error.category = .schemaMismatch ∨ error.category = .limitExceeded)
      (schema.decodeElement element) := by
  refine FailsOnly.bind (failsOnly_mapError fun _ => Or.inr rfl) fun _ hdepth => ?_
  have hmismatches := onlyMismatches_decodeElement hassembled
    (Limits.checkDepth_eq_ok.1 (mapError_eq_ok.1 hdepth))
  rw [decodeElement, bind_of_eq_ok hdepth] at hmismatches
  intro error h
  obtain ⟨found, rfl⟩ := hmismatches error h
  exact Or.inl rfl

/-- Assembly accepts exactly the well-formed batches, and in a schema that it gives construction and
reading never meet a type that is unresolved. -/
theorem exists_define_iff_wellFormed :
    (∀ target batch, (∃ schema, define target batch = .ok schema) ↔ WellFormed batch) ∧
    ∀ schema : Schema, schema.Assembled →
      (∀ name value error, schema.construct name value = .error error →
        error.category ≠ .unresolvedType) ∧
      ∀ element error, schema.decodeElement element = .error error →
        error.category ≠ .unresolvedType := by
  constructor
  · intro target batch
    constructor
    · rintro ⟨schema, h⟩
      exact (assemble_eq_ok.1 h).1
    · intro h
      exact ⟨_, assemble_eq_ok.2 ⟨h, rfl⟩⟩
  · intro schema hassembled
    constructor
    · intro name value error h hcategory
      rcases failsOnly_construct hassembled error h with hunknown | hunfit | hlimit
      · rw [hcategory] at hunknown
        cases hunknown
      · rw [hcategory] at hunfit
        cases hunfit
      · rw [hcategory] at hlimit
        cases hlimit
    · intro element error h hcategory
      rcases failsOnly_decodeElement hassembled error h with hmismatch | hlimit
      · rw [hcategory] at hmismatch
        cases hmismatch
      · rw [hcategory] at hlimit
        cases hlimit

/-- Outlines, whose type refers to itself, are a well-formed batch, and no section that is built or
read meets an unresolved type. -/
theorem wellFormed_outline :
    WellFormed [.complex sectionType, .element ⟨"section", .named "Section", .once⟩] ∧
      (∀ name value error, outline.construct name value = .error error →
        error.category ≠ .unresolvedType) ∧
      ∀ element error, outline.decodeElement element = .error error →
        error.category ≠ .unresolvedType :=
  ⟨(exists_define_iff_wellFormed.1 ⟨"urn:outline", "o"⟩ _).1 ⟨outline, define_outline⟩,
    exists_define_iff_wellFormed.2 outline (assembled_of_define define_outline)⟩

end Schema

end TypedXml
