import TypedXml.Proofs.Instance.Grammar
import TypedXml.Proofs.Schema.WellFormed

/-!
# Extending is assembling at once

A schema is extended by declaring it anew, all of its types before all of its elements, with more
declarations behind.  The order in which types and elements of the first batch stood among each
other is lost, but nothing hangs on it: registered again, the schema is the one that the batch gave,
so that the declarations behind meet the same names either way.
-/

set_option autoImplicit false

namespace TypedXml

/-- The declaration of a definition. -/
def TypeDefinition.declaration : TypeDefinition → Declaration
  | .simple type => .simple type
  | .complex type => .complex type

namespace Schema

variable {schema : Schema} {target : Namespace} {limits : Limits} {batch : List Declaration}

/-- A schema declares its types one by one and then its elements. -/
theorem declarations_eq :
    schema.declarations =
      schema.types.map (fun entry => entry.2.declaration) ++ schema.elements.map .element := by
  rw [declarations]
  congr 1
  refine List.map_congr_left fun entry _ => ?_
  obtain ⟨name, definition⟩ := entry
  cases definition with
  | simple type => rfl
  | complex type => rfl

/-- The definitions among the declarations of a schema are its types. -/
theorem definitionsOf_declarations :
    definitionsOf schema.declarations = schema.types.map Prod.snd := by
  have htypes : Declaration.definition? ∘ (fun entry : String × TypeDefinition =>
      entry.2.declaration) = some ∘ Prod.snd := by
    funext ⟨name, definition⟩
    cases definition with
    | simple type => rfl
    | complex type => rfl
  have helements : (schema.elements.map Declaration.element).filterMap
      Declaration.definition? = [] := by
    rw [List.filterMap_eq_nil_iff, List.forall_mem_map]
    exact fun _ _ => rfl
  rw [declarations_eq, definitionsOf, List.filterMap_append, List.filterMap_map, htypes,
    helements, List.filterMap_eq_map, List.append_nil]

/-- The elements among the declarations of a schema are its elements. -/
theorem elementsOf_declarations : elementsOf schema.declarations = schema.elements := by
  have htypes : (schema.types.map fun entry => entry.2.declaration).filterMap
      Declaration.decl? = [] := by
    rw [List.filterMap_eq_nil_iff, List.forall_mem_map]
    rintro ⟨name, definition⟩ _
    cases definition with
    | simple type => rfl
    | complex type => rfl
  have helements : Declaration.decl? ∘ Declaration.element = some := rfl
  rw [declarations_eq, elementsOf, List.filterMap_append, htypes, List.filterMap_map, helements,
    List.filterMap_some, List.nil_append]

/-- Where types stand under their own names, the declarations of a schema give its type table
again. -/
theorem typesOf_declarations (h : ∀ entry ∈ schema.types, entry.2.name? = some entry.1) :
    typesOf schema.declarations = schema.types := by
  have hentries : ∀ entry ∈ schema.types, entry.2.binding? = some entry := by
    intro entry hentry
    rw [TypeDefinition.binding?, h entry hentry]
    rfl
  rw [typesOf, definitionsOf_declarations, List.filterMap_map]
  exact (List.filterMap_congr hentries).trans List.filterMap_some

/-- An assembled schema that is registered again, all types first, is the same schema. -/
theorem foldlM_register_declarations (h : assemble target limits batch = .ok schema) :
    schema.declarations.foldlM register (empty target limits) = .ok schema := by
  obtain ⟨hbatch, rfl⟩ := assemble_eq_ok.1 h
  have hnames : ∀ entry ∈ typesOf batch, entry.2.name? = some entry.1 := fun entry hentry =>
    (mem_typesOf.1 hentry).2
  have hadding : (empty target limits).adding
      (declarations ⟨target, typesOf batch, elementsOf batch, limits⟩) =
        ⟨target, typesOf batch, elementsOf batch, limits⟩ := by
    rw [adding_empty, typesOf_declarations hnames, elementsOf_declarations]
  refine (foldlM_register_eq_ok namesDistinct_empty).2 ⟨⟨?_, ?_, ?_⟩, hadding.symm⟩
  · rw [elementsOf_declarations]
    exact hbatch.elements_valid
  · rw [definitionsOf_declarations, List.forall_mem_map]
    intro entry hentry
    exact hbatch.types_valid entry.2 (mem_typesOf.1 hentry).1
  · rw [hadding]
    exact ⟨hbatch.elements_distinct, hbatch.types_distinct⟩

/-- What is declared behind a schema and behind the batch that gave it meets the same names. -/
theorem assemble_declarations_append (h : assemble target limits batch = .ok schema)
    (more : List Declaration) :
    assemble target limits (schema.declarations ++ more) =
      assemble target limits (batch ++ more) := by
  have hbatch : batch.foldlM register (empty target limits) = .ok schema := by
    obtain ⟨registered, hregistered, hchecked⟩ := bind_eq_ok.1 h
    obtain ⟨_, hsame⟩ := check_bind_eq_ok.1 hchecked
    rw [← Except.ok.inj hsame]
    exact mapError_eq_ok.1 hregistered
  rw [assemble, assemble, List.foldlM_append, List.foldlM_append,
    foldlM_register_declarations h, hbatch]

/-- Extending an assembled schema gives what assembling both batches at once gives, be it a schema
or an error.  So extending it twice gives what extending it once by both batches gives. -/
theorem extend_eq_assemble_append (h : assemble target limits batch = .ok schema) :
    (∀ more, schema.extend more = assemble target limits (batch ++ more)) ∧
    ∀ more others extended, schema.extend more = .ok extended →
      extended.extend others = schema.extend (more ++ others) := by
  have hextend : ∀ {batch : List Declaration} {schema : Schema},
      assemble target limits batch = .ok schema →
        ∀ more, schema.extend more = assemble target limits (batch ++ more) := by
    intro batch schema h more
    obtain ⟨_, rfl⟩ := assemble_eq_ok.1 h
    exact assemble_declarations_append h more
  refine ⟨hextend h, ?_⟩
  intro more others extended hextended
  rw [hextend h more] at hextended
  rw [hextend hextended others, hextend h, List.append_assoc]

/-- Outlines declare their element before its type, and an extension lists the type first.  Extended
by an element with the type, in one step or in two, they are the same schema as at once; and an
element that is declared again is the same error. -/
theorem extend_outline :
    let batch : List Declaration := [.element ⟨"section", .named "Section", .once⟩,
      .complex sectionType]
    let part : Declaration := .element ⟨"part", .named "Section", .once⟩
    let label : Declaration := .simple ((SimpleType.ofKind .string).named "Label")
    (∃ extended, define outline.target (batch ++ [part, label]) = .ok extended ∧
      outline.extend [part, label] = .ok extended ∧
      ∃ first, outline.extend [part] = .ok first ∧ first.extend [label] = .ok extended) ∧
    outline.extend [part, part] = .error (.definition (.duplicateElement "part")) := by
  intro batch part label
  have houtline : assemble outline.target {} batch = .ok outline := rfl
  have hlaw := extend_eq_assemble_append houtline
  obtain ⟨extended, hextended⟩ :
      ∃ extended, define outline.target (batch ++ [part, label]) = .ok extended := ⟨_, rfl⟩
  have hatOnce : outline.extend [part, label] = .ok extended :=
    (hlaw.1 [part, label]).trans hextended
  obtain ⟨first, hfirst⟩ : ∃ first, define outline.target (batch ++ [part]) = .ok first := ⟨_, rfl⟩
  have hstep : outline.extend [part] = .ok first := (hlaw.1 [part]).trans hfirst
  have hinTwo := (hlaw.2 [part] [label] first hstep).trans hatOnce
  exact ⟨⟨extended, hextended, hatOnce, first, hstep, hinTwo⟩, (hlaw.1 [part, part]).trans rfl⟩

end Schema

end TypedXml
