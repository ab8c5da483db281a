import TypedXml.Proofs.Instance.Inlining
import TypedXml.Proofs.Schema.Extension

/-!
# Extending changes nothing that was there

An extension puts its types into the table through which the references of the old types are
resolved, at every level of every walk.  But assembly has seen to it that all names that can be met
from an old type were declared then, and a declared name keeps its definition.  So being one and the
same type with declared names only is a bisimulation of a schema and its extension, and old elements
are built, judged and read as before.
-/

set_option autoImplicit false

namespace TypedXml

namespace Schema

variable {schema extended : Schema} {target : Namespace} {limits : Limits}
  {batch more : List Declaration} {name : String}

/-- Whether two types are one type, written with declared names and well-formed parts only. -/
def IsOwnType (schema : Schema) (type twin : TypeRef) : Prop :=
  twin = type ∧ type.all schema.declares (fun complex => complex.checkParts.isOk) = true

/-- What an own type resolves to is made of own types. -/
theorem Assembled.alike_self (h : schema.Assembled) {type : TypeRef} {definition : TypeDefinition}
    (hown : schema.IsOwnType type type) (hresolved : schema.resolve type = .ok definition) :
    definition.Alike schema.IsOwnType definition := by
  cases definition with
  | simple simple => exact .simple
  | complex complex =>
    have hcomplex := all_of_resolve h.allTypes hown.2 hresolved
    exact .complex (.of_particles fun decl hdecl => ⟨rfl, ComplexType.all_of_mem hcomplex hdecl⟩)

/-- A schema cannot be told apart from one that knows its definitions and maybe more, as far as its
own types go. -/
theorem Assembled.bisimilar (h : schema.Assembled) (htarget : extended.target = schema.target)
    (hlimits : extended.limits = schema.limits)
    (hkept : ∀ name definition, schema.typeDefinition? name = some definition →
      extended.typeDefinition? name = some definition) :
    Bisimilar schema.IsOwnType schema extended := by
  refine ⟨htarget, hlimits, ?_⟩
  rintro _ type ⟨rfl, hall⟩
  obtain ⟨definition, hresolved⟩ := exists_resolve hall
  refine Or.inr ⟨definition, definition, hresolved, ?_, h.alike_self ⟨rfl, hall⟩ hresolved⟩
  cases type with
  | simple simple => exact hresolved
  | complex complex => exact hresolved
  | named name =>
    unfold resolve at hresolved ⊢
    simp only at hresolved ⊢
    cases hfound : schema.typeDefinition? name with
    | none =>
      rw [hfound] at hresolved
      cases hresolved
    | some found =>
      rw [hfound] at hresolved
      rw [hkept name found hfound]
      exact hresolved

/-! ## What an extension adds -/

/-- An extension holds the types and the elements of the schema, and behind them those of its
declarations. -/
theorem eq_adding_of_extend (h : assemble target limits batch = .ok schema)
    (hextended : schema.extend more = .ok extended) : extended = schema.adding more := by
  obtain ⟨_, rfl⟩ := assemble_eq_ok.1 h
  have hassembled : assemble target limits (batch ++ more) = .ok extended :=
    (assemble_declarations_append h more).symm.trans hextended
  obtain ⟨_, rfl⟩ := assemble_eq_ok.1 hassembled
  unfold adding typesOf elementsOf definitionsOf
  simp only [List.filterMap_append]

/-- A declared type keeps its definition when a batch is added. -/
theorem typeDefinition?_adding {definition : TypeDefinition}
    (h : schema.typeDefinition? name = some definition) :
    (schema.adding more).typeDefinition? name = some definition := by
  unfold typeDefinition? adding at *
  rw [List.lookup_append, h]
  rfl

/-- A declared element keeps its declaration when a batch is added. -/
theorem element?_adding {decl : ElementDecl} (h : schema.element? name = some decl) :
    (schema.adding more).element? name = some decl := by
  unfold element? adding at *
  rw [List.find?_append, h]
  rfl

/-- Extending a schema changes nothing for the elements that it declares: every value, instance and
element under the name of one of them gives the same before and after, be it a result or an
error. -/
theorem same_of_extend (h : assemble target limits batch = .ok schema)
    (hextended : schema.extend more = .ok extended)
    (hname : name ∈ schema.elements.map ElementDecl.name) :
    (∀ value, extended.construct name value = schema.construct name value) ∧
    (∀ node : Instance, node.name = name → extended.isValid node = schema.isValid node) ∧
    ∀ element : Xml.Element, element.name.localName = name →
      extended.decodeElement element = schema.decodeElement element := by
  have hassembled : schema.Assembled := ⟨target, limits, batch, h⟩
  obtain rfl := eq_adding_of_extend h hextended
  have hsame : Bisimilar schema.IsOwnType schema (schema.adding more) :=
    hassembled.bisimilar rfl rfl fun _ _ => typeDefinition?_adding
  obtain ⟨decl, hdecl⟩ := Option.isSome_iff_exists.1 (element?_isSome.2 hname)
  have hown : schema.IsOwnType decl.type decl.type :=
    ⟨rfl, all_of_mem_elements hassembled.allTypes (mem_of_element? hdecl).1⟩
  have hroot : Option.Rel (ElementDecl.Alike schema.IsOwnType) (schema.element? name)
      ((schema.adding more).element? name) := by
    rw [hdecl, element?_adding hdecl]
    obtain ⟨declName, type, occurs⟩ := decl
    exact .some (.mk hown)
  refine ⟨hsame.construct_eq hroot, ?_, ?_⟩
  · rintro node rfl
    exact hsame.isValid_eq hroot
  · rintro element rfl
    exact hsame.decodeElement_eq hroot

/-- Sections stay what they are when outlines get a second element with their type, and a type and
an element of another kind. -/
theorem same_extended_outline :
    ∃ extended, outline.extend [.element ⟨"part", .named "Section", .zeroOrMore⟩,
        .complex ⟨some "Index", .sequence [.any ⟨"entries", .zeroOrMore⟩], []⟩,
        .element ⟨"index", .named "Index", .once⟩] = .ok extended ∧
      (∀ value, extended.construct "section" value = outline.construct "section" value) ∧
      (∀ node : Instance, node.name = "section" →
        extended.isValid node = outline.isValid node) ∧
      ∀ element : Xml.Element, element.name.localName = "section" →
        extended.decodeElement element = outline.decodeElement element := by
  have hextended : ∃ extended, outline.extend [.element ⟨"part", .named "Section", .zeroOrMore⟩,
      .complex ⟨some "Index", .sequence [.any ⟨"entries", .zeroOrMore⟩], []⟩,
      .element ⟨"index", .named "Index", .once⟩] = .ok extended := ⟨_, rfl⟩
  obtain ⟨extended, hextended⟩ := hextended
  exact ⟨extended, hextended, same_of_extend define_outline hextended List.mem_cons_self⟩

end Schema

end TypedXml
