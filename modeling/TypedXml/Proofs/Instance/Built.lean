import TypedXml.Proofs.Instance.WrittenFields

/-!
# Instances built from finished instances

A finished instance in a value is taken as it is, under the name of its new place, whatever its type
was.  Where all finished instances in a value are ones that the schema itself built, from values of
the same sort, the result need not have the shape of its declaration; but some things hold of every
node that a schema without wildcards builds, and a new name does not change them.
-/

set_option autoImplicit false

namespace TypedXml

namespace Instance

/-- Whether a node is one that a schema without wildcards can build: its fields can be told from the
elements that they are written as, and no attribute stands twice. -/
structure IsBuilt (target : Namespace) (node : Instance) : Prop where
  space : node.space = target
  fields : FieldsNamed target node.fields
  scalars : (node.scalars.map Prod.fst).Nodup

variable {name : String} {space : Namespace}

/-- Without fields nothing has a wrong name. -/
theorem fieldsNamed_nil : FieldsNamed space [] :=
  ⟨List.nodup_nil, nofun, nofun⟩

/-- A node with a scalar alone can be built. -/
theorem everywhere_isBuilt_scalar (value : Scalar) :
    Everywhere (IsBuilt space) ⟨name, space, .scalar value⟩ :=
  .intro ⟨rfl, fieldsNamed_nil, List.nodup_nil⟩ nofun

/-- A node with a scalar and attributes can be built if no attribute stands twice. -/
theorem everywhere_isBuilt_text (value : Scalar) {attributes : List (String × Scalar)}
    (h : (attributes.map Prod.fst).Nodup) :
    Everywhere (IsBuilt space) ⟨name, space, .text value attributes⟩ :=
  .intro ⟨rfl, fieldsNamed_nil, h⟩ nofun

/-- A new name changes nothing below a node. -/
theorem Everywhere.renamed {node : Instance} (h : Everywhere (IsBuilt space) node)
    (name : String) : Everywhere (IsBuilt space) (node.renamed name space) :=
  .intro ⟨rfl, h.root.fields, h.root.scalars⟩ h.inside

end Instance

namespace Schema

/-- Whether the finished instances in a value are ones that a schema built, from values of the same
sort. -/
inductive HoldsOwn (schema : Schema) : Value → Prop
  | null : HoldsOwn schema .null
  | text (s : String) : HoldsOwn schema (.text s)
  | int (n : Int64) : HoldsOwn schema (.int n)
  | boolean (b : Bool) : HoldsOwn schema (.boolean b)
  | bytes (b : Octets) : HoldsOwn schema (.bytes b)
  | element (element : Xml.Element) : HoldsOwn schema (.element element)
  | list {items : List Value} (own : ∀ item ∈ items, HoldsOwn schema item) :
      HoldsOwn schema (.list items)
  | map {entries : List (String × Value)} (own : ∀ entry ∈ entries, HoldsOwn schema entry.2) :
      HoldsOwn schema (.map entries)
  | built {name : String} {value : Value} {node : Instance} (own : HoldsOwn schema value)
      (built : schema.construct name value = .ok node) : HoldsOwn schema (.built node)

/-- Whether a value is placed as an instance of the name of its declaration, with nodes that the
schema can build. -/
def IsPlaced (schema : Schema) (value : Value) : Prop :=
  ∀ levels depth decl node, schema.IsTyped decl →
    schema.place levels depth decl value = .ok node →
      node.Everywhere (Instance.IsBuilt schema.target) ∧ node.name = decl.name

variable {schema : Schema}

/-- A value is placed if the values for its parts are. -/
theorem isPlaced_of_entries (hassembled : schema.Assembled) (hclosed : schema.WithoutWildcards)
    {value : Value} (hbuilt : ∀ built, value ≠ .built built)
    (hentries : ∀ keys key slot, (value.entries keys).lookup key = some slot →
      ∀ part ∈ slot.parts, schema.IsPlaced part) : schema.IsPlaced value := by
  intro levels depth decl node htyped h
  cases levels with
  | zero => cases h
  | succ levels =>
    obtain ⟨definition, hresolved, hbuilds⟩ := builds_of_place hbuilt h
    cases hbuilds with
    | scalar given => exact ⟨Instance.everywhere_isBuilt_scalar _, rfl⟩
    | text content given =>
      have hregular := htyped.regular hassembled hresolved
      obtain ⟨_, _, heq, _, hscalars⟩ := Construction.text_shaped given
      cases heq
      exact ⟨Instance.everywhere_isBuilt_text _
        (hscalars.keys_sublist.nodup hregular.names_distinct), rfl⟩
    | @fields complex particles built scalars content parts given =>
      have hregular := htyped.regular hassembled hresolved
      have htyped := htyped.particles hassembled hclosed hresolved content
      have hfields : FieldsShaped (fun child item =>
          item.Everywhere (Instance.IsBuilt schema.target) ∧ item.name = child.name)
          particles built := by
        refine Construction.fields_shaped ?_ parts
        intro child hchild slot hslot part hpart node hnode
        exact hentries _ _ slot hslot part hpart levels (depth + 1) child node
          (htyped.typed child hchild) hnode
      have hnamed : FieldsNamed schema.target built := by
        refine fieldsNamed_of_shaped (hfields.mono ?_) htyped.distinct htyped.declared
        rintro child _ item ⟨hitem, hname⟩
        rw [Instance.qualifiedName, hitem.root.space, hname]
      have hscalars := Construction.attributes_shaped given
      refine ⟨.intro ⟨rfl, hnamed, hscalars.keys_sublist.nodup hregular.names_distinct⟩ ?_, rfl⟩
      intro item hitem
      obtain ⟨_, _, hgood, _⟩ := hfields.exists_decl hitem
      exact hgood

/-- An element is there if it is found. -/
theorem element_eq_ok {name : String} {decl : ElementDecl} :
    schema.element name = .ok decl ↔ schema.element? name = some decl := by
  rw [element]
  cases schema.element? name with
  | none => simp
  | some found => simp

/-- Construction of a top-level element places the value at its root. -/
theorem construct_eq_placeRoot {name : String} {decl : ElementDecl}
    (h : schema.element? name = some decl) (value : Value) :
    schema.construct name value = schema.placeRoot decl value := by
  rw [construct, element_eq_ok.2 h]
  rfl

/-- What is placed from a value with own instances is made of nodes that the schema can build. -/
theorem HoldsOwn.isPlaced (hassembled : schema.Assembled) (hclosed : schema.WithoutWildcards)
    {value : Value} (h : schema.HoldsOwn value) :
    schema.IsPlaced value ∧ ∀ part ∈ value.parts, schema.IsPlaced part := by
  have hsingle : ∀ {value : Value}, value.parts = [value] → schema.IsPlaced value →
      schema.IsPlaced value ∧ ∀ part ∈ value.parts, schema.IsPlaced part := by
    intro value hparts hplaced
    rw [hparts]
    exact ⟨hplaced, List.forall_mem_singleton.2 hplaced⟩
  induction h with
  | null | text | int | boolean | bytes | element =>
    refine hsingle rfl (isPlaced_of_entries hassembled hclosed nofun ?_)
    intro keys key slot hslot
    cases hslot
  | @list items own ih =>
    refine ⟨isPlaced_of_entries hassembled hclosed nofun ?_, fun item hitem => (ih item hitem).1⟩
    intro keys key slot hslot
    exact (ih slot (List.of_mem_zip (mem_of_lookup hslot)).2).2
  | @map entries own ih =>
    refine hsingle rfl (isPlaced_of_entries hassembled hclosed nofun ?_)
    intro keys key slot hslot
    exact (ih (key, slot) (mem_of_lookup hslot)).2
  | @built name value built own hbuilt ih =>
    refine hsingle rfl ?_
    intro levels depth decl node htyped h
    cases levels with
    | zero => cases h
    | succ levels =>
      rw [place] at h
      obtain ⟨definition, _, h⟩ := bind_eq_ok.1 h
      obtain ⟨_, _, h⟩ := bind_eq_ok.1 h
      cases h
      obtain ⟨first, hfirst, hplace⟩ := bind_eq_ok.1 hbuilt
      have hmem := (mem_of_element? (element_eq_ok.1 hfirst)).1
      have hfinished := ih.1 _ _ first built (isTyped_of_mem hassembled hclosed hmem) hplace
      exact ⟨hfinished.1.renamed decl.name, rfl⟩

/-- What is built from a value with own instances is made of nodes that the schema can build. -/
theorem HoldsOwn.everywhere_isBuilt (hassembled : schema.Assembled)
    (hclosed : schema.WithoutWildcards) {name : String} {decl : ElementDecl} {value : Value}
    {node : Instance} (h : schema.HoldsOwn value) (hdecl : schema.element? name = some decl)
    (hbuilt : schema.construct name value = .ok node) :
    node.Everywhere (Instance.IsBuilt schema.target) ∧ node.name = decl.name := by
  rw [construct_eq_placeRoot hdecl] at hbuilt
  have hmem := (mem_of_element? hdecl).1
  exact (h.isPlaced hassembled hclosed).1 _ _ decl node (isTyped_of_mem hassembled hclosed hmem)
    hbuilt

end Schema

end TypedXml
