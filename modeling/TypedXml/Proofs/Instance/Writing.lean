import TypedXml.Instance.Encoding
import TypedXml.Proofs.Entries
import TypedXml.Proofs.Instance.Reading

/-!
# What writing an instance keeps

The element tree of an instance has the name of the instance, is as deep, and holds the texts of
its scalars.  So a scalar that its kind accepts is read again from the text it was written as, and
so are attributes, which lose nothing since no two of them have one name.
-/

set_option autoImplicit false

namespace TypedXml

/-! ## Names, children and depth -/

/-- The elements that a field stands for. -/
def Field.written : Field → List Xml.Element
  | .one item => [item.toElement]
  | .many items => items.map Instance.toElement
  | .any elements => elements

/-- A field is written as nothing if and only if it has no occurrences. -/
theorem Field.written_eq_nil_iff {field : Field} : field.written = [] ↔ field.count = 0 := by
  cases field with
  | one item => simp [written, count]
  | many items => simp [written, count]
  | any elements => simp [written, count]

namespace Instance

/-- An element has the name of its instance. -/
theorem toElement_name (node : Instance) : node.toElement.name = node.qualifiedName := by
  obtain ⟨name, space, content⟩ := node
  cases content with
  | scalar value => rfl
  | text value attributes => rfl
  | fields entries attributes => rfl

/-- Instances are written one by one. -/
theorem toElements_eq_map (items : List Instance) : toElements items = items.map toElement := by
  induction items with
  | nil => rfl
  | cons item rest ih => rw [toElements, ih, List.map_cons]

/-- Fields are written one behind the other. -/
theorem fieldElements_cons (key : String) (field : Field) (rest : List (String × Field)) :
    fieldElements ((key, field) :: rest) = field.written ++ fieldElements rest := by
  cases field with
  | one item => rfl
  | many items => rw [fieldElements, toElements_eq_map, Field.written]
  | any elements => rfl

/-- Where every field is written as one element or more, only no fields give no elements. -/
theorem fieldElements_eq_nil_iff {entries : List (String × Field)}
    (hwritten : ∀ key field, (key, field) ∈ entries → field.written ≠ []) :
    fieldElements entries = [] ↔ entries = [] := by
  cases entries with
  | nil => simp [fieldElements]
  | cons entry rest =>
    obtain ⟨key, field⟩ := entry
    simp [fieldElements_cons, hwritten key field List.mem_cons_self]

mutual

/-- The element tree of an instance is as deep as the instance. -/
theorem height_toElement : (node : Instance) → node.toElement.height = node.height
  | ⟨_, _, .scalar _⟩ => rfl
  | ⟨_, _, .text _ _⟩ => rfl
  | ⟨_, _, .fields entries _⟩ => by
    rw [toElement, Xml.Element.height, height, heightAll_fieldElements entries]

/-- The same for a list of instances. -/
theorem heightAll_toElements : (items : List Instance) →
    Xml.Element.heightAll (toElements items) = heightAll items
  | [] => rfl
  | item :: rest => by
    rw [toElements, Xml.Element.heightAll, heightAll, height_toElement item,
      heightAll_toElements rest]

/-- The same for a list of fields. -/
theorem heightAll_fieldElements : (entries : List (String × Field)) →
    Xml.Element.heightAll (fieldElements entries) = heightFields entries
  | [] => rfl
  | (_, .one item) :: rest => by
    rw [fieldElements, Xml.Element.heightAll, heightFields, height_toElement item,
      heightAll_fieldElements rest]
  | (_, .many items) :: rest => by
    rw [fieldElements, heightAll_append_elements, heightFields, heightAll_toElements items,
      heightAll_fieldElements rest]
  | (_, .any elements) :: rest => by
    rw [fieldElements, heightAll_append_elements, heightFields, heightAll_fieldElements rest]

end

/-- The element tree of an instance is found to be as deep as the instance. -/
theorem depth_toElement (node : Instance) : node.toElement.depth = node.depth := by
  rw [Xml.Element.depth_eq_height, depth_eq_height, height_toElement]

/-- Writing an instance is writing its element tree: both check the same depth. -/
theorem serialize_eq_render (options : RenderOptions) (node : Instance) :
    node.serialize options = Xml.render options node.toElement := by
  rw [serialize, Xml.render, depth_toElement]
  cases options.checkDepth node.depth <;> rfl

end Instance

/-! ## Scalars -/

/-- The text of a scalar, where missing text counts as empty, is what it is written as. -/
theorem Scalar.getD_text? (scalar : Scalar) : scalar.text?.getD "" = scalar.lexical := by
  unfold Scalar.text?
  split
  · next hempty => simpa using hempty.symm
  · rfl

/-- The text of a scalar that its kind accepts denotes its value. -/
theorem Scalar.read?_getD_text? {scalar : Scalar} {kind : Kind} (hkind : scalar.kind = kind)
    (haccepts : kind.accepts scalar.value = true) :
    kind.read? (scalar.text?.getD "") = some scalar.value := by
  subst hkind
  rw [getD_text?, read?_lexical haccepts]

/-! ## Attributes -/

namespace Instance

variable {scalars : List (String × Scalar)}

/-- Attributes of distinct names are written one by one, without a namespace. -/
theorem entries_writtenAttributes (h : (scalars.map Prod.fst).Nodup) :
    (writtenAttributes scalars).entries =
      scalars.map fun entry => (Name.unqualified entry.1, entry.2.lexical) := by
  refine Entries.ofPairs_eq_self ?_
  have hkeys : (Entries.keys (scalars.map fun entry =>
      (Name.unqualified entry.1, entry.2.lexical))) =
        (scalars.map Prod.fst).map Name.unqualified := by
    rw [Entries.keys, List.map_map, List.map_map]
    rfl
  rw [hkeys]
  refine List.Pairwise.map _ ?_ h
  intro a b hne hab
  exact hne (congrArg Name.localName hab)

/-- Each attribute is written as the text of its scalar. -/
theorem valueOf?_writtenAttributes (h : (scalars.map Prod.fst).Nodup) (name : String) :
    (writtenAttributes scalars).valueOf? name = (scalars.lookup name).map Scalar.lexical := by
  rw [Xml.Attributes.valueOf?, entries_writtenAttributes h]
  clear h
  induction scalars with
  | nil => rfl
  | cons entry rest ih =>
    obtain ⟨k, scalar⟩ := entry
    rw [List.map_cons]
    by_cases hk : k = name
    · subst hk
      rw [List.find?_cons_of_pos (by simp [Name.unqualified]), List.lookup_cons_self]
      rfl
    · rw [List.find?_cons_of_neg (by simpa [Name.unqualified] using hk), ih,
        lookup_cons_of_ne (Ne.symm hk)]

end Instance

/-- The attributes that writing does not lose: in the order of their declarations, of the kinds
that are declared, and with all that are required. -/
inductive AttributesKept : List AttributeDecl → List (String × Scalar) → Prop
  | done : AttributesKept [] []
  | absent {decl : AttributeDecl} {rest : List AttributeDecl} {scalars : List (String × Scalar)}
      (optional : decl.required = false) (others : AttributesKept rest scalars) :
      AttributesKept (decl :: rest) scalars
  | present {decl : AttributeDecl} {rest : List AttributeDecl} {scalar : Scalar}
      {scalars : List (String × Scalar)} (kind : scalar.kind = decl.type.kind)
      (accepted : decl.type.kind.accepts scalar.value = true)
      (others : AttributesKept rest scalars) :
      AttributesKept (decl :: rest) ((decl.name, scalar) :: scalars)

namespace AttributesKept

variable {decls : List AttributeDecl} {scalars : List (String × Scalar)}

/-- The names of attributes that are kept are those of declarations, in their order. -/
theorem keys_sublist (h : AttributesKept decls scalars) :
    (scalars.map Prod.fst).Sublist (decls.map AttributeDecl.name) := by
  induction h with
  | done => exact .slnil
  | absent _ _ ih => exact .cons _ ih
  | present _ _ _ ih => exact .cons_cons _ ih

/-- Texts that are those of the scalars are read as the scalars. -/
theorem read_of_values {attributes : Xml.Attributes} (h : AttributesKept decls scalars)
    (hdistinct : (decls.map AttributeDecl.name).Nodup)
    (hvalues : ∀ decl ∈ decls,
      attributes.valueOf? decl.name = (scalars.lookup decl.name).map Scalar.lexical) :
    Schema.AttributesRead attributes decls scalars := by
  induction h with
  | done => exact .done
  | @absent decl rest scalars optional others ih =>
    rw [List.map_cons, List.nodup_cons] at hdistinct
    rw [List.forall_mem_cons] at hvalues
    have hmissing : decl.name ∉ scalars.map Prod.fst := by
      intro hmem
      exact hdistinct.1 (others.keys_sublist.subset hmem)
    refine .absent ?_ optional (ih hdistinct.2 hvalues.2)
    rw [hvalues.1, lookup_eq_none_of_not_mem hmissing]
    rfl
  | @present decl rest scalar scalars kind accepted others ih =>
    have hkeys := List.nodup_cons.1 hdistinct
    rw [List.forall_mem_cons] at hvalues
    have hfound : attributes.valueOf? decl.name = some scalar.lexical := by
      rw [hvalues.1, List.lookup_cons_self]
      rfl
    have hread : decl.type.kind.read? scalar.lexical = some scalar.value := by
      rw [← kind] at accepted ⊢
      exact Scalar.read?_lexical accepted
    refine .present hfound kind hread (ih hkeys.2 ?_)
    intro other hother
    rw [hvalues.2 other hother, lookup_cons_of_ne (ne_of_nodup_cons hdistinct hother)]

/-- Attributes that are kept are read again from their texts. -/
theorem read_written (h : AttributesKept decls scalars)
    (hdistinct : (decls.map AttributeDecl.name).Nodup) :
    Schema.AttributesRead (Instance.writtenAttributes scalars) decls scalars := by
  refine h.read_of_values hdistinct ?_
  intro decl _
  exact Instance.valueOf?_writtenAttributes (h.keys_sublist.nodup hdistinct) decl.name

end AttributesKept

/-! ## Instances that are read again -/

namespace Schema

variable {schema : Schema}

/-- An element has a declared name if this is its local part and its namespace is that of the
schema. -/
theorem isNamed_iff {localName : String} {element : Xml.Element} :
    schema.isNamed localName element = true ↔ element.name = schema.target.qualify localName := by
  rw [isNamed, Namespace.isName, beq_iff_eq]

/-- What is read under a name has this name in the target namespace. -/
theorem Reads.qualifiedName {element : Xml.Element} {localName : String} {type : TypeRef}
    {node : Instance} (h : Reads schema element localName type node) :
    node.qualifiedName = schema.target.qualify localName := by
  cases h with
  | scalar => rfl
  | text => rfl
  | fields => rfl

/-- Whether an instance that is read for a declaration is read again from its element tree. -/
def ReadAgain (schema : Schema) (decl : ElementDecl) (item : Instance) : Prop :=
  schema.decode item.toElement decl.name decl.type = .ok item

/-- The element of an instance that is read again has the name of the declaration. -/
theorem ReadAgain.name {decl : ElementDecl} {item : Instance} (h : ReadAgain schema decl item) :
    item.toElement.name = schema.target.qualify decl.name := by
  rw [Instance.toElement_name]
  exact (decode_eq_ok.1 h).qualifiedName

/-- An instance of a top-level element that is read again is so at the root, if it is not too
deep. -/
theorem ReadAgain.decodeElement {decl : ElementDecl} {node : Instance}
    (h : ReadAgain schema decl node) (hdecl : schema.element? decl.name = some decl)
    (hdepth : node.depth ≤ schema.limits.depth) :
    schema.decodeElement node.toElement = .ok node := by
  refine decodeElement_eq_ok.2 ⟨?_, decl, rootDecl?_eq_some.2 ⟨?_, ?_⟩, h⟩
  · rw [Instance.depth_toElement]
    exact hdepth
  · rw [h.name]
    rfl
  · rw [h.name]
    exact hdecl

end Schema

end TypedXml
