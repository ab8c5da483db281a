import TypedXml.Instance.JsonView
import TypedXml.Proofs.Instance.Origins
import TypedXml.Proofs.Instance.Rearrangement

/-!
# Instances built from their JSON view

The JSON view of a node puts its fields, its attributes and its text into one object, in the order
of their keys.  No key of a type stands twice, so construction finds each of them again by its key;
it brings them back into the order of the type, and a scalar that is native to its kind stays as it
is.  Where no scalar holds octets and no field keeps elements, the view therefore gives the very
instance that it was taken of.
-/

set_option autoImplicit false

namespace TypedXml

/-! ## Look-ups in views -/

/-- Where names are distinct, a member keeps its value in the order of the names. -/
theorem Json.lookup_sortMembers {α : Type} {members : List (String × α)}
    (h : (members.map Prod.fst).Nodup) (key : String) :
    (Json.sortMembers members).lookup key = members.lookup key := by
  rw [Json.sortMembers, Entries.ofPairs_eq_self h]
  exact lookup_eq_of_perm (List.mergeSort_perm _ _).symm h key

/-- No name stands twice in the order of the names. -/
theorem Json.keys_sortMembers_nodup {α : Type} (members : List (String × α)) :
    ((Json.sortMembers members).map Prod.fst).Nodup :=
  ((List.mergeSort_perm _ _).map Prod.fst).nodup_iff.2 (Entries.nodup_keys_ofPairs members)

/-- The items of an array are taken one by one. -/
theorem Value.ofItems_eq_map (items : List Json) :
    Value.ofItems items = items.map Value.ofJson := by
  induction items with
  | nil => rfl
  | cons item rest ih => rw [ofItems, ih, List.map_cons]

/-- The members of an object are taken one by one, under their names. -/
theorem Value.ofMembers_eq_map (members : List (String × Json)) :
    Value.ofMembers members = members.map fun member => (member.1, Value.ofJson member.2) := by
  induction members with
  | nil => rfl
  | cons member rest ih => rw [ofMembers, ih, List.map_cons]

/-- The value of an object has the value of each member under its key, and nothing else. -/
theorem Value.ofJson_sorted {members : List (String × Json)}
    (h : (members.map Prod.fst).Nodup) :
    ∃ entries, Value.ofJson (Json.sorted members) = .map entries ∧
      (∀ key, entries.lookup key = (members.lookup key).map Value.ofJson) ∧
      ∀ key ∈ entries.map Prod.fst, key ∈ members.map Prod.fst := by
  have hkeys : ((ofMembers (Json.sortMembers members)).map Prod.fst).Nodup := by
    rw [ofMembers_eq_map, List.map_map]
    exact Json.keys_sortMembers_nodup members
  have hlookup : ∀ key, (Json.sortMembers (ofMembers (Json.sortMembers members))).lookup key =
      (members.lookup key).map ofJson := by
    intro key
    rw [Json.lookup_sortMembers hkeys, ofMembers_eq_map, lookup_map_snd,
      Json.lookup_sortMembers h]
  refine ⟨_, by rw [Json.sorted, ofJson], hlookup, fun key hkey => ?_⟩
  rw [mem_keys_iff_lookup, hlookup, Option.isSome_map] at hkey
  exact mem_keys_iff_lookup.2 hkey

/-! ## Scalars -/

namespace Scalar

variable {scalar : Scalar}

/-- A scalar is made again from its own value. -/
theorem ofDatum_value {kind : Kind} (hkind : scalar.kind = kind) :
    Scalar.ofDatum kind scalar.value = scalar := by
  subst hkind
  exact Scalar.ext rfl scalar.native

/-- The view of a scalar without octets is the value of the scalar. -/
theorem ofJson_toJson (h : ∀ octets, scalar.value ≠ .bytes octets) :
    Value.ofJson scalar.toJson = .ofDatum scalar.value := by
  unfold toJson
  cases hvalue : scalar.value with
  | text s => rfl
  | int n =>
    have hrange := And.intro n.minValue_le_toInt n.toInt_le
    simp only [Json.ofInt, Value.ofJson, Value.ofNumber, if_pos hrange, Int64.ofInt_toInt]
    rfl
  | boolean b => rfl
  | bytes octets => exact absurd hvalue (h octets)

/-- The view of a scalar is that of some native value. -/
theorem exists_ofJson_toJson (scalar : Scalar) :
    ∃ datum, Value.ofJson scalar.toJson = .ofDatum datum := by
  by_cases h : ∃ octets, scalar.value = .bytes octets
  · obtain ⟨octets, hvalue⟩ := h
    refine ⟨.text scalar.lexical, ?_⟩
    rw [toJson, hvalue]
    rfl
  · exact ⟨scalar.value, ofJson_toJson (not_exists.1 h)⟩

/-- Octets do not stand where they are under the kinds of octets and the kind is another one. -/
theorem PlacesOctets.value_ne (h : scalar.PlacesOctets) (hkind : scalar.kind.isBinary = false)
    (octets : Octets) : scalar.value ≠ .bytes octets := by
  intro hvalue
  rw [h octets hvalue] at hkind
  cases hkind

end Scalar

/-! ## Views of nodes -/

/-- The view of a field: that of its only occurrence, or those of all in an array. -/
def Field.toJson : Field → Json
  | .one item => item.toJson
  | .many items => .array (items.map Instance.toJson)
  | .any elements => .array (Xml.Element.toJsonAll elements)

namespace Instance

/-- The views of a list of instances are taken one by one. -/
theorem toJsonAll_eq_map (items : List Instance) : toJsonAll items = items.map toJson := by
  induction items with
  | nil => rfl
  | cons item rest ih => rw [toJsonAll, ih, List.map_cons]

/-- The views of fields are taken one by one, under their keys. -/
theorem fieldMembers_eq_map (entries : List (String × Field)) :
    fieldMembers entries = entries.map fun entry => (entry.1, entry.2.toJson) := by
  induction entries with
  | nil => rfl
  | cons entry rest ih =>
    obtain ⟨key, field⟩ := entry
    cases field with
    | one item => rw [fieldMembers, ih, List.map_cons, Field.toJson]
    | many items => rw [fieldMembers, ih, List.map_cons, Field.toJson, toJsonAll_eq_map]
    | any elements => rw [fieldMembers, ih, List.map_cons, Field.toJson]

/-- Fields keep their keys in the view. -/
theorem keys_fieldMembers (entries : List (String × Field)) :
    (fieldMembers entries).map Prod.fst = entries.map Prod.fst := by
  rw [fieldMembers_eq_map, List.map_map]
  rfl

/-- The member of a key is the view of the field of this key. -/
theorem lookup_fieldMembers (entries : List (String × Field)) (key : String) :
    (fieldMembers entries).lookup key = (entries.lookup key).map Field.toJson := by
  rw [fieldMembers_eq_map, lookup_map_snd]

/-- The member of a name is the view of the attribute of this name. -/
theorem lookup_attributeMembers (attributes : List (String × Scalar)) (key : String) :
    (attributeMembers attributes).lookup key = (attributes.lookup key).map Scalar.toJson :=
  lookup_map_snd Scalar.toJson attributes key

/-- Attributes keep their names in the view. -/
theorem keys_attributeMembers (attributes : List (String × Scalar)) :
    (attributeMembers attributes).map Prod.fst = attributes.map Prod.fst := by
  rw [attributeMembers, List.map_map]
  rfl

/-- The value of a view is that of a scalar or a mapping. -/
theorem form_ofJson_toJson (node : Instance) :
    (∃ datum, Value.ofJson node.toJson = .ofDatum datum) ∨
      ∃ entries, Value.ofJson node.toJson = .map entries := by
  obtain ⟨name, space, content⟩ := node
  cases content with
  | scalar value =>
    rw [toJson]
    exact Or.inl value.exists_ofJson_toJson
  | text value attributes =>
    rw [toJson, Json.sorted, Value.ofJson]
    exact Or.inr ⟨_, rfl⟩
  | fields entries attributes =>
    rw [toJson, Json.sorted, Value.ofJson]
    exact Or.inr ⟨_, rfl⟩

/-- The value of a view is no list. -/
theorem ofJson_toJson_ne_list (node : Instance) (items : List Value) :
    Value.ofJson node.toJson ≠ .list items := by
  rcases node.form_ofJson_toJson with ⟨datum, h⟩ | ⟨entries, h⟩
  · rw [h]
    exact Value.ofDatum_ne_list datum items
  · rw [h]
    exact nofun

/-- The value of a view is no finished instance. -/
theorem ofJson_toJson_ne_built (node built : Instance) :
    Value.ofJson node.toJson ≠ .built built := by
  rcases node.form_ofJson_toJson with ⟨datum, h⟩ | ⟨entries, h⟩
  · rw [h]
    exact Value.ofDatum_ne_built datum built
  · rw [h]
    exact nofun

end Instance

/-! ## Parts built from views -/

namespace Construction

variable {place : Placing} {limits : Limits} {depth : Nat} {name : String}
  {entries : List (String × Value)} {good : ElementDecl → Instance → Prop}

/-- Attributes in their shape are found again by their names. -/
theorem attributes_of_shaped {decls : List AttributeDecl} {scalars : List (String × Scalar)}
    (h : AttributesShaped decls scalars) (hdistinct : (decls.map AttributeDecl.name).Nodup)
    (hvalues : ∀ decl ∈ decls, entries.lookup decl.name =
      (scalars.lookup decl.name).map fun scalar => Value.ofJson scalar.toJson)
    (hviews : ∀ entry ∈ scalars, Value.ofJson entry.2.toJson = .ofDatum entry.2.value) :
    attributes entries decls = .ok scalars := by
  induction h with
  | done => rfl
  | @absent decl rest scalars others ih =>
    have hkeys := List.nodup_cons.1 hdistinct
    rw [List.forall_mem_cons] at hvalues
    have hmissing : scalars.lookup decl.name = none :=
      lookup_eq_none_of_not_mem fun hmem => hkeys.1 (others.keys_sublist.subset hmem)
    rw [hmissing] at hvalues
    rw [attributes_cons_of_null (Or.inl hvalues.1)]
    exact ih hkeys.2 hvalues.2 hviews
  | @present decl rest scalar scalars kind others ih =>
    have hkeys := List.nodup_cons.1 hdistinct
    rw [List.forall_mem_cons, List.lookup_cons_self, Option.map_some] at hvalues
    rw [List.forall_mem_cons] at hviews
    have hrest : attributes entries rest = .ok scalars := by
      refine ih hkeys.2 ?_ hviews.2
      intro other hother
      rw [hvalues.2 other hother, lookup_cons_of_ne (ne_of_nodup_cons hdistinct hother)]
    have hfirst := hvalues.1
    rw [hviews.1] at hfirst
    rw [attributes_cons hfirst (Value.ofDatum_ne_null _), Scalar.ofValue_ofDatum,
      Scalar.ofDatum_value kind, hrest]
    rfl

/-- The view of a field in its shape gives the field if those of its occurrences give these. -/
theorem field_of_shaped {particle : Particle} {built : Field}
    (h : FieldShaped good particle built) (hdecl : particle.decl? ≠ none)
    (hplace : ∀ decl, particle = .element decl → ∀ item ∈ built.instances, good decl item →
      place decl (Value.ofJson item.toJson) = .ok item) :
    field place limits depth (Value.ofJson built.toJson) particle = .ok (some built) := by
  cases h with
  | @one decl item single shaped =>
    have hitem := hplace decl rfl item List.mem_cons_self shaped
    rw [field, Field.toJson, declared_single single item.ofJson_toJson_ne_list, hitem]
    rfl
  | @many decl items repeated nonempty shaped =>
    have hitems : (items.map fun item => Value.ofJson item.toJson).mapM (place decl) =
        .ok items := by
      rw [mapM_eq_ok, List.forall₂_map_left_iff, List.forall₂_same]
      exact fun item hitem => hplace decl rfl item hitem (shaped item hitem)
    have hvalues : items.map (fun item => Value.ofJson item.toJson) ≠ [] :=
      mt List.map_eq_nil_iff.1 nonempty
    rw [field, Field.toJson, Value.ofJson, Value.ofItems_eq_map, List.map_map]
    exact (declared_repeated repeated hvalues).trans (bind_of_eq_ok hitems)
  | any nonempty => exact absurd rfl hdecl

/-- Fields in their shape are found again by their keys, in the order of the particles. -/
theorem fields_of_shaped {particles : List Particle} {built : List (String × Field)}
    (h : FieldsShaped good particles built) (hdistinct : (particles.map Particle.key).Nodup)
    (hdeclared : ∀ particle ∈ particles, particle.decl? ≠ none)
    (hvalues : ∀ particle ∈ particles, entries.lookup particle.key =
      (built.lookup particle.key).map fun field => Value.ofJson field.toJson)
    (hplace : ∀ decl, .element decl ∈ particles → ∀ entry ∈ built, ∀ item ∈ entry.2.instances,
      good decl item → place decl (Value.ofJson item.toJson) = .ok item) :
    fields place limits depth entries particles = .ok built := by
  induction h with
  | done => rfl
  | @absent particle later built rest ih =>
    have hkeys := List.nodup_cons.1 hdistinct
    rw [List.forall_mem_cons] at hdeclared hvalues
    have hmissing : built.lookup particle.key = none :=
      lookup_eq_none_of_not_mem fun hmem => hkeys.1 (rest.keys_sublist.subset hmem)
    rw [hmissing, Option.map_none] at hvalues
    rw [fields, hvalues.1]
    exact ih hkeys.2 hdeclared.2 hvalues.2 fun decl hdecl =>
      hplace decl (List.mem_cons_of_mem _ hdecl)
  | @present particle later field built shaped rest ih =>
    have hkeys := List.nodup_cons.1 hdistinct
    rw [List.forall_mem_cons] at hdeclared hvalues
    rw [List.lookup_cons_self, Option.map_some] at hvalues
    have hfirst : Construction.field place limits depth (Value.ofJson field.toJson) particle =
        .ok (some field) := by
      refine field_of_shaped shaped hdeclared.1 ?_
      rintro decl rfl
      exact hplace decl List.mem_cons_self _ List.mem_cons_self
    have hrest : fields place limits depth entries later = .ok built := by
      refine ih hkeys.2 hdeclared.2 ?_ ?_
      · intro other hother
        rw [hvalues.2 other hother, lookup_cons_of_ne (ne_of_nodup_cons hdistinct hother)]
      · intro decl hdecl entry hentry
        exact hplace decl (List.mem_cons_of_mem _ hdecl) entry (List.mem_cons_of_mem _ hentry)
    rw [fields, hvalues.1]
    simp only [hfirst, hrest]
    rfl

section

variable {type : ComplexType} {scalars : List (String × Scalar)}

/-- The view of a text with attributes gives the text and the attributes again. -/
theorem text_ofJson_toJson (hregular : type.Regular) {base : SimpleType} {value : Scalar}
    (hcontent : type.content = .simple base) (hkind : value.kind = base.kind)
    (hscalars : AttributesShaped type.attributes scalars)
    (hvalue : Value.ofJson value.toJson = .ofDatum value.value)
    (hviews : ∀ entry ∈ scalars, Value.ofJson entry.2.toJson = .ofDatum entry.2.value)
    (node : String) (space : Namespace) :
    text name type base (Value.ofJson (Instance.toJson ⟨node, space, .text value scalars⟩)) =
      .ok (.text value scalars) := by
  have hsublist : (((textKey, value.toJson) :: Instance.attributeMembers scalars).map
      Prod.fst).Sublist type.keys := by
    rw [List.map_cons, Instance.keys_attributeMembers, ComplexType.keys, ComplexType.contentKeys,
      hcontent]
    exact hscalars.keys_sublist.cons_cons textKey
  obtain ⟨entries, hentries, hlookup, hkeys⟩ :=
    Value.ofJson_sorted (hsublist.nodup hregular.nodup_keys)
  have htext : entries.lookup textKey = some (.ofDatum value.value) := by
    rw [hlookup, List.lookup_cons_self, Option.map_some, hvalue]
  have hscalar : Scalar.ofValue base.kind name ((entries.lookup textKey).getD .null) =
      .ok value := by
    rw [htext, Option.getD_some, Scalar.ofValue_ofDatum, Scalar.ofDatum_value hkind]
  have hattributes : attributes entries type.attributes = .ok scalars := by
    refine attributes_of_shaped hscalars hregular.names_distinct ?_ hviews
    intro decl hdecl
    have hapart : decl.name ≠ textKey := by
      have hkey := hregular.apart decl hdecl
      rw [ComplexType.contentKeys, hcontent] at hkey
      exact List.ne_of_not_mem_cons hkey
    rw [hlookup, lookup_cons_of_ne hapart, Instance.lookup_attributeMembers, Option.map_map]
    rfl
  have hknown : refuseUnknown name type.keys entries = .ok () :=
    refuseUnknown_eq_ok.2 fun key hkey => hsublist.subset (hkeys key hkey)
  rw [Instance.toJson, ← textKey, hentries, text, textOfEntries, bind_of_eq_ok hscalar,
    bind_of_eq_ok hattributes, bind_of_eq_ok hknown]
  rfl

/-- The view of fields with attributes gives both again if those of the occurrences in the fields
give these. -/
theorem sequence_ofJson_toJson (hregular : type.Regular) {particles : List Particle}
    {built : List (String × Field)} (hcontent : type.content = .sequence particles)
    (hdeclared : ∀ particle ∈ particles, particle.decl? ≠ none)
    (hparts : FieldsShaped good particles built)
    (hscalars : AttributesShaped type.attributes scalars)
    (hviews : ∀ entry ∈ scalars, Value.ofJson entry.2.toJson = .ofDatum entry.2.value)
    (hplace : ∀ decl, .element decl ∈ particles → ∀ entry ∈ built, ∀ item ∈ entry.2.instances,
      good decl item → place decl (Value.ofJson item.toJson) = .ok item)
    (node : String) (space : Namespace) :
    sequence place limits depth name type particles
      (Value.ofJson (Instance.toJson ⟨node, space, .fields built scalars⟩)) =
        .ok (.fields built scalars) := by
  have hparticles := ComplexType.particles_of_sequence hcontent
  have hapart : ∀ key ∈ type.attributes.map AttributeDecl.name,
      key ∉ particles.map Particle.key := by
    rw [List.forall_mem_map]
    intro decl hdecl
    have hkey := hregular.apart decl hdecl
    rwa [ComplexType.contentKeys, hcontent] at hkey
  have hsublist : ((Instance.fieldMembers built ++ Instance.attributeMembers scalars).map
      Prod.fst).Sublist type.keys := by
    rw [List.map_append, Instance.keys_fieldMembers, Instance.keys_attributeMembers,
      ComplexType.keys, ComplexType.contentKeys, hcontent]
    exact hparts.keys_sublist.append hscalars.keys_sublist
  obtain ⟨entries, hentries, hlookup, hkeys⟩ :=
    Value.ofJson_sorted (hsublist.nodup hregular.nodup_keys)
  have hfields : fields place limits depth entries particles = .ok built := by
    refine fields_of_shaped hparts ?_ hdeclared ?_ hplace
    · rw [← hparticles]
      exact hregular.keys_distinct
    · intro particle hparticle
      have hnone : (Instance.attributeMembers scalars).lookup particle.key = none := by
        refine lookup_eq_none_of_not_mem fun hkey => ?_
        rw [Instance.keys_attributeMembers] at hkey
        exact hapart _ (hscalars.keys_sublist.subset hkey) (List.mem_map_of_mem hparticle)
      rw [hlookup, List.lookup_append, hnone, Option.or_none, Instance.lookup_fieldMembers,
        Option.map_map]
      rfl
  have hattributes : attributes entries type.attributes = .ok scalars := by
    refine attributes_of_shaped hscalars hregular.names_distinct ?_ hviews
    intro decl hdecl
    have hnone : (Instance.fieldMembers built).lookup decl.name = none := by
      refine lookup_eq_none_of_not_mem fun hkey => ?_
      rw [Instance.keys_fieldMembers] at hkey
      exact hapart _ (List.mem_map_of_mem hdecl) (hparts.keys_sublist.subset hkey)
    rw [hlookup, List.lookup_append, hnone, Option.none_or, Instance.lookup_attributeMembers,
      Option.map_map]
    rfl
  have hknown : refuseUnknown name type.keys entries = .ok () :=
    refuseUnknown_eq_ok.2 fun key hkey => hsublist.subset (hkeys key hkey)
  rw [Instance.toJson, hentries, sequence, sequenceOfEntries, bind_of_eq_ok hfields,
    hattributes, hknown]
  rfl

end

end Construction

/-! ## Nodes built from views -/

namespace Schema

/-- No simple type of a schema is of a kind of octets. -/
def WithoutOctets (schema : Schema) : Prop :=
  ∀ type ∈ schema.simpleTypes, type.kind.isBinary = false

variable {schema : Schema}

/-- A node is placed if its content can be made of the value. -/
theorem place_of_content {levels depth : Nat} {decl : ElementDecl} {value : Value}
    {definition : TypeDefinition} {content : Content}
    (hresolved : schema.resolve decl.type = .ok definition)
    (hbuilt : ∀ built, value ≠ .built built)
    (hcontent : Construction.content (schema.place levels (depth + 1)) schema.limits depth decl.name
      value definition = .ok content) :
    schema.place (levels + 1) depth decl value = .ok ⟨decl.name, schema.target, content⟩ := by
  rw [place, bind_of_eq_ok hresolved, Construction.node_of_unbuilt hbuilt, bind_of_eq_ok hcontent]
  rfl

/-- The views of attributes without octets are the values of their scalars. -/
theorem views_of_attributes (hoctets : schema.WithoutOctets) {complex : ComplexType}
    {attributes : List (String × Scalar)} (h : AttributesShaped complex.attributes attributes)
    (htypes : complex.simpleTypes ⊆ schema.simpleTypes)
    (hplaces : ∀ entry ∈ attributes, entry.2.PlacesOctets) :
    ∀ entry ∈ attributes, Value.ofJson entry.2.toJson = .ofDatum entry.2.value := by
  intro entry hentry
  obtain ⟨decl, hdecl, hkind⟩ := h.exists_decl hentry
  have hbinary := hoctets _ (htypes (ComplexType.attribute_mem_simpleTypes hdecl))
  rw [← hkind] at hbinary
  exact Scalar.ofJson_toJson ((hplaces entry hentry).value_ne hbinary)

/-- The view of a node in its shape gives the node again. -/
theorem place_ofJson_toJson (hassembled : schema.Assembled) (hclosed : schema.WithoutWildcards)
    (hoctets : schema.WithoutOctets) {decl : ElementDecl} {node : Instance}
    (h : Shaped schema decl node) (levels depth : Nat) (hheight : node.height ≤ levels)
    (htyped : schema.IsTyped decl) (htypes : decl.type.simpleTypes ⊆ schema.simpleTypes)
    (hplaces : node.Everywhere Instance.PlacesOctets) :
    schema.place levels depth decl (Value.ofJson node.toJson) = .ok node := by
  revert htyped htypes hplaces levels depth
  refine Shaped.induct ?scalar ?text ?fields h
  case scalar =>
    intro decl simple value resolved kind levels depth hheight htyped htypes hplaces
    have hbinary := hoctets _ (simpleTypes_of_resolve htypes resolved)
    rw [← kind] at hbinary
    have hvalue := (hplaces.root value List.mem_cons_self).value_ne hbinary
    cases levels with
    | zero => cases hheight
    | succ levels =>
      refine place_of_content resolved (Instance.ofJson_toJson_ne_built _) ?_
      rw [Construction.content, Instance.toJson, Scalar.ofJson_toJson hvalue,
        Scalar.ofValue_ofDatum, Scalar.ofDatum_value kind]
      rfl
  case text =>
    intro decl complex base value attributes resolved content kind scalars levels depth hheight
      htyped htypes hplaces
    have hregular := htyped.regular hassembled resolved
    have hcomplex := simpleTypes_of_resolve htypes resolved
    have hbinary := hoctets _ (hcomplex (ComplexType.base_mem_simpleTypes content))
    rw [← kind] at hbinary
    have hvalue := (hplaces.root value List.mem_cons_self).value_ne hbinary
    have hviews := views_of_attributes hoctets scalars hcomplex fun entry hentry =>
      hplaces.root _ (List.mem_append_right _ (List.mem_map_of_mem hentry))
    cases levels with
    | zero => cases hheight
    | succ levels =>
      refine place_of_content resolved (Instance.ofJson_toJson_ne_built _) ?_
      rw [Construction.content, content]
      dsimp only
      rw [mapError_eq_ok]
      exact Construction.text_ofJson_toJson hregular content kind scalars
        (Scalar.ofJson_toJson hvalue) hviews _ _
  case fields =>
    intro decl complex particles entries attributes resolved content parts scalars levels depth
      hheight htyped htypes hplaces
    have hregular := htyped.regular hassembled resolved
    have hcomplex := simpleTypes_of_resolve htypes resolved
    have hparticles := htyped.particles hassembled hclosed resolved content
    have hviews := views_of_attributes hoctets scalars hcomplex fun entry hentry =>
      hplaces.root _ (List.mem_append_right _ (List.mem_map_of_mem hentry))
    cases levels with
    | zero => cases hheight
    | succ levels =>
      refine place_of_content resolved (Instance.ofJson_toJson_ne_built _) ?_
      rw [Construction.content, content]
      refine Construction.sequence_ofJson_toJson hregular content hparticles.declared parts scalars
        hviews ?_ _ _
      intro child hchild entry hentry item hitem hgood
      have hbelow : item ∈ Instance.nodesBelow
          ⟨decl.name, schema.target, .fields entries attributes⟩ :=
        List.mem_flatMap.2 ⟨entry, hentry, hitem⟩
      refine hgood levels (depth + 1) ?_ (hparticles.typed child hchild) ?_
        (hplaces.inside item hbelow)
      · exact Nat.le_of_lt_succ (Nat.lt_of_lt_of_le (Instance.height_lt_of_mem hbelow) hheight)
      · rw [← ComplexType.particles_of_sequence content] at hchild
        exact List.Subset.trans (ComplexType.simpleTypes_subset_of_mem hchild) hcomplex

variable {name : String} {node : Instance}

/-- The JSON view of an instance that is built from plain data or read from an element can be built
again: where no type has octets or wildcards, it gives the same instance, be that valid or not. -/
theorem construct_ofJson_toJson (hassembled : schema.Assembled) (hclosed : schema.WithoutWildcards)
    (hoctets : schema.WithoutOctets) (h : schema.Produces name node) :
    schema.construct name (Value.ofJson node.toJson) = .ok node := by
  obtain ⟨decl, hdecl, hshaped, hheight, hplaces⟩ := h.shaped hassembled
  have hmem := (mem_of_element? hdecl).1
  rw [construct_eq_placeRoot hdecl]
  exact place_ofJson_toJson hassembled hclosed hoctets hshaped _ _ hheight
    (isTyped_of_mem hassembled hclosed hmem) (simpleTypes_subset_of_mem_elements hmem) hplaces

/-- Items are counted or weighed. -/
def itemType : ComplexType :=
  ⟨none, .simple (.ofKind .int), [⟨"unit", .ofKind .string, false⟩]⟩

/-- Baskets hold items and are paid or not. -/
def basketType : ComplexType :=
  ⟨none, .sequence [.element ⟨"item", .complex itemType, .zeroOrMore⟩,
    .element ⟨"paid", .simple (.ofKind .boolean), .optional⟩], [⟨"no", .ofKind .int, true⟩]⟩

/-- The schema of baskets. -/
def baskets : Schema :=
  ⟨⟨"urn:baskets", "b"⟩, [], [⟨"basket", .complex basketType, .once⟩], {}⟩

/-- The schema of baskets is what defining them gives. -/
theorem define_baskets :
    define ⟨"urn:baskets", "b"⟩ [.element ⟨"basket", .complex basketType, .once⟩] = .ok baskets :=
  rfl

/-- A basket whose number is out of range and whose second item has no number. -/
def basketValue : Value :=
  .map [("no", .int 3000000000), ("paid", .null),
    ("item", .list [.int 2, .map [("unit", .text "kg"), ("value", .text "some")]])]

/-- The instance of this value. -/
def basket : Instance :=
  ⟨"basket", baskets.target, .fields
    [("item", .many [⟨"item", baskets.target, .text (.ofDatum .int (.int 2)) []⟩,
        ⟨"item", baskets.target, .text (.ofDatum .int (.text "some"))
          [("unit", .ofDatum .string (.text "kg"))]⟩]),
      ("paid", .one ⟨"paid", baskets.target, .scalar (.empty .boolean)⟩)]
    [("no", .ofDatum .int (.int 3000000000))]⟩

/-- The value of the basket is plain data. -/
theorem isData_basketValue : basketValue.IsData := by
  unfold basketValue
  refine .map ?_
  simp only [List.forall_mem_cons]
  refine ⟨.int _, .null, .list ?_, nofun⟩
  simp only [List.forall_mem_cons]
  refine ⟨.int _, .map ?_, nofun⟩
  simp only [List.forall_mem_cons]
  exact ⟨.text _, .text _, nofun⟩

/-- A basket that is not valid comes back from its view, with its number out of range, the text in
the place of a number and the empty truth value. -/
theorem construct_ofJson_basket :
    define ⟨"urn:baskets", "b"⟩ [.element ⟨"basket", .complex basketType, .once⟩] = .ok baskets ∧
      baskets.construct "basket" basketValue = .ok basket ∧
      baskets.construct "basket" (Value.ofJson basket.toJson) = .ok basket := by
  have hbuilt : baskets.construct "basket" basketValue = .ok basket := rfl
  have hoctets : baskets.WithoutOctets := by
    have htypes : baskets.simpleTypes =
        [.ofKind .int, .ofKind .string, .ofKind .boolean, .ofKind .int] := rfl
    rw [WithoutOctets, htypes]
    decide
  exact ⟨define_baskets, hbuilt, construct_ofJson_toJson (assembled_of_define define_baskets) rfl
    hoctets (.built isData_basketValue hbuilt)⟩

end Schema

end TypedXml
