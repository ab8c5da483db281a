import TypedXml.Proofs.Instance.AlikeValues
import TypedXml.Proofs.Instance.Nodes
import TypedXml.Proofs.Instance.Rearrangement
import TypedXml.Proofs.Instance.Shape

/-!
# What a mapping fills

A mapping that fills a complex node is used up: each of its keys belongs to a part of the type, and
the node has a field or an attribute for each entry that stands for something, with as many
occurrences as the entry gives.  Nothing else is in the node.  This holds at every depth, since a
part of a value fills the occurrence at its own place in the field of its own key.
-/

set_option autoImplicit false

namespace TypedXml

/-! ## What entries give -/

/-- Whether a value gives a particle a field.  A list without items in the place of occurrences does
not, nor does nothing in the place of a wildcard. -/
def Particle.isFilledBy : Particle → Value → Bool
  | .any _, .null => false
  | .any _, .list [] => false
  | .element decl, .list [] => decl.occurs.isSingle
  | _, _ => true

/-- How many occurrences entries give for a particle, if they give it a field. -/
def Particle.givenBy (entries : List (String × Value)) (particle : Particle) : Option Nat :=
  (entries.lookup particle.key).bind fun value =>
    if particle.isFilledBy value then some value.parts.length else none

/-- Whether entries give an attribute something. -/
def AttributeDecl.isGivenBy (entries : List (String × Value)) (decl : AttributeDecl) : Bool :=
  (entries.lookup decl.name).any fun value => value.form != .null

/-- Whether a node of a complex type holds what entries give for its parts, all of it and nothing
else. -/
structure Instance.HoldsEntries (type : ComplexType) (entries : List (String × Value))
    (node : Instance) : Prop where
  known : ∀ key ∈ entries.map Prod.fst, key ∈ type.keys
  /-- The fields, each with the number of its occurrences. -/
  fields : node.fields.map (fun entry => (entry.1, entry.2.count)) =
    type.particles.filterMap fun particle => (particle.givenBy entries).map (particle.key, ·)
  attributes : node.scalars.map Prod.fst =
    (type.attributes.filter (·.isGivenBy entries)).map AttributeDecl.name

/-- Only nothing has the form of nothing. -/
theorem Value.form_eq_null {value : Value} : value.form = .null ↔ value = .null := by
  cases value <;> simp [Value.form]

namespace Construction

variable {place : Placing} {limits : Limits} {depth : Nat} {name key : String} {type : ComplexType}
  {entries : List (String × Value)} {value : Value} {node : Instance}

/-- A wildcard gets as many elements as its value has parts, or no field. -/
theorem count_of_wildcard {wildcard : Wildcard} {first : Option Field}
    (h : Construction.wildcard limits depth key value = .ok first) :
    first.map Field.count =
      if (Particle.any wildcard).isFilledBy value then some value.parts.length else none := by
  have hlist : ∀ items, items ≠ [] →
      Construction.wildcard limits depth key (.list items) = .ok first →
        first.map Field.count = some items.length := by
    intro items hitems hlist
    unfold Construction.wildcard at hlist
    rw [if_neg (by simpa using hitems)] at hlist
    obtain ⟨elements, helements, hlist⟩ := bind_eq_ok.1 hlist
    cases hlist
    exact congrArg some (mapM_eq_ok.1 helements).length_eq.symm
  by_cases hnull : value = .null
  · subst hnull
    cases h
    rfl
  · cases value with
    | null => exact absurd rfl hnull
    | list items =>
      cases items with
      | nil =>
        cases h
        rfl
      | cons item rest => exact hlist (item :: rest) (List.cons_ne_nil _ _) h
    | _ =>
      rw [wildcard_single hnull nofun] at h
      exact hlist _ (List.cons_ne_nil _ _) h

/-- The occurrences of a declaration are placed one for each part of the value, in order. -/
theorem forall₂_of_declared {decl : ElementDecl} {field : Field}
    (h : declared place decl value = .ok (some field)) :
    List.Forall₂ (fun part item => place decl part = .ok item) value.parts field.instances := by
  unfold declared at h
  split at h
  · split at h
    · cases h
    · next hlist =>
      obtain ⟨item, hitem, h⟩ := bind_eq_ok.1 h
      cases h
      have hparts : value.parts = [value] := by
        cases value with
        | list items => exact absurd rfl (hlist items)
        | _ => rfl
      rw [hparts]
      exact .cons hitem .nil
  · split at h
    · cases h
    · obtain ⟨items, hitems, h⟩ := bind_eq_ok.1 h
      cases h
      exact mapM_eq_ok.1 hitems
    · cases h

/-- A declaration gets as many occurrences as its value has parts, or no field. -/
theorem count_of_declared {decl : ElementDecl} {first : Option Field}
    (h : declared place decl value = .ok first) :
    first.map Field.count =
      if (Particle.element decl).isFilledBy value then some value.parts.length else none := by
  unfold declared at h
  split at h
  · split at h
    · cases h
    · next hlist =>
      obtain ⟨item, _, h⟩ := bind_eq_ok.1 h
      cases h
      cases value with
      | list items => exact absurd rfl (hlist items)
      | _ => rfl
  · next hmany =>
    split at h
    · cases h
      rw [Particle.isFilledBy, if_neg hmany]
      rfl
    · next items hitems =>
      obtain ⟨nodes, hnodes, h⟩ := bind_eq_ok.1 h
      cases h
      cases items with
      | nil => exact absurd rfl hitems
      | cons item rest => exact congrArg some (mapM_eq_ok.1 hnodes).length_eq.symm
    · cases h

/-- A particle gets as many occurrences as its value has parts, or no field. -/
theorem count_of_field {particle : Particle} {first : Option Field}
    (h : field place limits depth value particle = .ok first) :
    first.map Field.count =
      if particle.isFilledBy value then some value.parts.length else none := by
  cases particle with
  | any wildcard => exact count_of_wildcard h
  | element decl => exact count_of_declared h

/-! ## The parts of a node -/

/-- A sequence has the fields that entries give, with their occurrences. -/
theorem counts_of_fields {particles : List Particle} {built : List (String × Field)}
    (h : fields place limits depth entries particles = .ok built) :
    built.map (fun entry => (entry.1, entry.2.count)) =
      particles.filterMap fun particle => (particle.givenBy entries).map (particle.key, ·) := by
  induction particles generalizing built with
  | nil =>
    cases h
    rfl
  | cons particle rest ih =>
    rw [fields] at h
    rw [List.filterMap_cons, Particle.givenBy]
    split at h
    · next hnone =>
      rw [hnone]
      exact ih h
    · next value hvalue =>
      obtain ⟨first, hfirst, h⟩ := bind_eq_ok.1 h
      obtain ⟨others, hothers, h⟩ := bind_eq_ok.1 h
      rw [hvalue, Option.bind_some, ← count_of_field hfirst, ← ih hothers]
      cases first with
      | none =>
        cases h
        rfl
      | some field =>
        cases h
        rfl

/-- A node has the attributes that entries give. -/
theorem names_of_attributes {decls : List AttributeDecl} {scalars : List (String × Scalar)}
    (h : attributes entries decls = .ok scalars) :
    scalars.map Prod.fst =
      (decls.filter (·.isGivenBy entries)).map AttributeDecl.name := by
  induction decls generalizing scalars with
  | nil =>
    cases h
    rfl
  | cons decl rest ih =>
    rw [List.filter_cons, AttributeDecl.isGivenBy]
    cases hlookup : entries.lookup decl.name with
    | none =>
      rw [attributes_cons_of_null (Or.inl hlookup)] at h
      exact ih h
    | some value =>
      by_cases hnull : value = .null
      · rw [attributes_cons_of_null (Or.inr (by rw [hlookup, hnull]))] at h
        rw [hnull]
        exact ih h
      · rw [attributes_cons hlookup hnull] at h
        obtain ⟨scalar, _, h⟩ := bind_eq_ok.1 h
        obtain ⟨others, hothers, h⟩ := bind_eq_ok.1 h
        cases h
        have hgiven : (value.form != .null) = true := bne_iff_ne.2 (mt Value.form_eq_null.1 hnull)
        rw [Option.any_some, hgiven, if_pos rfl, List.map_cons, List.map_cons, ih hothers]

/-- A node whose content is text holds what entries give for its parts. -/
theorem holdsEntries_of_text {target : Namespace} {base : SimpleType} {content : Content}
    (hcontent : type.content = .simple base)
    (h : textOfEntries name type base entries = .ok content) :
    Instance.HoldsEntries type entries ⟨name, target, content⟩ := by
  obtain ⟨scalar, scalars, rfl, _, hscalars, hknown⟩ := parts_of_textOfEntries h
  refine ⟨refuseUnknown_eq_ok.1 hknown, ?_, names_of_attributes hscalars⟩
  rw [ComplexType.particles, hcontent]
  rfl

/-- A node with fields holds what entries give for its parts. -/
theorem holdsEntries_of_sequence {target : Namespace} {particles : List Particle}
    {content : Content} (hcontent : type.content = .sequence particles)
    (h : sequenceOfEntries place limits depth name type particles entries = .ok content) :
    Instance.HoldsEntries type entries ⟨name, target, content⟩ := by
  obtain ⟨built, scalars, rfl, hfields, hscalars, hknown⟩ := parts_of_sequenceOfEntries h
  refine ⟨refuseUnknown_eq_ok.1 hknown, ?_, names_of_attributes hscalars⟩
  rw [ComplexType.particles_of_sequence hcontent]
  exact counts_of_fields hfields

/-- A key that no particle has is not the key of a field. -/
theorem lookup_eq_none_of_fields {particles : List Particle} {built : List (String × Field)}
    (hkey : key ∉ particles.map Particle.key)
    (h : fields place limits depth entries particles = .ok built) : built.lookup key = none := by
  have hshaped : FieldsShaped (fun _ _ => True) particles built := fields_shaped (by simp) h
  exact lookup_eq_none_of_not_mem fun hmem => hkey (hshaped.keys_sublist.subset hmem)

/-- The fields behind the first particle are found under their keys. -/
theorem exists_fields_behind {head : Particle} {rest : List Particle}
    {built : List (String × Field)}
    (h : fields place limits depth entries (head :: rest) = .ok built) :
    ∃ others, fields place limits depth entries rest = .ok others ∧
      ∀ key, key ≠ head.key → built.lookup key = others.lookup key := by
  rw [fields] at h
  split at h
  · exact ⟨built, h, fun _ _ => rfl⟩
  · obtain ⟨first, _, h⟩ := bind_eq_ok.1 h
    obtain ⟨others, hothers, h⟩ := bind_eq_ok.1 h
    refine ⟨others, hothers, ?_⟩
    intro key hkey
    cases first with
    | none =>
      cases h
      rfl
    | some field =>
      cases h
      exact lookup_cons_of_ne hkey

/-- The field of the first particle is found under its key, if no other one has this key. -/
theorem field_of_lookup_head {head : Particle} {rest : List Particle}
    {built : List (String × Field)} (hfresh : head.key ∉ rest.map Particle.key)
    (h : fields place limits depth entries (head :: rest) = .ok built)
    (hvalue : entries.lookup head.key = some value) :
    field place limits depth value head = .ok (built.lookup head.key) := by
  rw [fields, hvalue] at h
  obtain ⟨first, hfirst, h⟩ := bind_eq_ok.1 h
  obtain ⟨others, hothers, h⟩ := bind_eq_ok.1 h
  rw [hfirst]
  cases first with
  | none =>
    cases h
    rw [lookup_eq_none_of_fields hfresh hothers]
  | some field =>
    cases h
    rw [List.lookup_cons_self]

/-- Where keys are distinct, the field of a particle is made from the value of its key. -/
theorem field_of_lookup {particles : List Particle} {particle : Particle}
    {built : List (String × Field)} (hdistinct : (particles.map Particle.key).Nodup)
    (h : fields place limits depth entries particles = .ok built) (hparticle : particle ∈ particles)
    (hvalue : entries.lookup particle.key = some value) :
    field place limits depth value particle = .ok (built.lookup particle.key) := by
  induction particles generalizing built with
  | nil => cases hparticle
  | cons head rest ih =>
    have hnodup := List.nodup_cons.1 hdistinct
    rcases List.mem_cons.1 hparticle with rfl | hrest
    · exact field_of_lookup_head hnodup.1 h hvalue
    · obtain ⟨others, hothers, hlookup⟩ := exists_fields_behind h
      rw [hlookup particle.key (ne_of_nodup_cons hdistinct hrest)]
      exact ih hnodup.2 hothers hrest

end Construction

/-! ## Every depth -/

namespace Schema

variable {schema : Schema} {decl root : ElementDecl} {name : String} {value whole : Value}
  {node tree : Instance}

/-- Whether a part of a value fills a node of an instance: the whole value fills the instance, and
the occurrences that the value of a key gives fill those in the field of that key, in order. -/
inductive Fills (schema : Schema) (root : ElementDecl) (whole : Value) (tree : Instance) :
    ElementDecl → Value → Instance → Prop
  | here : Fills schema root whole tree root whole tree
  | inside {decl child : ElementDecl} {complex : ComplexType} {value slot part : Value}
      {node item : Instance} {field : Field} {position : Nat}
      (filled : Fills schema root whole tree decl value node)
      (resolved : schema.resolve decl.type = .ok (.complex complex))
      (declared : .element child ∈ complex.particles)
      (given : (value.entries complex.keys).lookup child.name = some slot)
      (kept : node.field? child.name = some field)
      (source : slot.parts[position]? = some part)
      (target : field.instances[position]? = some item) :
      Fills schema root whole tree child part item

/-- A value with entries is taken apart at the type of its declaration. -/
theorem content_of_place {levels depth : Nat} {complex : ComplexType}
    (hbuilt : ∀ built, value ≠ .built built)
    (hresolved : schema.resolve decl.type = .ok (.complex complex))
    (h : schema.place (levels + 1) depth decl value = .ok node) :
    ∃ content, node = ⟨decl.name, schema.target, content⟩ ∧
      Construction.content (schema.place levels (depth + 1)) schema.limits depth decl.name value
        (.complex complex) = .ok content := by
  rw [place, bind_of_eq_ok hresolved] at h
  obtain ⟨content, hcontent, hnode⟩ := Construction.content_of_node hbuilt h
  exact ⟨content, hnode, hcontent⟩

/-- The occurrences in the field of a node are placed for the parts that the value gives for it. -/
theorem place_of_field {levels depth : Nat} {complex : ComplexType} {child : ElementDecl}
    {slot : Value} {field : Field} (hresolved : schema.resolve decl.type = .ok (.complex complex))
    (hregular : complex.Regular) (hchild : .element child ∈ complex.particles)
    (hgiven : (value.entries complex.keys).lookup child.name = some slot)
    (hkept : node.field? child.name = some field)
    (h : schema.place (levels + 1) depth decl value = .ok node) :
    List.Forall₂ (fun part item => schema.place levels (depth + 1) child part = .ok item)
      slot.parts field.instances := by
  have hbuilt : ∀ built, value ≠ .built built := by
    rintro built rfl
    cases hgiven
  obtain ⟨content, rfl, hcontent⟩ := content_of_place hbuilt hresolved h
  rw [Construction.content] at hcontent
  split at hcontent
  · next base hbase =>
    rw [ComplexType.particles, hbase] at hchild
    cases hchild
  · next particles hparticles =>
    obtain ⟨built, scalars, rfl, hfields, _⟩ := Construction.parts_of_sequenceOfEntries
      (Construction.sequenceOfEntries_of_sequence hcontent)
    have hdistinct := hregular.keys_distinct
    rw [ComplexType.particles_of_sequence hparticles] at hdistinct hchild
    have hfield := Construction.field_of_lookup hdistinct hfields hchild hgiven
    have hlookup : built.lookup child.name = some field := hkept
    rw [Particle.key, hlookup] at hfield
    exact Construction.forall₂_of_declared hfield

/-- A part that fills a node was placed as that node. -/
theorem exists_place_of_fills (hassembled : schema.Assembled)
    (htype : root.type.all schema.declares (fun type => type.checkParts.isOk) = true)
    (hplace : schema.placeRoot root whole = .ok tree)
    (h : schema.Fills root whole tree decl value node) :
    decl.type.all schema.declares (fun type => type.checkParts.isOk) = true ∧
      ∃ levels depth, schema.place levels depth decl value = .ok node := by
  induction h with
  | here => exact ⟨htype, _, _, hplace⟩
  | inside filled resolved declared given kept source target ih =>
    obtain ⟨htype, levels, depth, hplaced⟩ := ih
    have hcomplex := all_of_resolve hassembled.allTypes htype resolved
    refine ⟨ComplexType.all_of_mem hcomplex declared, ?_⟩
    cases levels with
    | zero => cases hplaced
    | succ levels =>
      have hparts := place_of_field resolved (regular_of_all hcomplex) declared given kept hplaced
      obtain ⟨hsource, rfl⟩ := List.getElem?_eq_some_iff.1 source
      obtain ⟨htarget, rfl⟩ := List.getElem?_eq_some_iff.1 target
      exact ⟨levels, depth + 1, (List.forall₂_iff_get.1 hparts).2 _ hsource htarget⟩

/-- Construction drops no input and invents none: a complex node that a mapping fills, at any depth,
holds what the entries give for the parts of its type, all of it and nothing else. -/
theorem holdsEntries_of_fills {complex : ComplexType} {entries : List (String × Value)}
    (hassembled : schema.Assembled) (helement : schema.element? name = some root)
    (hbuilt : schema.construct name whole = .ok tree)
    (hfills : schema.Fills root whole tree decl (.map entries) node)
    (hresolved : schema.resolve decl.type = .ok (.complex complex)) :
    Instance.HoldsEntries complex entries node := by
  have htype := all_of_mem_elements hassembled.allTypes (mem_of_element? helement).1
  rw [construct_eq_placeRoot helement] at hbuilt
  obtain ⟨_, levels, depth, hplace⟩ := exists_place_of_fills hassembled htype hbuilt hfills
  cases levels with
  | zero => cases hplace
  | succ levels =>
    obtain ⟨content, rfl, hcontent⟩ := content_of_place (by rintro _ ⟨⟩) hresolved hplace
    rw [Construction.content] at hcontent
    split at hcontent
    · next base hbase =>
      exact Construction.holdsEntries_of_text hbase (mapError_eq_ok.1 hcontent)
    · next particles hparticles =>
      exact Construction.holdsEntries_of_sequence hparticles hcontent

/-- The entries of a line. -/
def lineEntries : List (String × Value) :=
  [("count", .int 3), ("article", .text "nut")]

/-- The entries of an order, two of which give nothing. -/
def orderEntries : List (String × Value) :=
  [("note", .null), ("rest", .list []), ("line", .list [.map lineEntries]), ("no", .int 7)]

/-- An order has neither the note nor the other elements that its entries leave empty; its line has
both of its parts. -/
theorem holdsEntries_order :
    define ⟨"urn:orders", "o"⟩ [.element orderDecl] = .ok orders ∧
      orders.construct "order" (.map orderEntries) =
        .ok (order (.int 7) (.text "nut") (.int 3)) ∧
      Instance.HoldsEntries orderType orderEntries (order (.int 7) (.text "nut") (.int 3)) ∧
      Instance.HoldsEntries lineType lineEntries (orderLine (.text "nut") (.int 3)) := by
  have hassembled := assembled_of_define define_orders
  have hbuilt : orders.construct "order" (.map orderEntries) =
      .ok (order (.int 7) (.text "nut") (.int 3)) := rfl
  have hline : orders.Fills orderDecl (.map orderEntries)
      (order (.int 7) (.text "nut") (.int 3)) lineDecl (.map lineEntries)
      (orderLine (.text "nut") (.int 3)) := by
    have hgiven : orderEntries.lookup lineDecl.name = some (.list [.map lineEntries]) := rfl
    have hkept : (order (.int 7) (.text "nut") (.int 3)).field? lineDecl.name =
        some (.many [orderLine (.text "nut") (.int 3)]) := rfl
    exact .inside .here rfl List.mem_cons_self hgiven hkept List.getElem?_cons_zero
      List.getElem?_cons_zero
  exact ⟨define_orders, hbuilt,
    holdsEntries_of_fills hassembled element?_order hbuilt .here rfl,
    holdsEntries_of_fills hassembled element?_order hbuilt hline rfl⟩

end Schema

end TypedXml
