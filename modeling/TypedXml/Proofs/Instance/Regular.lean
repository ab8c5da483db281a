import TypedXml.Proofs.Instance.Reread

/-!
# Instances of schemas without wildcards

An instance that has the shape of a declaration, in an assembled schema without wildcards, is made
of regular nodes: their names are valid, they are in the namespace of the schema, and no key stands
twice.  The elements of its tree have names that can be written, and never text beside children.
-/

set_option autoImplicit false

namespace TypedXml

/-! ## Regular nodes -/

namespace Instance

/-- Whether a node is one of a schema without wildcards. -/
structure IsRegular (space : Namespace) (node : Instance) : Prop where
  name : isNCName node.name = true
  space : node.space = space
  keys : KeysDistinct node
  attributes : ∀ entry ∈ node.scalars, isNCName entry.1 = true
  typed : node.elementsBelow = []

end Instance

namespace Schema

variable {schema : Schema}

/-- Whether a declaration has a valid name, and the types that are written in it are regular and
have no wildcards. -/
structure IsTyped (schema : Schema) (decl : ElementDecl) : Prop where
  name : isNCName decl.name = true
  parts : decl.type.all schema.declares (fun type => type.checkParts.isOk) = true
  closed : decl.type.all (fun _ => true) (fun type => decide (type.wildcards = 0)) = true

/-- The top-level elements of an assembled schema without wildcards are typed. -/
theorem isTyped_of_mem (hassembled : schema.Assembled) (hclosed : schema.WithoutWildcards)
    {decl : ElementDecl} (h : decl ∈ schema.elements) : schema.IsTyped decl :=
  ⟨hassembled.names_valid decl h, all_of_mem_elements hassembled.allTypes h,
    all_of_mem_elements hclosed h⟩

/-- The declarations in a sequence are typed if its parts are regular and have no wildcards. -/
theorem IsTyped.of_particle {complex : ComplexType} {decl : ElementDecl}
    (hparts : complex.all schema.declares (fun type => type.checkParts.isOk) = true)
    (hclosed : complex.all (fun _ => true) (fun type => decide (type.wildcards = 0)) = true)
    (h : .element decl ∈ complex.particles) : schema.IsTyped decl :=
  ⟨(regular_of_all hparts).keys_valid _ h, ComplexType.all_of_mem hparts h,
    ComplexType.all_of_mem hclosed h⟩

/-- The complex type of a typed declaration is regular, also where a reference leads to it. -/
theorem IsTyped.regular {decl : ElementDecl} {complex : ComplexType} (h : schema.IsTyped decl)
    (hassembled : schema.Assembled) (resolved : schema.resolve decl.type = .ok (.complex complex)) :
    complex.Regular :=
  regular_of_all (all_of_resolve hassembled.allTypes h.parts resolved)

/-- Particles that can be told from their keys, and are all of declarations that are typed. -/
structure TypedParticles (schema : Schema) (particles : List Particle) : Prop where
  distinct : (particles.map Particle.key).Nodup
  declared : ∀ particle ∈ particles, particle.decl? ≠ none
  typed : ∀ decl, .element decl ∈ particles → schema.IsTyped decl

/-- The particles of a typed declaration can be told from their keys and are typed declarations
again. -/
theorem IsTyped.particles {decl : ElementDecl} {complex : ComplexType} {particles : List Particle}
    (h : schema.IsTyped decl) (hassembled : schema.Assembled) (hclosed : schema.WithoutWildcards)
    (resolved : schema.resolve decl.type = .ok (.complex complex))
    (content : complex.content = .sequence particles) : schema.TypedParticles particles := by
  have hparts := all_of_resolve hassembled.allTypes h.parts resolved
  have hnone := all_of_resolve hclosed h.closed resolved
  rw [← ComplexType.particles_of_sequence content]
  exact ⟨(regular_of_all hparts).keys_distinct, fun _ => decl?_ne_none_of_mem hnone,
    fun _ => .of_particle hparts hnone⟩

/-- Attributes in their shape have valid names if those of their declarations are. -/
theorem names_of_shaped {decls : List AttributeDecl} {scalars : List (String × Scalar)}
    (h : AttributesShaped decls scalars) (hnames : ∀ decl ∈ decls, isNCName decl.name = true) :
    ∀ entry ∈ scalars, isNCName entry.1 = true := by
  intro entry hentry
  have hkey := h.keys_sublist.subset (List.mem_map_of_mem hentry)
  obtain ⟨decl, hdecl, hname⟩ := List.mem_map.1 hkey
  rw [← hname]
  exact hnames decl hdecl

/-- The nodes of an instance in its shape are regular. -/
theorem regular_of_shaped (hassembled : schema.Assembled) (hclosed : schema.WithoutWildcards)
    {decl : ElementDecl} {node : Instance} (h : Shaped schema decl node)
    (htyped : schema.IsTyped decl) : node.Everywhere (Instance.IsRegular schema.target) := by
  revert htyped
  refine Shaped.induct ?scalar ?text ?fields h
  case scalar =>
    intro decl simple value resolved kind htyped
    refine .intro ⟨htyped.name, rfl, ⟨List.nodup_nil, List.nodup_nil⟩, ?_, rfl⟩ ?_
    · rintro entry ⟨⟩
    · rintro item ⟨⟩
  case text =>
    intro decl complex base value attributes resolved content kind scalars htyped
    have hregular := htyped.regular hassembled resolved
    have hdistinct := scalars.keys_sublist.nodup hregular.names_distinct
    refine .intro ⟨htyped.name, rfl, ⟨List.nodup_nil, hdistinct⟩,
      names_of_shaped scalars hregular.names_valid, rfl⟩ ?_
    rintro item ⟨⟩
  case fields =>
    intro decl complex particles entries attributes resolved content parts scalars htyped
    have hregular := htyped.regular hassembled resolved
    have hparticles := htyped.particles hassembled hclosed resolved content
    have helements : entries.flatMap (fun entry => entry.2.elements) = [] := by
      rw [List.flatMap_eq_nil_iff]
      rintro ⟨key, field⟩ hentry
      obtain ⟨particle, hparticle, _, hshaped⟩ := parts.particle_of_mem hentry
      cases hshaped with
      | one => rfl
      | many => rfl
      | any => exact absurd rfl (hparticles.declared _ hparticle)
    refine .intro ⟨htyped.name, rfl, ⟨parts.keys_sublist.nodup hparticles.distinct,
      scalars.keys_sublist.nodup hregular.names_distinct⟩,
      names_of_shaped scalars hregular.names_valid, helements⟩ ?_
    intro item hitem
    obtain ⟨child, hchild, hgood⟩ := parts.exists_decl hitem
    exact hgood (hparticles.typed child hchild)

end Schema

/-! ## Trees of regular nodes -/

namespace Instance

variable {node : Instance}

/-- Where there are no wildcard elements, fields are written as the trees of their occurrences. -/
theorem fieldElements_eq_map {entries : List (String × Field)}
    (h : entries.flatMap (fun entry => entry.2.elements) = []) :
    fieldElements entries = (entries.flatMap fun entry => entry.2.instances).map toElement := by
  induction entries with
  | nil => rfl
  | cons entry rest ih =>
    obtain ⟨key, field⟩ := entry
    rw [List.flatMap_cons, List.append_eq_nil_iff] at h
    rw [fieldElements_cons, List.flatMap_cons, List.map_append, ih h.2]
    cases field with
    | one item => rfl
    | many items => rfl
    | any elements =>
      have hnone : elements = [] := h.1
      rw [hnone]
      rfl

/-- Where there are no wildcard elements, the children of the element are the trees of the nodes
below. -/
theorem children_toElement (h : node.elementsBelow = []) :
    node.toElement.children = node.nodesBelow.map toElement := by
  obtain ⟨name, space, content⟩ := node
  cases content with
  | scalar value => rfl
  | text value attributes => rfl
  | fields entries attributes => exact fieldElements_eq_map h

/-- A condition on the elements of single nodes holds everywhere in the tree of regular nodes. -/
theorem everywhere_toElement {space : Namespace} {p : Xml.Element → Prop}
    (h : node.Everywhere (IsRegular space)) (hp : node.Everywhere fun node => p node.toElement) :
    Xml.Element.Everywhere p node.toElement := by
  induction h with
  | intro root _ ih =>
    refine .intro hp.root ?_
    rw [children_toElement root.typed]
    intro child hchild
    obtain ⟨item, hitem, rfl⟩ := List.mem_map.1 hchild
    exact ih item hitem (hp.inside item hitem)

/-- The attributes of a node with distinct keys are written one by one, without a namespace. -/
theorem entries_attributes_toElement (h : KeysDistinct node) :
    node.toElement.attributes.entries =
      node.scalars.map fun entry => (Name.unqualified entry.1, entry.2.lexical) := by
  obtain ⟨name, space, content⟩ := node
  cases content with
  | scalar value => rfl
  | text value attributes => exact entries_writtenAttributes h.scalars
  | fields entries attributes => exact entries_writtenAttributes h.scalars

/-- An element is preferably written with the prefix that its namespace prefers. -/
theorem preferredPrefix_toElement (node : Instance) :
    node.toElement.preferredPrefix = some node.space.preferredPrefix := by
  obtain ⟨name, space, content⟩ := node
  cases content with
  | scalar value => rfl
  | text value attributes => rfl
  | fields entries attributes => rfl

/-- The element of a node has no text or no children, and never empty text. -/
theorem text_toElement (node : Instance) :
    (node.toElement.text = none ∨ node.toElement.children = []) ∧
      node.toElement.text ≠ some "" := by
  have hscalar : ∀ scalar : Scalar, scalar.text? ≠ some "" := by
    intro scalar htext
    unfold Scalar.text? at htext
    split at htext
    · cases htext
    · next hne =>
      apply hne
      rw [Option.some.inj htext]
      rfl
  obtain ⟨name, space, content⟩ := node
  cases content with
  | scalar value => exact ⟨Or.inr rfl, hscalar value⟩
  | text value attributes => exact ⟨Or.inr rfl, hscalar value⟩
  | fields entries attributes => exact ⟨Or.inl rfl, nofun⟩

variable {space : Namespace}

/-- The tree of regular nodes can be written, if its namespace is of the right sort. -/
theorem writable_toElement {good : String → Prop} (hgood : good space.uri)
    (hpreferred : space.preferredPrefix = "" ∨ isNCName space.preferredPrefix = true)
    (h : node.Everywhere (IsRegular space)) :
    Xml.Element.Everywhere (Xml.Element.Writable good) node.toElement := by
  refine everywhere_toElement h (h.imp ?_)
  intro node hnode
  have hentries := entries_attributes_toElement hnode.keys
  constructor
  · rw [toElement_name]
    exact hnode.name
  · rw [preferredPrefix_toElement, hnode.space]
    rintro label ⟨⟩
    exact hpreferred
  · rw [toElement_name, qualifiedName, hnode.space]
    rintro uri ⟨⟩
    exact hgood
  · rw [hentries, List.forall_mem_map]
    exact hnode.attributes
  · rw [hentries, List.forall_mem_map]
    rintro entry _ uri ⟨⟩

/-- Text and children do not mix in the tree of regular nodes. -/
theorem unmixed_toElement (h : node.Everywhere (IsRegular space)) :
    Xml.Element.Everywhere Xml.Element.IsUnmixed node.toElement := by
  refine everywhere_toElement h (h.imp ?_)
  intro node _
  rcases (text_toElement node).1 with htext | hchildren
  · apply Or.inl
    unfold Xml.Element.textOrEmpty
    rw [htext]
    rfl
  · exact Or.inr hchildren

/-- The texts in the tree of regular nodes are read as they are. -/
theorem keepsText_toElement (h : node.Everywhere (IsRegular space)) :
    Xml.Element.Everywhere Xml.Element.KeepsText node.toElement := by
  refine everywhere_toElement h (h.imp ?_)
  intro node _
  obtain ⟨halone, hne⟩ := text_toElement node
  refine ⟨hne, ?_⟩
  intro hchildren text htext
  rcases halone with hnone | hempty
  · rw [hnone] at htext
    cases htext
  · exact absurd hempty hchildren

/-- The names in the tree of regular nodes are read as they are, where the namespace is plain and no
attribute binds names. -/
theorem keepsNames_toElement (hplain : Xml.IsPlainSpace space.uri)
    (h : node.Everywhere (IsRegular space)) (hlacks : node.Everywhere (Lacks "xmlns")) :
    Xml.Element.Everywhere Xml.Element.KeepsNames node.toElement := by
  refine everywhere_toElement h ((h.both hlacks).imp ?_)
  rintro node ⟨hnode, hnone⟩
  have hentries := entries_attributes_toElement hnode.keys
  constructor
  · rw [toElement_name, qualifiedName, hnode.space]
    rintro uri ⟨⟩
    exact hplain
  · rw [hentries, List.forall_mem_map]
    rintro entry _ uri ⟨⟩
  · rw [hentries, Entries.keys, List.map_map]
    intro hmem
    obtain ⟨entry, hentry, hname⟩ := List.mem_map.1 hmem
    apply hnone
    exact List.mem_map.2 ⟨entry, hentry, congrArg Name.localName hname⟩

end Instance

namespace Schema

variable {schema : Schema}

/-! ## Instances without wildcards -/

/-- Wildcards are apart in a list of nodes if they are in each of them. -/
theorem allApart_of_forall {type : TypeRef} {items : List Instance}
    (h : ∀ item ∈ items, wildcardsApart schema item type = true) :
    allApart schema items type = true := by
  induction items with
  | nil =>
    unfold allApart
    rfl
  | cons item rest ih =>
    rw [List.forall_mem_cons] at h
    unfold allApart
    rw [h.1, ih h.2]
    rfl

/-- Wildcards are apart in fields if they are in each of them. -/
theorem fieldsApart_of_forall {particles : List Particle} {entries : List (String × Field)}
    (h : ∀ key field, (key, field) ∈ entries → ∀ particle,
      particles.find? (fun particle => particle.key == key) = some particle →
        fieldApart schema particles field particle = true) :
    fieldsApart schema particles entries = true := by
  induction entries with
  | nil =>
    unfold fieldsApart
    rfl
  | cons entry rest ih =>
    obtain ⟨key, field⟩ := entry
    have hrest := ih fun key field hmem => h key field (List.mem_cons_of_mem _ hmem)
    unfold fieldsApart
    rw [hrest, Bool.and_true]
    split
    · next particle hfind => exact h key field List.mem_cons_self particle hfind
    · rfl

/-- Where there are no wildcards, none has an element with the name of a declaration. -/
theorem wildcardsApart_of_shaped (hassembled : schema.Assembled)
    (hclosed : schema.WithoutWildcards) {decl : ElementDecl} {node : Instance}
    (h : Shaped schema decl node) (htyped : schema.IsTyped decl) :
    wildcardsApart schema node decl.type = true := by
  revert htyped
  refine Shaped.induct ?scalar ?text ?fields h
  case scalar =>
    intro decl simple value _ _ _
    unfold wildcardsApart
    rfl
  case text =>
    intro decl complex base value attributes _ _ _ _ _
    unfold wildcardsApart
    rfl
  case fields =>
    intro decl complex particles entries attributes resolved content parts scalars htyped
    have hparticles := htyped.particles hassembled hclosed resolved content
    rw [wildcardsApart_fields resolved, ComplexType.particles_of_sequence content]
    apply fieldsApart_of_forall
    intro key field hentry particle hfind
    obtain ⟨own, hown, rfl, hshaped⟩ := parts.particle_of_mem hentry
    rw [find?_key_of_mem hparticles.distinct hown] at hfind
    cases hfind
    cases hshaped with
    | @one decl item single shaped =>
      unfold fieldApart
      exact shaped (hparticles.typed decl hown)
    | @many decl items repeated nonempty shaped =>
      unfold fieldApart
      apply allApart_of_forall
      intro item hitem
      exact shaped item hitem (hparticles.typed decl hown)
    | any => exact absurd rfl (hparticles.declared _ hown)

/-- Without wildcards no sequence has two of them. -/
theorem singleWildcards_of_withoutWildcards (h : schema.WithoutWildcards) :
    schema.SingleWildcards := by
  refine allTypes_imp (fun _ hname => hname) ?_ h
  intro complex hnone
  rw [decide_eq_true_eq] at hnone ⊢
  omega

/-- The type of a typed declaration is plain. -/
theorem IsTyped.isPlain {decl : ElementDecl} (h : schema.IsTyped decl) :
    schema.IsPlain decl.type := by
  refine ⟨h.parts, decl.type.all_imp (fun _ hname => hname) ?_ h.closed⟩
  intro complex hnone
  rw [decide_eq_true_eq] at hnone ⊢
  omega

end Schema

end TypedXml
