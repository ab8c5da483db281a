import TypedXml.Proofs.Instance.Nodes
import TypedXml.Proofs.Instance.Shape
import TypedXml.Proofs.Instance.TreeRoundTrip
import TypedXml.Proofs.Instance.Stability
import TypedXml.Proofs.Xml.RoundTrip

/-!
# Instances read from documents

What is read under a declaration has the shape of the declaration, and every node of it is read
from an element of the tree.  So an attribute that no element has is lacking in all nodes; and where
no element is kept as it is, a tree that comes back from a document with other prefixes is read as
the same instance.
-/

set_option autoImplicit false

namespace TypedXml

namespace Schema

variable {schema : Schema}

/-! ## The shape of what is read -/

/-- The field of a run has the shape of its particle, if what its children are read as is good. -/
theorem fieldShaped_of_fieldRead {good : ElementDecl → Instance → Prop} {taken : List Child}
    {particle : Particle} {field : Field} (h : FieldRead taken particle field) (hne : taken ≠ [])
    (hgood : ∀ child ∈ taken, ∀ decl, particle = .element decl → ∀ item,
      child.decode decl = .ok item → good decl item) : FieldShaped good particle field := by
  cases h with
  | any =>
    apply FieldShaped.any
    rwa [Ne, List.map_eq_nil_iff]
  | @one child decl item single read =>
    exact .one single (hgood child List.mem_cons_self decl rfl item read)
  | @many _ decl items repeated read =>
    refine .many repeated ?_ ?_
    · rintro rfl
      rw [List.forall₂_nil_right_iff] at read
      exact hne read
    · intro item hitem
      obtain ⟨child, hchild, hread⟩ := exists_of_mem_results read hitem
      exact hgood child hchild decl rfl item hread

/-- Fields that are read have the shape of their particles, if what the children are read as is
good. -/
theorem fieldsShaped_of_fieldsRead {good : ElementDecl → Instance → Prop}
    {particles : List Particle} {children : List Child} {entries : List (String × Field)}
    (h : FieldsRead schema particles children entries)
    (hgood : ∀ child ∈ children, ∀ decl, .element decl ∈ particles → ∀ item,
      child.decode decl = .ok item → good decl item) : FieldsShaped good particles entries := by
  induction h with
  | done => exact .done
  | absent enough run rest ih =>
    apply FieldsShaped.absent
    apply ih
    intro child hchild decl hdecl
    exact hgood child hchild decl (List.mem_cons_of_mem _ hdecl)
  | @present particle later taken left field entries nonempty enough run read rest ih =>
    apply FieldsShaped.present
    · refine fieldShaped_of_fieldRead (fieldRead_of_decodeField read nonempty run.room) nonempty ?_
      rintro child hchild decl rfl
      exact hgood child (List.mem_append_left _ hchild) decl List.mem_cons_self
    · apply ih
      intro child hchild decl hdecl
      exact hgood child (List.mem_append_right _ hchild) decl (List.mem_cons_of_mem _ hdecl)

/-- The keys of fields that are read are those of particles, in their order. -/
theorem FieldsRead.keys_sublist {particles : List Particle} {children : List Child}
    {entries : List (String × Field)} (h : FieldsRead schema particles children entries) :
    (entries.map Prod.fst).Sublist (particles.map Particle.key) :=
  (fieldsShaped_of_fieldsRead h fun _ _ _ _ _ _ => trivial).keys_sublist

/-- Attributes that are read have their shape. -/
theorem AttributesRead.shaped {attributes : Xml.Attributes} {decls : List AttributeDecl}
    {scalars : List (String × Scalar)} (h : AttributesRead attributes decls scalars) :
    AttributesShaped decls scalars := by
  induction h with
  | done => exact .done
  | absent missing optional others ih => exact .absent ih
  | present found kind read others ih => exact .present kind ih

/-- What is read under a declaration has its shape. -/
theorem shaped_of_decode (element : Xml.Element) : ∀ {decl : ElementDecl} {node : Instance},
    schema.decode element decl.name decl.type = .ok node → Shaped schema decl node := by
  induction element using Xml.Element.induct with
  | step element ih =>
    intro decl node h
    cases decode_eq_ok.1 h with
    | scalar resolved childless kind read => exact .scalar resolved kind
    | text resolved content childless kind read scalars =>
      exact .text resolved content kind scalars.shaped
    | fields resolved content parts scalars =>
      refine .fields resolved content (fieldsShaped_of_fieldsRead parts ?_) scalars.shaped
      intro child hchild decl _ item hread
      obtain ⟨other, hother, rfl⟩ := List.mem_map.1 hchild
      exact ih other hother hread

end Schema

/-- Every occurrence in fields of a shape is that of a declaration. -/
theorem FieldsShaped.exists_decl {good : ElementDecl → Instance → Prop}
    {particles : List Particle} {entries : List (String × Field)}
    (h : FieldsShaped good particles entries) {item : Instance}
    (hitem : item ∈ entries.flatMap fun entry => entry.2.instances) :
    ∃ decl, .element decl ∈ particles ∧ good decl item := by
  obtain ⟨⟨key, field⟩, hentry, hin⟩ := List.mem_flatMap.1 hitem
  obtain ⟨particle, hparticle, _, hshaped⟩ := h.particle_of_mem hentry
  cases hshaped with
  | @one decl single _ shaped =>
    rw [Field.instances, List.mem_singleton] at hin
    subst hin
    exact ⟨decl, hparticle, shaped⟩
  | @many decl items _ _ shaped => exact ⟨decl, hparticle, shaped item hin⟩
  | any => cases hin

namespace Schema

variable {schema : Schema}

/-- Every node of what is read is read itself, from an element of the tree. -/
theorem everywhere_of_decode {q : Xml.Element → Prop} {p : Instance → Prop}
    (hnode : ∀ element localName type node, q element → Reads schema element localName type node →
      p node) {element : Xml.Element} (helement : Xml.Element.Everywhere q element) :
    ∀ {localName : String} {type : TypeRef} {node : Instance},
      schema.decode element localName type = .ok node → node.Everywhere p := by
  induction helement with
  | intro root _ ih =>
    intro localName type node h
    have hreads := decode_eq_ok.1 h
    refine .intro (hnode _ _ _ _ root hreads) ?_
    cases hreads with
    | scalar => exact nofun
    | text => exact nofun
    | @fields complex particles entries attributes resolved content parts scalars =>
      intro item hitem
      have hparts : FieldsShaped (fun _ item => item.Everywhere p) particles entries := by
        refine fieldsShaped_of_fieldsRead parts ?_
        intro child hchild decl _ item hread
        obtain ⟨other, hother, rfl⟩ := List.mem_map.1 hchild
        exact ih other hother hread
      obtain ⟨_, _, hinside⟩ := hparts.exists_decl hitem
      exact hinside

/-! ## Attributes that no element has -/

/-- An attribute that the element does not have is not among those that are read. -/
theorem AttributesRead.lacks {attributes : Xml.Attributes} {decls : List AttributeDecl}
    {scalars : List (String × Scalar)} (h : AttributesRead attributes decls scalars) {name : String}
    (hnone : attributes.valueOf? name = none) : name ∉ scalars.map Prod.fst := by
  induction h with
  | done => exact List.not_mem_nil
  | absent missing optional others ih => exact ih
  | present found kind read others ih =>
    rw [List.map_cons, List.mem_cons, not_or]
    refine ⟨?_, ih⟩
    rintro rfl
    rw [hnone] at found
    cases found

/-- An attribute that no element of a tree has is lacking everywhere in what is read. -/
theorem lacks_of_decode {name : String} {element : Xml.Element}
    (hnone : Xml.Element.Everywhere (fun element => element.attributes.valueOf? name = none)
      element) {localName : String} {type : TypeRef} {node : Instance}
    (h : schema.decode element localName type = .ok node) :
    Instance.Everywhere (Instance.Lacks name) node := by
  refine everywhere_of_decode ?_ hnone h
  intro element localName type node hnone h
  cases h with
  | scalar => exact List.not_mem_nil
  | text resolved content childless kind read scalars => exact scalars.lacks hnone
  | fields resolved content parts scalars => exact scalars.lacks hnone

/-! ## Trees that come back from documents -/

/-- No type of a schema has a wildcard. -/
def WithoutWildcards (schema : Schema) : Prop :=
  schema.allTypes (fun _ => true) (fun type => decide (type.wildcards = 0)) = true

/-- Where there are no wildcards, every particle is a declaration. -/
theorem decl?_ne_none_of_mem {complex : ComplexType} {particle : Particle}
    (h : complex.all (fun _ => true) (fun type => decide (type.wildcards = 0)) = true)
    (hparticle : particle ∈ complex.particles) : particle.decl? ≠ none := by
  have hnone := ComplexType.holds_of_all h
  rw [decide_eq_true_eq, ComplexType.wildcards, List.countP_eq_zero] at hnone
  intro hdecl
  apply hnone particle hparticle
  rw [hdecl]
  rfl

variable {reread : Child → Child}

/-- A run whose children come back is read as the same field. -/
theorem FieldRead.map {taken : List Child} {particle : Particle} {field : Field}
    (h : FieldRead taken particle field) (hdecl : particle.decl? ≠ none)
    (hread : ∀ child ∈ taken, ∀ decl, particle = .element decl → ∀ item,
      child.decode decl = .ok item → (reread child).decode decl = .ok item) :
    FieldRead (taken.map reread) particle field := by
  cases h with
  | any => exact absurd rfl hdecl
  | @one child decl item single read =>
    exact .one single (hread child List.mem_cons_self decl rfl item read)
  | @many _ decl items repeated read =>
    apply FieldRead.many repeated
    clear hdecl
    induction read with
    | nil => exact .nil
    | @cons child item taken items hfirst _ ih =>
      rw [List.forall_mem_cons] at hread
      exact .cons (hread.1 decl rfl item hfirst) (ih hread.2)

/-- Children that have the same names and are read alike are read as the same fields, where no
wildcard keeps the elements themselves. -/
theorem FieldsRead.map {particles : List Particle} {children : List Child}
    {entries : List (String × Field)} (h : FieldsRead schema particles children entries)
    (hdecls : ∀ particle ∈ particles, particle.decl? ≠ none)
    (hnames : ∀ child ∈ children, (reread child).element.name = child.element.name)
    (hread : ∀ child ∈ children, ∀ decl, .element decl ∈ particles → ∀ item,
      child.decode decl = .ok item → (reread child).decode decl = .ok item) :
    FieldsRead schema particles (children.map reread) entries := by
  -- what fits is decided by names alone
  have hfits : ∀ {later : List Particle} {particle : Particle} {children : List Child},
      (∀ child ∈ children, (reread child).element.name = child.element.name) →
        (children.map reread).map (schema.childFits later particle) =
          children.map (schema.childFits later particle) := by
    intro later particle children hnames
    apply map_childFits_congr
    rw [List.map_map]
    exact List.map_congr_left hnames
  induction h with
  | done => exact .done
  | absent enough run rest ih =>
    rw [List.forall_mem_cons] at hdecls
    refine .absent enough (run.congr rfl (hfits hnames)) (ih hdecls.2 hnames ?_)
    intro child hchild decl hdecl
    exact hread child hchild decl (List.mem_cons_of_mem _ hdecl)
  | @present particle later taken left field entries nonempty enough run read rest ih =>
    rw [List.forall_mem_cons] at hdecls
    rw [List.forall_mem_append] at hnames hread
    have hfield : FieldRead (taken.map reread) particle field := by
      refine (fieldRead_of_decodeField read nonempty run.room).map hdecls.1 ?_
      rintro child hchild decl rfl
      exact hread.1 child hchild decl List.mem_cons_self
    rw [List.map_append]
    refine .present ?_ ?_ (run.congr (hfits hnames.1) (hfits hnames.2)) hfield.decodeField
      (ih hdecls.2 hnames.2 ?_)
    · rwa [Ne, List.map_eq_nil_iff]
    · rwa [List.length_map]
    · intro child hchild decl hdecl
      exact hread.2 child hchild decl (List.mem_cons_of_mem _ hdecl)

/-- A tree whose names and texts come back from a document is read as before. -/
theorem decode_reread (hclosed : schema.WithoutWildcards) {table : PrefixTable}
    {element : Xml.Element} (hnames : Xml.Element.Everywhere Xml.Element.KeepsNames element)
    (htexts : Xml.Element.Everywhere Xml.Element.KeepsText element) :
    ∀ {localName : String} {type : TypeRef} {node : Instance},
      type.all (fun _ => true) (fun type => decide (type.wildcards = 0)) = true →
        schema.decode element localName type = .ok node →
          schema.decode (element.reread table none) localName type = .ok node := by
  induction hnames with
  | @intro element root children ih =>
    intro localName type node htype h
    rw [decode_eq_ok] at h ⊢
    rw [Xml.Element.reread_of_keepsNames root, Xml.Element.readText_of_keepsText htexts.root]
    cases h with
    | scalar resolved childless kind read =>
      refine .scalar resolved ?_ kind read
      rw [childless]
      rfl
    | text resolved content childless kind read scalars =>
      refine .text resolved content ?_ kind read scalars
      rw [childless]
      rfl
    | @fields complex particles entries attributes resolved content parts scalars =>
      have hall := all_of_resolve hclosed htype resolved
      have hparticles := ComplexType.particles_of_sequence content
      have hnamed : ∀ child ∈ element.children,
          (child.reread table none).name = child.name := by
        intro child hchild
        rw [Xml.Element.reread_of_keepsNames (children child hchild).root]
      have hread : ∀ child ∈ element.children.map schema.child, ∀ decl,
          .element decl ∈ particles → ∀ item, child.decode decl = .ok item →
            (schema.child (child.element.reread table none)).decode decl = .ok item := by
        intro child hchild decl hdecl item hitem
        obtain ⟨other, hother, rfl⟩ := List.mem_map.1 hchild
        rw [← hparticles] at hdecl
        exact ih other hother (htexts.children other hother) (ComplexType.all_of_mem hall hdecl)
          hitem
      have hmapped : FieldsRead schema particles ((element.children.map schema.child).map
          fun child => schema.child (child.element.reread table none)) entries := by
        refine parts.map ?_ ?_ hread
        · intro particle hparticle
          rw [← hparticles] at hparticle
          exact decl?_ne_none_of_mem hall hparticle
        · intro child hchild
          obtain ⟨other, hother, rfl⟩ := List.mem_map.1 hchild
          exact hnamed other hother
      refine .fields resolved content ?_ scalars
      rw [List.map_map] at hmapped ⊢
      exact hmapped

end Schema

end TypedXml
