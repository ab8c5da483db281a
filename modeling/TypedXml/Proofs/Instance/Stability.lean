import TypedXml.Proofs.Instance.Writing
import TypedXml.Proofs.Schema.Assembled
import TypedXml.Proofs.Xml.Tree

/-!
# Reading is stable under writing

An instance that was read from an element tree is read again from the tree that it is written as.
That tree can differ from the first one in texts, attributes and prefixes, but its elements have
the names of the first ones in their order.  Whether an element fits a particle depends on its name
alone, so every particle takes the same run of children as before, however many wildcards compete.
-/

set_option autoImplicit false

namespace TypedXml

namespace Schema

variable {schema : Schema}

/-! ## Runs depend on names -/

/-- Children that fit alike make up a run alike. -/
theorem IsRun.congr {fits : Child → Bool} {occurs : Occurs} {count : Nat}
    {taken left taken' left' : List Child} (h : IsRun fits occurs count taken left)
    (htaken : taken'.map fits = taken.map fits) (hleft : left'.map fits = left.map fits) :
    IsRun fits occurs count taken' left' := by
  have hlength : taken'.length = taken.length := by
    simpa using congrArg List.length htaken
  refine ⟨?_, ?_, ?_⟩
  · intro child hchild
    have hmem : fits child ∈ taken.map fits := htaken ▸ List.mem_map_of_mem hchild
    obtain ⟨other, hother, hfits⟩ := List.mem_map.1 hmem
    rw [← hfits]
    exact h.all_fit other hother
  · rw [hlength]
    exact h.room
  · rw [hlength]
    rcases h.stops with hfull | hhead
    · exact Or.inl hfull
    · refine Or.inr ?_
      intro child hchild
      have hheads : (left'.map fits).head? = (left.map fits).head? := by rw [hleft]
      rw [List.head?_map, List.head?_map, hchild, Option.map_some] at hheads
      obtain ⟨other, hother, hfits⟩ := Option.map_eq_some_iff.1 hheads.symm
      rw [← hfits]
      exact hhead other hother

/-- Children of the same names fit a particle in the same places. -/
theorem map_childFits_congr {later : List Particle} {particle : Particle}
    {children others : List Child}
    (h : others.map (·.element.name) = children.map (·.element.name)) :
    others.map (schema.childFits later particle) =
      children.map (schema.childFits later particle) := by
  have hname : schema.childFits later particle =
      (fun name => schema.fits later ⟨name, none, .empty, none, []⟩ particle) ∘
        (·.element.name) := by
    funext child
    cases particle with
    | any wildcard => rfl
    | element decl => rfl
  rw [hname, ← List.map_map, ← List.map_map, h]

/-! ## Fields that are read again -/

variable {particle : Particle} {taken : List Child} {field : Field}

/-- A field is read again from its elements if its typed occurrences are. -/
theorem FieldRead.again (h : FieldRead taken particle field)
    (hagain : ∀ child ∈ taken, ∀ decl, particle = .element decl → ∀ item,
      child.decode decl = .ok item → ReadAgain schema decl item) :
    FieldRead (field.written.map schema.child) particle field := by
  cases h with
  | @any taken wildcard =>
    have helements : (taken.map (·.element)) =
        ((taken.map (·.element)).map schema.child).map (·.element) := by
      rw [List.map_map]
      exact (List.map_id _).symm
    rw [Field.written]
    nth_rewrite 2 [helements]
    exact .any
  | @one child decl item single read =>
    exact .one single (hagain child List.mem_cons_self decl rfl item read)
  | @many taken decl items repeated read =>
    refine .many repeated ?_
    rw [Field.written, List.map_map, List.forall₂_map_left_iff, List.forall₂_same]
    intro item hitem
    obtain ⟨child, hchild, hread⟩ := exists_of_mem_results read hitem
    exact hagain child hchild decl rfl item hread

/-- The elements that a field stands for have the names of the children that it is read from. -/
theorem FieldRead.names {later : List Particle} (h : FieldRead taken particle field)
    (hfit : ∀ child ∈ taken, schema.childFits later particle child = true)
    (hagain : ∀ child ∈ taken, ∀ decl, particle = .element decl → ∀ item,
      child.decode decl = .ok item → ReadAgain schema decl item) :
    field.written.map Xml.Element.name = taken.map (·.element.name) := by
  cases h with
  | any => rw [Field.written, List.map_map]; rfl
  | @one child decl item single read =>
    have hname := (hagain child List.mem_cons_self decl rfl item read).name
    have hchild := isNamed_iff.1 (hfit child List.mem_cons_self)
    rw [Field.written, List.map_singleton, List.map_singleton, hname, hchild]
  | @many taken decl items repeated read =>
    have names : ∀ {taken : List Child} {items : List Instance},
        List.Forall₂ (fun child item => child.decode decl = .ok item) taken items →
        (∀ child ∈ taken, schema.childFits later (.element decl) child = true) →
        (∀ child ∈ taken, ∀ item, child.decode decl = .ok item → ReadAgain schema decl item) →
          (items.map Instance.toElement).map Xml.Element.name =
            taken.map (·.element.name) := by
      intro taken items hread hfit hagain
      induction hread with
      | nil => rfl
      | @cons child item taken items hfirst _ ih =>
        rw [List.forall_mem_cons] at hfit hagain
        rw [List.map_cons, List.map_cons, List.map_cons, (hagain.1 item hfirst).name,
          isNamed_iff.1 hfit.1, ih hfit.2 hagain.2]
    exact names read hfit (fun child hchild item hread => hagain child hchild decl rfl item hread)

/-- Fields are read again from their elements, which have the names of the children that the
fields are read from: each particle takes the run that it took before. -/
theorem FieldsRead.again {particles : List Particle} {children : List Child}
    {entries : List (String × Field)} (h : FieldsRead schema particles children entries)
    (hagain : ∀ child ∈ children, ∀ decl, .element decl ∈ particles → ∀ item,
      child.decode decl = .ok item → ReadAgain schema decl item) :
    FieldsRead schema particles ((Instance.fieldElements entries).map schema.child) entries ∧
      (Instance.fieldElements entries).map Xml.Element.name =
        children.map (·.element.name) := by
  induction h with
  | done => exact ⟨.done, rfl⟩
  | @absent particle later children entries enough run rest ih =>
    obtain ⟨hread, hnames⟩ := ih fun child hchild decl hdecl =>
      hagain child hchild decl (List.mem_cons_of_mem _ hdecl)
    refine ⟨.absent enough (run.congr rfl ?_) hread, hnames⟩
    refine map_childFits_congr ?_
    rw [List.map_map]
    exact hnames
  | @present particle later taken left field entries nonempty enough run read rest ih =>
    obtain ⟨hread, hnames⟩ := ih fun child hchild decl hdecl =>
      hagain child (List.mem_append_right _ hchild) decl (List.mem_cons_of_mem _ hdecl)
    have hfield : FieldRead taken particle field :=
      fieldRead_of_decodeField read nonempty run.room
    have htaken : ∀ child ∈ taken, ∀ decl, particle = .element decl → ∀ item,
        child.decode decl = .ok item → ReadAgain schema decl item := by
      intro child hchild decl hdecl
      exact hagain child (List.mem_append_left _ hchild) decl (hdecl ▸ List.mem_cons_self)
    -- children keep their names, so that runs are cut in the same places
    have hwritten := hfield.names run.all_fit htaken
    have hmapped : (field.written.map schema.child).map (·.element.name) =
        taken.map (·.element.name) := by
      rw [List.map_map]
      exact hwritten
    have hlength : (field.written.map schema.child).length = taken.length := by
      simpa using congrArg List.length hmapped
    rw [Instance.fieldElements_cons, List.map_append, List.map_append, List.map_append, hwritten,
      hnames]
    refine ⟨.present ?_ ?_ (run.congr (map_childFits_congr hmapped) ?_)
      (hfield.again htaken).decodeField hread, rfl⟩
    · rw [← List.length_pos_iff, hlength, List.length_pos_iff]
      exact nonempty
    · rw [hlength]
      exact enough
    · refine map_childFits_congr ?_
      rw [List.map_map]
      exact hnames

/-! ## Elements that are read again -/

/-- Attributes that are read are not lost by writing. -/
theorem AttributesRead.kept {attributes : Xml.Attributes} {decls : List AttributeDecl}
    {scalars : List (String × Scalar)} (h : AttributesRead attributes decls scalars) :
    AttributesKept decls scalars := by
  induction h with
  | done => exact .done
  | absent _ optional _ ih => exact .absent optional ih
  | present _ kind read _ ih => exact .present kind (Kind.native_of_read? read).1 ih

/-- An instance that is read from an element of an assembled schema is read again from its own
element tree. -/
theorem decode_toElement_of_decode (hassembled : schema.Assembled) (element : Xml.Element) :
    ∀ {localName : String} {type : TypeRef} {node : Instance},
      type.all schema.declares (fun type => type.checkParts.isOk) = true →
        schema.decode element localName type = .ok node →
          schema.decode node.toElement localName type = .ok node := by
  -- on the element that was read first, for every declaration it may be read under
  induction element using Xml.Element.induct with
  | step element ih =>
    intro localName type node htype h
    rw [decode_eq_ok] at h ⊢
    cases h with
    | @scalar simple value resolved childless kind read =>
      exact .scalar resolved rfl kind
        (Scalar.read?_getD_text? kind (Kind.native_of_read? read).1)
    | @text complex base value attributes resolved content childless kind read scalars =>
      have hregular := regular_of_all (all_of_resolve hassembled.allTypes htype resolved)
      exact .text resolved content rfl kind
        (Scalar.read?_getD_text? kind (Kind.native_of_read? read).1)
        (scalars.kept.read_written hregular.names_distinct)
    | @fields complex particles entries attributes resolved content parts scalars =>
      have hall := all_of_resolve hassembled.allTypes htype resolved
      have hparticles := ComplexType.particles_of_sequence content
      have hagain : ∀ child ∈ element.children.map schema.child, ∀ decl,
          .element decl ∈ particles → ∀ item, child.decode decl = .ok item →
            ReadAgain schema decl item := by
        intro child hchild decl hdecl item hread
        obtain ⟨other, hother, rfl⟩ := List.mem_map.1 hchild
        rw [← hparticles] at hdecl
        exact ih other hother (ComplexType.all_of_mem hall hdecl) hread
      exact .fields resolved content (parts.again hagain).1
        (scalars.kept.read_written (regular_of_all hall).names_distinct)

/-! ## Depth -/

/-- Two lists of children are together as high as the higher one. -/
theorem heightAll_append_children (left right : List Child) :
    Xml.Element.heightAll ((left ++ right).map (·.element)) =
      max (Xml.Element.heightAll (left.map (·.element)))
        (Xml.Element.heightAll (right.map (·.element))) := by
  rw [List.map_append, Instance.heightAll_append_elements]

/-- The occurrences of a run are not higher than the children that they are read from. -/
theorem heightAll_le {decl : ElementDecl} {taken : List Child} {items : List Instance}
    (h : List.Forall₂ (fun child item => child.decode decl = .ok item) taken items)
    (hitems : ∀ child ∈ taken, ∀ item, child.decode decl = .ok item →
      item.height ≤ child.element.height) :
    Instance.heightAll items ≤ Xml.Element.heightAll (taken.map (·.element)) := by
  induction h with
  | nil => exact Nat.le_refl _
  | @cons child item taken items hfirst _ ih =>
    rw [List.forall_mem_cons] at hitems
    have hitem := hitems.1 item hfirst
    have hothers := ih hitems.2
    rw [Instance.heightAll, List.map_cons, Xml.Element.heightAll]
    omega

/-- Fields are not deeper than the children that they are read from. -/
theorem FieldsRead.height_le {particles : List Particle} {children : List Child}
    {entries : List (String × Field)} (h : FieldsRead schema particles children entries)
    (hitems : ∀ child ∈ children, ∀ decl item, child.decode decl = .ok item →
      item.height ≤ child.element.height) :
    Instance.heightFields entries ≤ Xml.Element.heightAll (children.map (·.element)) := by
  induction h with
  | done => exact Nat.le_refl _
  | absent enough run rest ih => exact ih hitems
  | @present particle later taken left field entries nonempty enough run read rest ih =>
    have hrest := ih fun child hchild => hitems child (List.mem_append_right _ hchild)
    have htaken := fun child hchild => hitems child (List.mem_append_left left hchild)
    rw [heightAll_append_children]
    cases fieldRead_of_decodeField read nonempty run.room with
    | any =>
      rw [Instance.heightFields]
      omega
    | @one child decl item _ hread =>
      have hitem := htaken child List.mem_cons_self decl item hread
      rw [Instance.heightFields, List.map_singleton, Xml.Element.heightAll,
        Xml.Element.heightAll]
      omega
    | @many _ decl items _ hread =>
      have hmany := heightAll_le hread (fun child hchild => htaken child hchild decl)
      rw [Instance.heightFields]
      omega

/-- An instance is not deeper than the element that it is read from. -/
theorem height_le_of_decode (element : Xml.Element) :
    ∀ {localName : String} {type : TypeRef} {node : Instance},
      schema.decode element localName type = .ok node → node.height ≤ element.height := by
  induction element using Xml.Element.induct with
  | step element ih =>
    intro localName type node h
    rw [decode_eq_ok] at h
    rw [Xml.Element.height_eq]
    cases h with
    | scalar => exact Nat.succ_le_succ (Nat.zero_le _)
    | text => exact Nat.succ_le_succ (Nat.zero_le _)
    | fields resolved content parts scalars =>
      have hheight := parts.height_le (by
        intro child hchild decl item hread
        obtain ⟨other, hother, rfl⟩ := List.mem_map.1 hchild
        exact ih other hother hread)
      have helements : (element.children.map schema.child).map (·.element) =
          element.children := by
        rw [List.map_map]
        exact List.map_id _
      rw [helements] at hheight
      rw [Instance.height]
      exact Nat.succ_le_succ hheight

/-! ## Root elements -/

/-- Reading is stable under writing: what is read from any element of an assembled schema is read
again, unchanged, from the element tree it is written as. -/
theorem decodeElement_toElement_of_decodeElement (hassembled : schema.Assembled)
    {element : Xml.Element} {node : Instance} (h : schema.decodeElement element = .ok node) :
    schema.decodeElement node.toElement = .ok node := by
  obtain ⟨hdepth, decl, hroot, hread⟩ := decodeElement_eq_ok.1 h
  obtain ⟨hspace, hdecl⟩ := rootDecl?_eq_some.1 hroot
  obtain ⟨hmem, hname⟩ := mem_of_element? hdecl
  have htype := all_of_mem_elements hassembled.allTypes hmem
  have hagain : schema.ReadAgain decl node :=
    decode_toElement_of_decode hassembled element htype hread
  refine hagain.decodeElement (hname ▸ hdecl) ?_
  have hheight := height_le_of_decode element hread
  rw [Xml.Element.depth_eq_height] at hdepth
  rw [Instance.depth_eq_height]
  omega

/-- An envelope is read again although writing drops the text that stands in it. -/
theorem envelope_readAgain :
    let note : Xml.Element := ⟨⟨none, "note"⟩, none, .empty, some " hi ", []⟩
    let body : Xml.Element := ⟨Soap.target.qualify "Body", none, .empty, none, [note, note]⟩
    let envelope : Xml.Element :=
      ⟨Soap.target.qualify "Envelope", none, .empty, some "stray", [body]⟩
    ∃ node, Soap.schema.decodeElement envelope = .ok node ∧
      Soap.schema.decodeElement node.toElement = .ok node := by
  intro note body envelope
  have hread : Soap.schema.decodeElement envelope = .ok ⟨"Envelope", Soap.target, .fields
      [("Body", .one ⟨"Body", Soap.target, .fields [("any", .any [note, note])] []⟩)] []⟩ := by
    refine decodeElement_eq_ok.2 ⟨?_, Soap.envelopeDecl, ?_, ?_⟩
    · rw [Xml.Element.depth_eq_height]
      decide
    · rfl
    · rfl
  exact ⟨_, hread, decodeElement_toElement_of_decodeElement Soap.schema_assembled hread⟩

end Schema

end TypedXml
