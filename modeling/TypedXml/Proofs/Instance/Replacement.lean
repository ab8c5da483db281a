import TypedXml.Proofs.Instance.AlikeValues
import TypedXml.Proofs.Instance.Built
import TypedXml.Proofs.Instance.DepthLimit

/-!
# Finished instances in the place of values

An instance that was built before can stand in a value in the place of what it was built from.  The
two ways are different ones: a value is built at the depth of its place, while a finished instance
was built as a root, is put under the name of its place, and is measured.  Both come from one run of
construction under limits of their own, and so give the same or fail alike; and what a larger value
becomes depends on a part of it only through what the part becomes.
-/

set_option autoImplicit false

namespace TypedXml

/-! ## Values that differ in one part -/

/-- Whether two values are those of a particle for a declaration, one with one part among its
occurrences and the other with another part in that place. -/
inductive OccursIn (decl : ElementDecl) (part twin : Value) : Value → Value → Prop
  | single (once : decl.occurs.isSingle = true) : OccursIn decl part twin part twin
  | repeated (many : decl.occurs.isSingle = false) (before after : List Value) :
      OccursIn decl part twin (.list (before ++ part :: after)) (.list (before ++ twin :: after))

/-- Whether two values for a type with given keys differ in the slot of one key alone, which is
found by its key or by its position. -/
inductive DifferAt (keys : List String) (key : String) (slot twin : Value) :
    Value → Value → Prop
  | entry (before after : List (String × Value)) :
      DifferAt keys key slot twin (.map (before ++ (key, slot) :: after))
        (.map (before ++ (key, twin) :: after))
  | position (before after : List Value) (here : keys[before.length]? = some key) :
      DifferAt keys key slot twin (.list (before ++ slot :: after))
        (.list (before ++ twin :: after))

namespace Schema

/-- Whether the second of two values for a declaration is the first one with a finished instance in
the place of a part, where a top-level element with the type of that place gives the instance for
the part. -/
inductive Finishes (schema : Schema) : ElementDecl → Value → Value → Prop
  | here {decl root : ElementDecl} {name : String} {value : Value} {node : Instance}
      (element : schema.element? name = some root)
      (type : schema.resolve decl.type = schema.resolve root.type)
      (unlisted : ∀ items, value ≠ .list items)
      (built : schema.construct name value = .ok node) :
      Finishes schema decl value (.built node)
  | inside {decl child : ElementDecl} {complex : ComplexType} {particles : List Particle}
      {part partTwin slot slotTwin whole wholeTwin : Value}
      (resolved : schema.resolve decl.type = .ok (.complex complex))
      (content : complex.content = .sequence particles) (declared : .element child ∈ particles)
      (parts : Finishes schema child part partTwin)
      (slots : OccursIn child part partTwin slot slotTwin)
      (wholes : DifferAt complex.keys child.name slot slotTwin whole wholeTwin) :
      Finishes schema decl whole wholeTwin

end Schema

/-! ## One level of construction -/

/-- Whether two values are lists or none of them is. -/
def SameListing (value twin : Value) : Prop :=
  (∃ items, value = .list items) ↔ ∃ items, twin = .list items

namespace Construction

variable {place : Placing} {limits : Limits} {depth : Nat} {name key : String} {type : ComplexType}
  {part twin slot slotTwin value valueTwin : Value} {entries others : List (String × Value)}

/-- A declaration goes the same way for two values, or fails alike, if it does for the part in which
they differ. -/
theorem declared_sameKind {decl : ElementDecl}
    (hplace : SameKind (place decl part) (place decl twin))
    (hlisting : decl.occurs.isSingle = true → SameListing part twin)
    (h : OccursIn decl part twin slot slotTwin) :
    SameKind (declared place decl slot) (declared place decl slotTwin) := by
  cases h with
  | single once =>
    unfold declared
    rw [if_pos once, if_pos once]
    split
    · next items =>
      obtain ⟨others, rfl⟩ := (hlisting once).1 ⟨items, rfl⟩
      exact .refl _
    · next hunlisted =>
      split
      · next others =>
        obtain ⟨items, rfl⟩ := (hlisting once).2 ⟨others, rfl⟩
        exact absurd rfl (hunlisted items)
      · exact hplace.bind fun _ _ => .refl _
  | repeated many before after =>
    have hitems : List.Forall₂ (fun item other => SameKind (place decl item) (place decl other))
        (before ++ part :: after) (before ++ twin :: after) :=
      List.rel_append (List.forall₂_same.2 fun _ _ => .refl _)
        (.cons hplace (List.forall₂_same.2 fun _ _ => .refl _))
    rw [declared_repeated many (by simp), declared_repeated many (by simp)]
    exact (SameKind.mapM hitems).bind fun _ _ => .refl _

/-- The fields of two lists of entries are the same if those of each particle are. -/
theorem fields_sameKind {particles : List Particle}
    (h : ∀ particle ∈ particles, Option.Rel (fun value twin =>
      SameKind (field place limits depth value particle) (field place limits depth twin particle))
        (entries.lookup particle.key) (others.lookup particle.key)) :
    SameKind (fields place limits depth entries particles)
      (fields place limits depth others particles) := by
  induction particles with
  | nil => exact .refl _
  | cons particle rest ih =>
    rw [List.forall_mem_cons] at h
    have hrest := ih h.2
    have hfirst := h.1
    unfold fields
    generalize entries.lookup particle.key = left, others.lookup particle.key = right at hfirst
    cases hfirst with
    | none => exact hrest
    | some hfield => exact hfield.bind fun _ _ => hrest.bind fun _ _ => .refl _

/-- Attributes depend only on the entries of their own names. -/
theorem attributes_congr {decls : List AttributeDecl}
    (h : ∀ decl ∈ decls, others.lookup decl.name = entries.lookup decl.name) :
    attributes others decls = attributes entries decls := by
  induction decls with
  | nil => rfl
  | cons decl rest ih =>
    rw [List.forall_mem_cons] at h
    unfold attributes
    rw [h.1, ih h.2]

/-- Which key is unknown depends on the keys alone. -/
theorem refuseUnknown_congr {keys : List String}
    (h : List.Forall₂ (fun entry other => other.1 = entry.1) entries others) :
    refuseUnknown name keys others = refuseUnknown name keys entries := by
  have hfound : Option.Rel (fun entry other => other.1 = entry.1)
      (entries.find? fun entry => !keys.contains entry.1)
      (others.find? fun entry => !keys.contains entry.1) :=
    find?_forall₂ h fun entry other hsame => by rw [hsame]
  unfold refuseUnknown
  revert hfound
  generalize entries.find? _ = left, others.find? _ = right
  intro hfound
  cases hfound with
  | none => rfl
  | some hsame =>
    dsimp only
    rw [hsame]

/-- Entries that differ in the slot of one particle give the same content if that field is the same;
attributes have names of their own. -/
theorem sequenceOfEntries_sameKind {particles : List Particle}
    {before after : List (String × Value)}
    (hfield : ∀ particle ∈ particles, particle.key = key →
      SameKind (field place limits depth slot particle)
        (field place limits depth slotTwin particle))
    (hnames : ∀ decl ∈ type.attributes, decl.name ≠ key) :
    SameKind
      (sequenceOfEntries place limits depth name type particles (before ++ (key, slot) :: after))
      (sequenceOfEntries place limits depth name type particles
        (before ++ (key, slotTwin) :: after)) := by
  have hother : ∀ other, other ≠ key → ((before ++ (key, slotTwin) :: after).lookup other) =
      (before ++ (key, slot) :: after).lookup other := by
    intro other hother
    rw [List.lookup_append, List.lookup_append, lookup_cons_of_ne hother, lookup_cons_of_ne hother]
  unfold sequenceOfEntries
  refine SameKind.bind (fields_sameKind ?_) fun _ _ => ?_
  · intro particle hparticle
    by_cases hkey : particle.key = key
    · rw [hkey, List.lookup_append, List.lookup_append, List.lookup_cons_self,
        List.lookup_cons_self]
      -- an entry in front hides the slot
      cases before.lookup key with
      | some shadow => exact .some (.refl _)
      | none => exact .some (hfield particle hparticle hkey)
    · rw [hother _ hkey]
      cases (before ++ (key, slot) :: after).lookup particle.key with
      | some same => exact .some (.refl _)
      | none => exact .none
  · refine .of_eq ?_
    have hkeys : List.Forall₂ (fun entry other => other.1 = entry.1)
        (before ++ (key, slot) :: after) (before ++ (key, slotTwin) :: after) := by
      refine List.rel_append ?_ (.cons rfl ?_)
      · exact List.forall₂_same.2 fun _ _ => rfl
      · exact List.forall₂_same.2 fun _ _ => rfl
    rw [attributes_congr fun decl hdecl => hother _ (hnames decl hdecl), refuseUnknown_congr hkeys]

/-- Values that differ in the slot of one particle give the same content, or fail alike, if that
field does. -/
theorem sequence_sameKind {particles : List Particle} {whole wholeTwin : Value}
    (hfield : ∀ particle ∈ particles, particle.key = key →
      SameKind (field place limits depth slot particle)
        (field place limits depth slotTwin particle))
    (hnames : ∀ decl ∈ type.attributes, decl.name ≠ key)
    (h : DifferAt type.keys key slot slotTwin whole wholeTwin) :
    SameKind (sequence place limits depth name type particles whole)
      (sequence place limits depth name type particles wholeTwin) := by
  cases h with
  | entry before after => exact sequenceOfEntries_sameKind hfield hnames
  | position before after here =>
    -- the key at the place of the slot is the one it is found by
    have hzip : ∀ item, type.keys.zip (before ++ item :: after) =
        (type.keys.take before.length).zip before ++
          (key, item) :: (type.keys.drop (before.length + 1)).zip after := by
      intro item
      obtain ⟨hlength, hkey⟩ := List.getElem?_eq_some_iff.1 here
      conv_lhs => rw [← List.take_append_drop before.length type.keys,
        List.drop_eq_getElem_cons hlength, hkey]
      rw [List.zip_append (by rw [List.length_take]; omega), List.zip_cons_cons]
    have hlength : (before ++ slotTwin :: after).length = (before ++ slot :: after).length := by
      simp
    unfold sequence positional
    dsimp only
    rw [hlength]
    split
    · exact .refl _
    · rw [hzip slot, hzip slotTwin]
      exact sequenceOfEntries_sameKind hfield hnames

end Construction

/-! ## All levels -/

namespace Schema

variable {schema : Schema} {decl : ElementDecl} {whole twin : Value}

/-- A value with a finished instance in it is a list if and only if the value without it is one. -/
theorem Finishes.sameListing (h : schema.Finishes decl whole twin) : SameListing whole twin := by
  cases h with
  | here _ _ unlisted _ =>
    exact ⟨fun ⟨items, hitems⟩ => absurd hitems (unlisted items), nofun⟩
  | inside _ _ _ _ _ wholes =>
    cases wholes with
    | entry before after => exact ⟨nofun, nofun⟩
    | position before after here => exact ⟨fun _ => ⟨_, rfl⟩, fun _ => ⟨_, rfl⟩⟩

variable {root : ElementDecl} {name : String} {value : Value} {node : Instance}

/-- At the root a finished instance is taken as it is. -/
theorem placeRoot_built (helement : schema.element? name = some root)
    (h : schema.construct name value = .ok node) :
    schema.placeRoot root (.built node) = .ok node := by
  have hplaced : schema.placeRoot root value = .ok node := by
    rw [← construct_eq_placeRoot helement, h]
  have hname := renamed_of_place hplaced
  have hdepth : schema.limits.checkDepth (0 + node.depth) = .ok () := by
    rw [Limits.checkDepth_eq_ok, Nat.zero_add]
    exact depth_le_of_construct h
  unfold placeRoot at hplaced ⊢
  cases hlevels : schema.limits.depth with
  | zero =>
    rw [hlevels] at hplaced
    cases hplaced
  | succ levels =>
    rw [hlevels] at hplaced
    obtain ⟨definition, hdefinition, _⟩ := bind_eq_ok.1 hplaced
    refine bind_eq_ok.2 ⟨definition, hdefinition, ?_⟩
    refine bind_eq_ok.2 ⟨(), mapError_eq_ok.2 hdepth, ?_⟩
    exact congrArg Except.ok hname

/-- What a value becomes for a declaration is what the finished instance becomes: both come from one
node under the limits of the schema. -/
theorem place_sameKind_of_built {levels depth : Nat}
    (hlevels : depth + levels = schema.limits.depth + 1) (hdepth : 0 < depth)
    (helement : schema.element? name = some root)
    (htype : schema.resolve decl.type = schema.resolve root.type)
    (h : schema.construct name value = .ok node) :
    SameKind (schema.place levels depth decl value)
      (schema.place levels depth decl (.built node)) := by
  have hplace : ∀ value, Narrows (fun item : Instance => item.height ≤ levels)
      (((schema.withLimits schema.limits).placeRoot root value).map
        (·.renamed decl.name schema.target))
      ((schema.withLimits schema.limits).place levels depth decl value) :=
    fun value => place_narrows hlevels hdepth htype value
  exact (hplace value).sameKind (hplace (.built node))
    (congrArg (Except.map _) ((construct_eq_placeRoot helement value).symm.trans h))
    (congrArg (Except.map _) (placeRoot_built helement h))

/-- Where the content is a sequence, a value is placed as the node of its content. -/
theorem place_sequence {levels depth : Nat} {complex : ComplexType} {particles : List Particle}
    (hresolved : schema.resolve decl.type = .ok (.complex complex))
    (hcontent : complex.content = .sequence particles) (hunbuilt : ∀ node, whole ≠ .built node) :
    schema.place (levels + 1) depth decl whole =
      Construction.sequence (schema.place levels (depth + 1)) schema.limits depth decl.name complex
          particles whole >>= fun content => pure ⟨decl.name, schema.target, content⟩ := by
  unfold place
  rw [bind_of_eq_ok hresolved]
  unfold Construction.node Construction.content
  dsimp only
  rw [hcontent]
  split
  · next node => exact absurd rfl (hunbuilt node)
  · rfl

/-- Values that differ in one part go the same way, or fail alike, if their parts do. -/
theorem place_sameKind_of_part {levels depth : Nat} {child : ElementDecl} {complex : ComplexType}
    {particles : List Particle} {part partTwin slot slotTwin : Value}
    (hresolved : schema.resolve decl.type = .ok (.complex complex))
    (hcontent : complex.content = .sequence particles) (hregular : complex.Regular)
    (hchild : .element child ∈ particles)
    (hplace : SameKind (schema.place levels (depth + 1) child part)
      (schema.place levels (depth + 1) child partTwin))
    (hlisting : child.occurs.isSingle = true → SameListing part partTwin)
    (slots : OccursIn child part partTwin slot slotTwin)
    (wholes : DifferAt complex.keys child.name slot slotTwin whole twin) :
    SameKind (schema.place (levels + 1) depth decl whole)
      (schema.place (levels + 1) depth decl twin) := by
  have hunbuilt : (∀ node, whole ≠ .built node) ∧ ∀ node, twin ≠ .built node := by
    cases wholes <;> exact ⟨nofun, nofun⟩
  rw [place_sequence hresolved hcontent hunbuilt.1, place_sequence hresolved hcontent hunbuilt.2]
  refine SameKind.bind (Construction.sequence_sameKind ?_ ?_ wholes) fun _ _ => .refl _
  · have hparticles := ComplexType.particles_of_sequence hcontent
    intro particle hparticle hkey
    rw [← hparticles] at hparticle hchild
    obtain rfl : particle = .element child :=
      List.inj_on_of_nodup_map hregular.keys_distinct hparticle hchild hkey
    exact Construction.declared_sameKind hplace hlisting slots
  · intro decl hdecl hname
    refine hregular.apart decl hdecl ?_
    rw [hname, ComplexType.contentKeys, hcontent]
    exact List.mem_map_of_mem hchild

/-- A finished instance in the place of the value that it was built from changes nothing. -/
theorem place_finishes (hassembled : schema.Assembled) (h : schema.Finishes decl whole twin)
    {levels depth : Nat} (hlevels : depth + levels = schema.limits.depth + 1) (hdepth : 0 < depth)
    (htype : decl.type.all schema.declares (fun type => type.checkParts.isOk) = true) :
    SameKind (schema.place levels depth decl whole) (schema.place levels depth decl twin) := by
  induction h generalizing levels depth with
  | here element type _ built => exact place_sameKind_of_built hlevels hdepth element type built
  | @inside decl child complex particles part partTwin slot slotTwin whole wholeTwin resolved
      content declared parts slots wholes ih =>
    cases levels with
    | zero => exact .refl _
    | succ levels =>
      have hcomplex := all_of_resolve hassembled.allTypes htype resolved
      have hchild : .element child ∈ complex.particles := by
        rw [ComplexType.particles_of_sequence content]
        exact declared
      have hplace : SameKind (schema.place levels (depth + 1) child part)
          (schema.place levels (depth + 1) child partTwin) :=
        ih (by omega) (by omega) (ComplexType.all_of_mem hcomplex hchild)
      exact place_sameKind_of_part resolved content (regular_of_all hcomplex) declared hplace
        (fun _ => parts.sameListing) slots wholes

/-- A finished instance can stand in a value in the place of the value that a top-level element of
the same type gave it for, at any depth: construction goes the same way, or fails alike. -/
theorem construct_finishes (hassembled : schema.Assembled)
    (helement : schema.element? name = some decl) (h : schema.Finishes decl whole twin) :
    SameKind (schema.construct name whole) (schema.construct name twin) := by
  unfold construct
  rw [element_eq_ok.2 helement]
  exact place_finishes hassembled h (Nat.add_comm 1 schema.limits.depth) Nat.one_pos
    (all_of_mem_elements hassembled.allTypes (mem_of_element? helement).1)

/-- The finished inner box can stand in the outer one. -/
theorem construct_finishedBox :
    boxes.Assembled ∧ boxes.construct "box" innerBoxValue = .ok innerBox ∧
      boxes.construct "box" (.map [("box", .built innerBox)]) = .ok filledBox := by
  have hassembled : boxes.Assembled := assembled_of_define define_boxes
  have helement : boxes.element? "box" = some ⟨"box", .named "Box", .once⟩ := rfl
  have hfinishes : boxes.Finishes ⟨"box", .named "Box", .once⟩ (.map [("box", innerBoxValue)])
      (.map [("box", .built innerBox)]) := by
    refine .inside rfl rfl List.mem_cons_self ?_ (.single rfl) (.entry [] [])
    refine .here helement rfl ?_ construct_innerBox
    rintro items ⟨⟩
  refine ⟨hassembled, construct_innerBox, ?_⟩
  have hsame := construct_finishes hassembled helement hfinishes
  rw [construct_filledBox] at hsame
  exact mapError_eq_ok.1 hsame.symm

end Schema

end TypedXml
