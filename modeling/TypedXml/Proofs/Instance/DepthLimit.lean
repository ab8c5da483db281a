import TypedXml.Instance.Construction
import TypedXml.Proofs.Instance.Shape
import TypedXml.Proofs.Instance.Writing
import TypedXml.Proofs.TwoRuns

/-!
# The depth limit of construction

Construction looks at the depth limit in four places: on the way down at every node, for a finished
instance that is put under a new name, and for finished instances and elements in a wildcard, each
time with another share of the depth already used up.  All four are one condition on the result: a
node that has a number of levels left is not higher than that.  So the limit decides between the
instance and an error, and changes nothing else.
-/

set_option autoImplicit false

namespace TypedXml

/-! ## Heights -/

/-- The greatest height in a field, zero for an empty one. -/
def Field.height : Field → Nat
  | .one item => item.height
  | .many items => Instance.heightAll items
  | .any elements => Xml.Element.heightAll elements

/-- The height of a node with a content. -/
def Content.height : Content → Nat
  | .scalar _ => 1
  | .text _ _ => 1
  | .fields entries _ => Instance.heightFields entries + 1

namespace Instance

/-- A node is as high as its content makes it. -/
theorem height_eq_content (node : Instance) : node.height = node.content.height := by
  obtain ⟨name, space, content⟩ := node
  cases content <;> rfl

/-- Fields are as high as the first one or the others. -/
theorem heightFields_cons (key : String) (field : Field) (rest : List (String × Field)) :
    heightFields ((key, field) :: rest) = max field.height (heightFields rest) := by
  cases field <;> rfl

end Instance

/-! ## Faults name their place -/

/-- A scalar does not depend on the name of its place. -/
theorem Scalar.ofValue_rename {kind : Kind} {name other : String} {value : Value} {scalar : Scalar}
    (h : Scalar.ofValue kind name value = .ok scalar) :
    Scalar.ofValue kind other value = .ok scalar := by
  cases value <;> first | exact h | cases h

namespace Construction

variable {name other : String} {keys : List String} {type : ComplexType} {value : Value}

/-- Parts by position do not depend on the name of the node. -/
theorem positional_rename {items : List Value} {entries : List (String × Value)}
    (h : positional name keys items = .ok entries) : positional other keys items = .ok entries := by
  unfold positional at h ⊢
  split at h
  · cases h
  · next hfew => rw [if_neg hfew, h]

/-- Which keys are known does not depend on the name of the node. -/
theorem refuseUnknown_rename {entries : List (String × Value)}
    (h : refuseUnknown name keys entries = .ok ()) :
    refuseUnknown other keys entries = .ok () := by
  unfold refuseUnknown at h ⊢
  split at h
  · cases h
  · rfl

/-- The text that entries give does not depend on the name of the node. -/
theorem textOfEntries_rename {base : SimpleType} {entries : List (String × Value)}
    {content : Content} (h : textOfEntries name type base entries = .ok content) :
    textOfEntries other type base entries = .ok content := by
  unfold textOfEntries at h ⊢
  obtain ⟨scalar, hscalar, h⟩ := bind_eq_ok.1 h
  obtain ⟨scalars, hscalars, h⟩ := bind_eq_ok.1 h
  obtain ⟨hknown, h⟩ := check_bind_eq_ok.1 h
  rw [bind_of_eq_ok (Scalar.ofValue_rename hscalar), bind_of_eq_ok hscalars,
    bind_of_eq_ok (refuseUnknown_rename hknown), h]

/-- The text that a value gives does not depend on the name of the node. -/
theorem text_rename {base : SimpleType} {content : Content}
    (h : text name type base value = .ok content) : text other type base value = .ok content := by
  unfold text at h ⊢
  split at h
  · exact textOfEntries_rename h
  · obtain ⟨entries, hentries, h⟩ := bind_eq_ok.1 h
    rw [bind_of_eq_ok (positional_rename hentries)]
    exact textOfEntries_rename h
  · obtain ⟨scalar, hscalar, h⟩ := bind_eq_ok.1 h
    rw [bind_of_eq_ok (Scalar.ofValue_rename hscalar), h]

/-! ## One level of construction -/

variable {wide narrow : Limits} {wideDepth depth room : Nat}

/-- What is put below a node fits if it is not higher than the room that is left. -/
theorem narrows_checkBelow (hroom : depth + room = narrow.depth) (treeDepth : Nat) :
    Narrows (fun _ => treeDepth ≤ room) (checkBelow wide wideDepth treeDepth)
      (checkBelow narrow depth treeDepth) := by
  have hfits : treeDepth ≤ room ↔ depth + treeDepth ≤ narrow.depth := by omega
  simp only [hfits]
  exact narrows_check Limits.checkDepth_eq_ok _

/-- An element in a wildcard fits if it is not higher than the room that is left. -/
theorem wildcardElement_narrows (hroom : depth + room = narrow.depth) (key : String)
    (value : Value) :
    Narrows (fun element => element.height ≤ room) (wildcardElement wide wideDepth key value)
      (wildcardElement narrow depth key value) := by
  unfold wildcardElement
  split
  · next node =>
    refine (narrows_checkBelow hroom node.depth).map fun _ _ => ?_
    rw [← Xml.Element.depth_eq_height, Instance.depth_toElement]
  · next element =>
    refine (narrows_checkBelow hroom element.depth).map fun _ _ => ?_
    rw [Xml.Element.depth_eq_height]
  · exact .of_error

/-- A wildcard fits if none of its elements is higher than the room that is left. -/
theorem wildcard_narrows (hroom : depth + room = narrow.depth) (key : String) (value : Value) :
    Narrows (fun field => ∀ built ∈ field, built.height ≤ room) (wildcard wide wideDepth key value)
      (wildcard narrow depth key value) := by
  unfold wildcard
  extract_lets items
  split
  · exact .ok nofun
  · refine (Narrows.mapM fun item _ => wildcardElement_narrows hroom key item).map ?_
    intro elements _
    rw [← Xml.Element.heightAll_le_iff]
    exact ⟨fun h => h _ rfl, by rintro h _ ⟨⟩; exact h⟩

variable {place narrowPlace : Placing}

/-- The field of a declaration fits if none of its occurrences is higher than the room that is
left. -/
theorem declared_narrows {decl : ElementDecl}
    (hplace : ∀ part, Narrows (fun item => item.height ≤ room) (place decl part)
      (narrowPlace decl part)) (value : Value) :
    Narrows (fun field => ∀ built ∈ field, built.height ≤ room) (declared place decl value)
      (declared narrowPlace decl value) := by
  unfold declared
  split
  · split
    · exact .of_error
    · refine (hplace _).map fun item _ => ?_
      exact ⟨fun h => h _ rfl, by rintro h _ ⟨⟩; exact h⟩
  · split
    · exact .ok nofun
    · refine (Narrows.mapM fun part _ => hplace part).map ?_
      intro items _
      rw [← Instance.heightAll_le_iff]
      exact ⟨fun h => h _ rfl, by rintro h _ ⟨⟩; exact h⟩
    · exact .of_error

/-- Fields fit if none of them is higher than the room that is left. -/
theorem fields_narrows (hroom : depth + room = narrow.depth) {particles : List Particle}
    (hplace : ∀ decl part, Narrows (fun item => item.height ≤ room) (place decl part)
      (narrowPlace decl part)) (entries : List (String × Value)) :
    Narrows (fun built => Instance.heightFields built ≤ room)
      (fields place wide wideDepth entries particles)
      (fields narrowPlace narrow depth entries particles) := by
  induction particles with
  | nil => exact .ok (Nat.zero_le _)
  | cons particle rest ih =>
    unfold fields
    split
    · exact ih
    · next value _ =>
      have hfield : Narrows (fun field => ∀ built ∈ field, built.height ≤ room)
          (field place wide wideDepth value particle)
          (field narrowPlace narrow depth value particle) := by
        cases particle with
        | any wildcard => exact wildcard_narrows hroom wildcard.key value
        | element decl => exact declared_narrows (hplace decl) value
      refine hfield.bind (fun first _ hfirst => ih.bind (fun others _ hothers => ?_) ?_) ?_
      · cases first with
        | none => exact .ok hothers
        | some built =>
          refine .ok ?_
          rw [Instance.heightFields_cons]
          exact Nat.max_le.2 ⟨hfirst built rfl, hothers⟩
      · rintro others all _ hall hfits
        cases first with
        | none =>
          cases hall
          exact hfits
        | some built =>
          cases hall
          rw [Instance.heightFields_cons] at hfits
          exact (Nat.max_le.1 hfits).2
      · rintro first all _ hall hfits built rfl
        obtain ⟨others, _, hall⟩ := bind_eq_ok.1 hall
        cases hall
        rw [Instance.heightFields_cons] at hfits
        exact (Nat.max_le.1 hfits).1

/-- The content of a sequence fits if its fields do; the rest of it is not limited. -/
theorem sequenceOfEntries_narrows (hroom : depth + room = narrow.depth)
    {particles : List Particle}
    (hplace : ∀ decl part, Narrows (fun item => item.height ≤ room) (place decl part)
      (narrowPlace decl part)) (entries : List (String × Value)) :
    Narrows (fun content => content.height ≤ room + 1)
      (sequenceOfEntries place wide wideDepth name type particles entries)
      (sequenceOfEntries narrowPlace narrow depth other type particles entries) := by
  unfold sequenceOfEntries
  refine (fields_narrows hroom hplace entries).bind (fun built _ hbuilt => .of_ok ?_) ?_
  · intro content h
    obtain ⟨scalars, hscalars, h⟩ := bind_eq_ok.1 h
    obtain ⟨hknown, h⟩ := check_bind_eq_ok.1 h
    cases h
    rw [mapError_eq_ok] at hknown
    refine ⟨Nat.succ_le_succ hbuilt, ?_⟩
    rw [bind_of_eq_ok hscalars, bind_of_eq_ok (mapError_eq_ok.2 (refuseUnknown_rename hknown))]
    rfl
  · intro built content _ h hfits
    obtain ⟨scalars, _, h⟩ := bind_eq_ok.1 h
    obtain ⟨_, h⟩ := check_bind_eq_ok.1 h
    cases h
    exact Nat.le_of_succ_le_succ hfits

/-- The content of a sequence fits if its fields do, whatever form the value has. -/
theorem sequence_narrows (hroom : depth + room = narrow.depth) {particles : List Particle}
    (hplace : ∀ decl part, Narrows (fun item => item.height ≤ room) (place decl part)
      (narrowPlace decl part)) (value : Value) :
    Narrows (fun content => content.height ≤ room + 1)
      (sequence place wide wideDepth name type particles value)
      (sequence narrowPlace narrow depth other type particles value) := by
  unfold sequence
  split
  · exact sequenceOfEntries_narrows hroom hplace []
  · exact sequenceOfEntries_narrows hroom hplace _
  · next items =>
    have hentries : Narrows (fun _ => True)
        ((positional name type.keys items).mapError Error.construction)
        ((positional other type.keys items).mapError Error.construction) := by
      refine .of_ok fun entries h => ⟨trivial, ?_⟩
      rw [mapError_eq_ok] at h ⊢
      exact positional_rename h
    exact hentries.bind (fun entries _ _ => sequenceOfEntries_narrows hroom hplace entries)
      fun _ _ _ _ _ => trivial
  · exact .of_error

/-- What a node holds fits if it makes the node no higher than the room with the node itself. -/
theorem content_narrows (hroom : depth + room = narrow.depth)
    (hplace : ∀ decl part, Narrows (fun item => item.height ≤ room) (place decl part)
      (narrowPlace decl part)) (value : Value) (definition : TypeDefinition) :
    Narrows (fun content => content.height ≤ room + 1)
      (content place wide wideDepth name value definition)
      (content narrowPlace narrow depth other value definition) := by
  unfold content
  split
  · refine .of_ok fun content h => ?_
    rw [mapError_eq_ok, map_eq_ok] at h
    obtain ⟨scalar, hscalar, rfl⟩ := h
    refine ⟨Nat.succ_le_succ (Nat.zero_le _), ?_⟩
    rw [mapError_eq_ok, map_eq_ok]
    exact ⟨scalar, Scalar.ofValue_rename hscalar, rfl⟩
  · split
    · refine .of_ok fun content h => ?_
      rw [mapError_eq_ok] at h ⊢
      obtain ⟨scalar, scalars, rfl, _⟩ := text_shaped h
      exact ⟨Nat.succ_le_succ (Nat.zero_le _), text_rename h⟩
    · exact sequence_narrows hroom hplace value

/-- A node that is built under one name goes the same way under another name and with the room that
is left there. -/
theorem node_narrows (hroom : depth + room = narrow.depth) (hdepth : 0 < depth)
    (hplace : ∀ decl part, Narrows (fun item => item.height ≤ room) (place decl part)
      (narrowPlace decl part)) (target : Namespace) (value : Value) (definition : TypeDefinition) :
    Narrows (fun node => node.height ≤ room + 1)
      ((node place target wide wideDepth name definition value).map (·.renamed other target))
      (node narrowPlace target narrow depth other definition value) := by
  unfold node
  split
  · next built =>
    have hroot : depth - 1 + (room + 1) = narrow.depth := by omega
    rw [map_bind_pure]
    refine (narrows_checkBelow hroot built.depth).map fun _ _ => ?_
    rw [Instance.height_eq_content, Instance.depth_eq_height, Instance.height_eq_content built]
    rfl
  · rw [map_bind_pure]
    refine (content_narrows hroom hplace value definition).map fun content _ => ?_
    rw [Instance.height_eq_content]
    rfl

end Construction

/-! ## All levels -/

namespace Schema

variable {schema : Schema} {wide narrow : Limits}

/-- Limits do not matter for what a type leads to. -/
theorem resolve_withLimits (limits : Limits) (type : TypeRef) :
    (schema.withLimits limits).resolve type = schema.resolve type := by
  cases type <;> rfl

/-- An instance has the name of the declaration that it is placed for. -/
theorem renamed_of_place {levels depth : Nat} {decl : ElementDecl} {value : Value}
    {node : Instance} (h : schema.place levels depth decl value = .ok node) :
    node.renamed decl.name schema.target = node := by
  cases levels with
  | zero => cases h
  | succ levels =>
    obtain ⟨definition, _, h⟩ := bind_eq_ok.1 h
    unfold Construction.node at h
    split at h
    · obtain ⟨_, h⟩ := check_bind_eq_ok.1 h
      cases h
      rfl
    · obtain ⟨content, _, h⟩ := bind_eq_ok.1 h
      cases h
      rfl

/-- Giving an instance the name of its declaration once more changes nothing. -/
theorem map_renamed_place {levels depth : Nat} {decl : ElementDecl} {value : Value} :
    (schema.place levels depth decl value).map (·.renamed decl.name schema.target) =
      schema.place levels depth decl value := by
  cases h : schema.place levels depth decl value with
  | error cause => rfl
  | ok node => exact congrArg Except.ok (renamed_of_place h)

/-- What a value becomes for one declaration, under any limits and at any depth, tells what it
becomes for a declaration of the same type at another depth: the same under another name where it is
not higher than the levels that are left, and an exceeded limit elsewhere. -/
theorem place_narrows {wideLevels wideDepth levels depth : Nat} {decl twin : ElementDecl}
    (hlevels : depth + levels = narrow.depth + 1) (hdepth : 0 < depth)
    (htype : schema.resolve twin.type = schema.resolve decl.type) (value : Value) :
    Narrows (fun node => node.height ≤ levels)
      (((schema.withLimits wide).place wideLevels wideDepth decl value).map
        (·.renamed twin.name schema.target))
      ((schema.withLimits narrow).place levels depth twin value) := by
  -- on the levels of the wide run; the narrow one has as many as its depth leaves it
  induction wideLevels generalizing wideDepth levels depth decl twin value with
  | zero => exact .of_error
  | succ wideLevels ih =>
    cases levels with
    | zero =>
      refine ⟨fun node _ hfits => ?_, fun node _ _ => ⟨_, rfl⟩⟩
      exact absurd node.height_pos (Nat.not_lt.2 hfits)
    | succ levels =>
      have hroom : depth + levels = narrow.depth := by omega
      have hplace : ∀ child part, Narrows (fun item : Instance => item.height ≤ levels)
          ((schema.withLimits wide).place wideLevels (wideDepth + 1) child part)
          ((schema.withLimits narrow).place levels (depth + 1) child part) := by
        intro child part
        have hsame : ((schema.withLimits wide).place wideLevels (wideDepth + 1) child part).map
            (·.renamed child.name schema.target) =
              (schema.withLimits wide).place wideLevels (wideDepth + 1) child part :=
          map_renamed_place
        rw [← hsame]
        exact ih (by omega) (by omega) rfl part
      unfold place
      rw [resolve_withLimits, resolve_withLimits, htype]
      cases schema.resolve decl.type with
      | error cause => exact .of_error
      | ok definition => exact Construction.node_narrows hroom hdepth hplace _ value definition

/-- Construction under one limit, compared with construction under another one. -/
theorem construct_narrows {name : String} {value : Value} :
    Narrows (fun node => node.depth ≤ narrow.depth)
      ((schema.withLimits wide).construct name value)
      ((schema.withLimits narrow).construct name value) := by
  unfold construct
  refine Narrows.bind_same fun decl _ => ?_
  have hsame : ((schema.withLimits wide).placeRoot decl value).map
      (·.renamed decl.name schema.target) = (schema.withLimits wide).placeRoot decl value :=
    map_renamed_place
  simp only [Instance.depth_eq_height]
  rw [← hsame]
  exact place_narrows (Nat.add_comm 1 narrow.depth) Nat.one_pos rfl value

/-- No instance is deeper than the limit that it was built under. -/
theorem depth_le_of_construct {name : String} {value : Value} {node : Instance}
    (h : schema.construct name value = .ok node) : node.depth ≤ schema.limits.depth := by
  have hself : Narrows (fun node : Instance => node.depth ≤ schema.limits.depth)
      ((schema.withLimits schema.limits).construct name value)
      ((schema.withLimits schema.limits).construct name value) := construct_narrows
  by_contra hdeep
  obtain ⟨exceeded, hfailed⟩ := hself.beyond node h hdeep
  cases h.symm.trans hfailed

/-- The depth limit of construction is exact.  An instance that is built under one limit keeps it;
under any other one the same value gives the same instance if the instance keeps that limit, too,
and an exceeded limit if it does not. -/
theorem construct_withLimits {name : String} {value : Value} {node : Instance}
    (h : (schema.withLimits wide).construct name value = .ok node) :
    node.depth ≤ wide.depth ∧
      (node.depth ≤ narrow.depth → (schema.withLimits narrow).construct name value = .ok node) ∧
      (narrow.depth < node.depth →
        ExceedsLimit ((schema.withLimits narrow).construct name value)) := by
  have hother : Narrows (fun node : Instance => node.depth ≤ narrow.depth)
      ((schema.withLimits wide).construct name value)
      ((schema.withLimits narrow).construct name value) := construct_narrows
  exact ⟨depth_le_of_construct h, hother.within node h,
    fun hdeep => hother.beyond node h (Nat.not_le.2 hdeep)⟩

/-- Boxes hold another box, maybe, and any elements. -/
def boxType : ComplexType :=
  ⟨some "Box",
    .sequence [.element ⟨"box", .named "Box", .optional⟩, .any ⟨"rest", .zeroOrMore⟩], []⟩

/-- The schema of boxes. -/
def boxes : Schema :=
  ⟨⟨"urn:boxes", "b"⟩, [("Box", .complex boxType)], [⟨"box", .named "Box", .once⟩], {}⟩

/-- The schema of boxes is what defining them gives. -/
theorem define_boxes :
    define ⟨"urn:boxes", "b"⟩ [.complex boxType, .element ⟨"box", .named "Box", .once⟩] =
      .ok boxes := rfl

/-- A box that was built before. -/
def emptyBox : Instance :=
  ⟨"box", boxes.target, .fields [] []⟩

/-- An element of two levels. -/
def crate : Xml.Element :=
  ⟨⟨none, "crate"⟩, none, .empty, none, [⟨⟨none, "label"⟩, none, .empty, some "fragile", []⟩]⟩

/-- What is in the inner box: a finished one and an element. -/
def innerBoxValue : Value :=
  .map [("box", .built emptyBox), ("rest", .element crate)]

/-- A box with the finished box and the crate inside. -/
def innerBox : Instance :=
  ⟨"box", boxes.target, .fields [("box", .one emptyBox), ("rest", .any [crate])] []⟩

/-- A box in a box, with a finished instance and an element inside. -/
def filledBox : Instance :=
  ⟨"box", boxes.target, .fields [("box", .one innerBox)] []⟩

/-- The filled box is four deep: two boxes, and the crate with its element. -/
theorem depth_filledBox : filledBox.depth = 4 :=
  Instance.depth_eq_height filledBox

/-- The inner box is placed as it is wherever two levels are left. -/
theorem place_innerBox {occurs : Occurs} {levels depth : Nat} (hdepth : depth + 2 ≤ 64) :
    boxes.place (levels + 2) depth ⟨"box", .named "Box", occurs⟩ innerBoxValue = .ok innerBox := by
  have hcheck : ∀ treeDepth, treeDepth ≤ 2 →
      Construction.checkBelow boxes.limits depth treeDepth = .ok () :=
    fun _ htree => mapError_eq_ok.2 (Limits.checkDepth_eq_ok.2 (Nat.le_trans (by omega) hdepth))
  have hbox := hcheck emptyBox.depth (Instance.depth_eq_height emptyBox ▸ Nat.le_succ 1)
  have hcrate := hcheck crate.depth (Xml.Element.depth_eq_height crate ▸ Nat.le_refl 2)
  have hrest : Construction.wildcard boxes.limits depth "rest" (.element crate) =
      .ok (some (.any [crate])) := by
    refine bind_eq_ok.2 ⟨[crate], mapM_eq_ok.2 (.cons ?_ .nil), rfl⟩
    exact bind_eq_ok.2 ⟨(), hcrate, rfl⟩
  refine bind_eq_ok.2 ⟨.complex boxType, rfl, bind_eq_ok.2 ⟨_, ?_, rfl⟩⟩
  refine bind_eq_ok.2 ⟨[("box", .one emptyBox), ("rest", .any [crate])], ?_, rfl⟩
  refine bind_eq_ok.2 ⟨some (.one emptyBox), ?_, ?_⟩
  · exact bind_eq_ok.2 ⟨emptyBox, bind_eq_ok.2 ⟨_, rfl, bind_eq_ok.2 ⟨(), hbox, rfl⟩⟩, rfl⟩
  · exact bind_eq_ok.2 ⟨_, bind_eq_ok.2 ⟨_, hrest, rfl⟩, rfl⟩

/-- The inner box is built from its value. -/
theorem construct_innerBox : boxes.construct "box" innerBoxValue = .ok innerBox :=
  place_innerBox (by decide)

/-- The filled box is built from its value. -/
theorem construct_filledBox :
    boxes.construct "box" (.map [("box", innerBoxValue)]) = .ok filledBox := by
  refine bind_eq_ok.2 ⟨⟨"box", .named "Box", .once⟩, rfl, bind_eq_ok.2 ⟨.complex boxType, rfl, ?_⟩⟩
  refine bind_eq_ok.2 ⟨_, bind_eq_ok.2 ⟨_, ?_, rfl⟩, rfl⟩
  exact bind_eq_ok.2 ⟨_, bind_eq_ok.2 ⟨_, place_innerBox (by decide), rfl⟩, rfl⟩

/-- Boxes of four levels are built under a limit of four and refused under one of three. -/
theorem construct_filledBox_withLimits :
    define ⟨"urn:boxes", "b"⟩ [.complex boxType, .element ⟨"box", .named "Box", .once⟩] =
      .ok boxes ∧
      (boxes.withLimits {}).construct "box" (.map [("box", innerBoxValue)]) = .ok filledBox ∧
      (boxes.withLimits { depth := 4 }).construct "box" (.map [("box", innerBoxValue)]) =
        .ok filledBox ∧
      ExceedsLimit
        ((boxes.withLimits { depth := 3 }).construct "box" (.map [("box", innerBoxValue)])) := by
  have hbuilt : (boxes.withLimits {}).construct "box" (.map [("box", innerBoxValue)]) =
      .ok filledBox := construct_filledBox
  have hkept : filledBox.depth ≤ 4 := Nat.le_of_eq depth_filledBox
  have hdeep : 3 < filledBox.depth := depth_filledBox.symm ▸ Nat.lt_succ_self 3
  exact ⟨define_boxes, hbuilt, (construct_withLimits hbuilt).2.1 hkept,
    (construct_withLimits hbuilt).2.2 hdeep⟩

end Schema

end TypedXml
