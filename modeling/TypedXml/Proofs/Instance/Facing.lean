import TypedXml.Proofs.Instance.Enumerations
import TypedXml.Proofs.Xml.Tree

/-!
# Two trees side by side

Two element trees that differ only in attributes are read along the same path: which particle takes
a child depends on names alone, so that children in the same place of the two trees are taken by the
same particle.  Whatever is read from the one tree can then be compared with what is read from the
other child by child.
-/

set_option autoImplicit false

namespace TypedXml

/-! ## Trees that differ in attributes of other namespaces -/

/-- The value of the attribute that has a local name and no namespace. -/
def Xml.Attributes.unqualified? (attributes : Xml.Attributes) (localName : String) :
    Option String :=
  attributes.entries.lookup (.unqualified localName)

/-- Whether two trees have the same names, texts, children and attributes without a namespace. -/
inductive Xml.Element.Similar : Xml.Element → Xml.Element → Prop
  | intro {left right : Xml.Element} (name : left.name = right.name)
      (text : left.text = right.text)
      (unqualified : ∀ localName,
        left.attributes.unqualified? localName = right.attributes.unqualified? localName)
      (children : List.Forall₂ Similar left.children right.children) : Similar left right

namespace Xml.Element

variable {left right : Xml.Element}

/-- Similar trees have the same name. -/
theorem Similar.name (h : left.Similar right) : left.name = right.name := by
  cases h with
  | intro name => exact name

/-- Similar trees have the same text. -/
theorem Similar.text (h : left.Similar right) : left.text = right.text := by
  cases h with
  | intro _ text => exact text

/-- Similar trees have the same attributes without a namespace. -/
theorem Similar.unqualified (h : left.Similar right) (localName : String) :
    left.attributes.unqualified? localName = right.attributes.unqualified? localName := by
  cases h with
  | intro _ _ unqualified => exact unqualified localName

/-- Similar trees have similar children. -/
theorem Similar.children (h : left.Similar right) :
    List.Forall₂ Similar left.children right.children := by
  cases h with
  | intro _ _ _ children => exact children

/-- Being similar goes both ways. -/
theorem Similar.symm (h : left.Similar right) : right.Similar left := by
  induction left using Element.induct generalizing right with
  | step left ih =>
    refine .intro h.name.symm h.text.symm (fun localName => (h.unqualified localName).symm) ?_
    have hturn : ∀ child ∈ left.children, ∀ other, child.Similar other → other.Similar child :=
      fun child hchild other => ih child hchild
    have hboth := (List.forall₂_and_left _ _).2 ⟨hturn, h.children⟩
    exact hboth.flip.imp fun other child hpair => hpair.1 other hpair.2

/-- The children of similar trees have the same names. -/
theorem Similar.names (h : left.Similar right) :
    right.children.map Element.name = left.children.map Element.name :=
  map_eq_of_forall₂ h.children fun _ _ hsimilar => hsimilar.name.symm

/-- Equal trees are similar. -/
theorem similar_of_same (h : left.same right = true) : left.Similar right := by
  induction left using Element.induct generalizing right with
  | step left ih =>
    obtain ⟨hname, hattributes, htext, hchildren⟩ := same_iff.1 h
    refine .intro hname htext ?_ ?_
    · intro localName
      exact (Entries.lookup_eq_of_agree hattributes left.attributes.distinct _).symm
    · have hsimilar : ∀ child ∈ left.children, ∀ other, child.same other = true →
          child.Similar other := fun child hchild other => ih child hchild
      have hboth := (List.forall₂_and_left _ _).2 ⟨hsimilar, hchildren⟩
      exact hboth.imp fun child other hpair => hpair.1 other hpair.2

/-- Lists of trees that are as high one by one are as high together. -/
theorem heightAll_eq {elements others : List Element}
    (h : List.Forall₂ (fun element other => element.height = other.height) elements others) :
    heightAll elements = heightAll others := by
  induction h with
  | nil => rfl
  | cons hfirst _ ih => rw [heightAll, heightAll, hfirst, ih]

/-- Similar trees are as high. -/
theorem Similar.height_eq (h : left.Similar right) : left.height = right.height := by
  induction left using Element.induct generalizing right with
  | step left ih =>
    have hheights : ∀ child ∈ left.children, ∀ other, child.Similar other →
        child.height = other.height := fun child hchild other => ih child hchild
    have hboth := (List.forall₂_and_left _ _).2 ⟨hheights, h.children⟩
    rw [Element.height_eq, Element.height_eq,
      heightAll_eq (hboth.imp fun child other hpair => hpair.1 other hpair.2)]

end Xml.Element

/-! ## What stands in the same place -/

namespace Schema

/-- The particles that take the children of an element, child by child.  Children behind the run of
the last particle are not taken and have no place in the list. -/
def assigned (schema : Schema) : List Particle → List Child → List Particle
  | [], _ => []
  | particle :: later, children =>
    let run := takeRun (schema.childFits later particle) particle.occurs 0 children
    List.replicate run.1.length particle ++ assigned schema later run.2

/-- Two children that stand in the same place of two elements of one type, where a particle takes
them. -/
inductive Placed (schema : Schema) (type : TypeRef) (left right : Xml.Element) :
    Particle → Xml.Element → Xml.Element → Prop
  | intro {complex : ComplexType} {particles : List Particle} {particle : Particle}
      {child other : Xml.Element} {position : Nat}
      (resolved : schema.resolve type = .ok (.complex complex))
      (content : complex.content = .sequence particles)
      (taken : (schema.assigned particles (left.children.map schema.child))[position]? =
        some particle)
      (here : left.children[position]? = some child)
      (there : right.children[position]? = some other) :
      Placed schema type left right particle child other

/-- Two elements that stand in the same place of two trees of one type, with the type that the
place gives them, or none if a wildcard takes them. -/
inductive Facing (schema : Schema) : TypeRef → Xml.Element → Xml.Element →
    Option TypeRef → Xml.Element → Xml.Element → Prop
  | root {type : TypeRef} {left right : Xml.Element} :
      Facing schema type left right (some type) left right
  | wild {type : TypeRef} {left right child other : Xml.Element} {wildcard : Wildcard}
      (placed : schema.Placed type left right (.any wildcard) child other) :
      Facing schema type left right none child other
  | inside {type : TypeRef} {left right child other inner face : Xml.Element} {decl : ElementDecl}
      {found : Option TypeRef} (placed : schema.Placed type left right (.element decl) child other)
      (below : Facing schema decl.type child other found inner face) :
      Facing schema type left right found inner face

/-! ## Runs and places -/

section

variable {schema : Schema} {particle : Particle} {particles later : List Particle}

/-- Children of the same names make up runs of the same length. -/
theorem takeRun_congr {kids others : List Child}
    (h : others.map (·.element.name) = kids.map (·.element.name)) :
    (takeRun (schema.childFits later particle) particle.occurs 0 others).1.length =
        (takeRun (schema.childFits later particle) particle.occurs 0 kids).1.length ∧
      (takeRun (schema.childFits later particle) particle.occurs 0 others).2.map (·.element.name) =
        (takeRun (schema.childFits later particle) particle.occurs 0 kids).2.map
          (·.element.name) := by
  cases htake : takeRun (schema.childFits later particle) particle.occurs 0 kids with
  | mk taken left =>
    obtain ⟨rfl, hrun⟩ := takeRun_eq_iff.1 htake
    rw [List.map_append] at h
    obtain ⟨first, behind, rfl, hfirst, hbehind⟩ := List.map_eq_append_iff.1 h
    have hother := takeRun_eq_iff.2 ⟨rfl,
      hrun.congr (map_childFits_congr hfirst) (map_childFits_congr hbehind)⟩
    rw [hother]
    exact ⟨by simpa using congrArg List.length hfirst, hbehind⟩

/-- Which particle takes a child depends on the names of the children alone. -/
theorem assigned_congr {kids others : List Child}
    (h : others.map (·.element.name) = kids.map (·.element.name)) :
    schema.assigned particles others = schema.assigned particles kids := by
  induction particles generalizing kids others with
  | nil => rfl
  | cons particle later ih =>
    obtain ⟨hlength, hnames⟩ := @takeRun_congr schema particle later _ _ h
    rw [assigned, assigned, hlength, ih hnames]

/-- The first particle takes its run of children, and the others take those behind it. -/
theorem assigned_of_isRun {taken left : List Child}
    (h : IsRun (schema.childFits later particle) particle.occurs 0 taken left) :
    schema.assigned (particle :: later) (taken ++ left) =
      List.replicate taken.length particle ++ schema.assigned later left := by
  have htake := takeRun_eq_iff.2 ⟨rfl, h⟩
  rw [assigned, htake]

/-- Children are taken by particles of the sequence. -/
theorem assigned_subset {kids : List Child} : schema.assigned particles kids ⊆ particles := by
  induction particles generalizing kids with
  | nil => exact List.Subset.refl _
  | cons particle later ih =>
    rw [assigned]
    refine List.append_subset.2 ⟨?_, List.Subset.trans ih (List.subset_cons_self _ _)⟩
    intro other hother
    rw [List.eq_of_mem_replicate hother]
    exact List.mem_cons_self

/-- A relation between two children holds for every particle that takes a child, in its place. -/
def EachTaken (relation : Particle → Xml.Element → Xml.Element → Prop) (taken : List Particle)
    (children others : List Xml.Element) : Prop :=
  ∀ (position : Nat) particle child other, taken[position]? = some particle →
    children[position]? = some child → others[position]? = some other →
      relation particle child other

/-- A relation holds in all places if it does in the first run and behind it. -/
theorem eachTaken_append {relation : Particle → Xml.Element → Xml.Element → Prop}
    {rest : List Particle} {first firstOther behind behindOther : List Xml.Element}
    (hlength : firstOther.length = first.length) :
    EachTaken relation (List.replicate first.length particle ++ rest) (first ++ behind)
        (firstOther ++ behindOther) ↔
      List.Forall₂ (relation particle) first firstOther ∧
        EachTaken relation rest behind behindOther := by
  constructor
  · intro h
    constructor
    · refine List.forall₂_iff_get.2 ⟨hlength.symm, ?_⟩
      intro position hfirst hother
      refine h position particle _ _ ?_ ?_ ?_
      · rw [List.getElem?_append_left (by simpa using hfirst),
          List.getElem?_replicate_of_lt hfirst]
      · rw [List.getElem?_append_left hfirst]
        exact List.getElem?_eq_getElem hfirst
      · rw [List.getElem?_append_left hother]
        exact List.getElem?_eq_getElem hother
    · intro position other child face hother hchild hface
      refine h (first.length + position) other child face ?_ ?_ ?_
      · rw [List.getElem?_append_right (by simp)]
        simpa using hother
      · rw [List.getElem?_append_right (by simp)]
        simpa using hchild
      · rw [← hlength, List.getElem?_append_right (by simp)]
        simpa using hface
  · rintro ⟨hfirst, hrest⟩ position other child face hother hchild hface
    by_cases hposition : position < first.length
    · have hpositionOther : position < firstOther.length := hlength ▸ hposition
      rw [List.getElem?_append_left (by simpa using hposition),
        List.getElem?_replicate_of_lt hposition] at hother
      rw [List.getElem?_append_left hposition, List.getElem?_eq_getElem hposition] at hchild
      rw [List.getElem?_append_left hpositionOther,
        List.getElem?_eq_getElem hpositionOther] at hface
      cases hother
      cases hchild
      cases hface
      exact (List.forall₂_iff_get.1 hfirst).2 position hposition hpositionOther
    · rw [Nat.not_lt] at hposition
      rw [List.getElem?_append_right (by simpa using hposition), List.length_replicate] at hother
      rw [List.getElem?_append_right hposition] at hchild
      rw [List.getElem?_append_right (hlength ▸ hposition), hlength] at hface
      exact hrest _ other child face hother hchild hface

end

section

variable {schema : Schema} {type : TypeRef} {left right child other : Xml.Element}
  {particle : Particle} {decl : ElementDecl}

/-- Children keep their names while they wait to be read. -/
theorem names_map_child {children : List Xml.Element} :
    (children.map schema.child).map (·.element.name) = children.map Xml.Element.name := by
  rw [List.map_map]
  rfl

/-- The children in the same place stand there from either side. -/
theorem Placed.symm (h : schema.Placed type left right particle child other)
    (hsimilar : left.Similar right) : schema.Placed type right left particle other child := by
  cases h with
  | intro resolved content taken here there =>
    refine .intro resolved content ?_ there here
    rw [assigned_congr]
    · exact taken
    · rw [names_map_child, names_map_child]
      exact hsimilar.names

/-- Children in the same place are related as the children of the two elements are. -/
theorem Placed.related {relation : Xml.Element → Xml.Element → Prop}
    (h : schema.Placed type left right particle child other)
    (hchildren : List.Forall₂ relation left.children right.children) : relation child other := by
  cases h with
  | @intro _ _ _ _ _ position resolved content taken here there =>
    obtain ⟨hposition, rfl⟩ := List.getElem?_eq_some_iff.1 here
    obtain ⟨hother, rfl⟩ := List.getElem?_eq_some_iff.1 there
    exact (List.forall₂_iff_get.1 hchildren).2 position hposition hother

/-- Elements that face each other do so from either side. -/
theorem Facing.symm {found : Option TypeRef}
    (h : schema.Facing type left right found child other) (hsimilar : left.Similar right) :
    schema.Facing type right left found other child := by
  induction h with
  | root => exact .root
  | wild placed => exact .wild (placed.symm hsimilar)
  | inside placed below ih =>
    exact .inside (placed.symm hsimilar) (ih (placed.related hsimilar.children))

/-- Elements that face each other are related as their roots are, where a relation goes over to
children. -/
theorem Facing.related {relation : Xml.Element → Xml.Element → Prop} {found : Option TypeRef}
    (h : schema.Facing type left right found child other)
    (hstep : ∀ outer face, relation outer face →
      List.Forall₂ relation outer.children face.children) (hroot : relation left right) :
    relation child other := by
  induction h with
  | root => exact hroot
  | wild placed => exact placed.related (hstep _ _ hroot)
  | inside placed below ih => exact ih (placed.related (hstep _ _ hroot))

end

/-! ## Children of two elements -/

section

variable {schema : Schema} {particle : Particle} {particles : List Particle}
  {kids faces : List Child} {children others : List Xml.Element}
  {entries found : List (String × Field)}

/-- What is read from one child is read from another one up to equality, or a wildcard takes the
two and they are equal. -/
def ReadsOver (schema : Schema) : Particle → Xml.Element → Xml.Element → Prop
  | .any _, child, other => child.same other = true
  | .element decl, child, other => ∀ item, schema.decode child decl.name decl.type = .ok item →
    ∃ face, schema.decode other decl.name decl.type = .ok face ∧ item.same face = true

/-- Under a declaration two children are read as equal instances. -/
def ReadBoth (schema : Schema) : Particle → Xml.Element → Xml.Element → Prop
  | .any _, _, _ => True
  | .element decl, child, other => ∃ item face, schema.decode child decl.name decl.type = .ok item ∧
    schema.decode other decl.name decl.type = .ok face ∧ item.same face = true

/-- Two fields of one key that are equal. -/
def SameEntry (entry other : String × Field) : Prop :=
  other.1 = entry.1 ∧ Instance.sameField entry.2 other.2 = true

/-- The items that are read from children are read, up to equality, from the children that they are
read over to. -/
theorem exists_items_over {decl : ElementDecl} {items : List Instance}
    (hover : List.Forall₂ (schema.ReadsOver (.element decl)) children others)
    (hread : List.Forall₂ (fun child item => schema.decode child decl.name decl.type = .ok item)
      children items) :
    ∃ faces, List.Forall₂ (fun other face => schema.decode other decl.name decl.type = .ok face)
        others faces ∧ List.Forall₂ (fun item face => item.same face = true) items faces := by
  induction hover generalizing items with
  | nil =>
    cases hread
    exact ⟨[], .nil, .nil⟩
  | @cons child other children others hfirst _ ih =>
    obtain ⟨item, items, hitem, hitems, rfl⟩ := List.forall₂_cons_left_iff.1 hread
    obtain ⟨face, hface, hsame⟩ := hfirst item hitem
    obtain ⟨faces, hfaces, hrest⟩ := ih hitems
    exact ⟨face :: faces, .cons hface hfaces, .cons hsame hrest⟩

/-- A field that is read from children is read, up to equality, from the children that they are read
over to. -/
theorem FieldRead.exists_over {field : Field}
    (h : FieldRead (children.map schema.child) particle field)
    (hover : List.Forall₂ (schema.ReadsOver particle) children others) :
    ∃ face, FieldRead (others.map schema.child) particle face ∧
      Instance.sameField field face = true := by
  generalize hkids : children.map schema.child = kids at h
  cases h with
  | @any _ wildcard =>
    subst hkids
    refine ⟨_, .any, ?_⟩
    rw [Instance.sameField, List.map_map, List.map_map, Xml.Element.sameAll_iff,
      List.forall₂_map_left_iff, List.forall₂_map_right_iff]
    exact hover
  | @one kid decl item single read =>
    obtain ⟨child, rfl, rfl⟩ := List.map_eq_singleton_iff.1 hkids
    rw [List.forall₂_cons_left_iff] at hover
    obtain ⟨other, _, hfirst, hnil, rfl⟩ := hover
    rw [List.forall₂_nil_left_iff] at hnil
    subst hnil
    obtain ⟨face, hface, hsame⟩ := hfirst item read
    refine ⟨_, .one single hface, ?_⟩
    rwa [Instance.sameField]
  | @many _ decl items repeated read =>
    subst hkids
    rw [List.forall₂_map_left_iff] at read
    obtain ⟨faces, hread, hsame⟩ := exists_items_over hover read
    refine ⟨_, .many repeated (List.forall₂_map_left_iff.2 hread), ?_⟩
    rw [Instance.sameField, Instance.sameAll_iff]
    exact hsame

/-- Fields that are read from children are read, up to equality, from children of the same names
that they are read over to. -/
theorem FieldsRead.exists_over (h : FieldsRead schema particles kids entries)
    (hkids : kids = children.map schema.child)
    (hnames : others.map Xml.Element.name = children.map Xml.Element.name)
    (hover : EachTaken schema.ReadsOver (schema.assigned particles kids) children others) :
    ∃ found, FieldsRead schema particles (others.map schema.child) found ∧
      List.Forall₂ SameEntry entries found := by
  induction h generalizing children others with
  | done =>
    rw [List.map_eq_nil_iff.1 hkids.symm, List.map_nil, List.map_eq_nil_iff] at hnames
    subst hnames
    exact ⟨[], .done, .nil⟩
  | @absent particle later kids entries enough run rest ih =>
    rw [← List.nil_append kids, assigned_of_isRun run] at hover
    obtain ⟨found, hread, hsame⟩ := ih hkids hnames hover
    refine ⟨found, .absent enough (run.congr rfl (map_childFits_congr ?_)) hread, hsame⟩
    rw [hkids, names_map_child, names_map_child, hnames]
  | @present particle later taken left field entries nonempty enough run read rest ih =>
    rw [assigned_of_isRun run] at hover
    obtain ⟨first, behind, rfl, rfl, rfl⟩ := List.map_eq_append_iff.1 hkids.symm
    rw [List.map_append] at hnames
    obtain ⟨firstOther, behindOther, rfl, hfirst, hbehind⟩ := List.map_eq_append_iff.1 hnames
    have hlength : firstOther.length = first.length := by
      simpa using congrArg List.length hfirst
    rw [List.length_map, eachTaken_append hlength] at hover
    obtain ⟨found, hread, hsame⟩ := ih rfl hbehind hover.2
    have hfield : FieldRead (first.map schema.child) particle field :=
      fieldRead_of_decodeField read nonempty run.room
    obtain ⟨face, hface, hfields⟩ := hfield.exists_over hover.1
    rw [List.map_append]
    refine ⟨_, .present ?_ ?_ (run.congr ?_ ?_) hface.decodeField hread, .cons ⟨rfl, hfields⟩ hsame⟩
    · rw [← List.length_pos_iff, List.length_map, hlength, ← List.length_map schema.child,
        List.length_pos_iff]
      exact nonempty
    · rw [List.length_map, hlength, ← List.length_map schema.child]
      exact enough
    · refine map_childFits_congr ?_
      rw [names_map_child, names_map_child, hfirst]
    · refine map_childFits_congr ?_
      rw [names_map_child, names_map_child, hbehind]

/-- Fields that are equal one by one are equal in any order. -/
theorem sameFields_of_forall₂ (h : List.Forall₂ SameEntry entries found)
    (hdistinct : (found.map Prod.fst).Nodup) : Instance.sameFields entries found = true := by
  refine Instance.sameFields_of_forall ?_
  intro key field hentry
  obtain ⟨position, hposition, hget⟩ := List.getElem_of_mem hentry
  have hother : position < found.length := h.length_eq ▸ hposition
  have hsame := (List.forall₂_iff_get.1 h).2 position hposition hother
  rw [List.get_eq_getElem, hget] at hsame
  refine ⟨found[position].2, lookup_of_mem hdistinct ?_, hsame.2⟩
  rw [← show found[position].1 = key from hsame.1]
  exact List.getElem_mem hother

/-- Runs in children of the same names are of the same length. -/
theorem IsRun.length_eq {later : List Particle} {taken left takenOther leftOther : List Child}
    (h : IsRun (schema.childFits later particle) particle.occurs 0 taken left)
    (hother : IsRun (schema.childFits later particle) particle.occurs 0 takenOther leftOther)
    (hnames : (takenOther ++ leftOther).map (·.element.name) =
      (taken ++ left).map (·.element.name)) :
    takenOther.length = taken.length := by
  have hlength := (@takeRun_congr schema particle later _ _ hnames).1
  rwa [takeRun_eq_iff.2 ⟨rfl, h⟩, takeRun_eq_iff.2 ⟨rfl, hother⟩] at hlength

/-- The items of equal fields are read from children in the same places. -/
theorem FieldRead.readBoth {field face : Field}
    (h : FieldRead (children.map schema.child) particle field)
    (hother : FieldRead (others.map schema.child) particle face)
    (hlength : others.length = children.length)
    (hsame : Instance.sameField field face = true) :
    List.Forall₂ (schema.ReadBoth particle) children others := by
  generalize hkids : children.map schema.child = kids at h
  generalize hfaces : others.map schema.child = faces at hother
  cases h with
  | any =>
    refine List.forall₂_iff_get.2 ⟨hlength.symm, fun _ _ _ => trivial⟩
  | @one kid decl item single read =>
    obtain ⟨child, rfl, rfl⟩ := List.map_eq_singleton_iff.1 hkids
    cases hother with
    | @one kidOther _ itemOther _ readOther =>
      obtain ⟨other, rfl, rfl⟩ := List.map_eq_singleton_iff.1 hfaces
      rw [Instance.sameField] at hsame
      exact .cons ⟨item, itemOther, read, readOther, hsame⟩ .nil
    | many repeated =>
      rw [single] at repeated
      cases repeated
  | @many _ decl items repeated read =>
    cases hother with
    | one single =>
      rw [single] at repeated
      cases repeated
    | @many _ _ itemsOther _ readOther =>
      subst hkids hfaces
      rw [List.forall₂_map_left_iff] at read readOther
      rw [Instance.sameField, Instance.sameAll_iff] at hsame
      refine List.forall₂_iff_get.2 ⟨hlength.symm, ?_⟩
      intro position hposition hface
      have hitem : position < items.length := read.length_eq ▸ hposition
      have hitemOther : position < itemsOther.length := readOther.length_eq ▸ hface
      exact ⟨_, _, (List.forall₂_iff_get.1 read).2 position hposition hitem,
        (List.forall₂_iff_get.1 readOther).2 position hface hitemOther,
        (List.forall₂_iff_get.1 hsame).2 position hitem hitemOther⟩

/-- Where equal fields are read from children of the same names, equal instances are read from the
children in the same places. -/
theorem FieldsRead.readBoth (h : FieldsRead schema particles kids entries)
    (hother : FieldsRead schema particles faces found)
    (hkids : kids = children.map schema.child) (hfaces : faces = others.map schema.child)
    (hnames : others.map Xml.Element.name = children.map Xml.Element.name)
    (hdistinct : (particles.map Particle.key).Nodup)
    (hsame : ∀ key field, (key, field) ∈ entries →
      ∃ face, found.lookup key = some face ∧ Instance.sameField field face = true) :
    EachTaken schema.ReadBoth (schema.assigned particles kids) children others := by
  have hboth : faces.map (·.element.name) = kids.map (·.element.name) := by
    rw [hkids, hfaces, names_map_child, names_map_child, hnames]
  induction h generalizing children others faces found with
  | done =>
    intro position particle child other htaken
    cases htaken
  | @absent particle later kids entries enough run rest ih =>
    have hkeys := List.nodup_cons.1 hdistinct
    rw [← List.nil_append kids, assigned_of_isRun run]
    cases hother with
    | absent _ runOther restOther =>
      exact ih restOther hkids hfaces hnames hkeys.2 hsame hboth
    | present nonempty _ runOther _ restOther =>
      have hlength := run.length_eq runOther (by simpa using hboth)
      exact absurd (List.length_eq_zero_iff.1 hlength) nonempty
  | @present particle later taken left field entries nonempty enough run read rest ih =>
    have hkeys := List.nodup_cons.1 hdistinct
    rw [assigned_of_isRun run]
    cases hother with
    | absent _ runOther restOther =>
      have hlength := run.length_eq runOther (by simpa using hboth)
      exact absurd (List.length_eq_zero_iff.1 hlength.symm) nonempty
    | @present _ _ takenOther leftOther face foundRest nonemptyOther _ runOther readOther
        restOther =>
      have hlength := run.length_eq runOther hboth
      obtain ⟨first, behind, rfl, rfl, rfl⟩ := List.map_eq_append_iff.1 hkids.symm
      obtain ⟨firstOther, behindOther, rfl, rfl, rfl⟩ := List.map_eq_append_iff.1 hfaces.symm
      rw [List.length_map, List.length_map] at hlength
      rw [List.map_append, List.map_append] at hnames hboth
      have hsplit := List.append_inj hnames (by simpa using hlength)
      obtain ⟨faceOther, hfound, hfields⟩ := hsame particle.key field List.mem_cons_self
      rw [List.lookup_cons_self] at hfound
      cases hfound
      rw [List.length_map, eachTaken_append hlength]
      refine ⟨?_, ih restOther rfl rfl hsplit.2 hkeys.2 ?_ ?_⟩
      · exact (fieldRead_of_decodeField read nonempty run.room).readBoth
          (fieldRead_of_decodeField readOther nonemptyOther runOther.room) hlength hfields
      · intro key field hentry
        obtain ⟨face, hfound, hequal⟩ := hsame key field (List.mem_cons_of_mem _ hentry)
        have hkey : key ≠ particle.key := by
          rintro rfl
          exact hkeys.1 (rest.keys_sublist.subset (List.mem_map_of_mem hentry))
        rw [lookup_cons_of_ne hkey] at hfound
        exact ⟨face, hfound, hequal⟩
      · rw [names_map_child, names_map_child]
        exact hsplit.2

end

end Schema

end TypedXml
