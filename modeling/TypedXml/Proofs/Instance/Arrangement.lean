import TypedXml.Proofs.Instance.Enumerations

/-!
# Reading arranges children

Reading moves a cursor along the children of an element and puts what it passes into fields by key.
Here is said of the result alone that nothing got lost, came twice or changed places on the way: the
occurrences in the fields, one field after the other, are the children one by one.  Each typed
occurrence is what its child is read as, so that the same is true of it in turn.
-/

set_option autoImplicit false

namespace TypedXml

/-- What one child becomes: a node of its own, or in a wildcard the element that it is. -/
inductive Occurrence where
  | typed (item : Instance)
  | wild (element : Xml.Element)

/-- The occurrences in a field, in order. -/
def Field.occurrences : Field → List Occurrence
  | .one item => [.typed item]
  | .many items => items.map .typed
  | .any elements => elements.map .wild

/-- The occurrences in the fields of a node, one field after the other, each with the key of its
field. -/
def occurrences (entries : List (String × Field)) : List (String × Occurrence) :=
  entries.flatMap fun entry => entry.2.occurrences.map (entry.1, ·)

namespace Schema

/-- Whether an occurrence in the field of a particle stands for a child: it is what the child is
read as under the declaration, or the child itself under a wildcard. -/
inductive StandsFor (schema : Schema) (particles : List Particle) :
    String × Occurrence → Xml.Element → Prop
  | typed {decl : ElementDecl} {child : Xml.Element} {item : Instance}
      (declared : .element decl ∈ particles) (named : child.name = schema.target.qualify decl.name)
      (read : schema.decode child decl.name decl.type = .ok item) :
      StandsFor schema particles (decl.name, .typed item) child
  | wild {wildcard : Wildcard} {child : Xml.Element} (declared : .any wildcard ∈ particles) :
      StandsFor schema particles (wildcard.key, .wild child) child

/-- How the fields of a node arrange the children of the element that it is read from. -/
structure Arranges (schema : Schema) (particles : List Particle) (children : List Xml.Element)
    (entries : List (String × Field)) : Prop where
  /-- Occurrences and children are the same in number and in order. -/
  one_by_one : List.Forall₂ (schema.StandsFor particles) (occurrences entries) children
  /-- The fields are in the order of their particles, at most one for each. -/
  ordered : (entries.map Prod.fst).Sublist (particles.map Particle.key)
  distinct : (entries.map Prod.fst).Nodup
  /-- A particle without a field has no occurrence. -/
  counted : ∀ particle ∈ particles,
    particle.occurs.Allows ((entries.lookup particle.key).elim 0 Field.count)
  /-- No element in a wildcard has the name of a declaration behind the wildcard. -/
  apart : ∀ before wildcard later, particles = before ++ .any wildcard :: later →
    ∀ field, (wildcard.key, field) ∈ entries → ∀ element ∈ field.elements,
      ∀ decl, .element decl ∈ later → element.name ≠ schema.target.qualify decl.name

/-- Whether every node of an instance that is read from an element under a type arranges the
children of the element that it stands for.  A node that holds text stands for an element without
children. -/
inductive Arranged (schema : Schema) : TypeRef → Xml.Element → Instance → Prop
  | scalar {type : TypeRef} {element : Xml.Element} {name : String} {space : Namespace}
      {value : Scalar} (childless : element.children = []) :
      Arranged schema type element ⟨name, space, .scalar value⟩
  | text {type : TypeRef} {element : Xml.Element} {name : String} {space : Namespace}
      {value : Scalar} {attributes : List (String × Scalar)} (childless : element.children = []) :
      Arranged schema type element ⟨name, space, .text value attributes⟩
  | fields {type : TypeRef} {complex : ComplexType} {particles : List Particle}
      {element : Xml.Element} {name : String} {space : Namespace}
      {entries : List (String × Field)} {attributes : List (String × Scalar)}
      (resolved : schema.resolve type = .ok (.complex complex))
      (content : complex.content = .sequence particles)
      (here : schema.Arranges particles element.children entries)
      (inside : ∀ decl item child, .element decl ∈ particles →
        ((decl.name, .typed item), child) ∈ (occurrences entries).zip element.children →
          Arranged schema decl.type child item) :
      Arranged schema type element ⟨name, space, .fields entries attributes⟩

variable {schema : Schema} {particle : Particle} {particles later : List Particle}
  {kids : List Child} {children : List Xml.Element} {entries : List (String × Field)}

/-! ## Occurrences and children -/

/-- What stands for a child stands for it in a longer sequence, too. -/
theorem StandsFor.cons {occurrence : String × Occurrence} {child : Xml.Element}
    (h : schema.StandsFor later occurrence child) :
    schema.StandsFor (particle :: later) occurrence child := by
  cases h with
  | typed declared named read => exact .typed (List.mem_cons_of_mem _ declared) named read
  | wild declared => exact .wild (List.mem_cons_of_mem _ declared)

/-- The occurrences in one field stand for the run of children that it is read from. -/
theorem FieldRead.standsFor {field : Field}
    (h : FieldRead (children.map schema.child) particle field)
    (hfit : ∀ child ∈ children, schema.childFits later particle (schema.child child) = true) :
    List.Forall₂ (schema.StandsFor (particle :: later))
      (field.occurrences.map (particle.key, ·)) children := by
  generalize hkids : children.map schema.child = kids at h
  cases h with
  | any =>
    subst hkids
    rw [Field.occurrences, List.map_map, List.map_map, List.map_map, List.forall₂_map_left_iff,
      List.forall₂_same]
    exact fun child _ => .wild List.mem_cons_self
  | @one kid decl item single read =>
    obtain ⟨child, rfl, rfl⟩ := List.map_eq_singleton_iff.1 hkids
    have hnamed := isNamed_iff.1 (hfit child List.mem_cons_self)
    exact .cons (.typed List.mem_cons_self hnamed read) .nil
  | @many _ decl items repeated read =>
    subst hkids
    rw [List.forall₂_map_left_iff] at read
    rw [Field.occurrences, List.map_map, List.forall₂_map_left_iff]
    have hboth := (List.forall₂_and_left _ _).2 ⟨hfit, read⟩
    refine hboth.flip.imp ?_
    rintro item child ⟨hfits, hread⟩
    exact .typed List.mem_cons_self (isNamed_iff.1 hfits) hread

/-- The occurrences in all fields stand for the children. -/
theorem FieldsRead.standsFor (h : FieldsRead schema particles kids entries)
    (hkids : kids = children.map schema.child) :
    List.Forall₂ (schema.StandsFor particles) (occurrences entries) children := by
  induction h generalizing children with
  | done =>
    rw [List.map_eq_nil_iff.1 hkids.symm]
    exact .nil
  | absent enough run rest ih => exact (ih hkids).imp fun _ _ hstands => hstands.cons
  | @present particle later taken left field entries nonempty enough run read rest ih =>
    obtain ⟨first, behind, rfl, rfl, rfl⟩ := List.map_eq_append_iff.1 hkids.symm
    have hfield : FieldRead (first.map schema.child) particle field :=
      fieldRead_of_decodeField read nonempty run.room
    have hfirst := hfield.standsFor fun child hchild =>
      run.all_fit _ (List.mem_map_of_mem hchild)
    have hrest : List.Forall₂ (schema.StandsFor (particle :: later)) (occurrences entries) behind :=
      (ih rfl).imp fun _ _ hstands => hstands.cons
    exact List.rel_append hfirst hrest

/-! ## Wildcards and what comes behind them -/

/-- No element that a wildcard takes has the name of a later declaration. -/
theorem FieldRead.ne_of_later {taken : List Child} {wildcard : Wildcard} {field : Field}
    (h : FieldRead taken (.any wildcard) field)
    (hfit : ∀ child ∈ taken, schema.childFits later (.any wildcard) child = true) :
    ∀ element ∈ field.elements, ∀ decl, .element decl ∈ later →
      element.name ≠ schema.target.qualify decl.name := by
  cases h with
  | any =>
    intro element helement decl hdecl hname
    obtain ⟨child, hchild, rfl⟩ := List.mem_map.1 helement
    have hwild : schema.isNamedIn later child.element = false := by
      rw [← Bool.not_eq_true']
      exact hfit child hchild
    have hother := isNamedIn_eq_false.1 hwild decl hdecl
    rw [isNamed_iff.2 hname] at hother
    cases hother

/-- A wildcard leaves alone what a later declaration names. -/
theorem FieldsRead.apart (h : FieldsRead schema particles kids entries)
    (hdistinct : (particles.map Particle.key).Nodup) :
    ∀ before wildcard later, particles = before ++ .any wildcard :: later →
      ∀ field, (wildcard.key, field) ∈ entries → ∀ element ∈ field.elements,
        ∀ decl, .element decl ∈ later → element.name ≠ schema.target.qualify decl.name := by
  induction h with
  | done =>
    intro before wildcard later hsplit
    cases before <;> cases hsplit
  | @absent particle rest kids entries enough run others ih =>
    have hkeys := List.nodup_cons.1 hdistinct
    intro before wildcard later hsplit field hentry
    cases before with
    | nil =>
      cases hsplit
      exact absurd (others.keys_sublist.subset (List.mem_map_of_mem hentry)) hkeys.1
    | cons first before =>
      cases hsplit
      exact ih hkeys.2 before wildcard later rfl field hentry
  | @present particle rest taken left found entries nonempty enough run read others ih =>
    have hkeys := List.nodup_cons.1 hdistinct
    intro before wildcard later hsplit field hentry
    cases before with
    | nil =>
      cases hsplit
      rcases List.mem_cons.1 hentry with heq | hrest
      · cases heq
        exact (fieldRead_of_decodeField read nonempty run.room).ne_of_later run.all_fit
      · exact absurd (others.keys_sublist.subset (List.mem_map_of_mem hrest)) hkeys.1
    | cons first before =>
      cases hsplit
      rcases List.mem_cons.1 hentry with heq | hrest
      · -- the wildcard stands behind the particle, so that it has another key
        have hkey : wildcard.key = particle.key := congrArg Prod.fst heq
        have hbehind : .any wildcard ∈ before ++ .any wildcard :: later :=
          List.mem_append_right _ List.mem_cons_self
        exact absurd (List.mem_map.2 ⟨_, hbehind, hkey⟩) hkeys.1
      · exact ih hkeys.2 before wildcard later rfl field hrest

/-! ## All nodes -/

/-- Reading the children of one element arranges them. -/
theorem FieldsRead.arranges (h : FieldsRead schema particles (children.map schema.child) entries)
    (hdistinct : (particles.map Particle.key).Nodup) :
    schema.Arranges particles children entries :=
  ⟨h.standsFor rfl, h.keys_sublist, h.keys_sublist.nodup hdistinct,
    fun particle hparticle => Occurs.contains_iff.1 (h.counted hdistinct particle hparticle),
    h.apart hdistinct⟩

/-- Declarations of one name in one sequence are the same. -/
theorem decl_eq_of_name {decl other : ElementDecl} (hdistinct : (particles.map Particle.key).Nodup)
    (hdecl : .element decl ∈ particles) (hother : .element other ∈ particles)
    (hname : other.name = decl.name) : other = decl := by
  have hfound := find?_key_of_mem hdistinct hdecl
  have hkey : (Particle.element decl).key = (Particle.element other).key := hname.symm
  rw [hkey, find?_key_of_mem hdistinct hother] at hfound
  cases hfound
  rfl

/-- What is read from an element arranges the children of every element in it. -/
theorem arranged_of_decode (hassembled : schema.Assembled) (element : Xml.Element) :
    ∀ {localName : String} {type : TypeRef} {node : Instance},
      type.all schema.declares (fun type => type.checkParts.isOk) = true →
        schema.decode element localName type = .ok node → schema.Arranged type element node := by
  induction element using Xml.Element.induct with
  | step element ih =>
    intro localName type node htype h
    rw [decode_eq_ok] at h
    cases h with
    | scalar resolved childless kind read => exact .scalar childless
    | text resolved content childless kind read scalars => exact .text childless
    | @fields complex particles entries attributes resolved content parts scalars =>
      have hall := all_of_resolve hassembled.allTypes htype resolved
      have hparticles := ComplexType.particles_of_sequence content
      have hdistinct : (particles.map Particle.key).Nodup :=
        hparticles ▸ (regular_of_all hall).keys_distinct
      have harranges := parts.arranges hdistinct
      refine .fields resolved content harranges ?_
      intro decl item child hdecl hpair
      have hchild := (List.of_mem_zip hpair).2
      have hstands := (List.forall₂_iff_zip.1 harranges.one_by_one).2 hpair
      generalize hkey : decl.name = key at hstands
      cases hstands with
      | @typed other _ _ declared named read =>
        obtain rfl := decl_eq_of_name hdistinct hdecl declared hkey.symm
        exact ih child hchild (ComplexType.all_of_mem hall (hparticles ▸ hdecl)) read

/-- Reading a root element loses, doubles and moves no child: at every node the occurrences in the
fields are the children of the element that it is read from, one by one and in order, each read
under the declaration of its field or, in a wildcard, taken as it is; the fields are in the order of
their particles, with as many occurrences as these allow; and wildcards leave what a later
declaration names. -/
theorem arranged_of_decodeElement (hassembled : schema.Assembled) {element : Xml.Element}
    {node : Instance} (h : schema.decodeElement element = .ok node) :
    ∃ decl, schema.rootDecl? element = some decl ∧
      schema.decode element decl.name decl.type = .ok node ∧
      schema.Arranged decl.type element node := by
  obtain ⟨_, decl, hroot, hread⟩ := decodeElement_eq_ok.1 h
  obtain ⟨hmem, _⟩ := mem_of_element? (rootDecl?_eq_some.1 hroot).2
  have htype := all_of_mem_elements hassembled.allTypes hmem
  exact ⟨decl, hroot, hread, arranged_of_decode hassembled element htype hread⟩

/-- A playlist: a title that may be missing, one to three tracks, anything else, and a closing note
that may be missing. -/
def playlistDecl : ElementDecl :=
  ⟨"playlist", .complex ⟨none, .sequence [
    .element ⟨"title", .simple (.ofKind .string), .optional⟩,
    .element ⟨"track", .complex ⟨none, .sequence [
      .element ⟨"seconds", .simple (.ofKind .int), .once⟩], []⟩, ⟨1, some 3⟩⟩,
    .any ⟨"any", .zeroOrMore⟩, .element ⟨"note", .simple (.ofKind .string), .optional⟩], []⟩, .once⟩

/-- The schema of playlists. -/
def playlists : Schema :=
  ⟨⟨"urn:playlists", "p"⟩, [], [playlistDecl], {}⟩

/-- The schema of playlists is what defining the playlist gives. -/
theorem define_playlists :
    define ⟨"urn:playlists", "p"⟩ [.element playlistDecl] = .ok playlists := rfl

/-- A playlist without a title: two tracks, two elements of other kinds, a note. -/
def playlistElement : Xml.Element :=
  let track := fun seconds => ⟨playlists.target.qualify "track", none, .empty, none,
    [⟨playlists.target.qualify "seconds", none, .empty, some seconds, []⟩]⟩
  ⟨playlists.target.qualify "playlist", none, .empty, none,
    [track "201", track "187", ⟨⟨none, "cover"⟩, none, .empty, none, []⟩,
      ⟨playlists.target.qualify "cover", none, .empty, none, []⟩,
      ⟨playlists.target.qualify "note", none, .empty, some "live", []⟩]⟩

/-- What is read from it. -/
def playlist : Instance :=
  let track := fun seconds => ⟨"track", playlists.target, .fields
    [("seconds", .one ⟨"seconds", playlists.target, .scalar (.ofDatum .int (.int seconds))⟩)] []⟩
  ⟨"playlist", playlists.target, .fields
    [("track", .many [track 201, track 187]),
      ("any", .any [⟨⟨none, "cover"⟩, none, .empty, none, []⟩,
        ⟨playlists.target.qualify "cover", none, .empty, none, []⟩]),
      ("note", .one ⟨"note", playlists.target, .scalar (.ofDatum .string (.text "live"))⟩)] []⟩

/-- The playlist is what its element is read as. -/
theorem decodeElement_playlistElement :
    playlists.decodeElement playlistElement = .ok playlist := by
  refine decodeElement_eq_ok.2 ⟨?_, playlistDecl, rfl, rfl⟩
  rw [Xml.Element.depth_eq_height]
  decide

/-- The playlist arranges its five children and those of its tracks. -/
theorem arranged_playlist :
    playlists.Assembled ∧ playlists.decodeElement playlistElement = .ok playlist ∧
      ∃ decl, playlists.rootDecl? playlistElement = some decl ∧
        playlists.decode playlistElement decl.name decl.type = .ok playlist ∧
        playlists.Arranged decl.type playlistElement playlist :=
  have hassembled := assembled_of_define define_playlists
  ⟨hassembled, decodeElement_playlistElement,
    arranged_of_decodeElement hassembled decodeElement_playlistElement⟩

end Schema

end TypedXml
