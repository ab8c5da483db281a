import TypedXml.Proofs.Instance.Regular

/-!
# The grammar of a schema

The types of a schema are a grammar of element trees: text in the lexical space of a kind and, for a
sequence, elements of each particle in turn, as many as its range allows.  A tree derives from the
grammar by some choice of counts, whereas reading goes along the children once, takes what it can
and never gives a child back.  Without wildcards both come to the same, since no two particles of a
sequence have one name and so no child could be taken in two places.  Whatever does not derive is
refused as a mismatch.
-/

set_option autoImplicit false

namespace TypedXml

/-! ## Texts and counts -/

/-- Whether a text is in the lexical space of a kind. -/
def Kind.IsLexical (kind : Kind) (text : String) : Prop :=
  ∃ value, kind.read? text = some value

/-- Whether a count is within the bounds of a range. -/
structure Occurs.Allows (occurs : Occurs) (count : Nat) : Prop where
  least : occurs.min ≤ count
  most : ∀ max, occurs.max = some max → count ≤ max

/-- A count is in a range if it is within its bounds. -/
theorem Occurs.contains_iff {occurs : Occurs} {count : Nat} :
    occurs.contains count = true ↔ occurs.Allows count := by
  have hmissing : occurs.isMissing count = false ↔ occurs.min ≤ count := by
    rw [isMissing, decide_eq_false_iff_not, Nat.not_lt]
  have hexceeded : occurs.isExceeded count = false ↔
      ∀ max, occurs.max = some max → count ≤ max := by
    rw [isExceeded]
    cases occurs.max with
    | none => simp
    | some max => simp
  rw [contains, Bool.and_eq_true, Bool.not_eq_true', Bool.not_eq_true', hmissing, hexceeded]
  exact ⟨fun h => ⟨h.1, h.2⟩, fun h => ⟨h.least, h.most⟩⟩

namespace Schema

/-! ## Derivations -/

/-- Children that derive from the particles of a sequence: for each particle a run of elements of
its name, as many as its range allows, each deriving from its type. -/
inductive ChildrenDerive (space : Namespace) (derives : TypeRef → Xml.Element → Prop) :
    List Particle → List Xml.Element → Prop
  | done : ChildrenDerive space derives [] []
  | run {decl : ElementDecl} {later : List Particle} {run left : List Xml.Element}
      (named : ∀ child ∈ run, child.name = space.qualify decl.name)
      (allowed : decl.occurs.Allows run.length)
      (derive : ∀ child ∈ run, derives decl.type child)
      (rest : ChildrenDerive space derives later left) :
      ChildrenDerive space derives (.element decl :: later) (run ++ left)

/-- Attributes that derive from their declarations: those that are required are there, and the text
of each that is there is in the lexical space of its kind. -/
structure AttributesDerive (decls : List AttributeDecl) (attributes : Xml.Attributes) : Prop where
  required : ∀ decl ∈ decls, decl.required = true →
    ∃ text, attributes.valueOf? decl.name = some text
  lexical : ∀ decl ∈ decls, ∀ text, attributes.valueOf? decl.name = some text →
    decl.type.kind.IsLexical text

/-- An element tree that derives from a type.  Missing text counts as empty. -/
inductive Derives (schema : Schema) : TypeRef → Xml.Element → Prop
  | simple {type : TypeRef} {simple : SimpleType} {element : Xml.Element}
      (resolved : schema.resolve type = .ok (.simple simple)) (childless : element.children = [])
      (lexical : simple.kind.IsLexical element.textOrEmpty) : Derives schema type element
  | text {type : TypeRef} {complex : ComplexType} {base : SimpleType} {element : Xml.Element}
      (resolved : schema.resolve type = .ok (.complex complex))
      (content : complex.content = .simple base) (childless : element.children = [])
      (lexical : base.kind.IsLexical element.textOrEmpty)
      (attributes : AttributesDerive complex.attributes element.attributes) :
      Derives schema type element
  | sequence {type : TypeRef} {complex : ComplexType} {particles : List Particle}
      {element : Xml.Element} (resolved : schema.resolve type = .ok (.complex complex))
      (content : complex.content = .sequence particles)
      (children : ChildrenDerive schema.target (fun type child => Derives schema type child)
        particles element.children)
      (attributes : AttributesDerive complex.attributes element.attributes) :
      Derives schema type element

/-- A tree that derives from a top-level element: it has its name, in the target namespace, and
derives from its type. -/
def DerivesRoot (schema : Schema) (element : Xml.Element) : Prop :=
  ∃ decl, schema.element? decl.name = some decl ∧
    element.name = schema.target.qualify decl.name ∧ Derives schema decl.type element

variable {schema : Schema}

/-! ## Runs and counts -/

/-- A run that is long enough has an allowed length, as it ends where it is full. -/
theorem IsRun.allows {fits : Child → Bool} {occurs : Occurs} {taken left : List Child}
    (h : IsRun fits occurs 0 taken left) (henough : occurs.isMissing taken.length = false) :
    occurs.Allows taken.length := by
  constructor
  · simpa [Occurs.isMissing] using henough
  · intro max hmax
    by_contra hlong
    have hroom := h.room max (by omega)
    rw [Occurs.isFull, hmax, decide_eq_false_iff_not] at hroom
    omega

/-- Children of an allowed number are a run in front of one that does not fit. -/
theorem isRun_of_allows {fits : Child → Bool} {occurs : Occurs} {taken left : List Child}
    (hfits : ∀ child ∈ taken, fits child = true) (hallowed : occurs.Allows taken.length)
    (hstops : ∀ child ∈ left.head?, fits child = false) : IsRun fits occurs 0 taken left := by
  refine ⟨hfits, ?_, Or.inr hstops⟩
  intro k hk
  rw [Nat.zero_add]
  exact (enough_of_contains (Occurs.contains_iff.2 hallowed)).2 k hk

/-- A value that a text denotes is the value of a scalar. -/
theorem exists_scalar {kind : Kind} {text : String} {value : Datum}
    (h : kind.read? text = some value) :
    ∃ scalar : Scalar, scalar.kind = kind ∧ kind.read? text = some scalar.value :=
  ⟨⟨kind, value, (Kind.native_of_read? h).2⟩, rfl, h⟩

/-- A run whose children are read gives a field. -/
theorem exists_decodeField {taken : List Child} {decl : ElementDecl}
    (h : ∃ items, taken.mapM (·.decode decl) = .ok items) :
    ∃ field, decodeField taken (.element decl) = .ok field := by
  obtain ⟨items, hitems⟩ := h
  rw [decodeField, bind_of_eq_ok hitems]
  split
  · exact ⟨_, rfl⟩
  · exact ⟨_, rfl⟩

/-! ## What is read derives -/

variable {derives : TypeRef → Xml.Element → Prop} {particles : List Particle}
  {children : List Xml.Element}

/-- Children that are read as fields derive from the particles. -/
theorem childrenDerive_of_fieldsRead {kids : List Child} {entries : List (String × Field)}
    (h : FieldsRead schema particles kids entries) (hkids : kids = children.map schema.child)
    (hdecls : ∀ particle ∈ particles, particle.decl? ≠ none)
    (hderives : ∀ child ∈ children, ∀ decl, .element decl ∈ particles → ∀ item,
      schema.decode child decl.name decl.type = .ok item → derives decl.type child) :
    ChildrenDerive schema.target derives particles children := by
  induction h generalizing children with
  | done =>
    rw [List.map_eq_nil_iff.1 hkids.symm]
    exact .done
  | @absent particle later kids entries enough run rest ih =>
    rw [List.forall_mem_cons] at hdecls
    have hrest := ih hkids hdecls.2 fun child hchild decl hdecl =>
      hderives child hchild decl (List.mem_cons_of_mem _ hdecl)
    cases particle with
    | any wildcard => exact absurd rfl hdecls.1
    | element decl =>
      rw [← List.nil_append children]
      exact .run (by simp) (run.allows enough) (by simp) hrest
  | @present particle later taken left field entries nonempty enough run read rest ih =>
    rw [List.forall_mem_cons] at hdecls
    obtain ⟨first, behind, rfl, rfl, rfl⟩ := List.map_eq_append_iff.1 hkids.symm
    rw [List.forall_mem_append] at hderives
    have hrest := ih rfl hdecls.2 fun child hchild decl hdecl =>
      hderives.2 child hchild decl (List.mem_cons_of_mem _ hdecl)
    cases particle with
    | any wildcard => exact absurd rfl hdecls.1
    | element decl =>
      rw [Schema.decodeField, bind_eq_ok] at read
      obtain ⟨items, hitems, _⟩ := read
      have hread := exists_mapM_eq_ok.1 ⟨items, hitems⟩
      have hallowed := run.allows enough
      rw [List.length_map] at hallowed
      refine .run ?_ hallowed ?_ hrest
      · intro child hchild
        exact isNamed_iff.1 (run.all_fit _ (List.mem_map_of_mem hchild))
      · intro child hchild
        obtain ⟨item, hitem⟩ := hread _ (List.mem_map_of_mem hchild)
        exact hderives.1 child hchild decl List.mem_cons_self item hitem

/-- Attributes that are read derive from their declarations. -/
theorem attributesDerive_of_attributesRead {attributes : Xml.Attributes}
    {decls : List AttributeDecl} {scalars : List (String × Scalar)}
    (h : AttributesRead attributes decls scalars) : AttributesDerive decls attributes := by
  induction h with
  | done => exact ⟨by simp, by simp⟩
  | absent missing optional others ih =>
    refine ⟨List.forall_mem_cons.2 ⟨?_, ih.required⟩, List.forall_mem_cons.2 ⟨?_, ih.lexical⟩⟩
    · intro hrequired
      rw [optional] at hrequired
      cases hrequired
    · intro text htext
      rw [missing] at htext
      cases htext
  | @present decl rest text scalar scalars found kind read others ih =>
    refine ⟨List.forall_mem_cons.2 ⟨?_, ih.required⟩, List.forall_mem_cons.2 ⟨?_, ih.lexical⟩⟩
    · intro _
      exact ⟨text, found⟩
    · intro other hother
      rw [found] at hother
      cases hother
      exact ⟨_, read⟩

/-! ## What derives is read -/

/-- Children that derive bear the names of declarations. -/
theorem ChildrenDerive.exists_decl {space : Namespace}
    (h : ChildrenDerive space derives particles children) :
    ∀ child ∈ children, ∃ decl, .element decl ∈ particles ∧
      child.name = space.qualify decl.name := by
  induction h with
  | done => simp
  | @run decl later run left named allowed derive rest ih =>
    rw [List.forall_mem_append]
    constructor
    · intro child hchild
      exact ⟨decl, List.mem_cons_self, named child hchild⟩
    · intro child hchild
      obtain ⟨other, hother, hname⟩ := ih child hchild
      exact ⟨other, List.mem_cons_of_mem _ hother, hname⟩

/-- The run of a particle ends where a derivation ends it, as no later particle has its name. -/
theorem exists_fieldsRead (h : ChildrenDerive schema.target derives particles children)
    (hdistinct : (particles.map Particle.key).Nodup)
    (hread : ∀ child ∈ children, ∀ decl, .element decl ∈ particles → derives decl.type child →
      ∃ item, schema.decode child decl.name decl.type = .ok item) :
    ∃ entries, FieldsRead schema particles (children.map schema.child) entries := by
  induction h with
  | done => exact ⟨[], .done⟩
  | @run decl later run left named allowed derive rest ih =>
    have hkeys := List.nodup_cons.1 hdistinct
    rw [List.forall_mem_append] at hread
    obtain ⟨entries, hentries⟩ := ih hkeys.2 fun child hchild other hother =>
      hread.2 child hchild other (List.mem_cons_of_mem _ hother)
    have hitems : ∃ items, (run.map schema.child).mapM (·.decode decl) = .ok items := by
      rw [exists_mapM_eq_ok, List.forall_mem_map]
      intro child hchild
      exact hread.1 child hchild decl List.mem_cons_self (derive child hchild)
    obtain ⟨field, hfield⟩ := exists_decodeField hitems
    have hfits : ∀ child ∈ run.map schema.child,
        schema.childFits later (.element decl) child = true := by
      rw [List.forall_mem_map]
      exact fun child hchild => isNamed_iff.2 (named child hchild)
    have hallowed : decl.occurs.Allows (run.map schema.child).length := by rwa [List.length_map]
    have hstops : ∀ child ∈ (left.map schema.child).head?,
        schema.childFits later (.element decl) child = false := by
      intro child hchild
      obtain ⟨element, helement, rfl⟩ := List.mem_map.1 (List.mem_of_mem_head? hchild)
      obtain ⟨other, hother, hname⟩ := rest.exists_decl element helement
      apply isNamed_eq_false_of_ne hname
      intro heq
      exact hkeys.1 (List.mem_map.2 ⟨_, hother, heq.symm⟩)
    have hrun := isRun_of_allows hfits hallowed hstops
    have henough : decl.occurs.isMissing (run.map schema.child).length = false :=
      (enough_of_contains (Occurs.contains_iff.2 hallowed)).1
    rw [List.map_append]
    by_cases hempty : run.map schema.child = []
    · rw [hempty] at hrun henough ⊢
      exact ⟨entries, .absent henough hrun hentries⟩
    · exact ⟨_, .present hempty henough hrun hfield hentries⟩

/-- Attributes that derive from their declarations are read. -/
theorem exists_attributesRead {attributes : Xml.Attributes} {decls : List AttributeDecl}
    (h : AttributesDerive decls attributes) :
    ∃ scalars, AttributesRead attributes decls scalars := by
  induction decls with
  | nil => exact ⟨[], .done⟩
  | cons decl rest ih =>
    obtain ⟨hrequired, hlexical⟩ := h
    rw [List.forall_mem_cons] at hrequired hlexical
    obtain ⟨scalars, hscalars⟩ := ih ⟨hrequired.2, hlexical.2⟩
    cases hfound : attributes.valueOf? decl.name with
    | none =>
      have hoptional : decl.required = false := by
        by_contra hnot
        rw [Bool.not_eq_false] at hnot
        obtain ⟨text, htext⟩ := hrequired.1 hnot
        rw [hfound] at htext
        cases htext
      exact ⟨scalars, .absent hfound hoptional hscalars⟩
    | some text =>
      obtain ⟨value, hvalue⟩ := hlexical.1 text hfound
      obtain ⟨scalar, hkind, hread⟩ := exists_scalar hvalue
      exact ⟨_, .present hfound hkind hread hscalars⟩

/-- Reading an element gives an instance if and only if the element derives from the type. -/
theorem exists_decode_iff (hassembled : schema.Assembled) (hclosed : schema.WithoutWildcards)
    (element : Xml.Element) : ∀ {decl : ElementDecl}, schema.IsTyped decl →
      ((∃ node, schema.decode element decl.name decl.type = .ok node) ↔
        Derives schema decl.type element) := by
  induction element using Xml.Element.induct with
  | step element ih =>
    intro decl htyped
    simp only [decode_eq_ok]
    constructor
    · rintro ⟨node, h⟩
      cases h with
      | @scalar simple value resolved childless kind read =>
        exact .simple resolved childless ⟨_, read⟩
      | @text complex base value attributes resolved content childless kind read scalars =>
        exact .text resolved content childless ⟨_, read⟩
          (attributesDerive_of_attributesRead scalars)
      | @fields complex particles entries attributes resolved content parts scalars =>
        have hparticles := htyped.particles hassembled hclosed resolved content
        refine .sequence resolved content ?_ (attributesDerive_of_attributesRead scalars)
        apply childrenDerive_of_fieldsRead parts rfl hparticles.declared
        intro child hchild other hother item hitem
        exact (ih child hchild (hparticles.typed other hother)).1 ⟨item, hitem⟩
    · intro h
      cases h with
      | @simple _ simple _ resolved childless lexical =>
        obtain ⟨value, hvalue⟩ := lexical
        obtain ⟨scalar, hkind, hread⟩ := exists_scalar hvalue
        exact ⟨_, .scalar resolved childless hkind hread⟩
      | @text _ complex base _ resolved content childless lexical attributes =>
        obtain ⟨value, hvalue⟩ := lexical
        obtain ⟨scalar, hkind, hread⟩ := exists_scalar hvalue
        obtain ⟨scalars, hscalars⟩ := exists_attributesRead attributes
        exact ⟨_, .text resolved content childless hkind hread hscalars⟩
      | @sequence _ complex particles _ resolved content children attributes =>
        have hparticles := htyped.particles hassembled hclosed resolved content
        obtain ⟨scalars, hscalars⟩ := exists_attributesRead attributes
        obtain ⟨entries, hentries⟩ := exists_fieldsRead children hparticles.distinct
          fun child hchild other hother => (ih child hchild (hparticles.typed other hother)).2
        exact ⟨_, .fields resolved content hentries hscalars⟩

/-! ## What does not derive is a mismatch -/

/-- Whether a computation fails only by mismatches. -/
def OnlyMismatches {α : Type} (x : Except Error α) : Prop :=
  ∀ error, x = .error error → ∃ found, error = .mismatch found

section

variable {α β : Type}

/-- A result is no failure of another sort. -/
theorem onlyMismatches_ok {a : α} : OnlyMismatches (.ok a) := failsOnly_ok

/-- Failing with a mismatch is allowed. -/
theorem onlyMismatches_error {found : Mismatch} :
    OnlyMismatches (.error (.mismatch found) : Except Error α) :=
  failsOnly_error ⟨found, rfl⟩

/-- Two steps fail only by mismatches if each of them does. -/
theorem OnlyMismatches.bind {x : Except Error α} {f : α → Except Error β}
    (hx : OnlyMismatches x) (hf : ∀ a, x = .ok a → OnlyMismatches (f a)) :
    OnlyMismatches (x >>= f) :=
  FailsOnly.bind hx hf

/-- A list fails only by mismatches if each of its elements does. -/
theorem onlyMismatches_mapM {f : α → Except Error β} {l : List α}
    (h : ∀ a ∈ l, OnlyMismatches (f a)) : OnlyMismatches (l.mapM f) :=
  failsOnly_mapM h

end

/-- Reading a text fails only by a mismatch. -/
theorem onlyMismatches_decodeScalar {kind : Kind} {text place : String} :
    OnlyMismatches (decodeScalar kind text place) := by
  unfold decodeScalar
  split
  · exact onlyMismatches_ok
  · exact onlyMismatches_error

/-- Reading attributes fails only by a mismatch. -/
theorem onlyMismatches_decodeAttributes {owner : String} {attributes : Xml.Attributes}
    {decls : List AttributeDecl} : OnlyMismatches (decodeAttributes owner attributes decls) := by
  induction decls with
  | nil => exact onlyMismatches_ok
  | cons decl rest ih =>
    unfold decodeAttributes
    split
    · exact onlyMismatches_decodeScalar.bind fun scalar _ => ih.bind fun scalars _ =>
        onlyMismatches_ok
    · split
      · exact onlyMismatches_error
      · exact ih

/-- Children are refused only as a mismatch. -/
theorem onlyMismatches_refuseChildren {owner : String} {children : List Xml.Element} :
    OnlyMismatches (refuseChildren owner children) := by
  cases children with
  | nil => exact onlyMismatches_ok
  | cons child rest => exact onlyMismatches_error

/-- A field fails only by mismatches if the children in it do. -/
theorem onlyMismatches_decodeField {taken : List Child} {particle : Particle}
    (h : ∀ child ∈ taken, ∀ decl, particle = .element decl → OnlyMismatches (child.decode decl)) :
    OnlyMismatches (decodeField taken particle) := by
  cases particle with
  | any wildcard => exact onlyMismatches_ok
  | element decl =>
    refine (onlyMismatches_mapM fun child hchild => h child hchild decl rfl).bind ?_
    intro items _
    split
    · exact onlyMismatches_ok
    · exact onlyMismatches_ok

/-- Fields fail only by mismatches if the children in them do. -/
theorem onlyMismatches_decodeFields {owner : String} {particles : List Particle}
    {kids : List Child}
    (h : ∀ child ∈ kids, ∀ decl, .element decl ∈ particles → OnlyMismatches (child.decode decl)) :
    OnlyMismatches (decodeFields schema owner particles kids) := by
  induction particles generalizing kids with
  | nil =>
    cases kids with
    | nil => exact onlyMismatches_ok
    | cons child rest => exact onlyMismatches_error
  | cons particle later ih =>
    unfold decodeFields
    cases htake : takeRun (fun child => schema.fits later child.element particle)
        particle.occurs 0 kids with
    | mk taken left =>
      obtain ⟨rfl, _⟩ := takeRun_eq_iff.1 htake
      rw [List.forall_mem_append] at h
      have hrest : OnlyMismatches (decodeFields schema owner later left) :=
        ih fun child hchild decl hdecl => h.2 child hchild decl (List.mem_cons_of_mem _ hdecl)
      simp only
      split
      · exact onlyMismatches_error
      · split
        · exact hrest
        · refine OnlyMismatches.bind ?_ fun field _ => hrest.bind fun fields _ =>
            onlyMismatches_ok
          apply onlyMismatches_decodeField
          rintro child hchild decl rfl
          exact h.1 child hchild decl List.mem_cons_self

/-- A type with declared names never fails to be resolved. -/
theorem onlyMismatches_resolve {type : TypeRef} {onType : ComplexType → Bool}
    (h : type.all schema.declares onType = true) : OnlyMismatches (schema.resolve type) := by
  obtain ⟨definition, hresolved⟩ := exists_resolve h
  rw [hresolved]
  exact onlyMismatches_ok

/-- In an assembled schema reading an element fails only by mismatches. -/
theorem onlyMismatches_decode (hassembled : schema.Assembled) (element : Xml.Element) :
    ∀ {localName : String} {type : TypeRef},
      type.all schema.declares (fun type => type.checkParts.isOk) = true →
        OnlyMismatches (schema.decode element localName type) := by
  induction element using Xml.Element.induct with
  | step element ih =>
    intro localName type htype
    obtain ⟨name, preferred, attributes, text, children⟩ := element
    rw [decode]
    refine (onlyMismatches_resolve htype).bind ?_
    intro definition hresolved
    cases definition with
    | simple simple =>
      exact onlyMismatches_refuseChildren.bind fun _ _ =>
        onlyMismatches_decodeScalar.bind fun scalar _ => onlyMismatches_ok
    | complex complex =>
      have hall := all_of_resolve hassembled.allTypes htype hresolved
      simp only
      split
      · exact onlyMismatches_refuseChildren.bind fun _ _ =>
          onlyMismatches_decodeScalar.bind fun scalar _ =>
            onlyMismatches_decodeAttributes.bind fun scalars _ => onlyMismatches_ok
      · next particles hcontent =>
        rw [readChildren_eq_map]
        refine OnlyMismatches.bind ?_ fun fields _ =>
          onlyMismatches_decodeAttributes.bind fun scalars _ => onlyMismatches_ok
        apply onlyMismatches_decodeFields
        rw [List.forall_mem_map]
        intro child hchild decl hdecl
        rw [← ComplexType.particles_of_sequence hcontent] at hdecl
        exact ih child hchild (ComplexType.all_of_mem hall hdecl)

/-! ## Root elements -/

/-- The declaration of a root element is that of its name in the target namespace. -/
theorem rootDecl?_eq_some_iff {element : Xml.Element} {decl : ElementDecl} :
    schema.rootDecl? element = some decl ↔
      schema.element? decl.name = some decl ∧ element.name = schema.target.qualify decl.name := by
  rw [rootDecl?_eq_some]
  constructor
  · rintro ⟨hspace, hdecl⟩
    have hname := (mem_of_element? hdecl).2
    rw [hname]
    refine ⟨hdecl, ?_⟩
    rw [Namespace.qualify, ← hspace]
  · rintro ⟨hdecl, hname⟩
    rw [hname]
    exact ⟨rfl, hdecl⟩

/-- The tree of a node with the name of a top-level element is read under its declaration. -/
theorem decodeElement_toElement_eq_ok {node read : Instance} {decl : ElementDecl}
    (hdecl : schema.element? decl.name = some decl)
    (hname : node.qualifiedName = schema.target.qualify decl.name) :
    schema.decodeElement node.toElement = .ok read ↔
      node.depth ≤ schema.limits.depth ∧
        schema.decode node.toElement decl.name decl.type = .ok read := by
  have hroot : schema.rootDecl? node.toElement = some decl :=
    rootDecl?_eq_some_iff.2 ⟨hdecl, (Instance.toElement_name node).trans hname⟩
  rw [decodeElement_eq_ok, hroot, Instance.depth_toElement]
  simp only [Option.some.injEq, exists_eq_left']

/-- A root element that is not too deep is refused only as a mismatch. -/
theorem onlyMismatches_decodeElement (hassembled : schema.Assembled) {element : Xml.Element}
    (hdepth : element.depth ≤ schema.limits.depth) :
    OnlyMismatches (schema.decodeElement element) := by
  unfold decodeElement
  rw [bind_of_eq_ok (mapError_eq_ok.2 (Limits.checkDepth_eq_ok.2 hdepth))]
  split
  · next decl hroot =>
    have hdecl := (mem_of_element? (rootDecl?_eq_some.1 hroot).2).1
    exact onlyMismatches_decode hassembled element (all_of_mem_elements hassembled.allTypes hdecl)
  · exact onlyMismatches_error

/-- The grammar of a schema without wildcards is what reading accepts: an element is read if and
only if it is not too deep and derives as a top-level element, and one that is not too deep and does
not derive is refused as a mismatch. -/
theorem exists_decodeElement_iff (hassembled : schema.Assembled)
    (hclosed : schema.WithoutWildcards) (element : Xml.Element) :
    ((∃ node, schema.decodeElement element = .ok node) ↔
      element.depth ≤ schema.limits.depth ∧ schema.DerivesRoot element) ∧
    (element.depth ≤ schema.limits.depth → ¬ schema.DerivesRoot element →
      ∃ found, schema.decodeElement element = .error (.mismatch found)) := by
  have haccepts : (∃ node, schema.decodeElement element = .ok node) ↔
      element.depth ≤ schema.limits.depth ∧ schema.DerivesRoot element := by
    simp only [decodeElement_eq_ok, rootDecl?_eq_some_iff]
    constructor
    · rintro ⟨node, hdepth, decl, ⟨hdecl, hname⟩, hread⟩
      have htyped := isTyped_of_mem hassembled hclosed (mem_of_element? hdecl).1
      exact ⟨hdepth, decl, hdecl, hname,
        (exists_decode_iff hassembled hclosed element htyped).1 ⟨node, hread⟩⟩
    · rintro ⟨hdepth, decl, hdecl, hname, hderives⟩
      have htyped := isTyped_of_mem hassembled hclosed (mem_of_element? hdecl).1
      obtain ⟨node, hread⟩ := (exists_decode_iff hassembled hclosed element htyped).2 hderives
      exact ⟨node, hdepth, decl, ⟨hdecl, hname⟩, hread⟩
  refine ⟨haccepts, ?_⟩
  intro hdepth hnot
  cases hread : schema.decodeElement element with
  | ok node => exact absurd (haccepts.1 ⟨node, hread⟩).2 hnot
  | error error =>
    obtain ⟨found, rfl⟩ := onlyMismatches_decodeElement hassembled hdepth error hread
    exact ⟨found, rfl⟩

/-- Sections with a level and a title, in which sections may stand again. -/
def sectionType : ComplexType :=
  ⟨some "Section", .sequence [.element ⟨"title", .simple (.ofKind .string), .once⟩,
    .element ⟨"section", .named "Section", .zeroOrMore⟩], [⟨"level", .ofKind .int, true⟩]⟩

/-- The schema of outlines, whose type refers to itself. -/
def outline : Schema :=
  ⟨⟨"urn:outline", "o"⟩, [("Section", .complex sectionType)],
    [⟨"section", .named "Section", .once⟩], {}⟩

/-- The schema of outlines is what defining them gives. -/
theorem define_outline :
    define ⟨"urn:outline", "o"⟩
      [.complex sectionType, .element ⟨"section", .named "Section", .once⟩] = .ok outline := rfl

/-- A section with a title and with other sections in it. -/
def sectionElement (attributes : Xml.Attributes) (sections : List Xml.Element) : Xml.Element :=
  ⟨outline.target.qualify "section", none, attributes, none,
    ⟨outline.target.qualify "title", none, .empty, some "On", []⟩ :: sections⟩

/-- The attribute of a section that tells its level. -/
def levelOf (text : String) : Xml.Attributes :=
  .ofPairs [(.unqualified "level", text)]

/-- A section derives if its attributes and the sections in it do. -/
theorem derives_sectionElement {attributes : Xml.Attributes} {sections : List Xml.Element}
    (hattributes : AttributesDerive sectionType.attributes attributes)
    (hsections : ∀ child ∈ sections, child.name = outline.target.qualify "section" ∧
      Derives outline (.named "Section") child) :
    Derives outline (.named "Section") (sectionElement attributes sections) := by
  refine .sequence rfl rfl (ChildrenDerive.run (List.forall_mem_singleton.2 rfl)
    ⟨Nat.le_refl _, ?_⟩ ?_ ?_) hattributes
  · rintro max ⟨⟩
    exact Nat.le_refl _
  · exact List.forall_mem_singleton.2 (.simple rfl rfl ⟨_, rfl⟩)
  · rw [← List.append_nil sections]
    exact .run (fun child hchild => (hsections child hchild).1) ⟨Nat.zero_le _, nofun⟩
      (fun child hchild => (hsections child hchild).2) .done

/-- A section has the attributes of its type if its level is an integer. -/
theorem attributesDerive_levelOf {text : String} (h : Kind.int.IsLexical text) :
    AttributesDerive sectionType.attributes (levelOf text) := by
  constructor
  · exact List.forall_mem_singleton.2 fun _ => ⟨text, rfl⟩
  · refine List.forall_mem_singleton.2 ?_
    rintro _ ⟨⟩
    exact h

/-- A section with another one in it is read, unless the inner one lacks its level. -/
theorem exists_decodeElement_outline :
    (∃ node, outline.decodeElement
      (sectionElement (levelOf "1") [sectionElement (levelOf " +2 ") []]) = .ok node) ∧
    ∃ found, outline.decodeElement
      (sectionElement (levelOf "1") [sectionElement .empty []]) = .error (.mismatch found) := by
  have hassembled := assembled_of_define define_outline
  have hdepth : ∀ outer inner,
      (sectionElement outer [sectionElement inner []]).depth ≤ outline.limits.depth := by
    intro outer inner
    rw [Xml.Element.depth_eq_height]
    exact Nat.le_of_ble_eq_true rfl
  constructor
  · refine (exists_decodeElement_iff hassembled rfl _).1.2
      ⟨hdepth _ _, ⟨"section", .named "Section", .once⟩, rfl, rfl, ?_⟩
    refine derives_sectionElement (attributesDerive_levelOf ⟨.int 1, by decide⟩) ?_
    refine List.forall_mem_singleton.2 ⟨rfl, ?_⟩
    exact derives_sectionElement (attributesDerive_levelOf ⟨.int 2, by decide⟩) nofun
  · refine (exists_decodeElement_iff hassembled rfl _).2 (hdepth _ _) ?_
    intro hderives
    obtain ⟨node, hread⟩ := (exists_decodeElement_iff hassembled rfl _).1.2 ⟨hdepth _ _, hderives⟩
    obtain ⟨_, decl, hroot, hread⟩ := decodeElement_eq_ok.1 hread
    cases hroot
    cases hread

end Schema

end TypedXml
