import TypedXml.Instance.Decoding
import TypedXml.Proofs.Outcome
import TypedXml.Proofs.Scalar.Lexical

/-!
# What reading an element tree takes apart

Reading goes along the particles of a sequence with a cursor in the children.  Here the same is
said without a cursor: the children are a run for each particle, one after the other, and a run is
where it is because it cannot go on.  `decode_eq_ok` puts this together with the text and the
attributes of an element, so that no other proof has to open the functions that read.
-/

set_option autoImplicit false

namespace TypedXml

namespace Schema

/-! ## Runs of children -/

/-- The children `taken` after `count` others, and then `left`, are what a particle takes and what
it leaves: it stops when it is full or when the next child does not fit. -/
structure IsRun (fits : Child → Bool) (occurs : Occurs) (count : Nat) (taken left : List Child) :
    Prop where
  all_fit : ∀ child ∈ taken, fits child = true
  room : ∀ k < taken.length, occurs.isFull (count + k) = false
  stops : occurs.isFull (count + taken.length) = true ∨ ∀ child ∈ left.head?, fits child = false

/-- An empty run stops where it stands. -/
theorem isRun_nil {fits : Child → Bool} {occurs : Occurs} {count : Nat} {left : List Child} :
    IsRun fits occurs count [] left ↔
      occurs.isFull count = true ∨ ∀ child ∈ left.head?, fits child = false :=
  ⟨fun h => h.stops, fun h => ⟨by simp, by simp, h⟩⟩

/-- A run with a child goes on behind it, as there is room for it and it fits. -/
theorem isRun_cons {fits : Child → Bool} {occurs : Occurs} {count : Nat} {child : Child}
    {taken left : List Child} :
    IsRun fits occurs count (child :: taken) left ↔
      occurs.isFull count = false ∧ fits child = true ∧
        IsRun fits occurs (count + 1) taken left := by
  constructor
  · intro h
    have hfit := List.forall_mem_cons.1 h.all_fit
    refine ⟨h.room 0 (by simp), hfit.1, hfit.2, ?_, ?_⟩
    · intro k hk
      have hroom := h.room (k + 1) (by simpa using hk)
      rwa [Nat.add_comm k 1, ← Nat.add_assoc] at hroom
    · have hstops := h.stops
      rwa [List.length_cons, Nat.add_comm taken.length 1, ← Nat.add_assoc] at hstops
  · rintro ⟨hfull, hfit, h⟩
    refine ⟨List.forall_mem_cons.2 ⟨hfit, h.all_fit⟩, ?_, ?_⟩
    · intro k hk
      cases k with
      | zero => exact hfull
      | succ k =>
        have hroom := h.room k (by simpa using hk)
        rwa [Nat.add_assoc, Nat.add_comm 1 k] at hroom
    · have hstops := h.stops
      rwa [Nat.add_assoc, Nat.add_comm 1] at hstops

/-- An empty run stops in front of a child that cannot be taken. -/
theorem isRun_nil_cons {fits : Child → Bool} {occurs : Occurs} {count : Nat} {child : Child}
    {left : List Child} :
    IsRun fits occurs count [] (child :: left) ↔
      ¬ (occurs.isFull count = false ∧ fits child = true) := by
  rw [isRun_nil, List.head?_cons]
  simp only [Option.mem_some_iff, forall_eq']
  cases occurs.isFull count <;> simp

/-- A particle takes children and leaves others if and only if they make up its run. -/
theorem takeRun_eq_iff {fits : Child → Bool} {occurs : Occurs} {count : Nat}
    {children taken left : List Child} :
    takeRun fits occurs count children = (taken, left) ↔
      children = taken ++ left ∧ IsRun fits occurs count taken left := by
  induction children generalizing count taken left with
  | nil =>
    rw [takeRun, Prod.mk.injEq]
    constructor
    · rintro ⟨rfl, rfl⟩
      exact ⟨rfl, isRun_nil.2 (Or.inr (by simp))⟩
    · rintro ⟨hsplit, _⟩
      obtain ⟨rfl, rfl⟩ := List.append_eq_nil_iff.1 hsplit.symm
      exact ⟨rfl, rfl⟩
  | cons child rest ih =>
    rw [takeRun]
    by_cases hgo : occurs.isFull count = false ∧ fits child = true
    · rw [if_pos (by rw [hgo.1, hgo.2]; rfl), Prod.mk.injEq]
      constructor
      · rintro ⟨rfl, rfl⟩
        obtain ⟨hsplit, hrun⟩ := (@ih (count + 1) _ _).1 rfl
        exact ⟨by rw [List.cons_append, ← hsplit], isRun_cons.2 ⟨hgo.1, hgo.2, hrun⟩⟩
      · rintro ⟨hsplit, hrun⟩
        cases taken with
        | nil =>
          rw [List.nil_append] at hsplit
          subst hsplit
          exact absurd hgo (isRun_nil_cons.1 hrun)
        | cons first taken =>
          rw [List.cons_append, List.cons.injEq] at hsplit
          obtain ⟨rfl, hrest⟩ := hsplit
          have hnext := ih.2 ⟨hrest, (isRun_cons.1 hrun).2.2⟩
          rw [hnext]
          exact ⟨rfl, rfl⟩
    · rw [if_neg (by simpa using hgo), Prod.mk.injEq]
      constructor
      · rintro ⟨rfl, rfl⟩
        exact ⟨rfl, isRun_nil_cons.2 hgo⟩
      · rintro ⟨hsplit, hrun⟩
        cases taken with
        | nil =>
          rw [List.nil_append] at hsplit
          exact ⟨rfl, hsplit⟩
        | cons first taken =>
          rw [List.cons_append, List.cons.injEq] at hsplit
          obtain ⟨rfl, _⟩ := hsplit
          have hfirst := isRun_cons.1 hrun
          exact absurd ⟨hfirst.1, hfirst.2.1⟩ hgo

/-- Whether a child fits a particle that is followed by others in its sequence. -/
def childFits (schema : Schema) (later : List Particle) (particle : Particle) (child : Child) :
    Bool :=
  schema.fits later child.element particle

/-- The fields that children are read as along the particles of a sequence: each particle has a
run of children, and an empty run gives no field. -/
inductive FieldsRead (schema : Schema) : List Particle → List Child → List (String × Field) → Prop
  | done : FieldsRead schema [] [] []
  | absent {particle : Particle} {later : List Particle} {children : List Child}
      {fields : List (String × Field)} (enough : particle.occurs.isMissing 0 = false)
      (run : IsRun (schema.childFits later particle) particle.occurs 0 [] children)
      (rest : FieldsRead schema later children fields) :
      FieldsRead schema (particle :: later) children fields
  | present {particle : Particle} {later : List Particle} {taken left : List Child} {field : Field}
      {fields : List (String × Field)} (nonempty : taken ≠ [])
      (enough : particle.occurs.isMissing taken.length = false)
      (run : IsRun (schema.childFits later particle) particle.occurs 0 taken left)
      (read : decodeField taken particle = .ok field) (rest : FieldsRead schema later left fields) :
      FieldsRead schema (particle :: later) (taken ++ left) ((particle.key, field) :: fields)

/-- Where reading gives fields, the children are a run for each particle. -/
theorem fieldsRead_of_decodeFields {schema : Schema} {owner : String} {particles : List Particle}
    {children : List Child} {fields : List (String × Field)}
    (h : decodeFields schema owner particles children = .ok fields) :
    FieldsRead schema particles children fields := by
  induction particles generalizing children fields with
  | nil =>
    cases children with
    | nil =>
      rw [decodeFields] at h
      cases h
      exact .done
    | cons child rest =>
      rw [decodeFields] at h
      cases h
  | cons particle later ih =>
    rw [decodeFields] at h
    cases htake : takeRun (fun child => schema.fits later child.element particle)
        particle.occurs 0 children with
    | mk taken left =>
      rw [htake] at h
      obtain ⟨rfl, hrun⟩ := takeRun_eq_iff.1 htake
      simp only at h
      split at h
      · cases h
      · next hmissing =>
        rw [Bool.not_eq_true] at hmissing
        split at h
        · next hempty =>
          rw [List.isEmpty_iff] at hempty
          subst hempty
          exact .absent hmissing hrun (ih h)
        · next hempty =>
          rw [List.isEmpty_iff] at hempty
          obtain ⟨field, hfield, h⟩ := bind_eq_ok.1 h
          obtain ⟨others, hothers, h⟩ := bind_eq_ok.1 h
          cases h
          exact .present hempty hmissing hrun hfield (ih hothers)

/-- Where the children are a run for each particle, reading gives their fields. -/
theorem FieldsRead.decodeFields {schema : Schema} {owner : String} {particles : List Particle}
    {children : List Child} {fields : List (String × Field)}
    (h : FieldsRead schema particles children fields) :
    decodeFields schema owner particles children = .ok fields := by
  induction h with
  | done => rfl
  | @absent particle later children fields enough run rest ih =>
    have htake : takeRun (fun child => schema.fits later child.element particle)
        particle.occurs 0 children = ([], children) := takeRun_eq_iff.2 ⟨rfl, run⟩
    rw [Schema.decodeFields, htake]
    simp only [List.length_nil, enough, List.isEmpty_nil, if_true]
    exact ih
  | @present particle later taken left field fields nonempty enough run read rest ih =>
    have htake : takeRun (fun child => schema.fits later child.element particle)
        particle.occurs 0 (taken ++ left) = (taken, left) := takeRun_eq_iff.2 ⟨rfl, run⟩
    have hempty : taken.isEmpty = false := by rwa [List.isEmpty_eq_false_iff]
    rw [Schema.decodeFields, htake]
    simp only [enough, hempty, read, ih]
    rfl

/-- Reading gives fields if and only if the children are a run for each particle. -/
theorem decodeFields_eq_ok {schema : Schema} {owner : String} {particles : List Particle}
    {children : List Child} {fields : List (String × Field)} :
    decodeFields schema owner particles children = .ok fields ↔
      FieldsRead schema particles children fields :=
  ⟨fieldsRead_of_decodeFields, FieldsRead.decodeFields⟩

/-! ## The field of a run -/

/-- The field that reads a run of children. -/
inductive FieldRead : List Child → Particle → Field → Prop
  | any {taken : List Child} {wildcard : Wildcard} :
      FieldRead taken (.any wildcard) (.any (taken.map (·.element)))
  | one {child : Child} {decl : ElementDecl} {item : Instance}
      (single : decl.occurs.isSingle = true) (read : child.decode decl = .ok item) :
      FieldRead [child] (.element decl) (.one item)
  | many {taken : List Child} {decl : ElementDecl} {items : List Instance}
      (repeated : decl.occurs.isSingle = false)
      (read : List.Forall₂ (fun child item => child.decode decl = .ok item) taken items) :
      FieldRead taken (.element decl) (.many items)

/-- The run of a single declaration has one child, unless it is empty. -/
theorem length_eq_one_of_isSingle {occurs : Occurs} {taken : List Child}
    (hsingle : occurs.isSingle = true) (hne : taken ≠ [])
    (hroom : ∀ k < taken.length, occurs.isFull (0 + k) = false) : taken.length = 1 := by
  rw [Occurs.isSingle, beq_iff_eq] at hsingle
  have hpos := List.length_pos_iff.2 hne
  by_contra hlength
  have hfull := hroom 1 (by omega)
  rw [Occurs.isFull, hsingle] at hfull
  cases hfull

/-- Where reading gives a field, it is that of the run. -/
theorem fieldRead_of_decodeField {taken : List Child} {particle : Particle} {field : Field}
    (h : decodeField taken particle = .ok field) (hne : taken ≠ [])
    (hroom : ∀ k < taken.length, particle.occurs.isFull (0 + k) = false) :
    FieldRead taken particle field := by
  cases particle with
  | any wildcard =>
    rw [decodeField] at h
    cases h
    exact .any
  | element decl =>
    rw [decodeField, bind_eq_ok] at h
    obtain ⟨items, hitems, h⟩ := h
    rw [mapM_eq_ok] at hitems
    by_cases hsingle : decl.occurs.isSingle = true
    · have hlength := length_eq_one_of_isSingle hsingle hne hroom
      obtain ⟨child, rfl⟩ := List.length_eq_one_iff.1 hlength
      rw [List.forall₂_cons_left_iff] at hitems
      obtain ⟨item, _, hitem, hnil, rfl⟩ := hitems
      rw [List.forall₂_nil_left_iff] at hnil
      subst hnil
      rw [hsingle] at h
      cases h
      exact .one hsingle hitem
    · rw [Bool.not_eq_true] at hsingle
      rw [hsingle] at h
      cases h
      exact .many hsingle hitems

/-- The field of a run is what reading gives. -/
theorem FieldRead.decodeField {taken : List Child} {particle : Particle} {field : Field}
    (h : FieldRead taken particle field) : decodeField taken particle = .ok field := by
  cases h with
  | any => rfl
  | @one child decl item single read =>
    rw [Schema.decodeField, bind_eq_ok]
    refine ⟨[item], mapM_eq_ok.2 (.cons read .nil), ?_⟩
    rw [single]
    rfl
  | @many _ decl items repeated read =>
    rw [Schema.decodeField, bind_eq_ok]
    refine ⟨items, mapM_eq_ok.2 read, ?_⟩
    rw [repeated]
    rfl

/-! ## Text and attributes -/

/-- A text is read as the scalar of its kind that holds its value. -/
theorem decodeScalar_eq_ok {kind : Kind} {text place : String} {scalar : Scalar} :
    decodeScalar kind text place = .ok scalar ↔
      scalar.kind = kind ∧ kind.read? text = some scalar.value := by
  rw [decodeScalar, Kind.parse]
  cases hread : kind.read? text with
  | none => simp
  | some value =>
    have hnative := (Kind.native_of_read? hread).2
    simp only [Except.ok.injEq, Option.some.injEq]
    constructor
    · rintro rfl
      exact ⟨rfl, hnative.symm⟩
    · rintro ⟨rfl, rfl⟩
      obtain ⟨kind, value, native⟩ := scalar
      simp only [Scalar.ofDatum, Scalar.mk.injEq, true_and]
      exact native

/-- The scalars that the attributes of an element are read as along their declarations. -/
inductive AttributesRead (attributes : Xml.Attributes) :
    List AttributeDecl → List (String × Scalar) → Prop
  | done : AttributesRead attributes [] []
  | absent {decl : AttributeDecl} {rest : List AttributeDecl} {scalars : List (String × Scalar)}
      (missing : attributes.valueOf? decl.name = none) (optional : decl.required = false)
      (others : AttributesRead attributes rest scalars) :
      AttributesRead attributes (decl :: rest) scalars
  | present {decl : AttributeDecl} {rest : List AttributeDecl} {text : String} {scalar : Scalar}
      {scalars : List (String × Scalar)} (found : attributes.valueOf? decl.name = some text)
      (kind : scalar.kind = decl.type.kind) (read : decl.type.kind.read? text = some scalar.value)
      (others : AttributesRead attributes rest scalars) :
      AttributesRead attributes (decl :: rest) ((decl.name, scalar) :: scalars)

/-- Reading gives attributes if and only if they are what the declarations make of those of the
element. -/
theorem decodeAttributes_eq_ok {owner : String} {attributes : Xml.Attributes}
    {decls : List AttributeDecl} {scalars : List (String × Scalar)} :
    decodeAttributes owner attributes decls = .ok scalars ↔
      AttributesRead attributes decls scalars := by
  constructor
  · intro h
    induction decls generalizing scalars with
    | nil =>
      cases h
      exact .done
    | cons decl rest ih =>
      rw [decodeAttributes] at h
      split at h
      · next text hfound =>
        obtain ⟨scalar, hscalar, h⟩ := bind_eq_ok.1 h
        obtain ⟨others, hothers, h⟩ := bind_eq_ok.1 h
        cases h
        obtain ⟨hkind, hread⟩ := decodeScalar_eq_ok.1 hscalar
        exact .present hfound hkind hread (ih hothers)
      · next hmissing =>
        split at h
        · cases h
        · next hrequired =>
          rw [Bool.not_eq_true] at hrequired
          exact .absent hmissing hrequired (ih h)
  · intro h
    induction h with
    | done => rfl
    | absent missing optional others ih =>
      rw [decodeAttributes, missing, optional]
      exact ih
    | @present decl rest text scalar scalars found kind read others ih =>
      rw [decodeAttributes, found]
      have hscalar : decodeScalar decl.type.kind text decl.name = .ok scalar :=
        decodeScalar_eq_ok.2 ⟨kind, read⟩
      simp only [hscalar, ih]
      rfl

/-! ## Elements -/

/-- The child that an element is. -/
def child (schema : Schema) (element : Xml.Element) : Child :=
  ⟨element, fun decl => decode schema element decl.name decl.type⟩

/-- Children are read one by one. -/
theorem readChildren_eq_map (schema : Schema) (elements : List Xml.Element) :
    readChildren schema elements = elements.map schema.child := by
  induction elements with
  | nil => rfl
  | cons element rest ih => rw [readChildren, ih, List.map_cons, child]

/-- An element with text only is let through if and only if it has no children. -/
theorem refuseChildren_eq_ok {owner : String} {children : List Xml.Element} :
    refuseChildren owner children = .ok () ↔ children = [] := by
  cases children with
  | nil => simp [refuseChildren]
  | cons child rest => simp [refuseChildren]

/-- The instance that an element is read as under a name and a type, by the form of the type. -/
inductive Reads (schema : Schema) (element : Xml.Element) (localName : String) (type : TypeRef) :
    Instance → Prop
  /-- An element of simple type holds text and no children; its attributes do not count. -/
  | scalar {simple : SimpleType} {value : Scalar}
      (resolved : schema.resolve type = .ok (.simple simple)) (childless : element.children = [])
      (kind : value.kind = simple.kind)
      (read : simple.kind.read? element.textOrEmpty = some value.value) :
      Reads schema element localName type ⟨localName, schema.target, .scalar value⟩
  | text {complex : ComplexType} {base : SimpleType} {value : Scalar}
      {attributes : List (String × Scalar)}
      (resolved : schema.resolve type = .ok (.complex complex))
      (content : complex.content = .simple base) (childless : element.children = [])
      (kind : value.kind = base.kind)
      (read : base.kind.read? element.textOrEmpty = some value.value)
      (scalars : AttributesRead element.attributes complex.attributes attributes) :
      Reads schema element localName type ⟨localName, schema.target, .text value attributes⟩
  /-- The children of any other element are the runs of its particles. -/
  | fields {complex : ComplexType} {particles : List Particle} {entries : List (String × Field)}
      {attributes : List (String × Scalar)}
      (resolved : schema.resolve type = .ok (.complex complex))
      (content : complex.content = .sequence particles)
      (parts : FieldsRead schema particles (element.children.map schema.child) entries)
      (scalars : AttributesRead element.attributes complex.attributes attributes) :
      Reads schema element localName type ⟨localName, schema.target, .fields entries attributes⟩

/-- Where reading gives an instance, this is the one that the form of the type asks for. -/
theorem reads_of_decode {schema : Schema} {element : Xml.Element} {localName : String}
    {type : TypeRef} {node : Instance} (h : decode schema element localName type = .ok node) :
    Reads schema element localName type node := by
  obtain ⟨name, preferred, attributes, text, children⟩ := element
  rw [decode, bind_eq_ok] at h
  obtain ⟨definition, hresolved, h⟩ := h
  cases definition with
  | simple simple =>
    obtain ⟨_, hchildren, h⟩ := bind_eq_ok.1 h
    obtain ⟨value, hvalue, h⟩ := bind_eq_ok.1 h
    cases h
    obtain ⟨hkind, hread⟩ := decodeScalar_eq_ok.1 hvalue
    exact .scalar hresolved (refuseChildren_eq_ok.1 hchildren) hkind hread
  | complex complex =>
    simp only at h
    split at h
    · next base hcontent =>
      obtain ⟨_, hchildren, h⟩ := bind_eq_ok.1 h
      obtain ⟨value, hvalue, h⟩ := bind_eq_ok.1 h
      obtain ⟨scalars, hscalars, h⟩ := bind_eq_ok.1 h
      cases h
      obtain ⟨hkind, hread⟩ := decodeScalar_eq_ok.1 hvalue
      exact .text hresolved hcontent (refuseChildren_eq_ok.1 hchildren) hkind hread
        (decodeAttributes_eq_ok.1 hscalars)
    · next particles hcontent =>
      obtain ⟨entries, hentries, h⟩ := bind_eq_ok.1 h
      obtain ⟨scalars, hscalars, h⟩ := bind_eq_ok.1 h
      cases h
      rw [readChildren_eq_map] at hentries
      exact .fields hresolved hcontent (decodeFields_eq_ok.1 hentries)
        (decodeAttributes_eq_ok.1 hscalars)

/-- The instance that the form of the type asks for is what reading gives. -/
theorem Reads.decode {schema : Schema} {element : Xml.Element} {localName : String}
    {type : TypeRef} {node : Instance} (h : Reads schema element localName type node) :
    decode schema element localName type = .ok node := by
  obtain ⟨name, preferred, attributes, text, children⟩ := element
  rw [Schema.decode, bind_eq_ok]
  cases h with
  | @scalar simple value resolved childless kind read =>
    refine ⟨_, resolved, ?_⟩
    have hvalue : decodeScalar simple.kind (text.getD "") localName = .ok value :=
      decodeScalar_eq_ok.2 ⟨kind, read⟩
    have hchildren : refuseChildren name.localName children = .ok () :=
      refuseChildren_eq_ok.2 childless
    exact bind_eq_ok.2 ⟨(), hchildren, bind_eq_ok.2 ⟨value, hvalue, rfl⟩⟩
  | @text complex base value scalars resolved content childless kind read hscalars =>
    refine ⟨_, resolved, ?_⟩
    have hvalue : decodeScalar base.kind (text.getD "") localName = .ok value :=
      decodeScalar_eq_ok.2 ⟨kind, read⟩
    have hchildren : refuseChildren name.localName children = .ok () :=
      refuseChildren_eq_ok.2 childless
    have hattributes : decodeAttributes name.localName attributes complex.attributes =
        .ok scalars := decodeAttributes_eq_ok.2 hscalars
    simp only [content]
    exact bind_eq_ok.2 ⟨(), hchildren, bind_eq_ok.2 ⟨value, hvalue,
      bind_eq_ok.2 ⟨scalars, hattributes, rfl⟩⟩⟩
  | @fields complex particles entries scalars resolved content parts hscalars =>
    refine ⟨_, resolved, ?_⟩
    have hentries : decodeFields schema name.localName particles (children.map schema.child) =
        .ok entries := decodeFields_eq_ok.2 parts
    have hattributes : decodeAttributes name.localName attributes complex.attributes =
        .ok scalars := decodeAttributes_eq_ok.2 hscalars
    simp only [content, readChildren_eq_map]
    exact bind_eq_ok.2 ⟨entries, hentries, bind_eq_ok.2 ⟨scalars, hattributes, rfl⟩⟩

/-- Reading an element gives an instance if and only if the instance holds what the form of the
type asks of the text, the children and the attributes of the element. -/
theorem decode_eq_ok {schema : Schema} {element : Xml.Element} {localName : String}
    {type : TypeRef} {node : Instance} :
    decode schema element localName type = .ok node ↔
      Reads schema element localName type node :=
  ⟨reads_of_decode, Reads.decode⟩

section

variable {schema : Schema} {element : Xml.Element} {localName : String} {type : TypeRef}
  {complex : ComplexType} {node : Instance}

/-- Under a simple type an element without children is read as the scalar of its text. -/
theorem decode_simple_eq_ok {simple : SimpleType}
    (resolved : schema.resolve type = .ok (.simple simple)) :
    decode schema element localName type = .ok node ↔
      element.children = [] ∧ ∃ value : Scalar, value.kind = simple.kind ∧
        simple.kind.read? element.textOrEmpty = some value.value ∧
        node = ⟨localName, schema.target, .scalar value⟩ := by
  rw [decode_eq_ok]
  constructor
  · intro h
    cases h with
    | scalar found childless kind read =>
      rw [resolved] at found
      cases found
      exact ⟨childless, _, kind, read, rfl⟩
    | text found | fields found =>
      rw [resolved] at found
      cases found
  · rintro ⟨childless, value, kind, read, rfl⟩
    exact .scalar resolved childless kind read

/-- Under a type whose content is text an element without children is read as its text and its
attributes. -/
theorem decode_text_eq_ok {base : SimpleType}
    (resolved : schema.resolve type = .ok (.complex complex))
    (content : complex.content = .simple base) :
    decode schema element localName type = .ok node ↔
      element.children = [] ∧ ∃ (value : Scalar) (attributes : List (String × Scalar)),
        value.kind = base.kind ∧ base.kind.read? element.textOrEmpty = some value.value ∧
        AttributesRead element.attributes complex.attributes attributes ∧
        node = ⟨localName, schema.target, .text value attributes⟩ := by
  rw [decode_eq_ok]
  constructor
  · intro h
    cases h with
    | scalar found =>
      rw [resolved] at found
      cases found
    | text found foundContent childless kind read scalars =>
      rw [resolved] at found
      cases found
      rw [content] at foundContent
      cases foundContent
      exact ⟨childless, _, _, kind, read, scalars, rfl⟩
    | fields found foundContent =>
      rw [resolved] at found
      cases found
      rw [content] at foundContent
      cases foundContent
  · rintro ⟨childless, value, attributes, kind, read, scalars, rfl⟩
    exact .text resolved content childless kind read scalars

/-- Under a sequence an element is read as the fields of its children and its attributes. -/
theorem decode_sequence_eq_ok {particles : List Particle}
    (resolved : schema.resolve type = .ok (.complex complex))
    (content : complex.content = .sequence particles) :
    decode schema element localName type = .ok node ↔
      ∃ (entries : List (String × Field)) (attributes : List (String × Scalar)),
        FieldsRead schema particles (element.children.map schema.child) entries ∧
        AttributesRead element.attributes complex.attributes attributes ∧
        node = ⟨localName, schema.target, .fields entries attributes⟩ := by
  rw [decode_eq_ok]
  constructor
  · intro h
    cases h with
    | scalar found =>
      rw [resolved] at found
      cases found
    | text found foundContent =>
      rw [resolved] at found
      cases found
      rw [content] at foundContent
      cases foundContent
    | fields found foundContent parts scalars =>
      rw [resolved] at found
      cases found
      rw [content] at foundContent
      cases foundContent
      exact ⟨_, _, parts, scalars, rfl⟩
  · rintro ⟨entries, attributes, parts, scalars, rfl⟩
    exact .fields resolved content parts scalars

end

/-! ## Root elements -/

variable {schema : Schema}

/-- A root element is read if it is not too deep, is declared, and is read under its
declaration. -/
theorem decodeElement_eq_ok {element : Xml.Element} {node : Instance} :
    schema.decodeElement element = .ok node ↔
      element.depth ≤ schema.limits.depth ∧ ∃ decl, schema.rootDecl? element = some decl ∧
        schema.decode element decl.name decl.type = .ok node := by
  rw [decodeElement, check_bind_eq_ok, mapError_eq_ok, Limits.checkDepth_eq_ok]
  cases schema.rootDecl? element with
  | none => simp
  | some decl => simp

/-- The declaration of a root element is found by its local name, if it is in the target
namespace. -/
theorem rootDecl?_eq_some {element : Xml.Element} {decl : ElementDecl} :
    schema.rootDecl? element = some decl ↔
      element.name.space = some schema.target.uri ∧
        schema.element? element.name.localName = some decl := by
  unfold rootDecl?
  by_cases hspace : element.name.space = some schema.target.uri
  · simp [hspace]
  · simp [hspace]

end Schema

end TypedXml
