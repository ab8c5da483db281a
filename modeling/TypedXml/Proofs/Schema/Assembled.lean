import TypedXml.Proofs.Entries
import TypedXml.Proofs.Outcome
import TypedXml.Soap

/-!
# Assembled schemas

Assembly refuses a batch in which any complex type, however deep it is written inside of others,
has a key or a name twice.  Here this is turned round: whatever is met on a walk through an
assembled schema, from its elements through the types of their particles, is regular.  A walk does
not end, since types can refer to themselves, so the condition is stated over the types as they are
written and carried along references by the type table.
-/

set_option autoImplicit false

namespace TypedXml

/-- A schema that assembly gives for some batch.  A schema that is defined and one that is
extended are assembled, the one with the limits that hold by default, the other with those of the
schema before. -/
def Schema.Assembled (schema : Schema) : Prop :=
  ∃ target limits declarations, Schema.assemble target limits declarations = .ok schema

/-- A schema that is defined is assembled. -/
theorem Schema.assembled_of_define {target : Namespace} {declarations : List Declaration}
    {schema : Schema} (h : Schema.define target declarations = .ok schema) : schema.Assembled :=
  ⟨target, {}, declarations, h⟩

/-- A schema that is extended is assembled. -/
theorem Schema.assembled_of_extend {schema extended : Schema} {declarations : List Declaration}
    (h : schema.extend declarations = .ok extended) : extended.Assembled :=
  ⟨schema.target, schema.limits, schema.declarations ++ declarations, h⟩

/-- The schema of envelopes is assembled. -/
theorem Soap.schema_assembled : Soap.schema.Assembled := by
  obtain ⟨envelopes, _, hextended⟩ := bind_eq_ok.1 Soap.assemble_eq_schema
  exact Schema.assembled_of_extend hextended

/-! ## The parts of one complex type -/

/-- What assembly asks of the particles and attributes of a complex type. -/
structure ComplexType.Regular (type : ComplexType) : Prop where
  keys_valid : ∀ particle ∈ type.particles, isNCName particle.key = true
  /-- The ranges of the particles allow an occurrence, and their bounds are not reversed. -/
  ranges_sane : ∀ particle ∈ type.particles, particle.occurs.check = .ok ()
  keys_distinct : (type.particles.map Particle.key).Nodup
  names_valid : ∀ decl ∈ type.attributes, isNCName decl.name = true
  names_distinct : (type.attributes.map AttributeDecl.name).Nodup
  apart : ∀ decl ∈ type.attributes, decl.name ∉ type.contentKeys

/-- The particles of a type are those of its sequence. -/
theorem ComplexType.particles_of_sequence {type : ComplexType} {particles : List Particle}
    (h : type.content = .sequence particles) : type.particles = particles := by
  rw [ComplexType.particles, h]

/-- A name passes its check if and only if it is an NCName. -/
theorem checkName_eq_ok {name : String} : checkName name = .ok () ↔ isNCName name = true := by
  unfold checkName
  split
  · next h => simp [h]
  · next h => simp [h]

/-- Particles pass their check if and only if their keys are valid, distinct and new and their
ranges are sane. -/
theorem checkParticles_eq_ok {seen : List String} {particles : List Particle} :
    checkParticles seen particles = .ok () ↔
      (∀ particle ∈ particles, isNCName particle.key = true) ∧
      (∀ particle ∈ particles, particle.occurs.check = .ok ()) ∧
      (∀ particle ∈ particles, particle.key ∉ seen) ∧ (particles.map Particle.key).Nodup := by
  induction particles generalizing seen with
  | nil => simp [checkParticles]
  | cons particle rest ih =>
    rw [checkParticles, check_bind_eq_ok, check_bind_eq_ok, checkName_eq_ok]
    simp only [List.forall_mem_cons, List.map_cons, List.nodup_cons, List.contains_iff_mem]
    by_cases hseen : particle.key ∈ seen
    · simp [hseen]
    · rw [if_neg hseen, ih]
      simp only [List.mem_cons, not_or, List.mem_map, not_exists, not_and]
      constructor
      · rintro ⟨hname, hcheck, hnames, hchecks, hfresh, hnodup⟩
        exact ⟨⟨hname, hnames⟩, ⟨hcheck, hchecks⟩, ⟨hseen, fun p hp => (hfresh p hp).2⟩,
          fun p hp => (hfresh p hp).1, hnodup⟩
      · rintro ⟨⟨hname, hnames⟩, ⟨hcheck, hchecks⟩, ⟨_, hfresh⟩, hother, hnodup⟩
        exact ⟨hname, hcheck, hnames, hchecks, fun p hp => ⟨hother p hp, hfresh p hp⟩, hnodup⟩

/-- Attributes pass their check if and only if their names are valid, distinct, new and no keys of
the content. -/
theorem checkAttributes_eq_ok {contentKeys seen : List String} {decls : List AttributeDecl} :
    checkAttributes contentKeys seen decls = .ok () ↔
      (∀ decl ∈ decls, isNCName decl.name = true) ∧ (∀ decl ∈ decls, decl.name ∉ contentKeys) ∧
      (∀ decl ∈ decls, decl.name ∉ seen) ∧ (decls.map AttributeDecl.name).Nodup := by
  induction decls generalizing seen with
  | nil => simp [checkAttributes]
  | cons decl rest ih =>
    rw [checkAttributes, check_bind_eq_ok, checkName_eq_ok]
    simp only [List.forall_mem_cons, List.map_cons, List.nodup_cons, List.contains_iff_mem]
    by_cases hseen : decl.name ∈ seen
    · simp [hseen]
    · by_cases hcontent : decl.name ∈ contentKeys
      · simp [hseen, hcontent]
      · rw [if_neg hseen, if_neg hcontent, ih]
        simp only [List.mem_cons, not_or, List.mem_map, not_exists, not_and]
        constructor
        · rintro ⟨hname, hnames, hcontents, hfresh, hnodup⟩
          exact ⟨⟨hname, hnames⟩, ⟨hcontent, hcontents⟩, ⟨hseen, fun d hd => (hfresh d hd).2⟩,
            fun d hd => (hfresh d hd).1, hnodup⟩
        · rintro ⟨⟨hname, hnames⟩, ⟨_, hcontents⟩, ⟨_, hfresh⟩, hother, hnodup⟩
          exact ⟨hname, hnames, hcontents, fun d hd => ⟨hother d hd, hfresh d hd⟩, hnodup⟩

/-- The parts of a type pass their check if and only if they are regular. -/
theorem ComplexType.checkParts_eq_ok {type : ComplexType} :
    type.checkParts = .ok () ↔ type.Regular := by
  rw [checkParts, check_bind_eq_ok, checkParticles_eq_ok, checkAttributes_eq_ok]
  constructor
  · rintro ⟨⟨hkeys, hranges, _, hnodup⟩, hnames, hapart, _, hdistinct⟩
    exact ⟨hkeys, hranges, hnodup, hnames, hdistinct, hapart⟩
  · intro h
    exact ⟨⟨h.keys_valid, h.ranges_sane, by simp, h.keys_distinct⟩, h.names_valid, h.apart,
      by simp, h.names_distinct⟩

/-! ## Conditions on all types -/

mutual

/-- Whether one condition holds of the names that a type is given by and another one of the complex
types that are written in it. -/
def TypeRef.all (onName : String → Bool) (onType : ComplexType → Bool) : TypeRef → Bool
  | .simple _ => true
  | .complex type => type.all onName onType
  | .named name => onName name

/-- The same for a complex type. -/
def ComplexType.all (onName : String → Bool) (onType : ComplexType → Bool) : ComplexType → Bool
  | ⟨name, content, attributes⟩ =>
    onType ⟨name, content, attributes⟩ && content.all onName onType

/-- The same for the content of a complex type. -/
def ContentModel.all (onName : String → Bool) (onType : ComplexType → Bool) :
    ContentModel → Bool
  | .simple _ => true
  | .sequence particles => Particle.allTypes onName onType particles

/-- The same for the types of particles. -/
def Particle.allTypes (onName : String → Bool) (onType : ComplexType → Bool) :
    List Particle → Bool
  | [] => true
  | .any _ :: rest => Particle.allTypes onName onType rest
  | .element ⟨_, type, _⟩ :: rest =>
    type.all onName onType && Particle.allTypes onName onType rest

end

namespace Schema

/-- Whether one condition holds of all names by which types are given in a schema and another one
of all complex types that are written in it, in its type table or below its elements. -/
def allTypes (onName : String → Bool) (onType : ComplexType → Bool) (schema : Schema) : Bool :=
  (schema.types.all fun entry => match entry.2 with
    | .simple _ => true
    | .complex type => type.all onName onType) &&
    schema.elements.all fun decl => decl.type.all onName onType

end Schema

section

variable {onName : String → Bool} {onType : ComplexType → Bool}

/-- A condition on the types written in a complex type holds of the type itself. -/
theorem ComplexType.holds_of_all {type : ComplexType} (h : type.all onName onType = true) :
    onType type = true := by
  obtain ⟨name, content, attributes⟩ := type
  rw [ComplexType.all, Bool.and_eq_true] at h
  exact h.1

/-- A condition on the types of particles holds of the type of each declaration among them. -/
theorem Particle.all_of_allTypes {particles : List Particle} {decl : ElementDecl}
    (h : Particle.allTypes onName onType particles = true) (hmem : .element decl ∈ particles) :
    decl.type.all onName onType = true := by
  induction particles with
  | nil => cases hmem
  | cons particle rest ih =>
    cases particle with
    | any wildcard =>
      rw [Particle.allTypes] at h
      rcases List.mem_cons.1 hmem with heq | hrest
      · cases heq
      · exact ih h hrest
    | element other =>
      obtain ⟨name, type, occurs⟩ := other
      rw [Particle.allTypes, Bool.and_eq_true] at h
      rcases List.mem_cons.1 hmem with heq | hrest
      · cases heq
        exact h.1
      · exact ih h.2 hrest

/-- A condition on the types written in a complex type goes over to the types of its particles. -/
theorem ComplexType.all_of_mem {type : ComplexType} {decl : ElementDecl}
    (h : type.all onName onType = true) (hmem : .element decl ∈ type.particles) :
    decl.type.all onName onType = true := by
  obtain ⟨name, content, attributes⟩ := type
  rw [ComplexType.all, Bool.and_eq_true] at h
  cases content with
  | simple base => cases hmem
  | sequence particles =>
    have hparticles := h.2
    rw [ContentModel.all] at hparticles
    exact Particle.all_of_allTypes hparticles hmem

/-- A condition on all types of a schema holds of the types of its elements. -/
theorem Schema.all_of_mem_elements {schema : Schema} {decl : ElementDecl}
    (h : schema.allTypes onName onType = true) (hmem : decl ∈ schema.elements) :
    decl.type.all onName onType = true := by
  rw [allTypes, Bool.and_eq_true, List.all_eq_true, List.all_eq_true] at h
  exact h.2 decl hmem

/-- Where all names are declared, each type leads to a definition. -/
theorem Schema.exists_resolve {schema : Schema} {type : TypeRef}
    (h : type.all schema.declares onType = true) :
    ∃ definition, schema.resolve type = .ok definition := by
  cases type with
  | simple simple => exact ⟨_, rfl⟩
  | complex complex => exact ⟨_, rfl⟩
  | named name =>
    have hdeclared : (schema.typeDefinition? name).isSome = true := h
    obtain ⟨definition, hdefinition⟩ := Option.isSome_iff_exists.1 hdeclared
    exact ⟨definition, by rw [Schema.resolve, hdefinition]⟩

/-- A condition on all types goes over to the types that references lead to. -/
theorem Schema.all_of_resolve {schema : Schema} {type : TypeRef} {complex : ComplexType}
    (hschema : schema.allTypes onName onType = true) (htype : type.all onName onType = true)
    (h : schema.resolve type = .ok (.complex complex)) : complex.all onName onType = true := by
  cases type with
  | simple simple => cases h
  | complex other =>
    cases h
    exact htype
  | named name =>
    rw [resolve] at h
    split at h
    · next definition hlookup =>
      cases h
      rw [allTypes, Bool.and_eq_true, List.all_eq_true] at hschema
      exact hschema.1 _ (mem_of_lookup hlookup)
    · cases h

end

section

variable {onName weakerName : String → Bool} {onType weakerType : ComplexType → Bool}

mutual

/-- A condition on the types written in a type implies every weaker one. -/
theorem TypeRef.all_imp (hname : ∀ name, onName name = true → weakerName name = true)
    (htype : ∀ complex, onType complex = true → weakerType complex = true) :
    (type : TypeRef) → type.all onName onType = true → type.all weakerName weakerType = true
  | .simple _, _ => rfl
  | .complex type, h => ComplexType.all_imp hname htype type h
  | .named name, h => hname name h

/-- The same for a complex type. -/
theorem ComplexType.all_imp (hname : ∀ name, onName name = true → weakerName name = true)
    (htype : ∀ complex, onType complex = true → weakerType complex = true) :
    (type : ComplexType) → type.all onName onType = true →
      type.all weakerName weakerType = true
  | ⟨name, content, attributes⟩, h => by
    rw [ComplexType.all, Bool.and_eq_true] at h
    rw [ComplexType.all, htype _ h.1, ContentModel.all_imp hname htype content h.2]
    rfl

/-- The same for the content of a complex type. -/
theorem ContentModel.all_imp (hname : ∀ name, onName name = true → weakerName name = true)
    (htype : ∀ complex, onType complex = true → weakerType complex = true) :
    (content : ContentModel) → content.all onName onType = true →
      content.all weakerName weakerType = true
  | .simple _, _ => rfl
  | .sequence particles, h => Particle.allTypes_imp hname htype particles h

/-- The same for the types of particles. -/
theorem Particle.allTypes_imp (hname : ∀ name, onName name = true → weakerName name = true)
    (htype : ∀ complex, onType complex = true → weakerType complex = true) :
    (particles : List Particle) → Particle.allTypes onName onType particles = true →
      Particle.allTypes weakerName weakerType particles = true
  | [], _ => rfl
  | .any _ :: rest, h => Particle.allTypes_imp hname htype rest h
  | .element ⟨_, type, _⟩ :: rest, h => by
    rw [Particle.allTypes, Bool.and_eq_true] at h
    rw [Particle.allTypes, TypeRef.all_imp hname htype type h.1,
      Particle.allTypes_imp hname htype rest h.2]
    rfl

end

/-- A condition on all types of a schema implies every weaker one. -/
theorem Schema.allTypes_imp {schema : Schema}
    (hname : ∀ name, onName name = true → weakerName name = true)
    (htype : ∀ complex, onType complex = true → weakerType complex = true)
    (h : schema.allTypes onName onType = true) :
    schema.allTypes weakerName weakerType = true := by
  rw [allTypes, Bool.and_eq_true, List.all_eq_true, List.all_eq_true] at h ⊢
  refine ⟨?_, fun decl hdecl => decl.type.all_imp hname htype (h.2 decl hdecl)⟩
  rintro ⟨name, definition⟩ hentry
  have hdefinition := h.1 _ hentry
  cases definition with
  | simple type => rfl
  | complex type => exact type.all_imp hname htype hdefinition

end

/-! ## What assembly establishes -/

mutual

/-- A type passes its check if its names are declared and its parts, and those of the types
written in it, pass theirs. -/
theorem TypeRef.all_of_check {declared : String → Bool} :
    (type : TypeRef) → type.check declared = .ok () →
      type.all declared (fun complex => complex.checkParts.isOk) = true
  | .simple _, _ => rfl
  | .complex type, h => ComplexType.all_of_check type (by rwa [TypeRef.check] at h)
  | .named name, h => by
    rw [TypeRef.check] at h
    split at h
    · next hname => exact hname
    · cases h

/-- The same for a complex type. -/
theorem ComplexType.all_of_check {declared : String → Bool} :
    (type : ComplexType) → type.check declared = .ok () →
      type.all declared (fun complex => complex.checkParts.isOk) = true
  | ⟨name, content, attributes⟩, h => by
    rw [ComplexType.check, bind_eq_ok] at h
    obtain ⟨_, hparts, hcontent⟩ := h
    rw [mapError_eq_ok] at hparts
    rw [ComplexType.all, hparts, ContentModel.all_of_check content hcontent]
    rfl

/-- The same for the content of a complex type. -/
theorem ContentModel.all_of_check {declared : String → Bool} :
    (content : ContentModel) → content.check declared = .ok () →
      content.all declared (fun complex => complex.checkParts.isOk) = true
  | .simple _, _ => rfl
  | .sequence particles, h =>
    Particle.allTypes_of_check particles (by rwa [ContentModel.check] at h)

/-- The same for the types of particles. -/
theorem Particle.allTypes_of_check {declared : String → Bool} :
    (particles : List Particle) → Particle.checkTypes declared particles = .ok () →
      Particle.allTypes declared (fun complex => complex.checkParts.isOk) particles = true
  | [], _ => rfl
  | .any _ :: rest, h => by
    rw [Particle.checkTypes] at h
    rw [Particle.allTypes]
    exact Particle.allTypes_of_check rest h
  | .element ⟨_, type, _⟩ :: rest, h => by
    rw [Particle.checkTypes, bind_eq_ok] at h
    obtain ⟨_, htype, hrest⟩ := h
    rw [Particle.allTypes, TypeRef.all_of_check type htype,
      Particle.allTypes_of_check rest hrest]
    rfl

end

namespace Schema

/-- Adding a type leaves the elements as they are. -/
theorem elements_of_addType {schema registered : Schema} {name : String}
    {definition : TypeDefinition}
    (h : (checkName name >>= fun _ => schema.addType name definition) = .ok registered) :
    registered.elements = schema.elements := by
  obtain ⟨_, _, h⟩ := bind_eq_ok.1 h
  unfold addType at h
  split at h
  · cases h
  · cases h
    rfl

/-- Registering a declaration keeps the names of the elements valid. -/
theorem register_names {schema registered : Schema} {declaration : Declaration}
    (h : schema.register declaration = .ok registered)
    (hnames : ∀ decl ∈ schema.elements, isNCName decl.name = true) :
    ∀ decl ∈ registered.elements, isNCName decl.name = true := by
  cases declaration with
  | element decl =>
    rw [register, bind_eq_ok] at h
    obtain ⟨_, hname, h⟩ := h
    split at h
    · cases h
    · cases h
      intro other hother
      rcases List.mem_append.1 hother with hold | hnew
      · exact hnames other hold
      · rw [List.mem_singleton.1 hnew]
        exact checkName_eq_ok.1 hname
  | complex type =>
    rw [register] at h
    split at h
    · cases h
    · rw [elements_of_addType h]
      exact hnames
  | simple type =>
    rw [register] at h
    split at h
    · cases h
    · rw [elements_of_addType h]
      exact hnames

/-- Registering a batch keeps the names of the elements valid. -/
theorem foldlM_register_names {schema registered : Schema} {declarations : List Declaration}
    (h : declarations.foldlM register schema = .ok registered)
    (hnames : ∀ decl ∈ schema.elements, isNCName decl.name = true) :
    ∀ decl ∈ registered.elements, isNCName decl.name = true := by
  induction declarations generalizing schema with
  | nil =>
    cases h
    exact hnames
  | cons declaration rest ih =>
    rw [List.foldlM_cons, bind_eq_ok] at h
    obtain ⟨next, hnext, hrest⟩ := h
    exact ih hrest (register_names hnext hnames)

variable {schema : Schema}

/-- An assembled schema has passed its check. -/
theorem Assembled.check (h : schema.Assembled) : schema.check = .ok () := by
  obtain ⟨target, limits, declarations, h⟩ := h
  rw [assemble, bind_eq_ok] at h
  obtain ⟨registered, _, h⟩ := h
  obtain ⟨_, hcheck, h⟩ := bind_eq_ok.1 h
  cases h
  exact hcheck

/-- The top-level elements of an assembled schema are named by NCNames. -/
theorem Assembled.names_valid (h : schema.Assembled) :
    ∀ decl ∈ schema.elements, isNCName decl.name = true := by
  obtain ⟨target, limits, declarations, h⟩ := h
  rw [assemble, bind_eq_ok] at h
  obtain ⟨registered, hregistered, h⟩ := h
  obtain ⟨_, _, h⟩ := bind_eq_ok.1 h
  cases h
  exact foldlM_register_names (mapError_eq_ok.1 hregistered) (by intro decl hdecl; cases hdecl)

/-- All types of an assembled schema have passed their check. -/
theorem Assembled.allTypes (h : schema.Assembled) :
    schema.allTypes schema.declares (fun type => type.checkParts.isOk) = true := by
  have hcheck := h.check
  rw [Schema.check, bind_eq_ok] at hcheck
  obtain ⟨_, htypes, helements⟩ := hcheck
  rw [forM_eq_ok] at htypes helements
  rw [Schema.allTypes, Bool.and_eq_true, List.all_eq_true, List.all_eq_true]
  constructor
  · intro entry hentry
    have hdefinition := htypes entry hentry
    obtain ⟨name, definition⟩ := entry
    cases definition with
    | simple type => rfl
    | complex type => exact ComplexType.all_of_check type hdefinition
  · intro decl hdecl
    have helement := helements decl hdecl
    rw [checkElement, bind_eq_ok] at helement
    obtain ⟨_, _, htype⟩ := helement
    exact TypeRef.all_of_check _ htype

/-- Where all complex types have passed the check of their parts, each of them is regular. -/
theorem regular_of_all {onName : String → Bool} {complex : ComplexType}
    (h : complex.all onName (fun type => type.checkParts.isOk) = true) : complex.Regular := by
  have hparts := ComplexType.holds_of_all h
  rw [← ComplexType.checkParts_eq_ok]
  cases hcheck : complex.checkParts with
  | ok _ => rfl
  | error fault =>
    rw [hcheck] at hparts
    cases hparts

/-- An element that is found is declared under the name. -/
theorem mem_of_element? {name : String} {decl : ElementDecl}
    (h : schema.element? name = some decl) : decl ∈ schema.elements ∧ decl.name = name := by
  rw [element?] at h
  have hname := List.find?_some h
  exact ⟨List.mem_of_find?_eq_some h, eq_of_beq hname⟩

end Schema

end TypedXml
