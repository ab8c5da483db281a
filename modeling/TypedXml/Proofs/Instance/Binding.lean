import TypedXml.Instance.Builder
import TypedXml.Proofs.Instance.AlikeValues
import TypedXml.Proofs.Instance.Built
import TypedXml.Proofs.Instance.DepthLimit
import TypedXml.Proofs.Instance.Failures

/-!
# Builders in the place of mappings

A builder takes the parts of a complex type one by one.  It knows the keys that construction takes
apart and no others, and after any calls it holds, for each of them, what the last call has set.
Binding it gives what a mapping with these parts gives, and where it fails, a part is refused in its
own place, never a key.

Construction comes in through a check that the root is not below the depth limit, and binding goes
in behind this check.  So the two agree unless the limit is zero.
-/

set_option autoImplicit false

namespace TypedXml

namespace Builder

variable {builder : Builder} {key other : String} {value : Value}

/-! ## Calls -/

/-- The builder after a call that sets a key; a call that fails leaves it as it is. -/
def attempt (builder : Builder) (call : String × Value) : Builder :=
  match builder.set call.1 call.2 with
  | .ok next => next
  | .error _ => builder

/-- The builder after some calls. -/
def after (builder : Builder) (calls : List (String × Value)) : Builder :=
  calls.foldl attempt builder

/-- The keys that a builder knows are those of its type. -/
theorem isKnown_iff : builder.isKnown key = true ↔ key ∈ builder.type.keys := by
  have hcontent : ((builder.type.particle? key).isSome ||
      (builder.type.textType?.isSome && key == textKey)) = true ↔
        key ∈ builder.type.contentKeys := by
    unfold ComplexType.particle? ComplexType.particles ComplexType.textType?
      ComplexType.contentKeys
    split
    · simp
    · simp
  have hattribute : (builder.type.attribute? key).isSome = true ↔
      key ∈ builder.type.attributes.map AttributeDecl.name := by
    simp [ComplexType.attribute?]
  rw [isKnown, ComplexType.keys, List.mem_append, ← hcontent, ← hattribute]
  simp only [Bool.or_eq_true]
  tauto

/-- A known key is written. -/
theorem set_of_mem (h : key ∈ builder.type.keys) :
    builder.set key value =
      .ok { builder with values := Entries.insert key value builder.values } := by
  rw [set, if_pos (isKnown_iff.2 h)]

/-- An unknown key is refused. -/
theorem set_of_not_mem (h : key ∉ builder.type.keys) :
    builder.set key value = .error (.construction (.unknownBuilderKey key)) := by
  rw [set, if_neg (mt isKnown_iff.1 h)]

/-- A call writes a known key, and does nothing for another one. -/
theorem attempt_eq :
    builder.attempt (key, value) =
      if key ∈ builder.type.keys then
        { builder with values := Entries.insert key value builder.values }
      else builder := by
  unfold attempt
  by_cases hkey : key ∈ builder.type.keys
  · rw [set_of_mem hkey, if_pos hkey]
  · rw [set_of_not_mem hkey, if_neg hkey]

/-- Whether a call changes at most the value of its own key, and nothing if it fails. -/
structure SetsOwnKey (builder : Builder) : Prop where
  known : ∀ key value, key ∈ builder.type.keys → ∃ next, builder.set key value = .ok next ∧
    ∀ other, next.get? other = if other = key then some value else builder.get? other
  unknown : ∀ key value, key ∉ builder.type.keys →
    builder.set key value = .error (.construction (.unknownBuilderKey key)) ∧
      builder.attempt (key, value) = builder

/-- Every builder changes by a call in the value of its own key at most. -/
theorem setsOwnKey (builder : Builder) : builder.SetsOwnKey where
  known key value hkey := by
    refine ⟨_, set_of_mem hkey, fun other => ?_⟩
    exact Entries.get?_insert key other value builder.values
  unknown key value hkey := by
    refine ⟨set_of_not_mem hkey, ?_⟩
    rw [attempt_eq, if_neg hkey]

/-- After some calls a builder has the values of those with known keys, written one after the
other. -/
theorem after_eq (calls : List (String × Value)) :
    builder.after calls =
      { builder with
        values := (calls.filter (·.1 ∈ builder.type.keys)).foldl
          (fun entries call => Entries.insert call.1 call.2 entries) builder.values } := by
  induction calls generalizing builder with
  | nil => rfl
  | cons call rest ih =>
    have hstep : builder.after (call :: rest) = (builder.attempt call).after rest := rfl
    rw [hstep, ih, attempt_eq]
    by_cases hkey : call.1 ∈ builder.type.keys
    · simp only [List.filter_cons, hkey, decide_true, if_true, List.foldl_cons]
    · simp only [List.filter_cons, hkey, decide_false, Bool.false_eq_true, if_false]

end Builder

namespace Schema

variable {schema : Schema} {complex : ComplexType} {decl : ElementDecl} {name : String}

/-- The value of a builder is the mapping of its successful calls. -/
theorem after_builder (calls : List (String × Value)) :
    (schema.builder complex).after calls =
      ⟨schema, complex, Entries.ofPairs (calls.filter (·.1 ∈ complex.keys))⟩ :=
  Builder.after_eq calls

/-- After any calls a builder has, for each key of its type, the value of the last one. -/
theorem get?_after (calls : List (String × Value)) (key : String) :
    ((schema.builder complex).after calls).get? key =
      if key ∈ complex.keys then calls.reverse.lookup key else none := by
  rw [after_builder, Builder.get?, Entries.lookup_ofPairs, ← List.filter_reverse]
  have hlookup := lookup_filter_key (· ∈ complex.keys) calls.reverse key
  simpa using hlookup

/-- The builder for an element is that of its complex type. -/
theorem elementBuilder_eq (h : schema.resolve decl.type = .ok (.complex complex)) :
    schema.elementBuilder decl = .ok (schema.builder complex) := by
  rw [elementBuilder, bind_of_eq_ok h]
  rfl

end Schema

/-! ## Parts under a limit of zero -/

namespace Construction

variable {place : Placing} {limits : Limits} {depth : Nat} {key : String}
  {entries : List (String × Value)} {value : Value}

/-- No element fits below the depth limit. -/
theorem wildcardElement_ne_ok (hlimit : limits.depth ≤ depth) (element : Xml.Element) :
    wildcardElement limits depth key value ≠ .ok element := by
  have hcheck {treeDepth : Nat} (htree : 0 < treeDepth) :
      checkBelow limits depth treeDepth ≠ .ok () := by
    intro h
    have hfits := Limits.checkDepth_eq_ok.1 (mapError_eq_ok.1 h)
    omega
  intro h
  unfold wildcardElement at h
  split at h
  · next node =>
    obtain ⟨_, hbelow, _⟩ := bind_eq_ok.1 h
    exact hcheck node.depth_pos hbelow
  · next element =>
    obtain ⟨_, hbelow, _⟩ := bind_eq_ok.1 h
    exact hcheck element.depth_pos hbelow
  · cases h

/-- Below the depth limit a wildcard gets no field. -/
theorem wildcard_ne_some (hlimit : limits.depth ≤ depth) (built : Field) :
    wildcard limits depth key value ≠ .ok (some built) := by
  intro h
  obtain ⟨elements, rfl, hne⟩ := wildcard_shaped h
  unfold wildcard at h
  extract_lets items at h
  split at h
  · cases h
  · obtain ⟨found, hfound, h⟩ := bind_eq_ok.1 h
    cases h
    obtain ⟨element, helement⟩ := List.exists_mem_of_ne_nil elements hne
    obtain ⟨item, _, hitem⟩ := exists_of_mem_results (mapM_eq_ok.1 hfound) helement
    exact wildcardElement_ne_ok hlimit element hitem

/-- Where no instance can be placed, a declaration gets no field. -/
theorem declared_ne_some {decl : ElementDecl} (hplace : ∀ part item, place decl part ≠ .ok item)
    (built : Field) : declared place decl value ≠ .ok (some built) := by
  intro h
  have hshaped : FieldShaped (fun _ _ => False) (.element decl) built :=
    declared_shaped (fun part _ item hitem => hplace part item hitem) h
  cases hshaped with
  | one _ shaped => exact shaped
  | many _ nonempty shaped =>
    obtain ⟨item, hitem⟩ := List.exists_mem_of_ne_nil _ nonempty
    exact shaped item hitem

/-- Where neither an instance nor an element can be placed, there are no fields. -/
theorem fields_eq_nil {particles : List Particle} {built : List (String × Field)}
    (hplace : ∀ decl part item, place decl part ≠ .ok item) (hlimit : limits.depth ≤ depth)
    (h : fields place limits depth entries particles = .ok built) : built = [] := by
  induction particles generalizing built with
  | nil =>
    cases h
    rfl
  | cons particle rest ih =>
    rw [fields] at h
    split at h
    · exact ih h
    · obtain ⟨first, hfirst, h⟩ := bind_eq_ok.1 h
      obtain ⟨others, hothers, h⟩ := bind_eq_ok.1 h
      cases first with
      | none =>
        cases h
        exact ih hothers
      | some field =>
        cases particle with
        | any wildcard => exact absurd hfirst (wildcard_ne_some hlimit field)
        | element decl => exact absurd hfirst (declared_ne_some (hplace decl) field)

end Construction

namespace Builder

variable {builder : Builder} {decl : ElementDecl} {name : String} {node : Instance}

/-! ## Binding and construction -/

/-- Above a limit of zero binding is construction at the root. -/
theorem bind_eq_placeRoot
    (hresolved : builder.schema.resolve decl.type = .ok (.complex builder.type))
    (hlimit : 0 < builder.schema.limits.depth) :
    builder.bind decl = builder.schema.placeRoot decl builder.toValue := by
  obtain ⟨levels, hlevels⟩ := Nat.exists_eq_succ_of_ne_zero hlimit.ne'
  rw [bind, Schema.placeRoot, hlevels, Schema.place, bind_of_eq_ok hresolved]
  rfl

/-- Under a limit of zero binding does not fail with the depth of the root. -/
theorem bind_ne_rootDepth (hlimit : builder.schema.limits.depth = 0) :
    builder.bind decl ≠ .error (.limit (.depth 1 0)) := by
  have hsort : CoversBelow (· ≠ .limit (.depth 1 0)) builder.schema.limits 1 := by
    refine ⟨nofun, fun found hfound heq => ?_⟩
    simp only [Error.limit.injEq, LimitExceeded.depth.injEq] at heq
    omega
  have hfails : FailsOnly (· ≠ .limit (.depth 1 0)) (builder.bind decl) := by
    refine FailsOnly.bind (Construction.failsOnly_content hsort ?_) fun _ _ => failsOnly_ok
    intro _ _ child _ part
    rw [hlimit]
    exact failsOnly_error (by simp)
  exact fun h => hfails _ h rfl

/-- Binding is construction under each limit but zero, where construction refuses every root. -/
theorem bind_eq_construct (helement : builder.schema.element? name = some decl)
    (hresolved : builder.schema.resolve decl.type = .ok (.complex builder.type)) :
    builder.bind decl = builder.schema.construct name builder.toValue ↔
      0 < builder.schema.limits.depth := by
  rw [Schema.construct_eq_placeRoot helement]
  constructor
  · intro hsame
    by_contra hzero
    have hlimit : builder.schema.limits.depth = 0 := Nat.eq_zero_of_not_pos hzero
    apply bind_ne_rootDepth hlimit
    rw [hsame, Schema.placeRoot, hlimit, Schema.place, hlimit]
  · exact bind_eq_placeRoot hresolved

/-- Under a limit of zero binding gives only nodes with nothing below. -/
theorem depth_of_bind (hlimit : builder.schema.limits.depth = 0)
    (h : builder.bind decl = .ok node) : node.depth = 1 := by
  rw [bind] at h
  have hbuilds := Construction.builds_of_node (by rintro _ ⟨⟩) h
  rw [Instance.depth_eq_height]
  cases hbuilds with
  | text content given => rfl
  | @fields complex particles built scalars content parts given =>
    have hempty : built = [] := by
      apply Construction.fields_eq_nil ?_ (hlimit.trans_le (Nat.zero_le 1)) parts
      intro child part item hitem
      rw [hlimit] at hitem
      cases hitem
    rw [hempty]
    rfl

/-- The limit holds for what is bound, except that zero is taken for one. -/
theorem depth_le_of_bind (helement : builder.schema.element? name = some decl)
    (hresolved : builder.schema.resolve decl.type = .ok (.complex builder.type))
    (h : builder.bind decl = .ok node) : node.depth ≤ max 1 builder.schema.limits.depth := by
  by_cases hlimit : 0 < builder.schema.limits.depth
  · rw [(bind_eq_construct helement hresolved).2 hlimit] at h
    exact Nat.le_trans (Schema.depth_le_of_construct h) (Nat.le_max_right _ _)
  · rw [depth_of_bind (Nat.eq_zero_of_not_pos hlimit) h]
    exact Nat.le_max_left _ _

end Builder

/-! ## Failures -/

namespace Construction

variable {place : Placing} {limits : Limits} {depth : Nat} {name : String} {type : ComplexType}
  {entries : List (String × Value)}

/-- Attributes fail only by the value of one of them. -/
theorem exists_refused_attribute {decls : List AttributeDecl} {fault : ConstructionFault}
    (h : attributes entries decls = .error fault) :
    ∃ decl ∈ decls, ∃ value, entries.lookup decl.name = some value ∧
      Scalar.ofValue decl.type.kind decl.name value = .error fault := by
  induction decls with
  | nil => cases h
  | cons decl rest ih =>
    have hrest (hfails : attributes entries rest = .error fault) :
        ∃ other ∈ decl :: rest, ∃ value, entries.lookup other.name = some value ∧
          Scalar.ofValue other.type.kind other.name value = .error fault := by
      obtain ⟨other, hother, hrefused⟩ := ih hfails
      exact ⟨other, List.mem_cons_of_mem _ hother, hrefused⟩
    rw [attributes] at h
    split at h
    · exact hrest h
    · exact hrest h
    · next value _ hvalue =>
      rcases bind_eq_error.1 h with hscalar | ⟨scalar, _, h⟩
      · exact ⟨decl, List.mem_cons_self, value, hvalue, hscalar⟩
      · rcases bind_eq_error.1 h with hothers | ⟨others, _, h⟩
        · exact hrest hothers
        · cases h

/-- Fields fail only by the value of a particle. -/
theorem exists_refused_field {particles : List Particle} {error : Error}
    (h : fields place limits depth entries particles = .error error) :
    ∃ particle ∈ particles, ∃ value, entries.lookup particle.key = some value ∧
      field place limits depth value particle = .error error := by
  induction particles with
  | nil => cases h
  | cons particle rest ih =>
    have hrest (hfails : fields place limits depth entries rest = .error error) :
        ∃ other ∈ particle :: rest, ∃ value, entries.lookup other.key = some value ∧
          field place limits depth value other = .error error := by
      obtain ⟨other, hother, hrefused⟩ := ih hfails
      exact ⟨other, List.mem_cons_of_mem _ hother, hrefused⟩
    rw [fields] at h
    split at h
    · exact hrest h
    · next value hvalue =>
      rcases bind_eq_error.1 h with hfield | ⟨first, _, h⟩
      · exact ⟨particle, List.mem_cons_self, value, hvalue, hfield⟩
      · rcases bind_eq_error.1 h with hothers | ⟨others, _, h⟩
        · exact hrest hothers
        · cases first with
          | none => cases h
          | some field => cases h

/-- Entries with known keys fail by the text or by an attribute. -/
theorem refused_of_textOfEntries {base : SimpleType} {fault : ConstructionFault}
    (hknown : refuseUnknown name type.keys entries = .ok ())
    (h : textOfEntries name type base entries = .error fault) :
    (∃ value, entries.lookup textKey = some value ∧
      Scalar.ofValue base.kind name value = .error fault) ∨
      attributes entries type.attributes = .error fault := by
  rcases bind_eq_error.1 h with hscalar | ⟨scalar, _, h⟩
  · cases hvalue : entries.lookup textKey with
    | none =>
      rw [hvalue] at hscalar
      cases hscalar
    | some value =>
      rw [hvalue] at hscalar
      exact Or.inl ⟨value, rfl, hscalar⟩
  · rcases bind_eq_error.1 h with hscalars | ⟨scalars, _, h⟩
    · exact Or.inr hscalars
    · rw [bind_of_eq_ok hknown] at h
      cases h

/-- Entries with known keys fail by the fields or by an attribute. -/
theorem refused_of_sequenceOfEntries {particles : List Particle} {error : Error}
    (hknown : refuseUnknown name type.keys entries = .ok ())
    (h : sequenceOfEntries place limits depth name type particles entries = .error error) :
    fields place limits depth entries particles = .error error ∨
      ∃ fault, attributes entries type.attributes = .error fault ∧
        error = .construction fault := by
  rcases bind_eq_error.1 h with hfields | ⟨fields, _, h⟩
  · exact Or.inl hfields
  · rcases bind_eq_error.1 h with hscalars | ⟨scalars, _, h⟩
    · obtain ⟨fault, hrefused, rfl⟩ := mapError_eq_error.1 hscalars
      exact Or.inr ⟨fault, hrefused, rfl⟩
    · rw [bind_of_eq_ok (mapError_eq_ok.2 hknown)] at h
      cases h

end Construction

namespace Builder

variable {builder : Builder} {decl : ElementDecl} {error : Error}

/-- Whether the value of a key is refused with an error in its own place, the text, an attribute or
the field of a particle. -/
inductive Refuses (builder : Builder) (decl : ElementDecl) : String → Value → Error → Prop
  | text {base : SimpleType} {value : Value} {fault : ConstructionFault}
      (content : builder.type.content = .simple base)
      (refused : Scalar.ofValue base.kind decl.name value = .error fault) :
      Refuses builder decl textKey value (.construction fault)
  | scalar {attr : AttributeDecl} {value : Value} {fault : ConstructionFault}
      (declared : attr ∈ builder.type.attributes)
      (refused : Scalar.ofValue attr.type.kind attr.name value = .error fault) :
      Refuses builder decl attr.name value (.construction fault)
  | field {particle : Particle} {value : Value} {error : Error}
      (declared : particle ∈ builder.type.particles)
      (refused : Construction.field (builder.schema.place (builder.schema.limits.depth - 1) 2)
        builder.schema.limits 1 value particle = .error error) :
      Refuses builder decl particle.key value error

/-- Where attributes fail, the value of one of them is refused in its place. -/
theorem exists_refuses_of_attributes {fault : ConstructionFault}
    (h : Construction.attributes builder.values builder.type.attributes = .error fault) :
    ∃ key value, builder.get? key = some value ∧
      builder.Refuses decl key value (.construction fault) := by
  obtain ⟨attr, hattr, value, hvalue, hrefused⟩ := Construction.exists_refused_attribute h
  exact ⟨attr.name, value, hvalue, .scalar hattr hrefused⟩

/-- Where a builder has known keys only, binding fails by the value of one of them. -/
theorem exists_refuses_of_bind
    (hknown : ∀ key ∈ builder.values.map Prod.fst, key ∈ builder.type.keys)
    (h : builder.bind decl = .error error) :
    ∃ key value, builder.get? key = some value ∧ builder.Refuses decl key value error := by
  have hkeys : Construction.refuseUnknown decl.name builder.type.keys builder.values = .ok () :=
    Construction.refuseUnknown_eq_ok.2 hknown
  rcases bind_eq_error.1 h with hcontent | ⟨content, _, h⟩
  · rw [Construction.content] at hcontent
    split at hcontent
    · next base hbase =>
      obtain ⟨fault, htext, rfl⟩ := mapError_eq_error.1 hcontent
      rcases Construction.refused_of_textOfEntries hkeys htext with
        ⟨value, hvalue, hrefused⟩ | hattributes
      · exact ⟨textKey, value, hvalue, .text hbase hrefused⟩
      · exact exists_refuses_of_attributes hattributes
    · next particles hparticles =>
      rcases Construction.refused_of_sequenceOfEntries hkeys hcontent with
        hfields | ⟨fault, hattributes, rfl⟩
      · obtain ⟨particle, hparticle, value, hvalue, hrefused⟩ :=
          Construction.exists_refused_field hfields
        rw [← ComplexType.particles_of_sequence hparticles] at hparticle
        exact ⟨particle.key, value, hvalue, .field hparticle hrefused⟩
      · exact exists_refuses_of_attributes hattributes
  · cases h

end Builder

namespace Schema

variable {schema : Schema} {complex : ComplexType} {decl : ElementDecl} {name : String}

/-- A builder agrees with construction, whatever the calls, if and only if the depth limit is not
zero.  Under each limit it has the value of the last call for each key, a further call changes at
most its own key, what is bound is no deeper than the limit, where zero counts as one, and where
binding fails, the value of some key is refused in its place. -/
theorem bind_agrees_iff (helement : schema.element? name = some decl)
    (hresolved : schema.resolve decl.type = .ok (.complex complex)) :
    schema.elementBuilder decl = .ok (schema.builder complex) ∧
      ∀ calls filled, (schema.builder complex).after calls = filled →
        (∀ key, filled.get? key =
          if key ∈ complex.keys then calls.reverse.lookup key else none) ∧
        filled.SetsOwnKey ∧
        (filled.bind decl = schema.construct name filled.toValue ↔ 0 < schema.limits.depth) ∧
        (∀ node, filled.bind decl = .ok node → node.depth ≤ max 1 schema.limits.depth) ∧
        ∀ error, filled.bind decl = .error error →
          ∃ key value, filled.get? key = some value ∧ filled.Refuses decl key value error := by
  refine ⟨elementBuilder_eq hresolved, ?_⟩
  intro calls filled hfilled
  have hvalues : ∀ key, filled.get? key =
      if key ∈ complex.keys then calls.reverse.lookup key else none := by
    rw [← hfilled]
    exact get?_after calls
  refine ⟨hvalues, filled.setsOwnKey, ?_⟩
  rw [after_builder] at hfilled
  subst hfilled
  have hknown : ∀ key ∈ (Entries.ofPairs (calls.filter (·.1 ∈ complex.keys))).map Prod.fst,
      key ∈ complex.keys := by
    intro key hkey
    obtain ⟨call, hcall, rfl⟩ := List.mem_map.1 hkey
    simpa using (List.mem_filter.1 (Entries.mem_of_mem_ofPairs hcall)).2
  refine ⟨Builder.bind_eq_construct helement hresolved, ?_, ?_⟩
  · intro node hnode
    exact Builder.depth_le_of_bind helement hresolved hnode
  · intro error herror
    exact Builder.exists_refuses_of_bind hknown herror

/-- The type of memos, which have a line or none. -/
def memoType : ComplexType :=
  ⟨none, .sequence [.element ⟨"line", .simple (.ofKind .string), .optional⟩], []⟩

/-- Memos. -/
def memoDecl : ElementDecl :=
  ⟨"memo", .complex memoType, .once⟩

/-- The schema of memos. -/
def memos : Schema :=
  ⟨⟨"urn:memos", "m"⟩, [], [memoDecl], {}⟩

/-- The schema of memos is what defining the memo gives. -/
theorem define_memos : define ⟨"urn:memos", "m"⟩ [.element memoDecl] = .ok memos := rfl

/-- Memos are declared. -/
theorem element?_memo : memos.element? "memo" = some memoDecl := rfl

/-- The type of memos is the one that is written in their declaration. -/
theorem resolve_memo : memos.resolve memoDecl.type = .ok (.complex memoType) := rfl

/-- A memo with one line. -/
def shortMemo : Instance :=
  ⟨"memo", memos.target, .fields
    [("line", .one ⟨"line", memos.target, .scalar (.ofDatum .string (.text "bread"))⟩)] []⟩

/-- A memo without a line. -/
def emptyMemo : Instance :=
  ⟨"memo", memos.target, .fields [] []⟩

/-- Of three calls one has an unknown key, and the last one stands in for the first. -/
theorem bind_shortMemo :
    define ⟨"urn:memos", "m"⟩ [.element memoDecl] = .ok memos ∧
      ∃ filled, (memos.builder memoType).after
          [("line", .text "milk"), ("page", .int 2), ("line", .text "bread")] = filled ∧
        filled.toValue = .map [("line", .text "bread")] ∧
        filled.bind memoDecl = memos.construct "memo" filled.toValue ∧
        filled.bind memoDecl = .ok shortMemo := by
  obtain ⟨_, hagrees⟩ := bind_agrees_iff element?_memo resolve_memo
  obtain ⟨_, _, hbind, _⟩ := hagrees
    [("line", .text "milk"), ("page", .int 2), ("line", .text "bread")] _ rfl
  exact ⟨define_memos, _, rfl, rfl, hbind.2 (Nat.succ_pos 63), rfl⟩

/-- Under a limit of zero an empty memo is bound, but construction refuses it. -/
theorem bind_emptyMemo :
    define ⟨"urn:memos", "m"⟩ [.element memoDecl] = .ok memos ∧
      ((memos.withLimits { depth := 0 }).builder memoType).bind memoDecl = .ok emptyMemo ∧
      emptyMemo.depth = 1 ∧
      (memos.withLimits { depth := 0 }).construct "memo"
        ((memos.withLimits { depth := 0 }).builder memoType).toValue =
          .error (.limit (.depth 1 0)) :=
  ⟨define_memos, rfl, Instance.depth_eq_height emptyMemo, rfl⟩

end Schema

end TypedXml
