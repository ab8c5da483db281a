import Mathlib.Data.List.Chain
import Mathlib.Data.List.Induction
import TypedXml.Proofs.Entries
import TypedXml.Proofs.Outcome
import TypedXml.Proofs.Scalar.Lexical
import TypedXml.Schema.SimpleType

/-!
# Chains of restrictions

A kind can be narrowed by one list of literals after the other.  Every literal has to denote a value
that all lists before it denote, so the values that the narrowed type has are those of its last list
alone: the checks of a text and of a value, which go through the whole chain, come down to this
list, and so do the members of the type.
-/

set_option autoImplicit false

namespace TypedXml

/-- The values that literals denote, in order. -/
def Kind.valuesOf (kind : Kind) (literals : List String) : List Datum :=
  literals.filterMap kind.read?

/-- The values of literals are what these are parsed as. -/
theorem Kind.mem_valuesOf {kind : Kind} {literals : List String} {value : Datum} :
    value ∈ kind.valuesOf literals ↔
      ∃ literal ∈ literals, kind.parse literal = .ok value := by
  simp only [valuesOf, List.mem_filterMap, parse_eq_ok]

/-- A member is a name that is one of the literals. -/
theorem Enumeration.member?_eq (enumeration : Enumeration) (name : String) :
    enumeration.member? name = if name ∈ enumeration.literals then some name else none := by
  unfold Enumeration.member?
  split
  · next hmem =>
    cases hfind : enumeration.literals.find? (· == name) with
    | none => simpa using List.find?_eq_none.1 hfind name hmem
    | some found =>
      obtain ⟨hsame, _⟩ := List.find?_eq_some_iff_append.1 hfind
      rw [eq_of_beq hsame]
  · next hmem =>
    rw [List.find?_eq_none]
    rintro found hfound hsame
    rw [eq_of_beq hsame] at hfound
    exact hmem hfound

namespace SimpleType

/-! ## One restriction -/

variable {base type : SimpleType} {kind : Kind} {literals : List String}

/-- Literals are entered one behind the other, each with its value, if these are values of the base
type and no value comes twice. -/
theorem enumerate_eq_ok {seen entries : List (String × Datum)}
    (hseen : (seen.map Prod.snd).Nodup) :
    enumerate base seen literals = .ok entries ↔
      ∃ new, entries = seen ++ new ∧ new.map Prod.fst = literals ∧
        (∀ entry ∈ new, base.kind.read? entry.1 = some entry.2 ∧
          base.inEnumerations entry.2 = true) ∧
        (entries.map Prod.snd).Nodup := by
  induction literals generalizing seen with
  | nil =>
    rw [enumerate, Except.ok.injEq]
    constructor
    · rintro rfl
      exact ⟨[], (List.append_nil _).symm, rfl, nofun, hseen⟩
    · rintro ⟨new, rfl, hnew, _⟩
      rw [List.map_eq_nil_iff.1 hnew, List.append_nil]
  | cons literal rest ih =>
    rw [enumerate]
    constructor
    · intro h
      split at h
      · cases h
      · next value hread =>
        split at h
        · cases h
        · next hbase =>
          split at h
          · cases h
          · next hfresh =>
            rw [Bool.not_eq_true', Bool.not_eq_false] at hbase
            rw [List.contains_iff_mem] at hfresh
            obtain ⟨new, rfl, hliterals, hentries, hdistinct⟩ :=
              (ih (nodup_map_append_singleton.2 ⟨hseen, hfresh⟩)).1 h
            refine ⟨(literal, value) :: new, List.append_assoc _ _ _, ?_, ?_, hdistinct⟩
            · rw [List.map_cons, hliterals]
            · exact List.forall_mem_cons.2 ⟨⟨hread, hbase⟩, hentries⟩
    · rintro ⟨new, hsplit, hliterals, hentries, hdistinct⟩
      obtain ⟨⟨key, value⟩, new, rfl, rfl, rfl⟩ := List.map_eq_cons_iff.1 hliterals
      obtain ⟨⟨hread, hbase⟩, hentries⟩ := List.forall_mem_cons.1 hentries
      rw [← List.singleton_append, ← List.append_assoc] at hsplit
      have hfirst : ((seen ++ [(key, value)]).map Prod.snd).Nodup := by
        rw [hsplit] at hdistinct
        exact ((List.sublist_append_left _ new).map Prod.snd).nodup hdistinct
      have hfresh := (nodup_map_append_singleton.1 hfirst).2
      simp only [hread, hbase, Bool.not_true, Bool.false_eq_true, if_false]
      rw [if_neg (mt List.contains_iff_mem.1 hfresh), ih hfirst]
      exact ⟨new, hsplit, rfl, hentries, hdistinct⟩

/-- What the type of one restriction is made of. -/
theorem restrict_eq_ok :
    restrict base literals = .ok type ↔
      ∃ entries, type = .restriction base ⟨entries⟩ none ∧ entries.map Prod.fst = literals ∧
        (∀ entry ∈ entries, base.kind.read? entry.1 = some entry.2 ∧
          base.inEnumerations entry.2 = true) ∧
        (entries.map Prod.snd).Nodup := by
  have hnone : (([] : List (String × Datum)).map Prod.snd).Nodup := List.nodup_nil
  rw [restrict, map_eq_ok]
  constructor
  · rintro ⟨entries, hentries, rfl⟩
    obtain ⟨new, hsplit, hparts⟩ := (enumerate_eq_ok hnone).1 hentries
    rw [List.nil_append] at hsplit
    subst hsplit
    exact ⟨_, rfl, hparts⟩
  · rintro ⟨entries, rfl, hparts⟩
    exact ⟨entries, (enumerate_eq_ok hnone).2 ⟨entries, rfl, hparts⟩, rfl⟩

/-- Entries that hold what their literals are read as hold the values of the literals. -/
theorem map_snd_eq_valuesOf {entries : List (String × Datum)}
    (h : ∀ entry ∈ entries, kind.read? entry.1 = some entry.2) :
    entries.map Prod.snd = kind.valuesOf (entries.map Prod.fst) := by
  induction entries with
  | nil => rfl
  | cons entry rest ih =>
    rw [List.forall_mem_cons] at h
    rw [List.map_cons, List.map_cons, Kind.valuesOf, List.filterMap_cons_some h.1, ih h.2]
    rfl

/-- A restriction succeeds if and only if each literal denotes a value of the base type and no two
of them denote the same one. -/
theorem exists_restrict_iff :
    (∃ type, restrict base literals = .ok type) ↔
      (∀ literal ∈ literals, ∃ value, base.kind.parse literal = .ok value ∧
        base.inEnumerations value = true) ∧
      (base.kind.valuesOf literals).Nodup := by
  simp only [restrict_eq_ok, Kind.parse_eq_ok]
  constructor
  · rintro ⟨_, entries, rfl, rfl, hentries, hdistinct⟩
    refine ⟨?_, ?_⟩
    · intro literal hliteral
      obtain ⟨entry, hentry, rfl⟩ := List.mem_map.1 hliteral
      exact ⟨entry.2, hentries entry hentry⟩
    · rwa [← map_snd_eq_valuesOf fun entry hentry => (hentries entry hentry).1]
  · rintro ⟨hliterals, hdistinct⟩
    obtain ⟨values, hvalues⟩ := exists_forall₂ hliterals
    have hlength := hvalues.length_eq
    have hentries : ∀ entry ∈ literals.zip values, base.kind.read? entry.1 = some entry.2 ∧
        base.inEnumerations entry.2 = true :=
      fun entry hentry => (List.forall₂_iff_zip.1 hvalues).2 hentry
    have hkeys : (literals.zip values).map Prod.fst = literals :=
      List.map_fst_zip (Nat.le_of_eq hlength)
    refine ⟨_, literals.zip values, rfl, hkeys, hentries, ?_⟩
    rwa [map_snd_eq_valuesOf fun entry hentry => (hentries entry hentry).1, hkeys]

/-! ## Chains -/

/-- The type that a kind is narrowed to by lists of literals, one after the other. -/
def narrowed (kind : Kind) (lists : List (List String)) : Except DefinitionFault SimpleType :=
  lists.foldlM restrict (ofKind kind)

/-- Whether each list narrows what the lists before it leave of a kind. -/
structure IsNarrowing (kind : Kind) (lists : List (List String)) : Prop where
  denoting : ∀ literals ∈ lists, ∀ literal ∈ literals, ∃ value, kind.parse literal = .ok value
  distinct : ∀ literals ∈ lists, (kind.valuesOf literals).Nodup
  nested : lists.IsChain fun literals next => kind.valuesOf next ⊆ kind.valuesOf literals

variable {lists : List (List String)}

/-- One list more is one restriction more. -/
theorem narrowed_concat (kind : Kind) (lists : List (List String)) (literals : List String) :
    narrowed kind (lists ++ [literals]) =
      narrowed kind lists >>= fun base => restrict base literals := by
  rw [narrowed, List.foldlM_append]
  exact congrArg _ (funext fun base => foldlM_singleton)

/-- One more list narrows what a chain leaves if its literals denote distinct values, all of them
values of the last list of the chain. -/
theorem isNarrowing_concat :
    IsNarrowing kind (lists ++ [literals]) ↔
      IsNarrowing kind lists ∧
        (∀ literal ∈ literals, ∃ value, kind.parse literal = .ok value ∧
          ∀ last ∈ lists.getLast?, value ∈ kind.valuesOf last) ∧
        (kind.valuesOf literals).Nodup := by
  constructor
  · intro h
    obtain ⟨hdenoting, hlast⟩ := List.forall_mem_append.1 h.denoting
    obtain ⟨hdistinct, hvalues⟩ := List.forall_mem_append.1 h.distinct
    obtain ⟨hnested, _, hjoint⟩ := List.isChain_append.1 h.nested
    refine ⟨⟨hdenoting, hdistinct, hnested⟩, ?_, hvalues literals List.mem_cons_self⟩
    intro literal hliteral
    obtain ⟨value, hvalue⟩ := hlast literals List.mem_cons_self literal hliteral
    exact ⟨value, hvalue, fun last hmem =>
      hjoint last hmem literals rfl (Kind.mem_valuesOf.2 ⟨literal, hliteral, hvalue⟩)⟩
  · rintro ⟨h, hliterals, hvalues⟩
    refine ⟨?_, ?_, ?_⟩
    · refine List.forall_mem_append.2 ⟨h.denoting, List.forall_mem_singleton.2 ?_⟩
      intro literal hliteral
      obtain ⟨value, hvalue, _⟩ := hliterals literal hliteral
      exact ⟨value, hvalue⟩
    · exact List.forall_mem_append.2 ⟨h.distinct, List.forall_mem_singleton.2 hvalues⟩
    · refine List.isChain_append.2 ⟨h.nested, .singleton literals, ?_⟩
      rintro last hlast _ ⟨⟩ value hvalue
      obtain ⟨literal, hliteral, hread⟩ := Kind.mem_valuesOf.1 hvalue
      obtain ⟨other, hother, hmem⟩ := hliterals literal hliteral
      obtain rfl : other = value := Except.ok.inj (hother.symm.trans hread)
      exact hmem last hlast

/-- A value is in all enumerations of a chain if and only if the last list denotes it. -/
theorem inEnumerations_of_narrowed (h : narrowed kind lists = .ok type) :
    type.kind = kind ∧ ∀ value, type.inEnumerations value = true ↔
      ∀ last ∈ lists.getLast?, value ∈ kind.valuesOf last := by
  induction lists using List.reverseRecOn generalizing type with
  | nil =>
    cases h
    exact ⟨rfl, fun value => ⟨nofun, fun _ => rfl⟩⟩
  | append_singleton lists literals ih =>
    rw [narrowed_concat] at h
    obtain ⟨base, hbase, hrestrict⟩ := bind_eq_ok.1 h
    obtain ⟨rfl, _⟩ := ih hbase
    obtain ⟨entries, rfl, rfl, hentries, _⟩ := restrict_eq_ok.1 hrestrict
    refine ⟨rfl, fun value => ?_⟩
    have hvalues := map_snd_eq_valuesOf fun entry hentry => (hentries entry hentry).1
    rw [List.getLast?_concat, inEnumerations, Bool.and_eq_true, Enumeration.contains,
      List.contains_iff_mem, Enumeration.values, hvalues]
    constructor
    · rintro ⟨hmem, _⟩ _ ⟨⟩
      exact hmem
    · intro hlast
      have hmem := hlast _ rfl
      refine ⟨hmem, ?_⟩
      -- the literals of the last list have passed the check of all lists before it
      rw [← hvalues] at hmem
      obtain ⟨entry, hentry, rfl⟩ := List.mem_map.1 hmem
      exact (hentries entry hentry).2

/-- A chain of restrictions succeeds if and only if each of its lists narrows the one before it. -/
theorem exists_narrowed_iff :
    (∃ type, narrowed kind lists = .ok type) ↔ IsNarrowing kind lists := by
  induction lists using List.reverseRecOn with
  | nil => exact ⟨fun _ => ⟨nofun, nofun, .nil⟩, fun _ => ⟨_, rfl⟩⟩
  | append_singleton lists literals ih =>
    rw [isNarrowing_concat, ← ih, narrowed_concat]
    simp only [bind_eq_ok]
    constructor
    · rintro ⟨type, base, hbase, h⟩
      obtain ⟨rfl, hchain⟩ := inEnumerations_of_narrowed hbase
      have hparts := exists_restrict_iff.1 ⟨type, h⟩
      simp only [hchain] at hparts
      exact ⟨⟨base, hbase⟩, hparts⟩
    · rintro ⟨⟨base, hbase⟩, hparts⟩
      obtain ⟨rfl, hchain⟩ := inEnumerations_of_narrowed hbase
      simp only [← hchain] at hparts
      obtain ⟨type, h⟩ := exists_restrict_iff.2 hparts
      exact ⟨type, base, hbase, h⟩

/-! ## What a chain comes down to -/

/-- A text is allowed if and only if the value that it denotes is in all enumerations. -/
theorem allowsText_iff {text : String} :
    type.allowsText text = true ↔
      ∃ value, type.kind.parse text = .ok value ∧ type.inEnumerations value = true := by
  simp only [Kind.parse_eq_ok]
  unfold allowsText
  cases type.kind.read? text with
  | none => simp
  | some value => simp

/-- What a narrowed type has and allows if nothing but one list of literals decides on it. -/
structure ComesDownTo (type : SimpleType) (kind : Kind) (literals : List String) : Prop where
  text : ∀ text, type.allowsText text = true ↔
    ∃ value ∈ kind.valuesOf literals, kind.parse text = .ok value
  value : ∀ value, type.allows value = true ↔
    kind.accepts value = true ∧ kind.coerce value ∈ kind.valuesOf literals
  /-- The text that an allowed value is written as is allowed, too. -/
  written : ∀ value, type.allows value = true →
    type.allowsText (kind.format (kind.coerce value)) = true
  member : ∀ name, type.member? name = if name ∈ literals then some name else none
  listed : ∃ enumeration, type.enumeration? = some enumeration ∧
    enumeration.literals = literals ∧ enumeration.values = kind.valuesOf literals

/-- A narrowed type comes down to the last of its lists. -/
theorem comesDownTo_of_narrowed (h : narrowed kind (lists ++ [literals]) = .ok type) :
    type.ComesDownTo kind literals := by
  obtain ⟨rfl, hchain⟩ := inEnumerations_of_narrowed h
  have hvalue : ∀ value, type.inEnumerations value = true ↔
      value ∈ type.kind.valuesOf literals := by
    intro value
    rw [hchain, List.getLast?_concat]
    exact ⟨fun hlast => hlast literals rfl, by rintro hmem _ ⟨⟩; exact hmem⟩
  have hallows : ∀ value, type.allows value = true ↔
      type.kind.accepts value = true ∧ type.kind.coerce value ∈ type.kind.valuesOf literals := by
    intro value
    rw [allows, Bool.and_eq_true, hvalue]
  rw [narrowed_concat] at h
  obtain ⟨base, _, hrestrict⟩ := bind_eq_ok.1 h
  obtain ⟨entries, rfl, rfl, hentries, _⟩ := restrict_eq_ok.1 hrestrict
  refine ⟨?_, hallows, ?_, ?_, ?_⟩
  · intro text
    simp only [allowsText_iff, hvalue, and_comm]
  · intro value hallowed
    obtain ⟨haccepts, hlisted⟩ := (hallows value).1 hallowed
    rw [← Kind.accepts_coerce] at haccepts
    have hread := Kind.read?_format haccepts (Kind.coerce_coerce _ value)
    exact allowsText_iff.2 ⟨_, Kind.parse_eq_ok.2 hread, (hvalue _).2 hlisted⟩
  · exact Enumeration.member?_eq ⟨entries⟩
  · exact ⟨⟨entries⟩, rfl, rfl, map_snd_eq_valuesOf fun entry hentry => (hentries entry hentry).1⟩

/-- The values of a chain of restrictions are those of its last list.  A kind is narrowed by lists
of literals, one after the other, if and only if the literals of each list denote distinct values of
the kind, all of them values of the list before; and then the checks, the members and the
enumeration of the type come down to the last list. -/
theorem narrowed_comesDownTo (kind : Kind) (lists : List (List String)) (literals : List String) :
    ((∃ type, narrowed kind (lists ++ [literals]) = .ok type) ↔
      IsNarrowing kind (lists ++ [literals])) ∧
      ∀ type, narrowed kind (lists ++ [literals]) = .ok type → type.ComesDownTo kind literals :=
  ⟨exists_narrowed_iff, fun _ => comesDownTo_of_narrowed⟩

/-- Integers narrowed twice: the type has the numbers of the second list, whatever they are written
as, and its members are the literals alone. -/
theorem narrowed_integers :
    ∃ type, narrowed .int [["1", "02", "3"], ["2", "+1"]] = .ok type ∧
      type.allowsText " 01 " = true ∧ type.allowsText "3" = false ∧
      type.member? "+1" = some "+1" ∧ type.member? "1" = none := by
  have hlast := (narrowed_comesDownTo .int [["1", "02", "3"]] ["2", "+1"]).2 _ rfl
  refine ⟨_, rfl, ?_, ?_, ?_, ?_⟩
  · exact (hlast.text _).2 ⟨.int 1, by decide, rfl⟩
  · rw [Bool.eq_false_iff, Ne, hlast.text]
    rintro ⟨value, hlisted, hvalue⟩
    obtain rfl : Datum.int 3 = value := Except.ok.inj hvalue
    revert hlisted
    decide
  · rw [hlast.member]
    rfl
  · rw [hlast.member]
    rfl

end SimpleType

end TypedXml
