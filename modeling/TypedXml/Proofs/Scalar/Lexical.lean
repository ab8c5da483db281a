import Mathlib.Data.List.TakeWhile
import TypedXml.Proofs.Octets.WrittenForms
import TypedXml.Scalar.Basic

/-!
# Scalars and their text

A value that a kind accepts and that is in the form native to the kind is written so that reading
gives the same value again, and reading gives only such values.  The two together say that reading
a scalar and writing it again settles its text after one round, and that a kind accepts exactly the
values that survive it.
-/

set_option autoImplicit false

namespace TypedXml

namespace Text

/-- The visible characters of ASCII are not blank. -/
theorem isBlank_eq_false_of_visible {c : Char} (hlow : 0x21 ≤ c.val) (hhigh : c.val ≤ 0x7E) :
    isBlank c = false := by
  rw [Bool.eq_false_iff]
  intro h
  simp only [isBlank, Bool.or_eq_true, Bool.and_eq_true, decide_eq_true_eq, beq_iff_eq,
    UInt32.le_iff_toNat_le, ← UInt32.toNat_inj, UInt32.reduceToNat] at h hlow hhigh
  omega

/-- A text without blank characters loses none at its beginning. -/
theorem dropWhile_isBlank_eq_self {cs : List Char} (h : ∀ c ∈ cs, isBlank c = false) :
    cs.dropWhile isBlank = cs := by
  rw [List.dropWhile_eq_self_iff]
  intro hne
  rw [h _ (List.getElem_mem hne)]
  exact Bool.false_ne_true

/-- Trimming takes away the blank characters around a text without any. -/
theorem trimBlanks_surrounded {lead core trail : List Char}
    (hlead : ∀ c ∈ lead, isBlank c = true) (hcore : ∀ c ∈ core, isBlank c = false)
    (htrail : ∀ c ∈ trail, isBlank c = true) : trimBlanks (lead ++ core ++ trail) = core := by
  rw [trimBlanks, dropTrailing, List.append_assoc, List.dropWhile_append_of_pos hlead]
  cases core with
  | nil =>
    rw [List.nil_append, List.dropWhile_eq_nil_iff.2 htrail]
    rfl
  | cons c rest =>
    have hfirst : isBlank c = false := hcore c List.mem_cons_self
    have htrailing : ∀ c ∈ trail.reverse, isBlank c = true := fun c hc =>
      htrail c (List.mem_reverse.1 hc)
    rw [List.cons_append, List.dropWhile_cons_of_neg (by simp [hfirst]), ← List.cons_append,
      List.reverse_append, List.dropWhile_append_of_pos htrailing]
    rw [dropWhile_isBlank_eq_self fun c hc => hcore c (List.mem_reverse.1 hc),
      List.reverse_reverse]

/-- A text without blank characters is trimmed already. -/
theorem trimBlanks_eq_self {cs : List Char} (h : ∀ c ∈ cs, isBlank c = false) :
    trimBlanks cs = cs := by
  have hsurrounded := @trimBlanks_surrounded [] cs [] nofun h nofun
  rwa [List.nil_append, List.append_nil] at hsurrounded

/-- Nothing but blank characters is taken away by trimming. -/
theorem exists_eq_surrounded (cs : List Char) :
    ∃ lead trail, cs = lead ++ trimBlanks cs ++ trail ∧ (∀ c ∈ lead, isBlank c = true) ∧
      ∀ c ∈ trail, isBlank c = true := by
  let inner := cs.dropWhile isBlank
  refine ⟨cs.takeWhile isBlank, (inner.reverse.takeWhile isBlank).reverse, ?_, ?_, ?_⟩
  · have hinner : trimBlanks cs ++ (inner.reverse.takeWhile isBlank).reverse = inner := by
      rw [trimBlanks, dropTrailing, ← List.reverse_append, List.takeWhile_append_dropWhile,
        List.reverse_reverse]
    rw [List.append_assoc, hinner, List.takeWhile_append_dropWhile]
  · exact fun c hc => List.mem_takeWhile_imp hc
  · exact fun c hc => List.mem_takeWhile_imp (List.mem_reverse.1 hc)

end Text

namespace Decimal

/-- The decimal form of a number has nothing but digits. -/
theorem isDigit_of_mem_toDigits {n : Nat} {c : Char} (hc : c ∈ Nat.toDigits 10 n) :
    c.isDigit = true :=
  Nat.isDigit_of_mem_toDigits (by decide) (by decide) hc

/-- The decimal form of a number is read back as this number. -/
theorem readNat?_toDigits (n : Nat) : readNat? (Nat.toDigits 10 n) = some n := by
  have hdigits : (Nat.toDigits 10 n).all Char.isDigit = true := by
    rw [List.all_eq_true]
    exact fun c hc => isDigit_of_mem_toDigits hc
  have hne : (Nat.toDigits 10 n).isEmpty = false := by
    rw [List.isEmpty_eq_false_iff]
    exact Nat.toDigits_ne_nil
  rw [readNat?, hne, hdigits]
  simp only [Bool.not_false, Bool.and_self, if_true]
  rw [Nat.ofDigitChars_ten_toDigits]

/-- The decimal form of a natural number is read back as an integer. -/
theorem readInt?_toDigits (n : Nat) : readInt? (Nat.toDigits 10 n) = some (Int.ofNat n) := by
  have hread := readNat?_toDigits n
  unfold readInt?
  split
  · next h =>
    have hplus : '+' ∈ Nat.toDigits 10 n := by rw [h]; exact List.mem_cons_self
    exact absurd (isDigit_of_mem_toDigits hplus) (by decide)
  · next h =>
    have hminus : '-' ∈ Nat.toDigits 10 n := by rw [h]; exact List.mem_cons_self
    exact absurd (isDigit_of_mem_toDigits hminus) (by decide)
  · rw [hread, Option.map_some]

/-- A written integer is read back as itself. -/
theorem readInt?_writeInt (n : Int) : readInt? (writeInt n) = some n := by
  cases n with
  | ofNat n => exact readInt?_toDigits n
  | negSucc n =>
    rw [writeInt, readInt?, readNat?_toDigits, Option.map_some, Int.negSucc_eq]
    rfl

/-- Digits are not blank. -/
theorem isBlank_of_isDigit {c : Char} (h : c.isDigit = true) : Text.isBlank c = false := by
  simp only [Char.isDigit, Bool.and_eq_true, decide_eq_true_eq] at h
  apply Text.isBlank_eq_false_of_visible
  · grind
  · grind

/-- No blank character stands in a written integer. -/
theorem isBlank_of_mem_writeInt {n : Int} {c : Char} (hc : c ∈ writeInt n) :
    Text.isBlank c = false := by
  cases n with
  | ofNat n => exact isBlank_of_isDigit (isDigit_of_mem_toDigits hc)
  | negSucc n =>
    rcases List.mem_cons.1 hc with rfl | hc
    · decide
    · exact isBlank_of_isDigit (isDigit_of_mem_toDigits hc)

end Decimal

/-- A written integer of 32 bits is read back as itself. -/
theorem readInt32?_writeInt {n : Int64} (hlow : -2147483648 ≤ n.toInt)
    (hhigh : n.toInt ≤ 2147483647) : readInt32? (Decimal.writeInt n.toInt) = some n := by
  rw [readInt32?, Decimal.readInt?_writeInt]
  simp only [hlow, hhigh, and_self, if_true, Int64.ofInt_toInt]

/-- What is read is an integer of 32 bits. -/
theorem bounds_of_readInt32? {cs : List Char} {n : Int64} (h : readInt32? cs = some n) :
    -2147483648 ≤ n.toInt ∧ n.toInt ≤ 2147483647 := by
  unfold readInt32? at h
  split at h
  · next m _ =>
    split at h
    · next hm =>
      have hn : n = Int64.ofInt m := (Option.some.inj h).symm
      rw [hn, Int64.toInt_ofInt_of_le (by omega) (by omega)]
      exact hm
    · cases h
  · cases h

namespace Kind

/-- A text is native to strings only. -/
theorem eq_string_of_native {kind : Kind} {s : String} (haccepts : kind.accepts (.text s) = true)
    (hnative : kind.coerce (.text s) = .text s) : kind = .string := by
  cases kind with
  | string => rfl
  | int =>
    simp only [accepts, Option.isSome_iff_exists] at haccepts
    obtain ⟨datum, hdatum⟩ := haccepts
    simp only [coerce, hdatum, Option.getD_some] at hnative
    rw [hnative] at hdatum
    simp [read?] at hdatum
  | boolean =>
    simp only [accepts, Option.isSome_iff_exists] at haccepts
    obtain ⟨datum, hdatum⟩ := haccepts
    simp only [coerce, hdatum, Option.getD_some] at hnative
    rw [hnative] at hdatum
    simp [read?] at hdatum
  | hexBinary => cases hnative
  | base64Binary => cases hnative

/-- An integer of 32 bits is written so that it reads back as itself. -/
theorem read?_writeInt {n : Int64} (hlow : -2147483648 ≤ n.toInt) (hhigh : n.toInt ≤ 2147483647) :
    Kind.int.read? (Kind.int.format (.int n)) = some (.int n) := by
  have htrim := Text.trimBlanks_eq_self
    (fun c (hc : c ∈ Decimal.writeInt n.toInt) => Decimal.isBlank_of_mem_writeInt hc)
  simp only [read?, format, Datum.display, String.toList_ofList, htrim]
  rw [readInt32?_writeInt hlow hhigh, Option.map_some]

/-- Octets are written in hexadecimal so that they read back as themselves. -/
theorem read?_hexBinary (b : Octets) :
    Kind.hexBinary.read? (Kind.hexBinary.format (.bytes b)) = some (.bytes b) := by
  have htrim := Text.trimBlanks_eq_self
    (fun c (hc : c ∈ Octets.Hex.encode b) => Octets.Hex.isBlank_of_mem_encode hc)
  simp only [read?, format, String.toList_ofList, htrim]
  rw [Octets.Hex.decode?_encode, Option.map_some]

/-- Octets are written in base 64 so that they read back as themselves. -/
theorem read?_base64Binary (b : Octets) :
    Kind.base64Binary.read? (Kind.base64Binary.format (.bytes b)) = some (.bytes b) := by
  have hfilter : (Octets.Base64.encode b).filter (!Text.isBlank ·) = Octets.Base64.encode b := by
    rw [List.filter_eq_self]
    intro c hc
    rw [Octets.Base64.isBlank_of_mem_encode hc, Bool.not_false]
  simp only [read?, format, readBase64?, String.toList_ofList, hfilter]
  rw [Octets.Base64.decode?_encode, Option.map_some]

/-- A value that a kind accepts, in the form native to the kind, is written so that it reads back
as itself. -/
theorem read?_format {kind : Kind} {value : Datum} (haccepts : kind.accepts value = true)
    (hnative : kind.coerce value = value) : kind.read? (kind.format value) = some value := by
  cases value with
  | text s =>
    obtain rfl := eq_string_of_native haccepts hnative
    rfl
  | int n =>
    cases kind with
    | int =>
      simp only [accepts, Bool.and_eq_true, decide_eq_true_eq] at haccepts
      exact read?_writeInt haccepts.1 haccepts.2
    | string => cases hnative
    | boolean => cases haccepts
    | hexBinary => cases haccepts
    | base64Binary => cases haccepts
  | boolean b =>
    cases kind with
    | boolean => cases b <;> decide
    | string => cases hnative
    | int => cases haccepts
    | hexBinary => cases haccepts
    | base64Binary => cases haccepts
  | bytes b =>
    cases kind with
    | hexBinary => exact read?_hexBinary b
    | base64Binary => exact read?_base64Binary b
    | string =>
      simp only [accepts, Option.isSome_iff_exists] at haccepts
      obtain ⟨s, hs⟩ := haccepts
      simp only [coerce, hs] at hnative
      cases hnative
    | int => cases haccepts
    | boolean => cases haccepts

/-- Reading gives only values that the kind accepts, in the form native to it. -/
theorem native_of_read? {kind : Kind} {text : String} {value : Datum}
    (h : kind.read? text = some value) :
    kind.accepts value = true ∧ kind.coerce value = value := by
  cases kind with
  | string =>
    simp only [read?, Option.some.injEq] at h
    subst h
    exact ⟨rfl, rfl⟩
  | int =>
    simp only [read?, Option.map_eq_some_iff] at h
    obtain ⟨n, hn, rfl⟩ := h
    have hbounds := bounds_of_readInt32? hn
    simp [accepts, coerce, hbounds]
  | boolean =>
    simp only [read?, Option.map_eq_some_iff] at h
    obtain ⟨b, _, rfl⟩ := h
    exact ⟨rfl, rfl⟩
  | hexBinary =>
    simp only [read?, Option.map_eq_some_iff] at h
    obtain ⟨b, _, rfl⟩ := h
    exact ⟨rfl, rfl⟩
  | base64Binary =>
    simp only [read?, Option.map_eq_some_iff] at h
    obtain ⟨b, _, rfl⟩ := h
    exact ⟨rfl, rfl⟩

/-! ## Values that survive being written -/

/-- A text is parsed as the value that it denotes. -/
theorem parse_eq_ok {kind : Kind} {text : String} {value : Datum} :
    kind.parse text = .ok value ↔ kind.read? text = some value := by
  unfold parse
  cases kind.read? text with
  | none => simp
  | some found => simp

/-- A text belongs to a kind together with what it reads as, if belonging to it is being read. -/
theorem accepts_getD_read? {kind : Kind} {s : String}
    (h : kind.accepts (.text s) = (kind.read? s).isSome) :
    kind.accepts ((kind.read? s).getD (.text s)) = kind.accepts (.text s) := by
  cases hread : kind.read? s with
  | none => rfl
  | some value =>
    rw [h, hread, Option.getD_some, (native_of_read? hread).1]
    rfl

/-- The form native to a kind belongs to the kind if and only if the value does. -/
theorem accepts_coerce (kind : Kind) (value : Datum) :
    kind.accepts (kind.coerce value) = kind.accepts value := by
  cases value with
  | text s =>
    cases kind with
    | string => rfl
    | int => exact accepts_getD_read? rfl
    | boolean => exact accepts_getD_read? rfl
    | hexBinary => rfl
    | base64Binary => rfl
  | int n => cases kind <;> rfl
  | boolean b => cases kind <;> rfl
  | bytes b =>
    cases kind with
    | string =>
      rw [coerce]
      cases htext : Text.ofOctets? b with
      | none => rfl
      | some s =>
        rw [accepts, htext]
        rfl
    | int => rfl
    | boolean => rfl
    | hexBinary => rfl
    | base64Binary => rfl

/-- Where values are not octets, the native form of a text is what the text reads as. -/
theorem coerce_text_of_read? {kind : Kind} {text : String} {value : Datum}
    (hbinary : kind.isBinary = false) (h : kind.read? text = some value) :
    kind.coerce (.text text) = value := by
  cases kind with
  | string => exact Option.some.inj h
  | int =>
    rw [coerce, h]
    rfl
  | boolean =>
    rw [coerce, h]
    rfl
  | hexBinary => cases hbinary
  | base64Binary => cases hbinary

/-- A kind accepts exactly the values that survive being written: those whose native form is read
back from its text.  This does not depend on whether the value is native already, and what a text
is read as is accepted and native; under a kind without octets it is the native form of the text. -/
theorem accepts_iff_parse_format (kind : Kind) (value : Datum) :
    (kind.accepts value = true ↔
      kind.parse (kind.format (kind.coerce value)) = .ok (kind.coerce value)) ∧
    kind.coerce (kind.coerce value) = kind.coerce value ∧
    kind.accepts (kind.coerce value) = kind.accepts value ∧
    ∀ text result, kind.parse text = .ok result →
      kind.accepts result = true ∧ kind.coerce result = result ∧
        (kind.isBinary = false → kind.coerce (.text text) = result) := by
  have hnative := kind.coerce_coerce value
  have haccepts := kind.accepts_coerce value
  refine ⟨?_, hnative, haccepts, ?_⟩
  · rw [parse_eq_ok, ← haccepts]
    constructor
    · intro h
      exact read?_format h hnative
    · intro h
      exact (native_of_read? h).1
  · intro text result h
    rw [parse_eq_ok] at h
    obtain ⟨haccepted, hresult⟩ := native_of_read? h
    exact ⟨haccepted, hresult, fun hbinary => coerce_text_of_read? hbinary h⟩

/-- An integer survives however it was written, one that is out of range does not, and a digit is
not the truth value that it reads as. -/
theorem accepts_written_integers :
    (Kind.int.parse " +07 " = .ok (.int 7) ∧ Kind.int.coerce (.text " +07 ") = .int 7) ∧
      Kind.int.parse (Kind.int.format (.int 2147483648)) ≠ .ok (.int 2147483648) ∧
      Kind.boolean.parse (Kind.boolean.format (.int 1)) ≠ .ok (.int 1) := by
  have hseven : Kind.int.parse " +07 " = .ok (.int 7) := rfl
  obtain ⟨_, _, _, hread⟩ := accepts_iff_parse_format .int (.text " +07 ")
  refine ⟨⟨hseven, (hread _ _ hseven).2.2 rfl⟩, ?_, ?_⟩
  · intro h
    have haccepts := (accepts_iff_parse_format .int (.int 2147483648)).1.2 h
    revert haccepts
    decide
  · intro h
    cases (accepts_iff_parse_format .boolean (.int 1)).1.2 h

end Kind

/-- Scalars of one kind with one value are equal. -/
theorem Scalar.ext {scalar other : Scalar} (hkind : scalar.kind = other.kind)
    (hvalue : scalar.value = other.value) : scalar = other := by
  obtain ⟨kind, value, native⟩ := scalar
  cases hkind
  cases hvalue
  rfl

/-- The text of a scalar that its kind accepts denotes the value of the scalar. -/
theorem Scalar.read?_lexical {scalar : Scalar}
    (haccepts : scalar.kind.accepts scalar.value = true) :
    scalar.kind.read? scalar.lexical = some scalar.value :=
  Kind.read?_format haccepts scalar.native

end TypedXml
