import Mathlib.Tactic.SplitIfs
import TypedXml.Proofs.Octets.WrittenForms
import TypedXml.Scalar.Kind

/-!
# The texts that denote octets

Which texts the two binary kinds read, and that reading undoes writing on exactly these.  A
hexadecimal text is an even number of digits in either case; writing its octets again gives the
text in lower case.  A base-64 text is the one written form of its octets with blank characters
inserted anywhere.

Both facts rest on a converse of what is known of single characters: a digit or a letter that is
read with a value is the one written for it.  The values of a group determine its octets and are
determined by them, bit by bit, also where the group is short and its spare bits are zero.

The last section is about taking a hexadecimal text apart by the positions of its octets: a text
of digits is never cut inside a character.
-/

set_option autoImplicit false

namespace TypedXml

/-- A fact of the characters below 128 can be checked one by one. -/
theorem Text.forall_ascii {P : Char → Prop} (h : ∀ k : Fin 128, P (Char.ofNat k)) {c : Char}
    (hc : c.toNat < 128) : P c := by
  have hP := h ⟨c.toNat, hc⟩
  rwa [Char.ofNat_toNat] at hP

/-! ## Hexadecimal texts -/

namespace Octets.Hex

/-- The digits of hexadecimal text, in both cases. -/
def IsDigit (c : Char) : Prop :=
  ('0' ≤ c ∧ c ≤ '9') ∨ ('a' ≤ c ∧ c ≤ 'f') ∨ ('A' ≤ c ∧ c ≤ 'F')

/-- Whether a character is a digit can be decided. -/
instance (c : Char) : Decidable (IsDigit c) :=
  inferInstanceAs (Decidable (_ ∨ _))

/-- An even number of digits. -/
def IsWritten (cs : List Char) : Prop :=
  2 ∣ cs.length ∧ ∀ c ∈ cs, IsDigit c

/-- Whether a text is an even number of digits can be decided. -/
instance (cs : List Char) : Decidable (IsWritten cs) :=
  inferInstanceAs (Decidable (_ ∧ _))

/-- Two digits in front of a written form make another one. -/
theorem isWritten_cons_cons {a b : Char} {cs : List Char} :
    IsWritten (a :: b :: cs) ↔ IsDigit a ∧ IsDigit b ∧ IsWritten cs := by
  simp only [IsWritten, List.length_cons, List.forall_mem_cons]
  constructor
  · rintro ⟨heven, ha, hb, hcs⟩
    exact ⟨ha, hb, by omega, hcs⟩
  · rintro ⟨ha, hb, heven, hcs⟩
    exact ⟨by omega, ha, hb, hcs⟩

/-- Digits are ASCII characters. -/
theorem toNat_lt_of_isDigit {c : Char} (hc : IsDigit c) : c.toNat < 128 := by
  rcases hc with hc | hc | hc
  all_goals exact Nat.lt_of_le_of_lt (UInt32.le_iff_toNat_le.1 hc.2) (by decide)

/-- A digit has a value below sixteen, for which its lower case is written. -/
theorem digit?_of_isDigit {c : Char} (hc : IsDigit c) :
    ∃ n, digit? c = some n ∧ n.toNat < 16 ∧ digit n = c.toLower := by
  have hall : IsDigit c → (digit? c).any fun n => n.toNat < 16 && digit n == c.toLower :=
    Text.forall_ascii
      (P := fun c => IsDigit c → (digit? c).any fun n => n.toNat < 16 && digit n == c.toLower)
      (by decide) (toNat_lt_of_isDigit hc)
  simpa [Option.any_eq_true] using hall hc

/-- What is read with a value is a digit. -/
theorem isDigit_of_digit? {c : Char} {n : UInt8} (h : digit? c = some n) : IsDigit c := by
  unfold digit? at h
  simp only [Bool.and_eq_true, decide_eq_true_eq] at h
  split_ifs at h with hdigit hlower hupper
  · exact .inl hdigit
  · exact .inr (.inl hlower)
  · exact .inr (.inr hupper)

/-- The higher half of an octet is the first of the two values it is put together from. -/
theorem high_of_join {x y : UInt8} (hx : x.toNat < 16) (hy : y.toNat < 16) :
    (x * 16 + y) / 16 = x := by
  apply UInt8.toNat_inj.mp
  rw [UInt8.toNat_div, UInt8.toNat_add, UInt8.toNat_mul]
  show (x.toNat * 16 % 2 ^ 8 + y.toNat) % 2 ^ 8 / 16 = x.toNat
  omega

/-- The lower half of an octet is the second of the two values it is put together from. -/
theorem low_of_join (x : UInt8) {y : UInt8} (hy : y.toNat < 16) : (x * 16 + y) % 16 = y := by
  apply UInt8.toNat_inj.mp
  rw [UInt8.toNat_mod, UInt8.toNat_add, UInt8.toNat_mul]
  show (x.toNat * 16 % 2 ^ 8 + y.toNat) % 2 ^ 8 % 16 = y.toNat
  omega

/-- What is read is an even number of digits. -/
theorem isWritten_of_decode? {cs : List Char} {bytes : Octets} (h : decode? cs = some bytes) :
    IsWritten cs := by
  fun_induction decode? cs generalizing bytes with
  | case1 => exact ⟨by decide, by simp⟩
  | case2 => cases h
  | case3 a b rest ih =>
    simp only [Option.bind_eq_bind, Option.bind_eq_some_iff, Option.pure_def] at h
    obtain ⟨x, hx, y, hy, tail, htail, -⟩ := h
    exact isWritten_cons_cons.2 ⟨isDigit_of_digit? hx, isDigit_of_digit? hy, ih htail⟩

/-- An even number of digits is read, and its octets are written as its lower case. -/
theorem decode?_of_isWritten {cs : List Char} (h : IsWritten cs) :
    ∃ bytes, decode? cs = some bytes ∧ encode bytes = cs.map Char.toLower := by
  fun_induction decode? cs with
  | case1 => exact ⟨[], rfl, rfl⟩
  | case2 => exact absurd h.1 (by simp)
  | case3 a b rest ih =>
    obtain ⟨ha, hb, hrest⟩ := isWritten_cons_cons.1 h
    obtain ⟨x, hx, hxlt, hxa⟩ := digit?_of_isDigit ha
    obtain ⟨y, hy, hylt, hyb⟩ := digit?_of_isDigit hb
    obtain ⟨tail, htail, hwritten⟩ := ih hrest
    refine ⟨(x * 16 + y) :: tail, by simp [hx, hy, htail], ?_⟩
    rw [encode_cons, high_of_join hxlt hylt, low_of_join x hylt, hxa, hyb, hwritten]
    rfl

/-- The texts that are read are those of an even number of digits. -/
theorem exists_decode?_iff {cs : List Char} : (∃ bytes, decode? cs = some bytes) ↔ IsWritten cs :=
  ⟨fun ⟨_, h⟩ => isWritten_of_decode? h, fun h => (decode?_of_isWritten h).imp fun _ => And.left⟩

/-- Octets are told apart by their written forms. -/
theorem encode_injective : Function.Injective encode := by
  intro bytes bytes' h
  have hread := congrArg decode? h
  rw [decode?_encode, decode?_encode] at hread
  exact Option.some.inj hread

/-- Reading gives the octets whose written form is the lower case of the text. -/
theorem decode?_eq_some_iff {cs : List Char} {bytes : Octets} :
    decode? cs = some bytes ↔ IsWritten cs ∧ encode bytes = cs.map Char.toLower := by
  constructor
  · intro h
    have hcs := isWritten_of_decode? h
    obtain ⟨found, hfound, hwritten⟩ := decode?_of_isWritten hcs
    obtain rfl : found = bytes := Option.some.inj (hfound.symm.trans h)
    exact ⟨hcs, hwritten⟩
  · rintro ⟨hcs, hwritten⟩
    obtain ⟨found, hfound, hfoundWritten⟩ := decode?_of_isWritten hcs
    rw [hfound, encode_injective (hfoundWritten.trans hwritten.symm)]

end Octets.Hex

/-! ## Base-64 texts -/

namespace Octets.Base64

/-- A letter that is read with a value is the one written for it. -/
theorem letter_of_value? {c : Char} {n : UInt8} (h : value? c = some n) :
    n.toNat < 64 ∧ letter n = c := by
  have hrange : c.toNat < 128 := by
    unfold value? at h
    simp only [Bool.and_eq_true, decide_eq_true_eq, Char.le_def, UInt32.le_iff_toNat_le,
      beq_iff_eq] at h
    show c.val.toNat < 128
    split_ifs at h with hupper hlower hdigit hplus hslash
    · exact Nat.lt_of_le_of_lt hupper.2 (by decide)
    · exact Nat.lt_of_le_of_lt hlower.2 (by decide)
    · exact Nat.lt_of_le_of_lt hdigit.2 (by decide)
    · rw [hplus]; decide
    · rw [hslash]; decide
  have hall : (value? c).all fun n => n.toNat < 64 && letter n == c :=
    Text.forall_ascii (P := fun c => (value? c).all fun n => n.toNat < 64 && letter n == c)
      (by decide) hrange
  simpa [h] using hall

/-- The two highest bits of a value below 64 are zero. -/
theorem high_bits {n : UInt8} (hn : n.toNat < 64) :
    n.toBitVec[6] = false ∧ n.toBitVec[7] = false :=
  ⟨Nat.testBit_lt_two_pow (show n.toNat < 2 ^ 6 from hn),
    Nat.testBit_lt_two_pow (show n.toNat < 2 ^ 7 by omega)⟩

/-! The letters of a group, from the octets that the values `w`, `x`, `y` and `z` are put together
to. -/

/-- The first letter of a group is known from the first octet. -/
theorem split_first {w x : UInt8} (hw : w.toNat < 64) (hx : x.toNat < 64) :
    ((w <<< 2) ||| (x >>> 4)) >>> 2 = w := by
  have ⟨hw6, hw7⟩ := high_bits hw
  have ⟨hx6, hx7⟩ := high_bits hx
  apply eq_of_bits
  intro i hi
  match i, hi with
  | 0, _ | 1, _ | 2, _ | 3, _ | 4, _ | 5, _ | 6, _ | 7, _ => simp [*]

/-- The second letter of a group is known from the first two octets. -/
theorem split_second {x : UInt8} (w y : UInt8) (hx : x.toNat < 64) (hy : y.toNat < 64) :
    ((((w <<< 2) ||| (x >>> 4)) &&& 3) <<< 4) ||| (((x <<< 4) ||| (y >>> 2)) >>> 4) = x := by
  have ⟨hx6, hx7⟩ := high_bits hx
  have ⟨hy6, hy7⟩ := high_bits hy
  apply eq_of_bits
  intro i hi
  match i, hi with
  | 0, _ | 1, _ | 2, _ | 3, _ | 4, _ | 5, _ | 6, _ | 7, _ => simp [*]

/-- The third letter of a group is known from the last two octets. -/
theorem split_third {y z : UInt8} (x : UInt8) (hy : y.toNat < 64) (hz : z.toNat < 64) :
    ((((x <<< 4) ||| (y >>> 2)) &&& 15) <<< 2) ||| (((y <<< 6) ||| z) >>> 6) = y := by
  have ⟨hy6, hy7⟩ := high_bits hy
  have ⟨hz6, hz7⟩ := high_bits hz
  apply eq_of_bits
  intro i hi
  match i, hi with
  | 0, _ | 1, _ | 2, _ | 3, _ | 4, _ | 5, _ | 6, _ | 7, _ => simp [*]

/-- The fourth letter of a group is known from the last octet. -/
theorem split_fourth {z : UInt8} (y : UInt8) (hz : z.toNat < 64) :
    ((y <<< 6) ||| z) &&& 63 = z := by
  have ⟨hz6, hz7⟩ := high_bits hz
  apply eq_of_bits
  intro i hi
  match i, hi with
  | 0, _ | 1, _ | 2, _ | 3, _ | 4, _ | 5, _ | 6, _ | 7, _ => simp [*]

/-- Spare bits that are zero leave nothing over for an octet more. -/
theorem shiftLeft_of_spare_second {x : UInt8} (h : x &&& 15 = 0) : x <<< 4 = 0 := by
  have hbit : ∀ i, (x &&& 15).toBitVec.getLsbD i = false := by simp [h]
  apply eq_of_bits
  intro i hi
  match i, hi with
  | 0, _ | 1, _ | 2, _ | 3, _ => simp
  | 4, _ => simpa using hbit 0
  | 5, _ => simpa using hbit 1
  | 6, _ => simpa using hbit 2
  | 7, _ => simpa using hbit 3

/-- Likewise where the third letter is the last one. -/
theorem shiftLeft_of_spare_third {y : UInt8} (h : y &&& 3 = 0) : y <<< 6 = 0 := by
  have hbit : ∀ i, (y &&& 3).toBitVec.getLsbD i = false := by simp [h]
  apply eq_of_bits
  intro i hi
  match i, hi with
  | 0, _ | 1, _ | 2, _ | 3, _ | 4, _ | 5, _ => simp
  | 6, _ => simpa using hbit 0
  | 7, _ => simpa using hbit 1

/-! In a short group the octet that is missing counts as zero. -/

/-- The second letter is known from the one octet of its group, as its spare bits are zero. -/
theorem split_last_of_two {x : UInt8} (w : UInt8) (hx : x.toNat < 64) (h : x &&& 15 = 0) :
    (((w <<< 2) ||| (x >>> 4)) &&& 3) <<< 4 = x := by
  have hsplit := split_second w 0 hx (by decide)
  rw [shiftLeft_of_spare_second h] at hsplit
  rwa [second_of_zero]

/-- The third letter is known from the two octets of its group, as its spare bits are zero. -/
theorem split_last_of_three {y : UInt8} (x : UInt8) (hy : y.toNat < 64) (h : y &&& 3 = 0) :
    (((x <<< 4) ||| (y >>> 2)) &&& 15) <<< 2 = y := by
  have hsplit := split_third (z := 0) x hy (by decide)
  rw [shiftLeft_of_spare_third h] at hsplit
  rwa [third_of_zero]

/-- Octets that are read are written as the text that they were read from. -/
theorem encode_of_decode? {cs : List Char} {bytes : Octets} (h : decode? cs = some bytes) :
    encode bytes = cs := by
  fun_induction decode? cs generalizing bytes with
  | case1 =>
    obtain rfl : [] = bytes := Option.some.inj h
    rfl
  | case2 a b =>
    simp only [Option.bind_eq_bind, Option.bind_eq_some_iff, Option.ite_none_right_eq_some,
      beq_iff_eq, Option.some.injEq] at h
    obtain ⟨w, hw, x, hx, hspare, rfl⟩ := h
    obtain ⟨hwlt, hwa⟩ := letter_of_value? hw
    obtain ⟨hxlt, hxb⟩ := letter_of_value? hx
    rw [encode, split_first hwlt hxlt, split_last_of_two w hxlt hspare, hwa, hxb]
  | case3 a b c =>
    simp only [Option.bind_eq_bind, Option.bind_eq_some_iff, Option.ite_none_right_eq_some,
      beq_iff_eq, Option.some.injEq] at h
    obtain ⟨w, hw, x, hx, y, hy, hspare, rfl⟩ := h
    obtain ⟨hwlt, hwa⟩ := letter_of_value? hw
    obtain ⟨hxlt, hxb⟩ := letter_of_value? hx
    obtain ⟨hylt, hyc⟩ := letter_of_value? hy
    rw [encode, split_first hwlt hxlt, split_second w y hxlt hylt,
      split_last_of_three x hylt hspare, hwa, hxb, hyc]
  | case4 a b c d rest _ _ ih =>
    simp only [Option.bind_eq_bind, Option.bind_eq_some_iff, Option.pure_def,
      Option.some.injEq] at h
    obtain ⟨w, hw, x, hx, y, hy, z, hz, tail, htail, rfl⟩ := h
    obtain ⟨hwlt, hwa⟩ := letter_of_value? hw
    obtain ⟨hxlt, hxb⟩ := letter_of_value? hx
    obtain ⟨hylt, hyc⟩ := letter_of_value? hy
    obtain ⟨hzlt, hzd⟩ := letter_of_value? hz
    rw [encode, split_first hwlt hxlt, split_second w y hxlt hylt, split_third x hylt hzlt,
      split_fourth y hzlt, hwa, hxb, hyc, hzd, ih htail]
  | case5 => cases h

/-- Reading and writing base 64 are inverse to each other. -/
theorem decode?_eq_some_iff {cs : List Char} {bytes : Octets} :
    decode? cs = some bytes ↔ encode bytes = cs :=
  ⟨encode_of_decode?, fun h => h ▸ decode?_encode bytes⟩

end Octets.Base64

/-! ## Blank characters inserted anywhere -/

namespace Text

/-- The second list is the first with blank characters inserted, at any places. -/
inductive Spaced : List Char → List Char → Prop
  | done : Spaced [] []
  | keep (c : Char) {cs spaced : List Char} (h : Spaced cs spaced) : Spaced (c :: cs) (c :: spaced)
  | insert {c : Char} {cs spaced : List Char} (hc : isBlank c = true) (h : Spaced cs spaced) :
      Spaced cs (c :: spaced)

/-- The blank characters that were inserted are those that a filter takes out. -/
theorem spaced_iff_filter {cs spaced : List Char} (hcs : ∀ c ∈ cs, isBlank c = false) :
    Spaced cs spaced ↔ spaced.filter (!isBlank ·) = cs := by
  constructor
  · intro h
    induction h with
    | done => rfl
    | keep c _ ih =>
      obtain ⟨hc, hcs⟩ := List.forall_mem_cons.1 hcs
      simp [hc, ih hcs]
    | insert hc _ ih => simp [hc, ih hcs]
  · rintro rfl
    clear hcs
    induction spaced with
    | nil => exact .done
    | cons c spaced ih =>
      by_cases hc : isBlank c = true
      · simpa [hc] using Spaced.insert hc ih
      · simpa [hc] using Spaced.keep c ih

end Text

/-! ## The lexical spaces of the binary kinds -/

/-- A hexadecimal text denotes the octets that its lower case is written for. -/
theorem readHex?_eq_some_iff {text : String} {bytes : Octets} :
    readHex? text = some bytes ↔ Octets.Hex.IsWritten text.toList ∧
      String.ofList (Octets.Hex.encode bytes) = text.toLower := by
  have hlower : text.toLower.toList = text.toList.map Char.toLower := String.toList_map
  rw [readHex?, Octets.Hex.decode?_eq_some_iff, ← hlower, ← String.toList_inj,
    String.toList_ofList]

/-- A base-64 text denotes the octets whose written form it is but for blank characters. -/
theorem readBase64?_eq_some_iff {text : String} {bytes : Octets} :
    readBase64? text = some bytes ↔ Text.Spaced (Octets.Base64.encode bytes) text.toList := by
  rw [readBase64?, Octets.Base64.decode?_eq_some_iff,
    Text.spaced_iff_filter fun _ hc => Octets.Base64.isBlank_of_mem_encode hc]
  exact eq_comm

/-- The lexical spaces of the binary kinds, and that reading undoes writing on exactly these. -/
theorem octets_lexical_spaces (text : String) (bytes : Octets) :
    ((∃ found, readHex? text = some found) ↔ Octets.Hex.IsWritten text.toList) ∧
      (readHex? text = some bytes ↔ Octets.Hex.IsWritten text.toList ∧
        String.ofList (Octets.Hex.encode bytes) = text.toLower) ∧
      readHex? (String.ofList (Octets.Hex.encode bytes)) = some bytes ∧
      (readBase64? text = some bytes ↔
        Octets.Base64.encode bytes = text.toList.filter (!Text.isBlank ·)) ∧
      (readBase64? text = some bytes ↔
        Text.Spaced (Octets.Base64.encode bytes) text.toList) := by
  refine ⟨Octets.Hex.exists_decode?_iff, readHex?_eq_some_iff, ?_,
    Octets.Base64.decode?_eq_some_iff, readBase64?_eq_some_iff⟩
  rw [readHex?, String.toList_ofList, Octets.Hex.decode?_encode]

/-- A digit too few, a sign and a digit outside ASCII are refused, and so are padding that is
missing and spare bits that are not zero. -/
example : ["abc", "+1", "١٢"].map readHex? = [none, none, none] ∧
    ["QQ", "QR==", "Q Q= ="].map readBase64? = [none, none, some [65]] := by
  decide

/-! ## Taking a hexadecimal text apart by its octets -/

/-- Two at a time, with one left over at the end of a list of odd length. -/
def pairs {α : Type} : List α → List (List α)
  | [] => []
  | [a] => [[a]]
  | a :: b :: rest => [a, b] :: pairs rest

namespace Text.Utf8

/-- An ASCII character is one octet, its number. -/
theorem encode_cons_ascii {c : Char} (hc : c.toNat < 128) (cs : List Char) :
    encode (c :: cs) = c.toNat.toUInt8 :: encode cs := by
  have hone : String.utf8EncodeChar c = [c.toNat.toUInt8] :=
    forall_ascii (P := fun c => String.utf8EncodeChar c = [c.toNat.toUInt8]) (by decide) hc
  rw [encode, List.flatMap_cons, hone]
  rfl

/-- The octet of an ASCII character is read as this character. -/
theorem pieces_ascii {c : Char} (hc : c.toNat < 128) (rest : Octets) :
    pieces none (c.toNat.toUInt8 :: rest) = some c :: pieces none rest := by
  have hlow : c.toNat.toUInt8 ≤ 0x7F ∧ Char.ofNat c.toNat.toUInt8.toNat = c :=
    forall_ascii (P := fun c => c.toNat.toUInt8 ≤ 0x7F ∧ Char.ofNat c.toNat.toUInt8.toNat = c)
      (by decide) hc
  rw [pieces, lead, if_pos hlow.1, hlow.2]

end Text.Utf8

namespace Octets.Hex

/-- The octet that two digits denote. -/
def octet? : List Char → Option UInt8
  | [a, b] => do
    let high ← digit? a
    let low ← digit? b
    pure (high * 16 + low)
  | _ => none

/-- The octets that the pairs of octets of a text denote, each pair read as a text. -/
def decodeOctets? (octets : Octets) : Option Octets :=
  (pairs octets).mapM fun piece => Text.Utf8.decode? piece >>= octet?

/-- Octets of digits are never cut inside a character: every pair is the text of two digits. -/
theorem decode?_pairs {cs : List Char} (h : IsWritten cs) :
    (pairs (Text.Utf8.encode cs)).map Text.Utf8.decode? = (pairs cs).map some := by
  fun_induction pairs cs with
  | case1 => rfl
  | case2 => exact absurd h.1 (by simp)
  | case3 a b rest ih =>
    obtain ⟨ha, hb, hrest⟩ := isWritten_cons_cons.1 h
    have halt := toNat_lt_of_isDigit ha
    have hblt := toNat_lt_of_isDigit hb
    have hpair : Text.Utf8.decode? [a.toNat.toUInt8, b.toNat.toUInt8] = some [a, b] := by
      rw [Text.Utf8.decode?, Text.Utf8.pieces_ascii halt, Text.Utf8.pieces_ascii hblt]
      rfl
    rw [Text.Utf8.encode_cons_ascii halt, Text.Utf8.encode_cons_ascii hblt, pairs, List.map_cons,
      List.map_cons, hpair, ih hrest]

/-- Reading hexadecimal text is reading its pairs of digits one by one. -/
theorem decode?_eq_mapM (cs : List Char) : decode? cs = (pairs cs).mapM octet? := by
  fun_induction decode? cs with
  | case1 => rfl
  | case2 => rfl
  | case3 a b rest ih =>
    rw [pairs, List.mapM_cons, octet?, ih]
    cases digit? a <;> cases digit? b <;> rfl

/-- Reading digits by the positions of their octets is reading them as characters. -/
theorem decodeOctets?_encode {cs : List Char} (h : IsWritten cs) :
    decodeOctets? (Text.Utf8.encode cs) = decode? cs := by
  calc decodeOctets? (Text.Utf8.encode cs)
    _ = ((pairs (Text.Utf8.encode cs)).map Text.Utf8.decode?).mapM (· >>= octet?) := by
        rw [List.mapM_map]; rfl
    _ = ((pairs cs).map some).mapM (· >>= octet?) := by rw [decode?_pairs h]
    _ = (pairs cs).mapM octet? := by rw [List.mapM_map]; rfl
    _ = decode? cs := (decode?_eq_mapM cs).symm

end Octets.Hex

end TypedXml
