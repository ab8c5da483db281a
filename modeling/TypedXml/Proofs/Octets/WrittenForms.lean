import TypedXml.Octets.Base64
import TypedXml.Octets.Hex
import TypedXml.Text.Blank

/-!
# Written octets read back

Both written forms of octets, hexadecimal and base 64, are read back as the octets they were
written from, and neither holds a blank character.  A digit or a letter is one of a few, so what
concerns a single character is a finite check; the octets of a group are put together again from
the halves, or the sixes of bits, that the characters stand for.
-/

set_option autoImplicit false

namespace TypedXml.Octets

namespace Hex

/-- The digit of a value below sixteen is visible and reads back as this value. -/
theorem digit?_digit {n : UInt8} (hn : n.toNat < 16) :
    digit? (digit n) = some n ∧ Text.isBlank (digit n) = false := by
  have h : ∀ k : Fin 16, digit? (digit (UInt8.ofNat k)) = some (UInt8.ofNat k) ∧
      Text.isBlank (digit (UInt8.ofNat k)) = false := by
    decide
  simpa using h ⟨n.toNat, hn⟩

/-- The higher half of an octet is a value of one digit. -/
theorem toNat_high_lt (b : UInt8) : (b / 16).toNat < 16 := by
  have hb := b.toNat_lt
  rw [UInt8.toNat_div]
  show b.toNat / 16 < 16
  omega

/-- The lower half of an octet is a value of one digit. -/
theorem toNat_low_lt (b : UInt8) : (b % 16).toNat < 16 := by
  rw [UInt8.toNat_mod]
  exact Nat.mod_lt _ (by decide)

/-- An octet is put together again from its halves. -/
theorem high_mul_add_low (b : UInt8) : b / 16 * 16 + b % 16 = b := by
  have hb := b.toNat_lt
  apply UInt8.toNat_inj.mp
  rw [UInt8.toNat_add, UInt8.toNat_mul, UInt8.toNat_div, UInt8.toNat_mod]
  show (b.toNat / 16 * 16 % 2 ^ 8 + b.toNat % 16) % 2 ^ 8 = b.toNat
  omega

/-- Octets are written one by one, each as two digits. -/
theorem encode_cons (b : UInt8) (bytes : Octets) :
    encode (b :: bytes) = digit (b / 16) :: digit (b % 16) :: encode bytes := by
  simp [encode]

/-- Written octets read back as themselves. -/
theorem decode?_encode (bytes : Octets) : decode? (encode bytes) = some bytes := by
  induction bytes with
  | nil => rfl
  | cons b rest ih =>
    have hhigh := (digit?_digit (toNat_high_lt b)).1
    have hlow := (digit?_digit (toNat_low_lt b)).1
    rw [encode_cons]
    simp only [decode?, hhigh, hlow, ih, Option.bind_eq_bind, Option.bind_some, Option.pure_def]
    rw [high_mul_add_low]

/-- No blank character stands in written octets. -/
theorem isBlank_of_mem_encode {bytes : Octets} {c : Char} (hc : c ∈ encode bytes) :
    Text.isBlank c = false := by
  rw [encode, List.mem_flatMap] at hc
  obtain ⟨b, _, hcb⟩ := hc
  rcases List.mem_cons.1 hcb with rfl | hlow
  · exact (digit?_digit (toNat_high_lt b)).2
  · rw [List.mem_singleton.1 hlow]
    exact (digit?_digit (toNat_low_lt b)).2

end Hex

namespace Base64

/-- The letter of a value below 64 is visible, no padding, and reads back as this value. -/
theorem value?_letter {n : UInt8} (hn : n.toNat < 64) :
    value? (letter n) = some n ∧ Text.isBlank (letter n) = false ∧ letter n ≠ '=' := by
  have h : ∀ k : Fin 64, value? (letter (UInt8.ofNat k)) = some (UInt8.ofNat k) ∧
      Text.isBlank (letter (UInt8.ofNat k)) = false ∧ letter (UInt8.ofNat k) ≠ '=' := by
    decide
  simpa using h ⟨n.toNat, hn⟩

/-! The values of the letters of a group, for the octets `a`, `b` and `c`. -/

/-- The first letter stands for the six higher bits of the first octet. -/
theorem toNat_first_lt (a : UInt8) : (a >>> 2).toNat < 64 := by
  have ha := a.toNat_lt
  rw [UInt8.toNat_shiftRight]
  show a.toNat >>> 2 < 64
  rw [Nat.shiftRight_eq_div_pow]
  omega

/-- The second letter stands for two bits of the first octet and four of the second. -/
theorem toNat_second_lt (a b : UInt8) : (((a &&& 3) <<< 4) ||| (b >>> 4)).toNat < 64 := by
  have hb := b.toNat_lt
  rw [UInt8.toNat_or, UInt8.toNat_shiftLeft, UInt8.toNat_shiftRight, UInt8.toNat_and]
  apply Nat.or_lt_two_pow (n := 6)
  · have hand := Nat.and_le_right (n := a.toNat) (m := 3)
    show (a.toNat &&& 3) <<< 4 % 2 ^ 8 < 2 ^ 6
    rw [Nat.shiftLeft_eq]
    omega
  · show b.toNat >>> 4 < 2 ^ 6
    rw [Nat.shiftRight_eq_div_pow]
    omega

/-- The third letter stands for four bits of the second octet and two of the third. -/
theorem toNat_third_lt (b c : UInt8) : (((b &&& 15) <<< 2) ||| (c >>> 6)).toNat < 64 := by
  have hc := c.toNat_lt
  rw [UInt8.toNat_or, UInt8.toNat_shiftLeft, UInt8.toNat_shiftRight, UInt8.toNat_and]
  apply Nat.or_lt_two_pow (n := 6)
  · have hand := Nat.and_le_right (n := b.toNat) (m := 15)
    show (b.toNat &&& 15) <<< 2 % 2 ^ 8 < 2 ^ 6
    rw [Nat.shiftLeft_eq]
    omega
  · show c.toNat >>> 6 < 2 ^ 6
    rw [Nat.shiftRight_eq_div_pow]
    omega

/-- The fourth letter stands for the six lower bits of the third octet. -/
theorem toNat_fourth_lt (c : UInt8) : (c &&& 63).toNat < 64 := by
  rw [UInt8.toNat_and]
  exact Nat.lt_succ_of_le Nat.and_le_right

/-- Where the second octet is missing, its bits in the second letter are zero. -/
theorem second_of_zero (a : UInt8) :
    (a &&& 3) <<< 4 = ((a &&& 3) <<< 4) ||| ((0 : UInt8) >>> 4) := by
  simp

/-- Where the third octet is missing, its bits in the third letter are zero. -/
theorem third_of_zero (b : UInt8) :
    (b &&& 15) <<< 2 = ((b &&& 15) <<< 2) ||| ((0 : UInt8) >>> 6) := by
  simp

/-- Octets with the same bits are equal. -/
theorem eq_of_bits {a b : UInt8} (h : ∀ i < 8, a.toBitVec.getLsbD i = b.toBitVec.getLsbD i) :
    a = b :=
  UInt8.toBitVec_inj.1 (BitVec.eq_of_getLsbD_eq h)

/-- The first octet is put together again from the first two letters. -/
theorem join_first (a b : UInt8) :
    (a >>> 2) <<< 2 ||| ((((a &&& 3) <<< 4) ||| (b >>> 4)) >>> 4) = a := by
  apply eq_of_bits
  intro i hi
  match i, hi with
  | 0, _ | 1, _ | 2, _ | 3, _ | 4, _ | 5, _ | 6, _ | 7, _ => simp

/-- The second octet is put together again from the second and the third letter. -/
theorem join_second (a b c : UInt8) :
    ((((a &&& 3) <<< 4) ||| (b >>> 4)) <<< 4) |||
      ((((b &&& 15) <<< 2) ||| (c >>> 6)) >>> 2) = b := by
  apply eq_of_bits
  intro i hi
  match i, hi with
  | 0, _ | 1, _ | 2, _ | 3, _ | 4, _ | 5, _ | 6, _ | 7, _ => simp

/-- The third octet is put together again from the last two letters. -/
theorem join_third (b c : UInt8) :
    ((((b &&& 15) <<< 2) ||| (c >>> 6)) <<< 6) ||| (c &&& 63) = c := by
  apply eq_of_bits
  intro i hi
  match i, hi with
  | 0, _ | 1, _ | 2, _ | 3, _ | 4, _ | 5, _ | 6, _ | 7, _ => simp

/-- The bits of the last letter that belong to no octet are zero. -/
theorem spare_second (a : UInt8) : ((a &&& 3) <<< 4) &&& 15 = 0 := by
  apply eq_of_bits
  intro i hi
  match i, hi with
  | 0, _ | 1, _ | 2, _ | 3, _ | 4, _ | 5, _ | 6, _ | 7, _ => simp

/-- Likewise the two bits of the third letter where the third octet is missing. -/
theorem spare_third (b : UInt8) : ((b &&& 15) <<< 2) &&& 3 = 0 := by
  apply eq_of_bits
  intro i hi
  match i, hi with
  | 0, _ | 1, _ | 2, _ | 3, _ | 4, _ | 5, _ | 6, _ | 7, _ => simp

/-- Four letters in front of a text are read as three octets. -/
theorem decode?_group {a b c d : Char} {w x y z : UInt8} (rest : List Char)
    (ha : value? a = some w) (hb : value? b = some x) (hc : value? c = some y)
    (hd : value? d = some z) (hpad : d ≠ '=') :
    decode? (a :: b :: c :: d :: rest) = (decode? rest).map fun bytes =>
      ((w <<< 2) ||| (x >>> 4)) :: ((x <<< 4) ||| (y >>> 2)) :: ((y <<< 6) ||| z) :: bytes := by
  rw [decode?.eq_4 a b c d rest (fun _ h _ => hpad h) (fun h _ => hpad h)]
  simp only [ha, hb, hc, hd, Option.bind_eq_bind, Option.bind_some, Option.pure_def]
  cases decode? rest <;> rfl

/-- Written octets read back as themselves. -/
theorem decode?_encode (bytes : Octets) : decode? (encode bytes) = some bytes := by
  fun_induction encode bytes with
  | case1 => rfl
  | case2 a =>
    have hfirst := (value?_letter (toNat_first_lt a)).1
    have hsecond := (value?_letter (toNat_second_lt a 0)).1
    -- the letters of a short group are those of a full one whose missing octets are zero
    have hjoin := join_first a 0
    rw [← second_of_zero] at hsecond hjoin
    simp only [decode?, hfirst, hsecond, Option.bind_eq_bind, Option.bind_some]
    rw [if_pos (by rw [spare_second]; rfl), hjoin]
  | case3 a b =>
    have hfirst := (value?_letter (toNat_first_lt a)).1
    have hsecond := (value?_letter (toNat_second_lt a b)).1
    have hthird := (value?_letter (toNat_third_lt b 0)).1
    have hpad := (value?_letter (toNat_third_lt b 0)).2.2
    have hjoin := join_second a b 0
    rw [← third_of_zero] at hthird hpad hjoin
    rw [decode?.eq_3 _ _ _ hpad]
    simp only [hfirst, hsecond, hthird, Option.bind_eq_bind, Option.bind_some]
    rw [if_pos (by rw [spare_third]; rfl), join_first, hjoin]
  | case4 a b c rest ih =>
    have hfourth := value?_letter (toNat_fourth_lt c)
    rw [decode?_group _ (value?_letter (toNat_first_lt a)).1
      (value?_letter (toNat_second_lt a b)).1 (value?_letter (toNat_third_lt b c)).1
      hfourth.1 hfourth.2.2, ih, Option.map_some, join_first, join_second, join_third]

/-- No blank character stands in written octets. -/
theorem isBlank_of_mem_encode {bytes : Octets} {c : Char} (hc : c ∈ encode bytes) :
    Text.isBlank c = false := by
  fun_induction encode bytes with
  | case1 => cases hc
  | case2 a =>
    have hfirst := (value?_letter (toNat_first_lt a)).2.1
    have hsecond := (value?_letter (toNat_second_lt a 0)).2.1
    rw [← second_of_zero] at hsecond
    simp only [List.mem_cons, List.not_mem_nil, or_false] at hc
    rcases hc with rfl | rfl | rfl | rfl
    · exact hfirst
    · exact hsecond
    · decide
    · decide
  | case3 a b =>
    have hfirst := (value?_letter (toNat_first_lt a)).2.1
    have hsecond := (value?_letter (toNat_second_lt a b)).2.1
    have hthird := (value?_letter (toNat_third_lt b 0)).2.1
    rw [← third_of_zero] at hthird
    simp only [List.mem_cons, List.not_mem_nil, or_false] at hc
    rcases hc with rfl | rfl | rfl | rfl
    · exact hfirst
    · exact hsecond
    · exact hthird
    · decide
  | case4 a b c' rest ih =>
    simp only [List.mem_cons] at hc
    rcases hc with rfl | rfl | rfl | rfl | hrest
    · exact (value?_letter (toNat_first_lt a)).2.1
    · exact (value?_letter (toNat_second_lt a b)).2.1
    · exact (value?_letter (toNat_third_lt b c')).2.1
    · exact (value?_letter (toNat_fourth_lt c')).2.1
    · exact ih hrest

end Base64

end TypedXml.Octets
