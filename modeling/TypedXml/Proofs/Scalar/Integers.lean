import Mathlib.Data.Nat.Digits.Defs
import TypedXml.Proofs.Scalar.Lexical

/-!
# Integers and their literals

What a decimal literal denotes is said here by the places of its digits, and what a text writes by
the blank characters that may stand around a literal.  Reading gives exactly that number.  The
range of 32 bits is checked on the number as a whole; a reader that never leaves the range, because
it gives up at the first digit that would, finds the same, since a number that has left the range
does not come back with more digits.
-/

set_option autoImplicit false

namespace TypedXml

/-! ## Literals -/

namespace Decimal

/-- The value of a decimal digit by its place behind the digit zero. -/
def digitValue (digit : Char) : Nat :=
  digit.toNat - '0'.toNat

/-- The number that a run of digits denotes by their places, the last one standing for units. -/
def placeValue (digits : List Char) : Nat :=
  Nat.ofDigits 10 (digits.reverse.map digitValue)

/-- The integer that a decimal literal denotes: at least one digit behind a sign, or behind none. -/
inductive Denotes : List Char → Int → Prop
  | unsigned {digits : List Char} (nonempty : digits ≠ [])
      (all : ∀ c ∈ digits, c.isDigit = true) : Denotes digits (placeValue digits)
  | positive {digits : List Char} (nonempty : digits ≠ [])
      (all : ∀ c ∈ digits, c.isDigit = true) : Denotes ('+' :: digits) (placeValue digits)
  | negative {digits : List Char} (nonempty : digits ≠ [])
      (all : ∀ c ∈ digits, c.isDigit = true) : Denotes ('-' :: digits) (-placeValue digits)

/-- The integer that a text writes: a literal with blank characters around it, or none. -/
def Writes (text : String) (n : Int) : Prop :=
  ∃ lead literal trail, text.toList = lead ++ literal ++ trail ∧
    (∀ c ∈ lead, Text.isBlank c = true) ∧ (∀ c ∈ trail, Text.isBlank c = true) ∧
    Denotes literal n

/-- A digit in front counts as often as the power of ten of its place. -/
theorem placeValue_cons (digit : Char) (rest : List Char) :
    placeValue (digit :: rest) = digitValue digit * 10 ^ rest.length + placeValue rest := by
  rw [placeValue, List.reverse_cons, List.map_append, Nat.ofDigits_append, List.length_map,
    List.length_reverse, List.map_singleton, Nat.ofDigits_singleton, placeValue]
  ring

/-- Reading from the left gives each digit the value of its place. -/
theorem ofDigitChars_eq (digits : List Char) (n : Nat) :
    Nat.ofDigitChars 10 digits n = n * 10 ^ digits.length + placeValue digits := by
  induction digits generalizing n with
  | nil => simp [placeValue]
  | cons digit rest ih =>
    rw [Nat.ofDigitChars_cons, ih, placeValue_cons, List.length_cons, digitValue]
    ring

/-- Reading gives the number that a nonempty run of digits denotes by their places, and nothing
else. -/
theorem readNat?_eq_some_iff {cs : List Char} {n : Nat} :
    readNat? cs = some n ↔ cs ≠ [] ∧ (∀ c ∈ cs, c.isDigit = true) ∧ n = placeValue cs := by
  have hvalue : Nat.ofDigitChars 10 cs 0 = placeValue cs := by
    rw [ofDigitChars_eq, Nat.zero_mul, Nat.zero_add]
  unfold readNat?
  rw [hvalue]
  cases cs with
  | nil => simp
  | cons c rest =>
    simp only [List.isEmpty_cons, Bool.not_false, Bool.true_and, List.all_eq_true]
    split
    · next hall =>
      rw [Option.some.injEq, eq_comm]
      exact ⟨fun h => ⟨List.cons_ne_nil c rest, hall, h⟩, fun h => h.2.2⟩
    · next hall => exact ⟨nofun, fun h => absurd h.2.1 hall⟩

/-- The same for a number that is put into another form, such as its negative. -/
theorem map_readNat?_eq_some_iff {digits : List Char} {f : Nat → Int} {n : Int} :
    (readNat? digits).map f = some n ↔
      digits ≠ [] ∧ (∀ c ∈ digits, c.isDigit = true) ∧ n = f (placeValue digits) := by
  rw [Option.map_eq_some_iff]
  constructor
  · rintro ⟨m, hm, rfl⟩
    obtain ⟨hne, hall, rfl⟩ := readNat?_eq_some_iff.1 hm
    exact ⟨hne, hall, rfl⟩
  · rintro ⟨hne, hall, rfl⟩
    exact ⟨_, readNat?_eq_some_iff.2 ⟨hne, hall, rfl⟩, rfl⟩

/-- Reading gives an integer if and only if it is what the literal denotes. -/
theorem readInt?_eq_some_iff {cs : List Char} {n : Int} :
    readInt? cs = some n ↔ Denotes cs n := by
  constructor
  · intro h
    unfold readInt? at h
    split at h
    all_goals obtain ⟨hne, hall, rfl⟩ := map_readNat?_eq_some_iff.1 h
    · exact .positive hne hall
    · exact .negative hne hall
    · exact .unsigned hne hall
  · intro h
    cases h with
    | unsigned nonempty all =>
      unfold readInt?
      split
      · exact absurd (all '+' List.mem_cons_self) (by decide)
      · exact absurd (all '-' List.mem_cons_self) (by decide)
      · exact map_readNat?_eq_some_iff.2 ⟨nonempty, all, rfl⟩
    | positive nonempty all => exact map_readNat?_eq_some_iff.2 ⟨nonempty, all, rfl⟩
    | negative nonempty all => exact map_readNat?_eq_some_iff.2 ⟨nonempty, all, rfl⟩

/-- What stands in a literal is visible. -/
theorem Denotes.isBlank {literal : List Char} {n : Int} (h : Denotes literal n) :
    ∀ c ∈ literal, Text.isBlank c = false := by
  cases h with
  | unsigned nonempty all => exact fun c hc => isBlank_of_isDigit (all c hc)
  | positive nonempty all =>
    exact List.forall_mem_cons.2 ⟨by decide, fun c hc => isBlank_of_isDigit (all c hc)⟩
  | negative nonempty all =>
    exact List.forall_mem_cons.2 ⟨by decide, fun c hc => isBlank_of_isDigit (all c hc)⟩

/-- A text writes the integer that its trimmed form denotes. -/
theorem writes_iff {text : String} {n : Int} :
    Writes text n ↔ Denotes (Text.trimBlanks text.toList) n := by
  constructor
  · rintro ⟨lead, literal, trail, htext, hlead, htrail, hliteral⟩
    rw [htext, Text.trimBlanks_surrounded hlead hliteral.isBlank htrail]
    exact hliteral
  · intro h
    obtain ⟨lead, trail, htext, hlead, htrail⟩ := Text.exists_eq_surrounded text.toList
    exact ⟨lead, _, trail, htext, hlead, htrail, h⟩

/-! ## Within a word -/

/-- A number, if it is one of 32 bits with a sign. -/
def word? (n : Int) : Option Int :=
  if -2 ^ 31 ≤ n ∧ n ≤ 2 ^ 31 - 1 then some n else none

/-- A number with one more digit behind it, if neither step leaves the range. -/
def pushDigit? (sign n : Int) (digit : Char) : Option Int := do
  let tens ← word? (10 * n)
  word? (tens + sign * digitValue digit)

/-- The number of a run of digits, read without ever leaving the range. -/
def readDigits? (sign : Int) (digits : List Char) : Option Int :=
  if !digits.isEmpty && digits.all Char.isDigit then digits.foldlM (pushDigit? sign) 0 else none

/-- The integer of a literal, read without ever leaving the range. -/
def readWord? : List Char → Option Int
  | '+' :: digits => readDigits? 1 digits
  | '-' :: digits => readDigits? (-1) digits
  | digits => readDigits? 1 digits

/-- A number is kept if it is one of 32 bits with a sign. -/
theorem word?_eq_some_iff {n m : Int} :
    word? n = some m ↔ n = m ∧ -2 ^ 31 ≤ m ∧ m ≤ 2 ^ 31 - 1 := by
  unfold word?
  split
  · next h =>
    rw [Option.some.injEq]
    exact ⟨fun hm => ⟨hm, hm ▸ h⟩, fun hm => hm.1⟩
  · next h => exact ⟨nofun, fun hm => absurd (hm.1 ▸ hm.2) h⟩

section

variable {sign : Int}

/-- A number that has left the range does not come back. -/
theorem word?_eq_none_of_le (hsign : sign = 1 ∨ sign = -1) {k more : Nat} (hle : k ≤ more)
    (hk : word? (sign * k) = none) : word? (sign * more) = none := by
  simp only [word?, ite_eq_right_iff, reduceCtorEq, imp_false] at hk ⊢
  rcases hsign with rfl | rfl <;> omega

/-- A digit more, under either sign, is the number with this digit behind it, if that is in
range. -/
theorem pushDigit?_mul (hsign : sign = 1 ∨ sign = -1) (k : Nat) (digit : Char) :
    pushDigit? sign (sign * k) digit = word? (sign * (10 * k + digitValue digit : Nat)) := by
  have htens : 10 * (sign * k) = sign * (10 * k : Nat) := by push_cast; ring
  have hsum : sign * (10 * k : Nat) + sign * digitValue digit =
      sign * (10 * k + digitValue digit : Nat) := by push_cast; ring
  rw [pushDigit?, htens]
  cases hword : word? (sign * (10 * k : Nat)) with
  | none => exact (word?_eq_none_of_le hsign (Nat.le_add_right _ _) hword).symm
  | some tens =>
    obtain ⟨rfl, _⟩ := word?_eq_some_iff.1 hword
    rw [← hsum]
    rfl

/-- A number does not become smaller by more digits. -/
theorem le_ofDigitChars (digits : List Char) (k : Nat) : k ≤ Nat.ofDigitChars 10 digits k := by
  rw [ofDigitChars_eq]
  exact Nat.le_add_right_of_le (Nat.le_mul_of_pos_right k (Nat.pow_pos (by decide)))

/-- Step by step within the range, or at once and then checked: the number is the same. -/
theorem foldlM_pushDigit? (hsign : sign = 1 ∨ sign = -1) (digits : List Char) {k : Nat}
    (hk : word? (sign * k) = some (sign * k)) :
    digits.foldlM (pushDigit? sign) (sign * k) =
      word? (sign * (Nat.ofDigitChars 10 digits k : Nat)) := by
  induction digits generalizing k with
  | nil => exact hk.symm
  | cons digit rest ih =>
    rw [List.foldlM_cons, pushDigit?_mul hsign, Nat.ofDigitChars_cons]
    cases hnext : word? (sign * (10 * k + digitValue digit : Nat)) with
    | none => exact (word?_eq_none_of_le hsign (le_ofDigitChars rest _) hnext).symm
    | some next =>
      obtain ⟨rfl, _⟩ := word?_eq_some_iff.1 hnext
      exact ih hnext

/-- A run of digits read within the range is its number if that is in range. -/
theorem readDigits?_eq (hsign : sign = 1 ∨ sign = -1) (digits : List Char) :
    readDigits? sign digits = (readNat? digits).bind fun n => word? (sign * n) := by
  have hstart : word? (sign * (0 : Nat)) = some (sign * (0 : Nat)) := by
    rw [word?_eq_some_iff]
    omega
  have hfold := foldlM_pushDigit? hsign digits hstart
  rw [Int.natCast_zero, Int.mul_zero] at hfold
  unfold readDigits? readNat?
  split
  · exact hfold
  · rfl

end

end Decimal

/-- Reading 32 bits is reading an integer and then checking its range. -/
theorem readInt32?_eq (cs : List Char) :
    readInt32? cs = ((Decimal.readInt? cs).bind Decimal.word?).map Int64.ofInt := by
  unfold readInt32?
  cases Decimal.readInt? cs with
  | none => rfl
  | some n =>
    rw [Option.bind_some, Decimal.word?]
    simp only [Int.reducePow, Int.reduceSub]
    split <;> rfl

/-- A reader that gives up at the first digit that would leave the range finds the same integer as
one that looks at the range when all digits are read. -/
theorem readInt32?_eq_readWord? (cs : List Char) :
    readInt32? cs = (Decimal.readWord? cs).map Int64.ofInt := by
  rw [readInt32?_eq]
  congr 1
  fun_cases Decimal.readInt? cs with
  | case1 digits =>
    rw [Decimal.readWord?, Decimal.readDigits?_eq (Or.inl rfl)]
    simp [Option.bind_map]
  | case2 digits =>
    rw [Decimal.readWord?, Decimal.readDigits?_eq (Or.inr rfl)]
    simp [Option.bind_map]
  | case3 _ hplus hminus =>
    rw [Decimal.readWord?.eq_3 _ hplus hminus, Decimal.readDigits?_eq (Or.inl rfl)]
    simp [Option.bind_map]

/-- Reading within a word gives the integers of 32 bits that literals denote. -/
theorem readInt32?_eq_some_iff {cs : List Char} {n : Int64} :
    readInt32? cs = some n ↔
      Decimal.Denotes cs n.toInt ∧ -2 ^ 31 ≤ n.toInt ∧ n.toInt ≤ 2 ^ 31 - 1 := by
  rw [readInt32?_eq, Option.map_eq_some_iff]
  constructor
  · rintro ⟨m, hm, rfl⟩
    obtain ⟨found, hfound, hword⟩ := Option.bind_eq_some_iff.1 hm
    obtain ⟨rfl, hlow, hhigh⟩ := Decimal.word?_eq_some_iff.1 hword
    rw [Int64.toInt_ofInt_of_le (by omega) (by omega)]
    exact ⟨Decimal.readInt?_eq_some_iff.1 hfound, hlow, hhigh⟩
  · rintro ⟨hdenotes, hrange⟩
    refine ⟨n.toInt, ?_, Int64.ofInt_toInt n⟩
    rw [Decimal.readInt?_eq_some_iff.2 hdenotes, Option.bind_some, Decimal.word?_eq_some_iff]
    exact ⟨rfl, hrange⟩

namespace Kind

/-- A text that is refused is refused with itself unchanged, and only when it denotes nothing. -/
theorem parse_eq_error {kind : Kind} {text : String} {fault : LexicalFault} :
    kind.parse text = .error fault ↔ fault = ⟨kind, text⟩ ∧ ∀ value, kind.parse text ≠ .ok value := by
  unfold parse
  cases kind.read? text with
  | none => simp [eq_comm]
  | some value => simp

/-- Reading an integer is exact.  A text is read if and only if it is, but for blank characters at
its ends, digits behind a sign or none that denote an integer of 32 bits, which it is read as; every
other text is refused by a fault that holds the text unchanged. -/
theorem parse_int_exact (text : String) :
    (∀ value, Kind.int.parse text = .ok value ↔
      ∃ n : Int64, value = .int n ∧ Decimal.Writes text n.toInt ∧
        -2 ^ 31 ≤ n.toInt ∧ n.toInt ≤ 2 ^ 31 - 1) ∧
    (∀ fault, Kind.int.parse text = .error fault ↔
      fault = ⟨.int, text⟩ ∧
        ∀ n : Int, Decimal.Writes text n → ¬ (-2 ^ 31 ≤ n ∧ n ≤ 2 ^ 31 - 1)) := by
  have hok : ∀ value, Kind.int.parse text = .ok value ↔
      ∃ n : Int64, value = .int n ∧ Decimal.Writes text n.toInt ∧
        -2 ^ 31 ≤ n.toInt ∧ n.toInt ≤ 2 ^ 31 - 1 := by
    intro value
    rw [parse_eq_ok, read?, Option.map_eq_some_iff]
    simp only [readInt32?_eq_some_iff, Decimal.writes_iff]
    constructor
    · rintro ⟨n, hn, rfl⟩
      exact ⟨n, rfl, hn⟩
    · rintro ⟨n, rfl, hn⟩
      exact ⟨n, hn, rfl⟩
  refine ⟨hok, fun fault => ?_⟩
  rw [parse_eq_error]
  refine and_congr_right fun _ => ?_
  constructor
  · intro hrefused n hwrites hrange
    -- an integer of 32 bits is one of 64
    have hn : (Int64.ofInt n).toInt = n := Int64.toInt_ofInt_of_le (by omega) (by omega)
    exact hrefused _ ((hok _).2 ⟨Int64.ofInt n, rfl, hn.symm ▸ ⟨hwrites, hrange⟩⟩)
  · intro hout value hvalue
    obtain ⟨n, _, hwrites, hrange⟩ := (hok value).1 hvalue
    exact hout _ hwrites hrange

/-- The least integer of 32 bits is one further from zero than the greatest. -/
example : Kind.int.parse "\u3000-0002147483648 " = .ok (.int (-2147483648)) ∧
    Kind.int.parse "+2147483648" = .error ⟨.int, "+2147483648"⟩ := by
  decide

end Kind

end TypedXml
