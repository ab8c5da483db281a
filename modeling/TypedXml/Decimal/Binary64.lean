/-!
# Decimals and numbers of 53 binary digits

A decimal literal is brought to a binary floating-point number of 64 bits, and such a number is
written with the fewest decimal digits that lead back to it.  Both directions compute with exact
natural numbers, so no step depends on machine arithmetic.
-/

set_option autoImplicit false

namespace TypedXml.Decimal

/-- A finite binary number that is not negative: `mantissa * 2 ^ exponent`, where the mantissa has
at most 53 digits and the exponent is at least -1074. -/
structure Binary64 where
  mantissa : Nat
  exponent : Int
  deriving DecidableEq, Repr

/-- A quotient rounded to the nearest natural number, a half to the even neighbour. -/
def roundHalfEven (num den : Nat) : Nat :=
  let floor := num / den
  let twice := 2 * (num % den)
  if twice < den || (twice == den && floor % 2 == 0) then floor else floor + 1

/-- A quotient multiplied by a power of a base, as numerator and denominator. -/
def scale (base : Nat) (power : Int) (num den : Nat) : Nat × Nat :=
  if 0 ≤ power then (num * Nat.pow base power.toNat, den)
  else (num, den * Nat.pow base (-power).toNat)

namespace Binary64

/-- The least number of 53 binary digits. -/
def leastFull : Nat := 4503599627370496

/-- The number zero, with the least exponent. -/
def zero : Binary64 := ⟨0, -1074⟩

/-- A number as a quotient of natural numbers. -/
def ratio (x : Binary64) : Nat × Nat :=
  scale 2 x.exponent x.mantissa 1

/-- The nearest number to a quotient, none if that lies beyond all numbers. -/
def round? (num den : Nat) : Option Binary64 :=
  if num == 0 then some zero
  else
    let guess : Int := Int.ofNat num.log2 - Int.ofNat den.log2
    let (n, d) := scale 2 (-guess) num den
    let top := if n < d then guess - 1 else guess
    let exponent := max (top - 52) (-1074)
    let (n, d) := scale 2 (-exponent) num den
    let mantissa := roundHalfEven n d
    let rounded : Binary64 :=
      if mantissa == 2 * leastFull then ⟨leastFull, exponent + 1⟩ else ⟨mantissa, exponent⟩
    if rounded.exponent > 971 then none else some rounded

/-- The product of two numbers, rounded. -/
def mul? (x y : Binary64) : Option Binary64 :=
  round? (x.ratio.1 * y.ratio.1) (x.ratio.2 * y.ratio.2)

/-- The quotient of two numbers, rounded. -/
def div? (x y : Binary64) : Option Binary64 :=
  round? (x.ratio.1 * y.ratio.2) (x.ratio.2 * y.ratio.1)

/-- A power of ten, rounded. -/
def powerOfTen? (power : Nat) : Option Binary64 :=
  round? (Nat.pow 10 power) 1

/-- A number divided by a power of ten, in steps of at most `10 ^ 308`, each rounded. -/
def shrink? (x : Binary64) (power : Nat) : Option Binary64 :=
  if power ≤ 308 then (powerOfTen? power).bind x.div?
  else if x.mantissa == 0 then some x
  else do
    let step ← powerOfTen? 308
    let y ← x.div? step
    shrink? y (power - 308)
termination_by power

/-- The number of the literal `significand * 10 ^ exponent`: both factors are rounded first and
their product or quotient after them. -/
def ofLiteral? (significand : Nat) (exponent : Int) : Option Binary64 := do
  let x ← round? significand 1
  if 0 ≤ exponent then
    if exponent ≤ 308 then
      let power ← powerOfTen? exponent.toNat
      x.mul? power
    else if x.mantissa == 0 then some x
    else none
  else x.shrink? (-exponent).toNat

/-- Digits and a power of ten. -/
structure Digits where
  number : Nat
  exponent : Int
  deriving DecidableEq, Repr

/-- The multiple of `10 ^ power` that is nearest to a number, if one of them is rounded to that
number.  All bounds are counted in quarters of the last binary digit. -/
def onGrid? (x : Binary64) (power : Int) : Option Nat :=
  let m := 4 * x.mantissa
  let low := if x.mantissa == leastFull && x.exponent > -1074 then m - 1 else m - 2
  let high := m + 2
  let (un, ud) := scale 2 (x.exponent - 2) 1 1
  let (tn, td) := scale 10 power 1 1
  let unit := un * td
  let step := tn * ud
  let inside (c : Nat) : Bool :=
    if x.mantissa % 2 == 0 then low * unit ≤ c * step && c * step ≤ high * unit
    else low * unit < c * step && c * step < high * unit
  let below := m * unit / step
  let above := below + 1
  match inside below, inside above with
  | true, true =>
    let toBelow := m * unit - below * step
    let toAbove := above * step - m * unit
    if toBelow < toAbove || (toBelow == toAbove && below % 2 == 0) then some below else some above
  | true, false => some below
  | false, true => some above
  | false, false => none

/-- The coarsest grid of powers of ten, from `power` downwards, with a multiple that is rounded to
a number. -/
def shortestFrom (x : Binary64) (power : Int) : (steps : Nat) → Digits
  | 0 => ⟨0, 0⟩
  | steps + 1 =>
    match x.onGrid? power with
    | some number => ⟨number, power⟩
    | none => shortestFrom x (power - 1) steps

/-- The fewest decimal digits that are rounded to a number, and among these the nearest. -/
def shortest (x : Binary64) : Digits :=
  if x.mantissa == 0 then ⟨0, 0⟩ else x.shortestFrom 309 640

end Binary64

end TypedXml.Decimal
