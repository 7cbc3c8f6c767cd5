/-!
# Shortest decimals of doubles

A finite double other than zero is `m · 2^q` with whole numbers `m` and `q`.  The reals that round to it
form an interval around it, and the ends belong to the interval if `m` is even.  Its shortest decimal is
the decimal in this interval with the fewest digits, and of several such the one nearest to the double;
of two at the same distance it is the one whose last digit is even.

Main definitions: `Binary` (a double as a product), `Decimal`, `Decimal.shortest`.
-/

namespace ProcProfile

/-- The positive number `mantissa · 2^exponent`.  The doubles below it are half as far apart as those
above it if `narrowBelow`. -/
structure Binary where
  mantissa : Nat
  exponent : Int
  narrowBelow : Bool
  deriving DecidableEq, Repr

/-- The magnitude of a finite double, from its bits. -/
def Binary.ofBits (bits : UInt64) : Binary :=
  let biased := ((bits >>> 52) &&& 0x7ff).toNat
  let fraction := (bits &&& 0xfffffffffffff).toNat
  if biased = 0 then ⟨fraction, -1074, false⟩
  else ⟨fraction + 0x10000000000000, (biased : Int) - 1075, fraction = 0 && biased > 1⟩

/-- The number `digits · 10^exponent`. -/
structure Decimal where
  digits : Nat
  exponent : Int
  deriving DecidableEq, Repr

namespace Decimal

/-- Powers of 2 and 10 with a negative exponent count as 1. -/
def power (base : Nat) (e : Int) : Nat := base.pow e.toNat

/-- The unit of the numerator, and the denominator, of a binary number in units of `10^k`. -/
def scale (b : Binary) (k : Int) : Nat × Nat :=
  (power 2 b.exponent * power 10 (-k), power 2 (-b.exponent) * power 10 k)

/-- Whether a number is below `10^p`. -/
def below (b : Binary) (p : Int) : Bool :=
  let (unit, den) := scale b p
  decide (b.mantissa * unit < den)

/-- The number of digits before the point of a number, zero or negative for a fraction. -/
def magnitude (b : Binary) : Int :=
  let estimate := ((b.mantissa.log2 + b.exponent) * 30103) / 100000 - 1
  ((List.range 5).map fun (i : Nat) => estimate + (i : Int)).find? (below b) |>.getD (estimate + 5)

/-- Whether `d · 10^k` rounds to a binary number.  All distances are in quarters of the last place. -/
def roundsTo (b : Binary) (k : Int) (d : Nat) : Bool :=
  let (unit, den) := scale b k
  let low := (4 * b.mantissa - (if b.narrowBelow then 1 else 2)) * unit
  let high := (4 * b.mantissa + 2) * unit
  let x := 4 * d * den
  if b.mantissa % 2 = 0 then decide (low ≤ x ∧ x ≤ high) else decide (low < x ∧ x < high)

/-- Of the two neighbours of a number on the grid of step `10^k`, the nearer one that rounds to it.  A
number in the middle between them counts as nearer to the even one. -/
def onGrid (b : Binary) (k : Int) : Option Nat :=
  let (unit, den) := scale b k
  let d := b.mantissa * unit / den
  let twice := 2 * (b.mantissa * unit)
  let middle := (2 * d + 1) * den
  let upper := middle < twice || (middle == twice && d % 2 == 1)
  let first := if upper then d + 1 else d
  let second := if upper then d else d + 1
  if roundsTo b k first then some first
  else if roundsTo b k second then some second
  else none

/-- Takes the zeros off the end of the digits. -/
def strip : (fuel : Nat) → Decimal → Decimal
  | 0, d => d
  | fuel + 1, d =>
    if d.digits ≠ 0 ∧ d.digits % 10 = 0 then strip fuel ⟨d.digits / 10, d.exponent + 1⟩ else d

/-- The shortest decimal of a binary number: 17 digits are always enough. -/
def shortest (b : Binary) : Decimal :=
  let p := magnitude b
  let found := (List.range 17).findSome? fun (n : Nat) =>
    let k := p - ((n : Int) + 1)
    (onGrid b k).map fun d => (⟨d, k⟩ : Decimal)
  strip 20 (found.getD ⟨0, 0⟩)

end Decimal

end ProcProfile
