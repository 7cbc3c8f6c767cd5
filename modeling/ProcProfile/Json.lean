import ProcProfile.Decimal.Shortest

/-!
# JSON values

A JSON value, with numbers as they are written: which digits stand where.  What a number means as a
whole number or as a double is a matter of its own.

A double is read from a number by collecting its digits in a word as long as they fit, rounding the
word to a double, and multiplying or dividing by the power of ten that is left.  This is exact for up
to 15 digits and a small exponent, and may be off in the last place otherwise.

Main definitions: `JsonNumber`, `Json`, `JsonNumber.toInt?`, `JsonNumber.toFloat?`,
`JsonNumber.ofFloat?`.
-/

namespace ProcProfile

/-- The exponent of a number. -/
structure JsonExponent where
  negative : Bool
  digits : List Char
  deriving DecidableEq, Repr

/-- A number as it is written; `fraction` is empty if there is no point. -/
structure JsonNumber where
  negative : Bool
  whole : List Char
  fraction : List Char
  exponent : Option JsonExponent
  deriving DecidableEq, Repr

/-- A JSON value; the fields of an object keep their order.  A value is ill-formed if it is a text that
escapes half of a character, or an object with such a text for a field's name: it has a place in a
document and can be passed over there, but it has no meaning. -/
inductive Json where
  | null
  | bool (value : Bool)
  | number (value : JsonNumber)
  | string (value : String)
  | array (items : List Json)
  | object (fields : List (String × Json))
  | illFormed

namespace JsonNumber

/-! ### Whole numbers -/

/-- The value of a digit. -/
def digitValue (c : Char) : Nat := c.toNat - '0'.toNat

/-- The value of a row of digits. -/
def digitsValue (digits : List Char) : Nat := digits.foldl (fun n c => 10 * n + digitValue c) 0

/-- A whole number as it is written. -/
def ofNat (n : Nat) : JsonNumber := ⟨false, Nat.toDigits 10 n, [], none⟩

def ofInt : Int → JsonNumber
  | .ofNat n => ofNat n
  | .negSucc n => { ofNat (n + 1) with negative := true }

/-- Whether a number is written without a point and an exponent. -/
def isWhole (n : JsonNumber) : Bool := n.fraction.isEmpty && n.exponent.isNone

/-- The value of a whole number that fits into a word, signed if negative.  Minus zero is not a whole
number. -/
def toInt? (n : JsonNumber) : Option Int :=
  let value := digitsValue n.whole
  if !n.isWhole then none
  else if n.negative then if 0 < value ∧ value ≤ 0x8000000000000000 then some (-(value : Int)) else none
  else if value < UInt64.size then some value else none

/-! ### Doubles -/

/-- Collects digits in a word; gives the word and the digits that no longer fit. -/
def collect (word : Nat) : List Char → Nat × List Char
  | [] => (word, [])
  | c :: rest =>
    let next := 10 * word + digitValue c
    if next < UInt64.size then collect next rest else (word, c :: rest)

/-- The double nearest to `10^n`. -/
def powerOfTen (n : Nat) : Float := OfScientific.ofScientific 1 false n

/-- The greatest power of ten that is a finite double. -/
def maxPower : Nat := 308

/-- A double times a power of ten; none if it grows past the greatest double. -/
def scaleFloat : (fuel : Nat) → (f : Float) → (e : Int) → Option Float
  | 0, f, _ => some f
  | fuel + 1, f, e =>
    if e.natAbs ≤ maxPower then
      if 0 ≤ e then
        let product := f * powerOfTen e.natAbs
        if product.isInf then none else some product
      else some (f / powerOfTen e.natAbs)
    else if f == 0.0 then some f
    else if 0 ≤ e then none
    else scaleFloat fuel (f / powerOfTen maxPower) (e + (maxPower : Int))

/-- The exponents that a number may state. -/
def exponentBound : Nat := 0x80000000

/-- An exponent, or none if it is out of bounds. -/
def JsonExponent.toInt? (e : JsonExponent) : Option Int :=
  let value := digitsValue e.digits
  if value < exponentBound then some (if e.negative then -(value : Int) else value) else none

/-- The magnitude of a number as a double; none if it grows past the greatest double. -/
def magnitude? (n : JsonNumber) : Option Float :=
  let (word, long) := collect 0 n.whole
  let (word, dropped) := collect word n.fraction
  let exponent := (long.length : Int) - ((n.fraction.length - dropped.length : Nat) : Int)
  let scaled (e : Int) := scaleFloat (e.natAbs / maxPower + 1) (UInt64.ofNat word).toFloat e
  match n.exponent with
  | none => scaled exponent
  | some stated =>
    match JsonExponent.toInt? stated with
    | some e => scaled (exponent + e)
    | none => if word ≠ 0 ∧ !stated.negative then none else some 0.0

/-- The double that a number stands for; none if there is none. -/
def toFloat? (n : JsonNumber) : Option Float :=
  (magnitude? n).map fun f => if n.negative then -f else f

/-! ### Writing doubles -/

/-- The decimal exponents of the first digit for which a double is written without an exponent. -/
def plainExponents (e : Int) : Bool := decide (-5 ≤ e ∧ e < 16)

/-- A decimal as it is written: with a point and at least one digit after it, or with one digit before
the point and an exponent. -/
def ofDecimal (negative : Bool) (d : Decimal) : JsonNumber :=
  let digits := Nat.toDigits 10 d.digits
  let e := (digits.length : Int) - 1 + d.exponent
  if plainExponents e then
    if 0 ≤ d.exponent then
      ⟨negative, digits ++ List.replicate d.exponent.toNat '0', ['0'], none⟩
    else if 0 ≤ e then
      ⟨negative, digits.take (e.toNat + 1), digits.drop (e.toNat + 1), none⟩
    else ⟨negative, ['0'], List.replicate ((-e).toNat - 1) '0' ++ digits, none⟩
  else ⟨negative, digits.take 1, digits.drop 1, some ⟨decide (e < 0), Nat.toDigits 10 e.natAbs⟩⟩

/-- A double as it is written, by its shortest decimal; infinities and what is not a number have no
form. -/
def ofFloat? (x : Float) : Option JsonNumber :=
  let bits := x.toBits
  let negative := bits >>> 63 == 1
  let magnitude := bits &&& 0x7fffffffffffffff
  if 0x7ff0000000000000 ≤ magnitude then none
  else if magnitude = 0 then some ⟨negative, ['0'], ['0'], none⟩
  else some (ofDecimal negative (Decimal.shortest (Binary.ofBits magnitude)))

end JsonNumber

namespace Json

def nat (n : Nat) : Json := .number (.ofNat n)

def int (n : Int) : Json := .number (.ofInt n)

/-- A double; one without a written form becomes null. -/
def float (x : Float) : Json :=
  match JsonNumber.ofFloat? x with
  | some n => .number n
  | none => .null

/-- A value that may be absent. -/
def option {α : Type} (f : α → Json) : Option α → Json
  | none => .null
  | some a => f a

end Json

end ProcProfile
