/-!
# Double-precision numbers

A double is its pattern of sixty-four bits: a sign, eleven bits of exponent and fifty-two of
fraction. Every finite double is a whole number of *units* of two to the power -1074, so that
conversions and comparisons are exact arithmetic on natural numbers.
-/

namespace Formula

/-- A double-precision number, given by its bits. -/
structure Binary64 where
  /-- The sixty-four bits. -/
  bits : UInt64
deriving DecidableEq, Repr, Inhabited

namespace Binary64

/-! ## Parts -/

/-- The weight of the sign bit. -/
def signWeight : Nat :=
  0x8000000000000000

/-- The number of doubles of one sign and exponent. -/
def binade : Nat :=
  0x10000000000000

/-- Whether the sign bit is set. -/
def isNegative (x : Binary64) : Bool :=
  decide (signWeight ≤ x.bits.toNat)

/-- The bits without the sign. Among numbers of one sign they are in the order of the numbers. -/
def magnitude (x : Binary64) : Nat :=
  x.bits.toNat % signWeight

/-- The double with the given sign and remaining bits. -/
def ofParts (negative : Bool) (magnitude : Nat) : Binary64 :=
  ⟨UInt64.ofNat ((if negative then signWeight else 0) + magnitude)⟩

/-- The magnitude of the infinities. -/
def infinityMagnitude : Nat :=
  0x7ff0000000000000

/-- A value that is not a number. -/
def nan : Binary64 :=
  ⟨0x7ff8000000000000⟩

/-- Zero. -/
def zero : Binary64 :=
  ⟨0⟩

/-- One. -/
def one : Binary64 :=
  ⟨0x3ff0000000000000⟩

/-- Values that are not numbers. -/
def isNaN (x : Binary64) : Bool :=
  decide (infinityMagnitude < x.magnitude)

/-- The two infinities. -/
def isInfinite (x : Binary64) : Bool :=
  decide (x.magnitude = infinityMagnitude)

/-- Numbers other than the infinities. -/
def isFinite (x : Binary64) : Bool :=
  decide (x.magnitude < infinityMagnitude)

/-- The number of units in one. -/
def unitsInOne : Nat :=
  1 <<< 1074

/-- The absolute value of a finite double, in units. -/
def units (x : Binary64) : Nat :=
  let exponent := x.magnitude / binade
  let fraction := x.magnitude % binade
  if exponent = 0 then fraction else (binade + fraction) <<< (exponent - 1)

/-! ## Order -/

/-- A number in the order of the doubles; the two zeros have the same. -/
def rank (x : Binary64) : Int :=
  if x.isNegative then -(x.magnitude : Int) else x.magnitude

/-- The order of two numbers; a value that is not a number has no place in it. -/
def order? (a b : Binary64) : Option Ordering :=
  if a.isNaN || b.isNaN then none else some (compare a.rank b.rank)

/-- Equality of doubles as numbers: the two zeros are equal, and a value that is not a number
equals nothing, not even itself. -/
def same (a b : Binary64) : Bool :=
  !a.isNaN && !b.isNaN && (a.bits == b.bits || (a.magnitude == 0 && b.magnitude == 0))

/-- Whether a double differs from zero as a number. -/
def isNonzero (x : Binary64) : Bool :=
  decide (x.magnitude ≠ 0)

/-- The lesser of two numbers; a value that is not a number gives way to the other. -/
def min (a b : Binary64) : Binary64 :=
  if a.isNaN then b
  else if b.isNaN then a
  else if b.rank < a.rank then b else a

/-- The greater of two numbers; a value that is not a number gives way to the other. -/
def max (a b : Binary64) : Binary64 :=
  if a.isNaN then b
  else if b.isNaN then a
  else if a.rank < b.rank then b else a

/-- The number with the other sign. -/
def neg (x : Binary64) : Binary64 :=
  ⟨x.bits ^^^ 0x8000000000000000⟩

/-- The number without its sign. -/
def abs (x : Binary64) : Binary64 :=
  ⟨x.bits &&& 0x7fffffffffffffff⟩

/-! ## Nearest doubles

The double nearest to an exact quotient, and with it the doubles nearest to integers and
decimal fractions. A quotient halfway between two doubles goes to the one whose last bit is
zero; beyond the greatest double there is infinity. -/

/-- The integer nearest to a quotient, of two such integers the even one. -/
def divNearest (num den : Nat) : Nat :=
  let quotient := num / den
  let remainder := num % den
  if 2 * remainder < den then quotient
  else if den < 2 * remainder then quotient + 1
  else if quotient % 2 = 0 then quotient
  else quotient + 1

/-- The magnitude of the double nearest to a quotient of units. With `shift` the number of
bits beyond the fifty-three that a double keeps, the kept bits count on from those of the
binades below. -/
def nearestMagnitude (num den : Nat) : Nat :=
  let shift := (num / den).log2 - 52
  Nat.min (shift * binade + divNearest num (den <<< shift)) infinityMagnitude

/-- Rounding never leads beyond infinity, so it never makes a value that is not a number. -/
theorem nearestMagnitude_le (num den : Nat) : nearestMagnitude num den ≤ infinityMagnitude :=
  Nat.min_le_right _ _

/-- The double nearest to an integer. -/
def ofInt (i : Int) : Binary64 :=
  ofParts (i < 0) (nearestMagnitude (i.natAbs * unitsInOne) 1)

/-- The magnitude of the double nearest to `mantissa` times ten to the power `exponent`. -/
def decimalMagnitude (mantissa : Nat) (exponent : Int) : Nat :=
  let power := Nat.pow 10 exponent.natAbs
  if exponent < 0 then nearestMagnitude (mantissa * unitsInOne) power
  else nearestMagnitude (mantissa * power * unitsInOne) 1

/-- A truth value as a number. -/
def ofBool (b : Bool) : Binary64 :=
  if b then one else zero

/-- The double with the value of a single-precision number, given by its thirty-two bits. -/
def ofSingleBits (bits : UInt32) : Binary64 :=
  let negative := decide (0x80000000 ≤ bits.toNat)
  let magnitude := bits.toNat % 0x80000000
  let exponent := magnitude / 0x800000
  let fraction := magnitude % 0x800000
  if exponent = 255 then
    if fraction = 0 then ofParts negative infinityMagnitude else nan
  else
    let multiple := if exponent = 0 then fraction else (0x800000 + fraction) <<< (exponent - 1)
    ofParts negative (nearestMagnitude (multiple <<< 925) 1)

/-! ## Whole numbers among the doubles

Conversion to integers, rounding to a whole number in five ways, and the remainder of a
division. -/

/-- The integer part of a double, as a 64-bit integer. Numbers out of range go to the nearest
end of the range, and a value that is not a number goes to zero. -/
def toInt64 (x : Binary64) : Int64 :=
  if x.isNaN then 0
  else
    let whole : Int := (x.units / unitsInOne : Nat)
    let value := if x.isNegative then -whole else whole
    Int64.ofInt (Max.max (-0x8000000000000000) (Min.min value 0x7fffffffffffffff))

/-- Replaces the absolute value of a finite double by a whole number computed from its units.
Infinities and values that are not numbers stay as they are. -/
def toWhole (x : Binary64) (whole : Nat → Nat) : Binary64 :=
  if x.isFinite then ofParts x.isNegative (nearestMagnitude (whole x.units * unitsInOne) 1) else x

/-- The whole number next toward zero. -/
def trunc (x : Binary64) : Binary64 :=
  x.toWhole (· / unitsInOne)

/-- The whole number next away from zero. -/
def outward (x : Binary64) : Binary64 :=
  x.toWhole fun n => (n + (unitsInOne - 1)) / unitsInOne

/-- The greatest whole number that is not above. -/
def floor (x : Binary64) : Binary64 :=
  if x.isNegative then x.outward else x.trunc

/-- The least whole number that is not below. -/
def ceil (x : Binary64) : Binary64 :=
  if x.isNegative then x.trunc else x.outward

/-- The nearest whole number; a half goes away from zero. -/
def round (x : Binary64) : Binary64 :=
  x.toWhole fun n => (n + unitsInOne / 2) / unitsInOne

/-- The nearest whole number; a half goes to the even one. -/
def rint (x : Binary64) : Binary64 :=
  x.toWhole (divNearest · unitsInOne)

/-- The remainder of a division whose quotient is cut toward zero. It has the sign of the
dividend and is exact. -/
def rem (x y : Binary64) : Binary64 :=
  if x.isNaN || y.isNaN || x.isInfinite || !y.isNonzero then nan
  else if y.isInfinite then x
  else ofParts x.isNegative (nearestMagnitude (x.units % y.units) 1)

/-! ## Arithmetic

The operations of the processor and of the mathematical library, on bit patterns. -/

/-- Applies a function of floating-point numbers to a bit pattern. -/
def lift₁ (f : Float → Float) (x : Binary64) : Binary64 :=
  ⟨(f (Float.ofBits x.bits)).toBits⟩

/-- Applies a function of two floating-point numbers to bit patterns. -/
def lift₂ (f : Float → Float → Float) (x y : Binary64) : Binary64 :=
  ⟨(f (Float.ofBits x.bits) (Float.ofBits y.bits)).toBits⟩

/-- The rounded sum. -/
def add : Binary64 → Binary64 → Binary64 :=
  lift₂ (· + ·)

/-- The rounded difference. -/
def sub : Binary64 → Binary64 → Binary64 :=
  lift₂ (· - ·)

/-- The rounded product. -/
def mul : Binary64 → Binary64 → Binary64 :=
  lift₂ (· * ·)

/-- The rounded quotient. -/
def div : Binary64 → Binary64 → Binary64 :=
  lift₂ (· / ·)

end Binary64

end Formula
