/-!
Binary floating-point numbers of 64 bits, without the ones that are not numbers.

A number is a sign and a magnitude: the exponent field and the fraction field read as one natural
number. Successive magnitudes are successive values, so rounding may carry from the fraction into
the exponent without a special case.

Everything is exact arithmetic on naturals; `roundQuotient` is the only place where precision is
lost, and it rounds to the nearest value, ties to the even magnitude.
-/

namespace Supergraph

/-- A binary64 number: sign, then exponent and fraction fields as one natural number. -/
structure Double where
  negative : Bool
  magnitude : Nat
  deriving DecidableEq, Repr, Inhabited

namespace Double

/-- The bit of a significand that is not stored: one above the fraction field. -/
def hiddenBit : Nat := 1 <<< 52

/-- The magnitude of infinity: every exponent bit set, no fraction bit. -/
def infiniteMagnitude : Nat := 2047 * hiddenBit

def isFinite (x : Double) : Bool := x.magnitude < infiniteMagnitude

/-- Significand and binary exponent of a magnitude: its value is `significand * 2 ^ exponent`. -/
def decode (magnitude : Nat) : Nat × Int :=
  if magnitude < hiddenBit then (magnitude, -1074)
  else (magnitude % hiddenBit + hiddenBit, (magnitude / hiddenBit : Nat) - 1075)

/-- The value of a magnitude as a numerator and a positive denominator. -/
def fraction (magnitude : Nat) : Nat × Nat :=
  let (significand, exponent) := decode magnitude
  (significand <<< exponent.toNat, 1 <<< (-exponent).toNat)

/-- The quotient rounded to the nearest integer, a half to the even neighbour. -/
def nearestEven (num den : Nat) : Nat :=
  let quotient := num / den
  let twice := 2 * (num % den)
  if twice < den then quotient
  else if twice > den then quotient + 1
  else quotient + quotient % 2

/-- The magnitude nearest to `num / den`, ties to even; infinity from half a step above the
largest finite value on. -/
def roundQuotient (num den : Nat) : Nat :=
  if num = 0 then 0
  else
    let estimate : Int := (Nat.log2 num : Int) - (Nat.log2 den : Int) - 53
    let aligned (q : Int) : Nat × Nat := (num <<< (-q).toNat, den <<< q.toNat)
    let fits (q : Int) : Bool := let (n, d) := aligned q; n < d * (2 * hiddenBit)
    let q : Int := max (if fits estimate then estimate else estimate + 1) (-1074)
    let (n, d) := aligned q
    min infiniteMagnitude ((q + 1074).toNat * hiddenBit + nearestEven n d)

def powerOfTen (exponent : Nat) : Nat := Nat.pow 10 exponent

/-- The magnitude of `digits * 10 ^ exponent`, correctly rounded. The two cut-offs only keep the
powers small: beyond them the result is infinity or zero whatever the digits are. -/
def roundDecimal (digits : Nat) (exponent : Int) : Nat :=
  let size : Int := (Nat.toDigits 10 digits).length + exponent
  if digits = 0 ∨ size < -400 then 0
  else if size > 400 then infiniteMagnitude
  else roundQuotient (digits * powerOfTen exponent.toNat) (powerOfTen (-exponent).toNat)

/-- The product of a magnitude and a power of ten, itself rounded first. -/
def timesPowerOfTen (magnitude : Nat) (power : Nat) : Nat :=
  let (n, d) := fraction magnitude
  let (n', d') := fraction (roundQuotient (powerOfTen power) 1)
  roundQuotient (n * n') (d * d')

/-- The quotient of a magnitude by a power of ten, itself rounded first. -/
def overPowerOfTen (magnitude : Nat) (power : Nat) : Nat :=
  let (n, d) := fraction magnitude
  let (n', d') := fraction (roundQuotient (powerOfTen power) 1)
  roundQuotient (n * d') (d * n')

/-- Scales a magnitude by a power of ten, in steps of at most `10 ^ 308`, rounding after each.
There is no result when the value leaves the finite range. -/
def scale (magnitude : Nat) (exponent : Int) : Option Nat :=
  if magnitude = 0 then some 0
  else if 0 ≤ exponent then
    if exponent ≤ 308 then
      let scaled := timesPowerOfTen magnitude exponent.toNat
      if scaled < infiniteMagnitude then some scaled else none
    else none
  else if -308 ≤ exponent then some (overPowerOfTen magnitude (-exponent).toNat)
  else scale (overPowerOfTen magnitude 308) (exponent + 308)
termination_by (-exponent).toNat
decreasing_by omega

end Double

end Supergraph
