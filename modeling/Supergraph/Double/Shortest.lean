import Supergraph.Double

/-!
The shortest decimal text of a binary floating-point number.

`Double.shortest` gives the fewest digits that read back as the same number, and of those the
nearest to it. A decimal reads back when it lies in the interval of reals that round to the number;
the ends belong to the interval exactly when the significand is even. Where two decimals are equally
near, the text that is written says which one it takes (`Tie`).
-/

namespace Supergraph

/-- The decimal number `digits * 10 ^ exponent`. -/
structure Decimal where
  digits : Nat
  exponent : Int
  deriving DecidableEq, Repr, Inhabited

namespace Decimal

/-- Moves trailing zeros of the digits into the exponent, at most `limit` of them. -/
def dropZeros (d : Decimal) : Nat → Decimal
  | 0 => d
  | limit + 1 =>
    if d.digits ≠ 0 ∧ d.digits % 10 = 0 then
      dropZeros ⟨d.digits / 10, d.exponent + 1⟩ limit
    else d

/-- Digits without an exponent: zeros fill up to the point, and a point is written only before a
fraction. -/
def positional (d : Decimal) : String :=
  let text := Nat.toDigits 10 d.digits
  if 0 ≤ d.exponent then
    String.ofList (text ++ List.replicate (if d.digits = 0 then 0 else d.exponent.toNat) '0')
  else
    let places := (-d.exponent).toNat
    let padded := List.replicate (places + 1 - text.length) '0' ++ text
    let whole := padded.length - places
    String.ofList (padded.take whole ++ '.' :: padded.drop whole)

/-- One digit, a point only before more digits, and the exponent. -/
def scientific (d : Decimal) : String :=
  let text := Nat.toDigits 10 d.digits
  let exponent : Int := d.exponent + (text.length - 1 : Nat)
  let fraction := if text.length ≤ 1 then [] else '.' :: text.drop 1
  String.ofList (text.take 1 ++ fraction ++ ['e']) ++ toString exponent

end Decimal

/-- Which of two neighbouring decimals is taken for a number in the middle between them: the one
whose last digit is even, or the greater one. -/
inductive Tie where
  | even
  | up
  deriving DecidableEq, Repr

namespace Double

/-- The largest `p` with `10 ^ p ≤ num / den`, for a positive quotient. -/
def decimalOrder (num den : Nat) : Int :=
  if den ≤ num then ((Nat.toDigits 10 (num / den)).length : Int) - 1
  else -((Nat.toDigits 10 ((den - 1) / num)).length : Int)

/-- Numerator and denominator of `num / den / 10 ^ exponent`. -/
def onGrid (num den : Nat) (exponent : Int) : Nat × Nat :=
  (num * powerOfTen (-exponent).toNat, den * powerOfTen exponent.toNat)

/-- The decimal with step `10 ^ exponent` that lies between the ends and nearest to the value, if
there is one. All four quantities have the denominator `den`. -/
def nearestBetween (tie : Tie) (low value high den : Nat) (closed : Bool) (exponent : Int) :
    Option Decimal :=
  let (scaled, step) := onGrid value den exponent
  let inside (digits : Nat) : Bool :=
    let at10 := digits * step
    let (l, _) := onGrid low den exponent
    let (h, _) := onGrid high den exponent
    if closed then l ≤ at10 ∧ at10 ≤ h else l < at10 ∧ at10 < h
  let below := scaled / step
  let above := below + 1
  let fromBelow := scaled - below * step
  let fromAbove := above * step - scaled
  match inside below, inside above with
  | true, true =>
    let keepsBelow := fromBelow < fromAbove ∨
      (fromBelow = fromAbove ∧ tie = .even ∧ below % 2 = 0)
    some ⟨if keepsBelow then below else above, exponent⟩
  | true, false => some ⟨below, exponent⟩
  | false, true => some ⟨above, exponent⟩
  | false, false => none

/-- The first of the grids with `count`, `count + 1`, … digits that has a decimal in the
interval. -/
def firstBetween (tie : Tie) (low value high den : Nat) (closed : Bool) (order : Int)
    (count : Nat) : Nat → Option Decimal
  | 0 => none
  | more + 1 =>
    match nearestBetween tie low value high den closed (order - count + 1) with
    | some d => some d
    | none => firstBetween tie low value high den closed order (count + 1) more

/-- The shortest decimal that reads back as the magnitude. Seventeen digits always suffice. -/
def shortest (tie : Tie) (magnitude : Nat) : Decimal :=
  if magnitude = 0 then ⟨0, 0⟩
  else
    let (significand, exponent) := decode magnitude
    let narrow := magnitude % hiddenBit = 0 ∧ 2 * hiddenBit ≤ magnitude
    let num (quarters : Nat) : Nat := quarters <<< (exponent - 2).toNat
    let den := 1 <<< (2 - exponent).toNat
    let value := num (4 * significand)
    let low := num (if narrow then 4 * significand - 1 else 4 * significand - 2)
    let high := num (4 * significand + 2)
    let closed := significand % 2 = 0
    let found := firstBetween tie low value high den closed (decimalOrder value den) 1 17
    (found.getD ⟨0, 0⟩).dropZeros 20

/-- Plain decimal text: the shortest digits, ties up, never an exponent, no point in a whole
number. -/
def positional (x : Double) : String :=
  let sign := if x.negative then "-" else ""
  sign ++ (if x.isFinite then (shortest .up x.magnitude).positional else "inf")

/-- Decimal text that shows the number is not an integer: the shortest digits, ties to even, a
point or an exponent always; positional from `10 ^ -5` up to below `10 ^ 16`. -/
def pointed (x : Double) : String :=
  let sign := if x.negative then "-" else ""
  let d := shortest .even x.magnitude
  let order : Int := d.exponent + ((Nat.toDigits 10 d.digits).length : Int)
  let text :=
    if d.digits = 0 then "0.0"
    else if order ≤ -5 ∨ 16 < order then d.scientific
    else if 0 ≤ d.exponent then d.positional ++ ".0"
    else d.positional
  sign ++ text

end Double

end Supergraph
