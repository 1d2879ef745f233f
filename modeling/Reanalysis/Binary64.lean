/-
Double precision numbers as their 64-bit words. Rounding, scaling by powers of
ten and the shortest decimal that reads back are done in exact arithmetic on
natural numbers, with no floating point operation. Only finite words are
produced here.
-/

namespace Reanalysis

structure Binary64 where
  bits : UInt64
deriving DecidableEq, Repr

/-- A decimal: `digits` times ten to the power of `exponent`. -/
structure Decimal where
  digits : Nat
  exponent : Int
deriving DecidableEq, Repr

namespace Binary64

def isNegative (number : Binary64) : Bool := number.bits.toNat ≥ Nat.pow 2 63

def magnitude (number : Binary64) : Nat := number.bits.toNat % Nat.pow 2 63

/-- A finite magnitude is `significand` times two to the power of `power - 1074`. -/
def significand (number : Binary64) : Nat :=
  let fraction := number.magnitude % Nat.pow 2 52
  if number.magnitude / Nat.pow 2 52 = 0 then fraction else Nat.pow 2 52 + fraction

def power (number : Binary64) : Nat := number.magnitude / Nat.pow 2 52 - 1

def zero : Binary64 := ⟨0⟩

def isZero (number : Binary64) : Bool := number.magnitude == 0

def negate (number : Binary64) : Binary64 := ⟨number.bits ^^^ 0x8000000000000000⟩

/-- The exact value of a magnitude as a numerator and a denominator. -/
def ratio (number : Binary64) : Nat × Nat :=
  (number.significand * Nat.pow 2 number.power, Nat.pow 2 1074)

/-- The quotient rounded to the nearest natural number, a half to the even one. -/
def roundQuotient (numerator denominator : Nat) : Nat :=
  let quotient := numerator / denominator
  let twice := 2 * (numerator % denominator)
  if twice < denominator then quotient
  else if twice = denominator then quotient + quotient % 2
  else quotient + 1

/-- The nearest double to a ratio, or nothing above the largest finite one. -/
def ofRatio (numerator denominator : Nat) : Option Binary64 :=
  if numerator = 0 then some zero
  else
    let scaled := numerator * Nat.pow 2 1074
    let size := Nat.log2 (scaled / denominator)
    let shift := size - 52
    let word := shift * Nat.pow 2 52 + roundQuotient scaled (denominator * Nat.pow 2 shift)
    if word < 2047 * Nat.pow 2 52 then some ⟨UInt64.ofNat word⟩ else none

def ofNat (value : Nat) : Option Binary64 := ofRatio value 1

def mul (left right : Binary64) : Option Binary64 :=
  ofRatio (left.ratio.1 * right.ratio.1) (left.ratio.2 * right.ratio.2)

def div (left right : Binary64) : Option Binary64 :=
  ofRatio (left.ratio.1 * right.ratio.2) (left.ratio.2 * right.ratio.1)

def tenTo (exponent : Nat) : Option Binary64 := ofNat (Nat.pow 10 exponent)

/-- Divides by a power of ten so many times, or until nothing is left. -/
private def shrink (step : Nat) : Nat → Binary64 → Option Binary64
  | 0, number => some number
  | more + 1, number =>
      if number.isZero then some number
      else ((tenTo step).bind number.div).bind (shrink step more)

/-- The largest exponent of a power of ten that is itself a finite double. -/
def largestPower : Nat := 308

/-- Scales by a power of ten in steps of at most the largest power, each rounded. -/
def scale (number : Binary64) (exponent : Int) : Option Binary64 :=
  if number.isZero then some zero
  else if 0 ≤ exponent then
    if exponent.toNat ≤ largestPower then (tenTo exponent.toNat).bind number.mul else none
  else
    let steps := ((-exponent).toNat - 1) / largestPower
    (number.shrink largestPower steps).bind fun smaller =>
      (tenTo ((-exponent).toNat - steps * largestPower)).bind smaller.div

private def decimalSize (numerator denominator : Nat) : Int :=
  let quotient := numerator / denominator
  if quotient = 0 then
    let inverse := denominator / numerator
    let digits := (Nat.toDigits 10 inverse).length
    let place := -(digits : Int)
    if Nat.pow 10 digits * numerator ≥ 10 * denominator then place + 1 else place
  else ((Nat.toDigits 10 quotient).length : Int) - 1

private structure Interval where
  low : Nat
  value : Nat
  high : Nat
  denominator : Nat
  closed : Bool

/-- Four times the reals that round to a magnitude, over a common denominator. -/
private def interval (number : Binary64) : Interval :=
  let m := number.significand
  let unit := Nat.pow 2 number.power
  let narrow := m = Nat.pow 2 52 ∧ number.power ≠ 0
  { low := (4 * m - (if narrow then 1 else 2)) * unit
    value := 4 * m * unit
    high := (4 * m + 2) * unit
    denominator := 4 * Nat.pow 2 1074
    closed := m % 2 == 0 }

private def Interval.holds (range : Interval) (numerator denominator : Nat) : Bool :=
  let point := numerator * range.denominator
  let low := range.low * denominator
  let high := range.high * denominator
  if range.closed then low ≤ point && point ≤ high else low < point && point < high

/-- The decimal on the grid of `exponent` that lies in the interval, nearest to its value. -/
private def Interval.onGrid (range : Interval) (exponent : Int) : Option Decimal :=
  let up := Nat.pow 10 exponent.toNat
  let down := Nat.pow 10 (-exponent).toNat
  let below := range.value * down / (range.denominator * up)
  let low := range.holds (below * up) down
  let high := range.holds ((below + 1) * up) down
  let twice := 2 * (range.value * down - below * up * range.denominator)
  let cell := up * range.denominator
  if low && high then
    if twice < cell ∨ (twice = cell ∧ below % 2 = 0) then some ⟨below, exponent⟩
    else some ⟨below + 1, exponent⟩
  else if low then some ⟨below, exponent⟩
  else if high then some ⟨below + 1, exponent⟩
  else none

/-- Tries one digit, then two, and so on; seventeen always suffice. -/
private def Interval.firstGrid (range : Interval) (size : Int) : Nat → Nat → Option Decimal
  | _, 0 => none
  | digits, more + 1 =>
      match range.onGrid (size + 1 - digits) with
      | some found => some found
      | none => firstGrid range size (digits + 1) more

private def dropZeros (fuel : Nat) (decimal : Decimal) : Decimal :=
  match fuel with
  | 0 => decimal
  | fuel + 1 =>
      if decimal.digits ≠ 0 ∧ decimal.digits % 10 = 0 then
        dropZeros fuel ⟨decimal.digits / 10, decimal.exponent + 1⟩
      else decimal

/-- The decimal with the fewest digits that rounds to the magnitude. -/
def shortest (number : Binary64) : Decimal :=
  if number.isZero then ⟨0, 0⟩
  else
    let range := number.interval
    let size := decimalSize range.value range.denominator
    dropZeros 20 ((range.firstGrid size 1 17).getD ⟨0, 0⟩)

/-- Positional from ten to the minus five up to below ten to the sixteenth, with a point in
every number; else one digit, the rest after a point, and a signed exponent. -/
def text (number : Binary64) : String :=
  let sign := if number.isNegative then "-" else ""
  let decimal := number.shortest
  let digits := Nat.toDigits 10 decimal.digits
  let place : Int := digits.length - 1 + decimal.exponent
  let zeros := fun (count : Nat) => List.replicate count '0'
  let body : List Char :=
    if number.isZero then ['0', '.', '0']
    else if 0 ≤ decimal.exponent ∧ place ≤ 15 then
      digits ++ zeros decimal.exponent.toNat ++ ['.', '0']
    else if 0 ≤ place ∧ place ≤ 15 then
      digits.take (place.toNat + 1) ++ ['.'] ++ digits.drop (place.toNat + 1)
    else if -5 ≤ place ∧ place < 0 then
      ['0', '.'] ++ zeros ((-place).toNat - 1) ++ digits
    else
      let fraction := digits.drop 1
      digits.take 1 ++ (if fraction.isEmpty then [] else '.' :: fraction) ++
        (if place < 0 then ['e', '-'] else ['e', '+']) ++ Nat.toDigits 10 place.natAbs
  sign ++ String.ofList body

end Binary64

end Reanalysis
