/-!
# The shortest decimal text of a double

A double stands for all reals that round to it. Of the decimals in that
interval the one with the fewest digits is taken, and of several the nearest to
the double itself. All comparisons are made on natural numbers.
-/
namespace TxnAssembly.Decimal

/-- A positive double and the ends of the interval that rounds to it, as
multiples of one unit `1 / denominator`. -/
structure Interval where
  low : Nat
  value : Nat
  high : Nat
  denominator : Nat
  /-- The ends round to an even significand and belong to the interval. -/
  closed : Bool

/-- The interval around `significand * 2 ^ exponent`. Below a power of two the
doubles lie twice as dense, so the lower end is nearer there. -/
def Interval.around (significand : Nat) (exponent : Int) (isPowerStep : Bool) : Interval :=
  let unit := Nat.pow 2 (exponent - 2).toNat
  { low := (4 * significand - (if isPowerStep then 1 else 2)) * unit
    value := 4 * significand * unit
    high := (4 * significand + 2) * unit
    denominator := Nat.pow 2 (2 - exponent).toNat
    closed := significand % 2 = 0 }

/-- The same interval measured in units of `10 ^ exponent`. -/
def Interval.measuredIn (i : Interval) (exponent : Int) : Interval :=
  let up := Nat.pow 10 (-exponent).toNat
  { i with
    low := i.low * up
    value := i.value * up
    high := i.high * up
    denominator := i.denominator * Nat.pow 10 exponent.toNat }

/-- Whether a whole number lies in the interval. -/
def Interval.contains (i : Interval) (n : Nat) : Bool :=
  if i.closed then i.low ≤ n * i.denominator && n * i.denominator ≤ i.high
  else i.low < n * i.denominator && n * i.denominator < i.high

/-- The whole number nearest to the value among those in the interval; an exact
tie goes to the even one. -/
def Interval.nearest? (i : Interval) : Option Nat :=
  let n := i.value / i.denominator
  let below := i.value - n * i.denominator
  let above := (n + 1) * i.denominator - i.value
  match i.contains n, i.contains (n + 1) with
  | true, true =>
    if below < above then some n
    else if above < below then some (n + 1)
    else some (if n % 2 = 0 then n else n + 1)
  | true, false => some n
  | false, true => some (n + 1)
  | false, false => none

/-- How many tenfold steps lift the value to at least one. -/
def stepsToOne (fuel value denominator : Nat) : Nat :=
  match fuel with
  | 0 => 0
  | fuel + 1 =>
    if denominator ≤ value then 0 else stepsToOne fuel (value * 10) denominator + 1

/-- Exponent of the leading decimal digit. No positive double is below
`10 ^ -330`. -/
def Interval.magnitude (i : Interval) : Int :=
  if i.denominator ≤ i.value then (toString (i.value / i.denominator)).length - 1
  else -(stepsToOne 330 i.value i.denominator : Int)

/-- Tries finer and finer decimal grids. Seventeen digits always suffice. -/
def Interval.search (i : Interval) (fuel : Nat) (exponent : Int) : Nat × Int :=
  let scaled := i.measuredIn exponent
  match fuel, scaled.nearest? with
  | _, some n => (n, exponent)
  | 0, none => (scaled.value / scaled.denominator, exponent)
  | fuel + 1, none => i.search fuel (exponent - 1)

/-- The digits of a decimal without closing zeros, and the exponent of the first. -/
def digitsOf (n : Nat) (exponent : Int) : List Char × Int :=
  let digits := Nat.toDigits 10 n
  ((digits.reverse.dropWhile (· = '0')).reverse, exponent + digits.length - 1)

/-- Shortest digits of the positive double with these fields, and the exponent
of the first digit. -/
def shortest (biasedExponent fraction : Nat) : List Char × Int :=
  let interval : Interval :=
    if biasedExponent = 0 then .around fraction (-1074) false
    else .around (fraction + Nat.pow 2 52) (biasedExponent - 1075)
      (fraction = 0 && biasedExponent ≠ 1)
  let found := interval.search 16 interval.magnitude
  digitsOf found.1 found.2

/-- Digits are written positionally when the first one stands from the fifth
place behind the point to the sixteenth before it. -/
def isPositional (exponent : Int) : Bool := -5 ≤ exponent && exponent ≤ 15

/-- Digits with a point; whole numbers keep one zero behind it. -/
def positional (digits : List Char) (exponent : Int) : List Char :=
  if exponent < 0 then
    ['0', '.'] ++ List.replicate (-exponent - 1).toNat '0' ++ digits
  else
    let whole := exponent.toNat + 1
    if digits.length ≤ whole then
      digits ++ List.replicate (whole - digits.length) '0' ++ ['.', '0']
    else digits.take whole ++ ['.'] ++ digits.drop whole

/-- One digit before the point and a signed exponent. -/
def scientific (digits : List Char) (exponent : Int) : List Char :=
  let rest := digits.drop 1
  digits.take 1 ++ (if rest.isEmpty then [] else '.' :: rest) ++ ['e'] ++
    (if exponent < 0 then ['-'] else ['+']) ++ Nat.toDigits 10 exponent.natAbs

/-- The text of a finite double. -/
def render (x : Float) : String :=
  let bits := x.toBits.toNat
  let sign := if bits / Nat.pow 2 63 = 1 then ['-'] else []
  let biasedExponent := bits / Nat.pow 2 52 % Nat.pow 2 11
  let fraction := bits % Nat.pow 2 52
  String.ofList <| sign ++
    if biasedExponent = 0 ∧ fraction = 0 then ['0', '.', '0']
    else
      let (digits, exponent) := shortest biasedExponent fraction
      if isPositional exponent then positional digits exponent
      else scientific digits exponent

end TxnAssembly.Decimal
