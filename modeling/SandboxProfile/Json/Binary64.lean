/-!
# Numbers of double precision

A finite double is a sign and a magnitude `mantissa * 2 ^ exponent` with a mantissa below `2 ^ 53`
and an exponent between -1074 and 971. All arithmetic here is on natural numbers: a quotient is
rounded to the nearest double, ties going to the even mantissa, and a double is written with the
fewest decimal digits that read back as it.
-/

namespace SandboxProfile

/-- The size of a double. The mantissa is at least `2 ^ 52` unless the exponent is the least one. -/
structure Magnitude where
  mantissa : Nat
  exponent : Int
deriving DecidableEq, Repr, Inhabited

namespace Magnitude

def zero : Magnitude := ⟨0, -1074⟩

/-- The double nearest to `num / den`; none if that is beyond the largest double. -/
def nearest? (num den : Nat) : Option Magnitude :=
  if num = 0 then some zero
  else
    let guess : Int := num.log2 - den.log2 - 52
    let low := num <<< (-guess).toNat < den <<< (52 + guess.toNat)
    let exponent := max (if low then guess - 1 else guess) (-1074)
    let num := num <<< (-exponent).toNat
    let den := den <<< exponent.toNat
    let quotient := num / den
    let twice := 2 * (num % den)
    let up := den < twice || (twice = den && quotient % 2 = 1)
    let mantissa := if up then quotient + 1 else quotient
    let result : Magnitude :=
      if mantissa = 1 <<< 53 then ⟨1 <<< 52, exponent + 1⟩ else ⟨mantissa, exponent⟩
    if 971 < result.exponent then none else some result

/-- The double nearest to `10 ^ n`, for `n` up to 308. -/
def powerOfTen (n : Nat) : Magnitude := (nearest? (Nat.pow 10 n) 1).getD zero

/-- The product, rounded to a double. -/
def times? (x y : Magnitude) : Option Magnitude :=
  let exponent := x.exponent + y.exponent
  nearest? ((x.mantissa * y.mantissa) <<< exponent.toNat) (1 <<< (-exponent).toNat)

/-- The quotient, rounded to a double. -/
def dividedBy (x y : Magnitude) : Magnitude :=
  let exponent := x.exponent - y.exponent
  (nearest? (x.mantissa <<< exponent.toNat) (y.mantissa <<< (-exponent).toNat)).getD zero

/-- Division by a power of ten, in steps of at most `10 ^ 308`. -/
def scaleDown (x : Magnitude) (n : Nat) : Magnitude :=
  if n ≤ 308 then x.dividedBy (powerOfTen n)
  else if x.mantissa = 0 then x
  else scaleDown (x.dividedBy (powerOfTen 308)) (n - 308)
termination_by n

/-- A decimal number as a double: the digits are rounded first, then scaled by one power of ten. -/
def ofDecimal? (digits : Nat) (exponent : Int) : Option Magnitude :=
  (nearest? digits 1).bind fun x =>
    if exponent < 0 then some (x.scaleDown (-exponent).toNat)
    else if exponent ≤ 308 then x.times? (powerOfTen exponent.toNat)
    else if x.mantissa = 0 then some x
    else none

/-- The least `p` with `num / den < 10 ^ p`. -/
def decimalOrder (num den : Nat) : Int :=
  if den ≤ num then ((toString (num / den)).length : Int)
  else 1 - (((List.range 400).find? fun t => den ≤ num * Nat.pow 10 t).getD 0 : Nat)

/-- The two decimal neighbours of a double on the grid of step `10 ^ step`, and which of them, if
any, reads back as the double: it lies between the midpoints to the adjacent doubles, or on one if
the mantissa is even. -/
def onGrid? (x : Magnitude) (step : Int) : Option Nat :=
  let unit := x.exponent - 2
  let up := Nat.pow 10 (-step).toNat <<< unit.toNat
  let den := Nat.pow 10 step.toNat <<< (-unit).toNat
  let value := 4 * x.mantissa * up
  let high := (4 * x.mantissa + 2) * up
  let low :=
    if x.mantissa = 1 <<< 52 && -1074 < x.exponent then (4 * x.mantissa - 1) * up
    else (4 * x.mantissa - 2) * up
  let closed := x.mantissa % 2 = 0
  let within (d : Nat) : Bool :=
    let n := d * den
    (low < n && n < high) || (closed && (n = low || n = high))
  let below := value / den
  let gapBelow := value - below * den
  let gapAbove := (below + 1) * den - value
  if within below && within (below + 1) then
    some
      (if gapBelow < gapAbove || (gapBelow = gapAbove && below % 2 = 0) then below
      else below + 1)
  else if within below then some below
  else if within (below + 1) then some (below + 1)
  else none

/-- The fewest decimal digits that read back as a positive double, and the power of ten of the last
one. -/
def shortest (x : Magnitude) : Nat × Int :=
  let num := x.mantissa <<< x.exponent.toNat
  let order := decimalOrder num (1 <<< (-x.exponent).toNat)
  ((List.range 17).findSome? fun (n : Nat) =>
    let step := order - (n + 1)
    (x.onGrid? step).map fun d => (d, step)).getD (0, 0)

/-- Digits with a point, or with one digit before the point and an exponent of ten when the number
is below `10 ^ -5` or at least `10 ^ 16`. -/
def display (x : Magnitude) : String :=
  if x.mantissa = 0 then "0.0"
  else
    let (number, step) := x.shortest
    let written := (toString number).toList
    let digits := (written.reverse.dropWhile (· = '0')).reverse
    let point : Int := step + written.length
    let count : Int := digits.length
    if point < -4 || 16 < point then
      let power := point - 1
      let sign := if power < 0 then '-' else '+'
      let tail := digits.drop 1
      String.ofList (digits.take 1 ++ (if tail.isEmpty then [] else '.' :: tail) ++ ['e', sign])
        ++ toString power.natAbs
    else if point ≤ 0 then
      String.ofList (['0', '.'] ++ List.replicate (-point).toNat '0' ++ digits)
    else if point < count then
      String.ofList (digits.take point.toNat ++ '.' :: digits.drop point.toNat)
    else
      String.ofList (digits ++ List.replicate (point - count).toNat '0' ++ ['.', '0'])

end Magnitude

structure Binary64 where
  negative : Bool
  magnitude : Magnitude
deriving DecidableEq, Repr, Inhabited

namespace Binary64

def ofDecimal? (negative : Bool) (digits : Nat) (exponent : Int) : Option Binary64 :=
  (Magnitude.ofDecimal? digits exponent).map (⟨negative, ·⟩)

def display (x : Binary64) : String :=
  (if x.negative then "-" else "") ++ x.magnitude.display

end Binary64

end SandboxProfile
