import Pseudocode.Real.Dyadic

set_option autoImplicit false

namespace Pseudocode.Real

inductive Tie where
  | away
  | toEven
deriving DecidableEq, Repr

/-- The numbers from `low / unit` to `high / unit` that round to `value / unit`. -/
structure Cell where
  low : Nat
  value : Nat
  high : Nat
  unit : Nat
  closed : Bool
deriving DecidableEq, Repr

namespace Cell

/-- The cell of `mantissa · 2 ^ exponent`. Ends are halfway to the neighbours; below a power of two
the neighbour is half as far, and an even mantissa owns its ends. -/
def ofDyadic (mantissa : Nat) (exponent : Int) : Cell :=
  let narrow := mantissa = Nat.pow 2 52 ∧ leastExponent < exponent
  let low := 4 * mantissa - if narrow then 1 else 2
  let high := 4 * mantissa + 2
  let shift := exponent - 2
  let closed := mantissa % 2 == 0
  if 0 ≤ shift then
    let power := Nat.pow 2 shift.toNat
    ⟨low * power, 4 * mantissa * power, high * power, 1, closed⟩
  else ⟨low, 4 * mantissa, high, Nat.pow 2 (-shift).toNat, closed⟩

/-- The same cell measured in units of `10 ^ k`. -/
def inPowers (c : Cell) (k : Int) : Cell :=
  if 0 ≤ k then { c with unit := c.unit * Nat.pow 10 k.toNat }
  else
    let power := Nat.pow 10 (-k).toNat
    { c with low := c.low * power, value := c.value * power, high := c.high * power }

def reachesDown (c : Cell) (n : Nat) : Bool :=
  if c.closed then decide (c.low ≤ n * c.unit) else decide (c.low < n * c.unit)

def reachesUp (c : Cell) (n : Nat) : Bool :=
  if c.closed then decide (n * c.unit ≤ c.high) else decide (n * c.unit < c.high)

/-- The nearer of the whole numbers of units next to the value, of those in the cell. -/
def nearest? (tie : Tie) (c : Cell) : Option Nat :=
  let below := c.value / c.unit
  let above := below + 1
  if c.reachesDown below && c.reachesUp above then
    let down := c.value - below * c.unit
    let up := above * c.unit - c.value
    if down < up then some below
    else if up < down then some above
    else match tie with
      | .away => some above
      | .toEven => if below % 2 = 0 then some below else some above
  else if c.reachesDown below then some below
  else if c.reachesUp above then some above
  else none

end Cell

def leadingPower (value unit : Nat) : Int :=
  if unit ≤ value then ((Nat.toDigits 10 (value / unit)).length : Int) - 1
  else
    let places := (Nat.toDigits 10 (unit / value)).length
    if unit ≤ value * Nat.pow 10 (places - 1) then 1 - (places : Int) else -(places : Int)

/-- The number `d₁.d₂d₃… · 10 ^ exponent`; the last digit is not zero. -/
structure Decimal where
  digits : Text
  exponent : Int
deriving DecidableEq, Repr

def Decimal.ofNat (n : Nat) (power : Int) : Decimal :=
  let digits := Nat.toDigits 10 n
  ⟨(digits.reverse.dropWhile (· == '0')).reverse, power + digits.length - 1⟩

/-- The shortest decimal of the positive REAL `mantissa · 2 ^ exponent`: of those that are nearer to
it than to any other REAL, one with the fewest digits, and of these the nearest. Seventeen digits
are always enough. -/
def shortest (tie : Tie) (mantissa : Nat) (exponent : Int) : Decimal :=
  let cell := Cell.ofDyadic mantissa exponent
  let top := leadingPower cell.value cell.unit
  let hit := (List.range 17).findSome? fun (places : Nat) =>
    let power := top - (places : Int)
    ((cell.inPowers power).nearest? tie).map fun n => Decimal.ofNat n power
  hit.getD (Decimal.ofNat (cell.value / cell.unit) 0)

end Pseudocode.Real
