import Pseudocode.Integer

set_option autoImplicit false

namespace Pseudocode.Real

def exponent? : Text → Option Int
  | [] => some 0
  | c :: t =>
      if c == 'e' || c == 'E' then
        match t with
        | '-' :: t => (Integer.digits? t).map fun n => -(n : Int)
        | '+' :: t => (Integer.digits? t).map fun n => (n : Int)
        | t => (Integer.digits? t).map fun n => (n : Int)
      else none

def fraction : Text → Text × Text
  | '.' :: t => (t.takeWhile Char.isDigit, t.dropWhile Char.isDigit)
  | t => ([], t)

/-- The REAL nearest to `mantissa · 10 ^ power`, the even one of two equally near. -/
def ofDecimal (mantissa : Nat) (power : Int) : Float :=
  Float.ofScientific mantissa (decide (power < 0)) power.natAbs

def magnitude? (t : Text) : Option Float :=
  let word := t.map Char.toLower
  if word = ['i', 'n', 'f'] || word = ['i', 'n', 'f', 'i', 'n', 'i', 't', 'y'] then
    some (1.0 / 0.0)
  else if word = ['n', 'a', 'n'] then some (0.0 / 0.0)
  else
    let whole := t.takeWhile Char.isDigit
    let (after, rest) := fraction (t.dropWhile Char.isDigit)
    if whole.isEmpty && after.isEmpty then none
    else (exponent? rest).map fun power =>
      ofDecimal (Integer.ofDigits (whole ++ after)) (power - after.length)

/-- A number with an optional sign: digits with an optional point and digits on at least one side of
it, and an optional exponent; or the words for infinity and for no number. -/
def read? : Text → Option Float
  | '-' :: t => (magnitude? t).map fun x => -x
  | '+' :: t => magnitude? t
  | t => magnitude? t

end Pseudocode.Real
