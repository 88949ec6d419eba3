import Pseudocode.Real.Shortest
import Pseudocode.Integer

set_option autoImplicit false

namespace Pseudocode.Real

def zeros (n : Nat) : Text := List.replicate n '0'

/-- Digits with the point where the exponent puts it, and at least one digit on both sides. -/
def positional (d : Decimal) : Text :=
  if 0 ≤ d.exponent then
    let before := d.exponent.toNat + 1
    let front := d.digits.take before
    let back := d.digits.drop before
    front ++ zeros (before - front.length) ++ ['.'] ++ (if back.isEmpty then ['0'] else back)
  else ['0', '.'] ++ zeros ((-d.exponent).toNat - 1) ++ d.digits

def scientific (d : Decimal) : Text :=
  let fraction := match d.digits.drop 1 with
    | [] => []
    | rest => '.' :: rest
  let sign := if d.exponent < 0 then '-' else '+'
  d.digits.take 1 ++ fraction ++ ['e', sign] ++ Nat.toDigits 10 d.exponent.natAbs

structure Format where
  tie : Tie
  isPositional : Int → Bool
  expandWhole : Bool

/-- OUTPUT never writes an exponent, writes whole numbers exactly, and rounds halves up. -/
def output : Format := ⟨.away, fun _ => true, true⟩

/-- Dumps write exponents from `-5` to `15` positionally and round halves to the even digit. -/
def dump : Format := ⟨.toEven, fun e => decide (-5 ≤ e) && decide (e ≤ 15), false⟩

def withSign (negative : Bool) (t : Text) : Text :=
  if negative then '-' :: t else t

def Format.magnitude (f : Format) (d : Dyadic) : Text :=
  match if f.expandWhole || d.mantissa == 0 then d.whole? else none with
  | some n => Nat.toDigits 10 n ++ ['.', '0']
  | none =>
      let decimal := shortest f.tie d.mantissa d.exponent
      if f.isPositional decimal.exponent then positional decimal else scientific decimal

def display (x : Float) : Text :=
  match denoted x with
  | .notANumber => ['N', 'a', 'N']
  | .infinite negative => withSign negative ['i', 'n', 'f']
  | .finite d => withSign d.negative (output.magnitude d)

def dumpText? (x : Float) : Option Text :=
  match denoted x with
  | .finite d => some (withSign d.negative (dump.magnitude d))
  | _ => none

end Pseudocode.Real
