import Pseudocode.Text.Basic

set_option autoImplicit false

namespace Pseudocode.Real

/-- The number `± mantissa · 2 ^ exponent`. -/
structure Dyadic where
  negative : Bool
  mantissa : Nat
  exponent : Int
deriving DecidableEq, Repr

inductive Denoted where
  | notANumber
  | infinite (negative : Bool)
  | finite (value : Dyadic)
deriving DecidableEq, Repr

/-- The exponent of the smallest steps between REALs. -/
def leastExponent : Int := -1074

def isNegative : Float.Model.UnpackedFloat.Sign → Bool
  | .negative => true
  | .positive => false

/-- Reads the value off the machine form. Mantissas of finite values have 53 bits, or fewer at the
least exponent. -/
def denoted (x : Float) : Denoted :=
  match x.toModel.unpack with
  | .notANumber => .notANumber
  | .infinity s => .infinite (isNegative s)
  | .zero s => .finite ⟨isNegative s, 0, leastExponent⟩
  | .finite s m e _ => .finite ⟨isNegative s, m, e⟩

namespace Dyadic

def whole? (d : Dyadic) : Option Nat :=
  if 0 ≤ d.exponent then some (d.mantissa * Nat.pow 2 d.exponent.toNat)
  else if d.mantissa % Nat.pow 2 (-d.exponent).toNat = 0 then
    some (d.mantissa / Nat.pow 2 (-d.exponent).toNat)
  else none

def toInt? (d : Dyadic) : Option Int :=
  d.whole?.map fun n => if d.negative then -(n : Int) else n

end Dyadic

def toInt? (x : Float) : Option Int :=
  match denoted x with
  | .finite d => d.toInt?
  | _ => none

/-- The REAL nearest to an INTEGER, the even one of two equally near. -/
def ofInt64 (n : Int64) : Float :=
  .ofModel (.ofInt64 n)

theorem isFinite_iff (x : Float) : x.isFinite = true ↔ ∃ d, denoted x = .finite d := by
  have form : x.isFinite = x.toModel.unpack.isFinite := rfl
  rw [form, denoted]
  cases x.toModel.unpack with
  | notANumber =>
      constructor
      · intro impossible
        cases impossible
      · rintro ⟨_, impossible⟩
        cases impossible
  | infinity s =>
      constructor
      · intro impossible
        cases impossible
      · rintro ⟨_, impossible⟩
        cases impossible
  | zero s => exact ⟨fun _ => ⟨_, rfl⟩, fun _ => rfl⟩
  | finite s m e positive => exact ⟨fun _ => ⟨_, rfl⟩, fun _ => rfl⟩

end Pseudocode.Real
