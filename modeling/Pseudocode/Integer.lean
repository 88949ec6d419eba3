import Pseudocode.Text.Basic

set_option autoImplicit false

namespace Pseudocode.Integer

def ofInt? (n : Int) : Option Int64 :=
  if h : Int64.minValue.toInt ≤ n ∧ n ≤ Int64.maxValue.toInt then
    some (Int64.ofIntLE n h.1 h.2)
  else none

theorem ofInt?_eq_some_iff (n : Int) (i : Int64) : ofInt? n = some i ↔ i.toInt = n := by
  unfold ofInt?
  split
  · rename_i h
    constructor
    · intro same
      cases same
      exact Int64.toInt_ofIntLE
    · rintro rfl
      simp
  · rename_i h
    constructor
    · intro impossible
      cases impossible
    · rintro rfl
      exact absurd ⟨i.minValue_le_toInt, i.toInt_le⟩ h

@[simp] theorem ofInt?_toInt (i : Int64) : ofInt? i.toInt = some i :=
  (ofInt?_eq_some_iff _ _).mpr rfl

/-- Positional value of a row of decimal digits. -/
def ofDigits (t : Text) : Nat :=
  t.foldl (fun n d => 10 * n + (d.toNat - 48)) 0

/-- A row of at least one ASCII digit. -/
def digits? (t : Text) : Option Nat :=
  if !t.isEmpty && t.all Char.isDigit then some (ofDigits t) else none

/-- A whole number with an optional sign. -/
def read? (t : Text) : Option Int64 :=
  match t with
  | '-' :: t => (digits? t).bind fun n => ofInt? (-(n : Int))
  | '+' :: t => (digits? t).bind fun n => ofInt? n
  | t => (digits? t).bind fun n => ofInt? n

def displayInt (n : Int) : Text :=
  if n < 0 then '-' :: Nat.toDigits 10 n.natAbs else Nat.toDigits 10 n.natAbs

def display (n : Int64) : Text :=
  displayInt n.toInt

end Pseudocode.Integer
