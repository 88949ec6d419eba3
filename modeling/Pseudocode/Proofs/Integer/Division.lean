import Pseudocode.Integer

set_option autoImplicit false

namespace Pseudocode.Integer

/-- The numbers from `-2 ^ 63` to `2 ^ 63 - 1`. -/
def InRange (n : Int) : Prop :=
  -9223372036854775808 ≤ n ∧ n ≤ 9223372036854775807

instance (n : Int) : Decidable (InRange n) :=
  inferInstanceAs (Decidable (_ ∧ _))

theorem inRange_toInt (a : Int64) : InRange a.toInt :=
  ⟨a.le_toInt, Int.le_sub_one_of_lt a.toInt_lt⟩

theorem inRange_iff (n : Int) : InRange n ↔ ∃ i : Int64, i.toInt = n := by
  constructor
  · intro inside
    exact ⟨Int64.ofIntLE n inside.1 inside.2, Int64.toInt_ofIntLE⟩
  · rintro ⟨i, rfl⟩
    exact inRange_toInt i

theorem ofInt?_eq_none_iff (n : Int) : ofInt? n = none ↔ ¬ InRange n := by
  rw [inRange_iff, Option.eq_none_iff_forall_ne_some]
  simp only [ne_eq, ofInt?_eq_some_iff, not_exists]

/-- Reduction to 64 bits leaves a number in range as it is. -/
theorem bmod_of_inRange {n : Int} (inside : InRange n) : n.bmod 18446744073709551616 = n := by
  unfold InRange at inside
  apply Int.bmod_eq_of_le <;> omega

def signsDiffer (a b : Int64) : Bool :=
  decide (a < 0) != decide (b < 0)

/-- The quotient toward zero, if there is one in range. -/
def quotient? (a b : Int64) : Option Int64 :=
  if b = 0 ∨ a = Int64.minValue ∧ b = -1 then none else some (a / b)

def pred? (a : Int64) : Option Int64 :=
  if a = Int64.minValue then none else some (a - 1)

/-- The quotient to the floor, if there is one in range. -/
def floorDiv? (a b : Int64) : Option Int64 := do
  let q ← quotient? a b
  if a % b ≠ 0 ∧ signsDiffer a b then pred? q else some q

def floorMod (a b : Int64) : Int64 :=
  let r := a % b
  if r ≠ 0 ∧ signsDiffer r b then r + b else r

/-- No step of dividing `a` by `b` wraps around: each gives what it gives on unbounded integers. -/
structure DivisionExact (a b : Int64) : Prop where
  quotient : ¬ (a = Int64.minValue ∧ b = -1) → (a / b).toInt = a.toInt.tdiv b.toInt
  remainder : (a % b).toInt = a.toInt.tmod b.toInt
  lowered : a % b ≠ 0 → (a / b - 1).toInt = (a / b).toInt - 1
  raised : signsDiffer (a % b) b → (a % b + b).toInt = (a % b).toInt + b.toInt

theorem signsDiffer_iff (a b : Int64) :
    signsDiffer a b = true ↔ ¬ (a.toInt < 0 ↔ b.toInt < 0) := by
  simp only [signsDiffer, bne_iff_ne, ne_eq, decide_eq_decide, Int64.lt_iff_toInt_lt,
    Int64.toInt_zero]

theorem toInt_ne_zero {b : Int64} (divisible : b ≠ 0) : b.toInt ≠ 0 := by
  intro zero
  exact divisible (Int64.toInt_inj.mp zero)

theorem toInt_quotient {a b : Int64} (inside : ¬ (a = Int64.minValue ∧ b = -1)) :
    (a / b).toInt = a.toInt.tdiv b.toInt := by
  by_cases least : a = Int64.minValue
  · exact Int64.toInt_div_of_ne_right a b fun minusOne => inside ⟨least, minusOne⟩
  · exact Int64.toInt_div_of_ne_left a b least

/-- A quotient with something left over is at most half as large as the dividend. -/
theorem natAbs_tdiv_le_half {a b : Int} (divisible : b ≠ 0) (left : a.tmod b ≠ 0) :
    (a.tdiv b).natAbs ≤ a.natAbs / 2 := by
  have size : b.natAbs ≠ 1 := by
    intro unit
    have none := Int.natAbs_tmod a b
    rw [unit, Nat.mod_one] at none
    omega
  calc
    (a.tdiv b).natAbs = a.natAbs / b.natAbs := Int.natAbs_tdiv a b
    _ ≤ a.natAbs / 2 := Nat.div_le_div_left (by omega) (by decide)

theorem divisionExact {a b : Int64} (divisible : b ≠ 0) : DivisionExact a b := by
  have remainder := Int64.toInt_mod a b
  refine ⟨toInt_quotient, remainder, ?_, ?_⟩
  · intro left
    have some : a.toInt.tmod b.toInt ≠ 0 := remainder ▸ toInt_ne_zero left
    have small := natAbs_tdiv_le_half (toInt_ne_zero divisible) some
    have inside : ¬ (a = Int64.minValue ∧ b = -1) := by
      rintro ⟨rfl, rfl⟩
      exact left (by decide)
    have dividend := inRange_toInt a
    unfold InRange at dividend
    rw [Int64.toInt_sub, toInt_quotient inside]
    apply bmod_of_inRange
    unfold InRange
    simp only [Int64.toInt_one]
    omega
  · intro differ
    rw [signsDiffer_iff] at differ
    have left := inRange_toInt (a % b)
    have divisor := inRange_toInt b
    rw [Int64.toInt_add]
    apply bmod_of_inRange
    unfold InRange at *
    omega

theorem tmod_nonpos {a : Int} (b : Int) (negative : a ≤ 0) : a.tmod b ≤ 0 := by
  have opposite := Int.tmod_nonneg b (show 0 ≤ -a by omega)
  rw [Int.neg_tmod] at opposite
  omega

theorem natAbs_tmod_lt (a : Int) {b : Int} (divisible : b ≠ 0) :
    (a.tmod b).natAbs < b.natAbs := by
  rw [Int.natAbs_tmod]
  exact Nat.mod_lt _ (by omega)

theorem fdiv_fmod_eq {a b q r : Int} (whole : b * q + r = a)
    (side : 0 ≤ r ∧ r < b ∨ b < r ∧ r ≤ 0) : a.fdiv b = q ∧ a.fmod b = r := by
  rw [Int.add_comm] at whole
  rcases side with above | below
  · exact (Int.fdiv_fmod_unique (by omega)).mpr ⟨whole, above⟩
  · exact (Int.fdiv_fmod_unique' (by omega)).mpr ⟨whole, below⟩

/-- The floor, corrected from the quotient and remainder toward zero. -/
theorem fdiv_fmod_corrected (a : Int) {b : Int} (divisible : b ≠ 0) :
    a.fdiv b = (if a.tmod b ≠ 0 ∧ ¬ (a < 0 ↔ b < 0) then a.tdiv b - 1 else a.tdiv b) ∧
      a.fmod b =
        if a.tmod b ≠ 0 ∧ ¬ (a.tmod b < 0 ↔ b < 0) then a.tmod b + b else a.tmod b := by
  have whole := Int.mul_tdiv_add_tmod a b
  have small := natAbs_tmod_lt a divisible
  have positive := Int.tmod_nonneg (a := a) b
  have negative := tmod_nonpos (a := a) b
  by_cases same : a.tmod b = 0 ∨ (a < 0 ↔ b < 0)
  · rw [if_neg (by omega), if_neg (by omega)]
    exact fdiv_fmod_eq whole (by omega)
  · rw [if_pos (by omega), if_pos (by omega)]
    refine fdiv_fmod_eq ?_ (by omega)
    rw [Int.mul_sub]
    omega

/-- `a = b * (a DIV b) + (a MOD b)`, and the remainder is zero or has the sign of `b`. -/
theorem fdiv_fmod_law (a : Int) {b : Int} (divisible : b ≠ 0) :
    a = b * a.fdiv b + a.fmod b ∧ (a.fmod b).natAbs < b.natAbs ∧
      (a.fmod b = 0 ∨ (a.fmod b).sign = b.sign) := by
  refine ⟨(Int.mul_fdiv_add_fmod a b).symm, ?_⟩
  have small := natAbs_tmod_lt a divisible
  have remainder := (fdiv_fmod_corrected a divisible).2
  generalize a.fmod b = r at *
  have side : 0 ≤ r ∧ r < b ∨ b < r ∧ r ≤ 0 := by
    rw [remainder]
    split <;> omega
  refine ⟨by omega, ?_⟩
  by_cases none : r = 0
  · exact .inl none
  · right
    rcases side with above | below
    · rw [Int.sign_eq_one_of_pos (by omega), Int.sign_eq_one_of_pos (by omega)]
    · rw [Int.sign_eq_neg_one_of_neg (by omega), Int.sign_eq_neg_one_of_neg (by omega)]

theorem toInt_floorMod (a : Int64) {b : Int64} (divisible : b ≠ 0) :
    (floorMod a b).toInt = a.toInt.fmod b.toInt := by
  have steps := divisionExact (a := a) divisible
  rw [(fdiv_fmod_corrected a.toInt (toInt_ne_zero divisible)).2, ← steps.remainder]
  simp only [floorMod, signsDiffer_iff, ne_eq, ← Int64.toInt_inj, Int64.toInt_zero]
  split
  · rename_i corrected
    exact steps.raised ((signsDiffer_iff _ _).mpr corrected.2)
  · rfl

theorem pred?_eq_some {q : Int64} (exact : (q - 1).toInt = q.toInt - 1) :
    pred? q = some (q - 1) := by
  have inside := inRange_toInt (q - 1)
  rw [pred?, if_neg]
  rintro rfl
  unfold InRange at inside
  rw [exact, Int64.toInt_minValue] at inside
  omega

/-- The quotient to the floor is found wherever it is in range. -/
theorem floorDiv?_eq (a : Int64) {b : Int64} (divisible : b ≠ 0) :
    floorDiv? a b = ofInt? (a.toInt.fdiv b.toInt) := by
  have steps := divisionExact (a := a) divisible
  by_cases outside : a = Int64.minValue ∧ b = -1
  · rw [outside.1, outside.2]
    decide
  · have found : quotient? a b = some (a / b) := if_neg (by simp [divisible, outside])
    have left : a % b ≠ 0 ↔ a.toInt.tmod b.toInt ≠ 0 := by
      rw [← steps.remainder, ne_eq, ne_eq, ← Int64.toInt_inj, Int64.toInt_zero]
    rw [(fdiv_fmod_corrected a.toInt (toInt_ne_zero divisible)).1, ← steps.quotient outside]
    simp only [floorDiv?, found, Option.bind_eq_bind, Option.bind_some, signsDiffer_iff, left]
    split
    · rename_i corrected
      have lowered := steps.lowered (left.mpr corrected.1)
      rw [pred?_eq_some lowered, ← lowered, ofInt?_toInt]
    · rw [ofInt?_toInt]

end Pseudocode.Integer
