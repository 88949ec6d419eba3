import Mathlib.Algebra.Order.Field.Power
import Mathlib.Data.Rat.Cast.Order
import Mathlib.Tactic.Positivity
import Pseudocode.Real.Dyadic

set_option autoImplicit false

namespace Pseudocode.Real

namespace Dyadic

/-- The rational number that a sign, a mantissa and an exponent stand for. -/
def toRat (d : Dyadic) : ℚ :=
  (if d.negative then -1 else 1) * (d.mantissa * 2 ^ d.exponent)

theorem mod_eq_zero_and_div_eq_iff {m n p : Nat} (positive : 0 < p) :
    m % p = 0 ∧ m / p = n ↔ n * p = m := by
  constructor
  · rintro ⟨divides, rfl⟩
    exact Nat.div_mul_cancel (Nat.dvd_of_mod_eq_zero divides)
  · rintro rfl
    exact ⟨Nat.mul_mod_left n p, Nat.mul_div_cancel n positive⟩

/-- The magnitude is a whole number exactly if `whole?` finds it. -/
theorem whole?_eq_some_iff (d : Dyadic) (n : Nat) :
    d.whole? = some n ↔ (n : ℚ) = d.mantissa * 2 ^ d.exponent := by
  obtain ⟨negative, m, e⟩ := d
  simp only [whole?]
  by_cases up : 0 ≤ e
  · lift e to ℕ using up
    rw [if_pos (by omega), Option.some_inj, zpow_natCast, Int.toNat_natCast, eq_comm]
    exact_mod_cast Iff.rfl
  · obtain ⟨k, rfl⟩ : ∃ k : ℕ, e = -k := ⟨(-e).toNat, by omega⟩
    have positive : 0 < Nat.pow 2 k := Nat.pow_pos (by decide)
    rw [if_neg up, neg_neg, Int.toNat_natCast, zpow_neg, zpow_natCast, ← div_eq_mul_inv,
      eq_div_iff (by positivity), Option.ite_none_right_eq_some, Option.some_inj,
      mod_eq_zero_and_div_eq_iff positive]
    exact_mod_cast Iff.rfl

theorem toInt?_eq_map (d : Dyadic) :
    d.toInt? = d.whole?.map fun n : Nat => if d.negative then -(n : Int) else (n : Int) := by
  unfold toInt?
  cases d.whole? <;> rfl

theorem toInt?_eq_some_iff (d : Dyadic) (n : Int) : d.toInt? = some n ↔ (n : ℚ) = d.toRat := by
  have magnitude : (0 : ℚ) ≤ d.mantissa * 2 ^ d.exponent := by positivity
  have whole := d.whole?_eq_some_iff
  rw [toInt?_eq_map, Option.map_eq_some_iff, toRat]
  cases d.negative with
  | true =>
      simp only [whole, if_true, neg_one_mul]
      constructor
      · rintro ⟨k, same, rfl⟩
        push_cast
        rw [same]
      · intro same
        have sign : n ≤ 0 := by
          have : (n : ℚ) ≤ 0 := by rw [same]; exact neg_nonpos.mpr magnitude
          exact_mod_cast this
        have back : ((n.natAbs : ℕ) : ℤ) = -n := by omega
        refine ⟨n.natAbs, ?_, by omega⟩
        rw [← Int.cast_natCast, back, Int.cast_neg, same, neg_neg]
  | false =>
      simp only [whole, Bool.false_eq_true, if_false, one_mul]
      constructor
      · rintro ⟨k, same, rfl⟩
        exact_mod_cast same
      · intro same
        have sign : 0 ≤ n := by
          have : (0 : ℚ) ≤ n := by rw [same]; exact magnitude
          exact_mod_cast this
        have back : ((n.natAbs : ℕ) : ℤ) = n := by omega
        refine ⟨n.natAbs, ?_, back⟩
        rw [← Int.cast_natCast, back, same]

end Dyadic

/-- The rational number that a finite REAL denotes. -/
def exact (x : Float) : ℚ :=
  match denoted x with
  | .finite d => d.toRat
  | _ => 0

theorem toInt?_eq_some_iff {x : Float} (finite : x.isFinite = true) (n : Int) :
    toInt? x = some n ↔ (n : ℚ) = exact x := by
  obtain ⟨d, value⟩ := (isFinite_iff x).mp finite
  simp only [toInt?, exact, value]
  exact d.toInt?_eq_some_iff n

end Pseudocode.Real
