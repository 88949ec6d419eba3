import Pseudocode.Arithmetic
import Pseudocode.Proofs.Integer.Division
import Pseudocode.Proofs.Real.Order

set_option autoImplicit false

namespace Pseudocode.Arithmetic

open Integer (InRange)

theorem natAbs_lt_iff (n : Int) :
    n.natAbs < Nat.pow 2 63 ↔ InRange n ∧ n ≠ Int64.minValue.toInt := by
  have least := Int64.toInt_minValue
  show n.natAbs < 9223372036854775808 ↔ _
  unfold InRange
  omega

theorem asWhole_real_of_eq {x : Float} (finite : x.isFinite = true) {n : Int}
    (whole : (n : ℚ) = Real.exact x) (o : Operator) :
    asWhole o (.real x) =
      if InRange n ∧ n ≠ Int64.minValue.toInt then .ok n
      else fail (.typeMismatch (.whole o (.real x))) := by
  simp only [asWhole, (Real.toInt?_eq_some_iff finite n).mpr whole, natAbs_lt_iff]

theorem asWhole_real_of_ne {x : Float} (finite : x.isFinite = true)
    (broken : ∀ n : Int, (n : ℚ) ≠ Real.exact x) (o : Operator) :
    asWhole o (.real x) = fail (.typeMismatch (.whole o (.real x))) := by
  have nothing : Real.toInt? x = none := by
    apply Option.eq_none_iff_forall_ne_some.mpr
    intro n found
    exact broken n ((Real.toInt?_eq_some_iff finite n).mp found)
  simp only [asWhole, nothing]

theorem asWhole_real_eq_ok_iff {x : Float} (finite : x.isFinite = true) (o : Operator) (n : Int) :
    asWhole o (.real x) = .ok n ↔
      (n : ℚ) = Real.exact x ∧ InRange n ∧ n ≠ Int64.minValue.toInt := by
  constructor
  · intro accepted
    by_cases whole : ∃ k : Int, (k : ℚ) = Real.exact x
    · obtain ⟨k, value⟩ := whole
      rw [asWhole_real_of_eq finite value] at accepted
      by_cases inside : InRange k ∧ k ≠ Int64.minValue.toInt
      · rw [if_pos inside, Except.ok.injEq] at accepted
        exact accepted ▸ ⟨value, inside⟩
      · rw [if_neg inside] at accepted
        cases accepted
    · rw [asWhole_real_of_ne finite (fun k value => whole ⟨k, value⟩)] at accepted
      cases accepted
  · rintro ⟨value, inside⟩
    rw [asWhole_real_of_eq finite value, if_pos inside]

/-- `DIV` and `MOD` see of a number only the whole number that they take it for. -/
theorem apply_congr {o : Operator} (dividing : o = .intDiv ∨ o = .mod) {u w : Value}
    (same : asWhole o u = asWhole o w) (first : u.isNumeric = true) (second : w.isNumeric = true)
    (v : Value) : apply o u v = apply o w v ∧ apply o v u = apply o v w := by
  rcases dividing with rfl | rfl <;>
    simp only [apply, requireNumber, first, second, divideWhole, same, if_true, and_self]

/-- A REAL is accepted exactly if it denotes the exact value of an INTEGER, and then as that. -/
def AcceptedIfRepresentable (x : Float) : Prop :=
  ∀ o n, asWhole o (.real x) = .ok n ↔ (n : ℚ) = Real.exact x ∧ InRange n

/-- `DIV` and `MOD` do with a REAL what they do with an INTEGER, on either side. -/
def StandsFor (x : Float) (i : Int64) : Prop :=
  ∀ o, o = .intDiv ∨ o = .mod → ∀ v,
    apply o (.real x) v = apply o (.integer i) v ∧ apply o v (.real x) = apply o v (.integer i)

theorem acceptedIfRepresentable_iff {x : Float} (finite : x.isFinite = true) :
    AcceptedIfRepresentable x ↔ Real.exact x ≠ Int64.minValue.toInt := by
  constructor
  · intro accepted least
    have member : asWhole .intDiv (.real x) = .ok Int64.minValue.toInt :=
      (accepted .intDiv _).mpr ⟨least.symm, Integer.inRange_toInt _⟩
    exact ((asWhole_real_eq_ok_iff finite _ _).mp member).2.2 rfl
  · intro other o n
    rw [asWhole_real_eq_ok_iff finite]
    constructor
    · rintro ⟨value, inside, _⟩
      exact ⟨value, inside⟩
    · rintro ⟨value, inside⟩
      refine ⟨value, inside, ?_⟩
      rintro rfl
      exact other value.symm

theorem standsFor_iff {x : Float} (finite : x.isFinite = true) {i : Int64}
    (value : (i.toInt : ℚ) = Real.exact x) : StandsFor x i ↔ i ≠ Int64.minValue := by
  constructor
  · rintro stands rfl
    -- Division by one tells them apart.
    have refused := asWhole_real_of_eq finite value .intDiv
    rw [if_neg (by simp)] at refused
    have failed : apply .intDiv (.real x) (.integer 1) =
        fail (.typeMismatch (.whole .intDiv (.real x))) := by
      simp only [apply, divideWhole, refused]
      rfl
    have quotient : apply .intDiv (.integer Int64.minValue) (.integer 1) =
        .ok (.integer Int64.minValue) := by decide
    have same := (stands .intDiv (.inl rfl) (.integer 1)).1
    rw [failed, quotient] at same
    cases same
  · intro other o dividing v
    have inside : InRange i.toInt ∧ i.toInt ≠ Int64.minValue.toInt :=
      ⟨Integer.inRange_toInt i, mt Int64.toInt_inj.mp other⟩
    have same : asWhole o (.real x) = asWhole o (.integer i) := by
      rw [asWhole_real_of_eq finite value, if_pos inside]
      rfl
    exact apply_congr dividing same rfl rfl v

/-- A finite REAL is accepted exactly if it is a whole number in the range of INTEGERs other than
the least, and then `DIV` and `MOD` do with it what they do with that INTEGER. Every other REAL is
refused as an operand. The bound on the magnitude is a machine number, and rounding it to one does
no harm: no REAL lies between the greatest INTEGER and `2 ^ 63`. -/
theorem real_operand_accepted_iff {x : Float} (finite : x.isFinite = true) :
    (∀ o n, asWhole o (.real x) = .ok n ↔
      (n : ℚ) = Real.exact x ∧ InRange n ∧ n ≠ Int64.minValue.toInt) ∧
    (∀ o, (∀ n, asWhole o (.real x) ≠ .ok n) →
      asWhole o (.real x) = fail (.typeMismatch (.whole o (.real x)))) ∧
    (AcceptedIfRepresentable x ↔ Real.exact x ≠ Int64.minValue.toInt) ∧
    (∀ i : Int64, (i.toInt : ℚ) = Real.exact x → (StandsFor x i ↔ i ≠ Int64.minValue)) ∧
    (x.abs < Real.ofInt64 Int64.maxValue ↔ |Real.exact x| < 2 ^ 63) := by
  refine ⟨asWhole_real_eq_ok_iff finite, ?_, acceptedIfRepresentable_iff finite,
    fun i value => standsFor_iff finite value, Real.abs_lt_greatest_iff finite⟩
  intro o refused
  by_cases whole : ∃ n : Int, (n : ℚ) = Real.exact x
  · obtain ⟨n, value⟩ := whole
    have decided := asWhole_real_of_eq finite value o
    by_cases inside : InRange n ∧ n ≠ Int64.minValue.toInt
    · rw [if_pos inside] at decided
      exact absurd decided (refused n)
    · rw [decided, if_neg inside]
  · exact asWhole_real_of_ne finite (fun n value => whole ⟨n, value⟩) o

theorem real_operand_accepted_iff_next_to_least :
    let i : Int64 := -9223372036854774784
    let x := Real.ofInt64 i
    x.isFinite = true ∧ (i.toInt : ℚ) = Real.exact x ∧ asWhole .mod (.real x) = .ok i.toInt ∧
      AcceptedIfRepresentable x ∧ StandsFor x i := by
  intro i x
  have finite : x.isFinite = true := Real.isFinite_ofInt64 i
  have value : (i.toInt : ℚ) = Real.exact x :=
    (Real.toInt?_eq_some_iff finite i.toInt).mp (by decide)
  have other : i.toInt ≠ Int64.minValue.toInt := by decide
  obtain ⟨accepted, _, representable, stands, _⟩ := real_operand_accepted_iff finite
  refine ⟨finite, value, (accepted .mod _).mpr ⟨value, Integer.inRange_toInt i, other⟩, ?_,
    (stands i value).mpr (by decide)⟩
  rw [representable, ← value]
  exact_mod_cast other

/-- The least INTEGER is a finite REAL, but `DIV` refuses that REAL. -/
theorem least_real_operand_refused :
    let x := Real.ofInt64 Int64.minValue
    x.isFinite = true ∧ (Int64.minValue.toInt : ℚ) = Real.exact x ∧ InRange Int64.minValue.toInt ∧
      asWhole .intDiv (.real x) = fail (.typeMismatch (.whole .intDiv (.real x))) ∧
      apply .intDiv (.real x) (.integer 1) = fail (.typeMismatch (.whole .intDiv (.real x))) ∧
      apply .intDiv (.integer Int64.minValue) (.integer 1) = .ok (.integer Int64.minValue) ∧
      ¬ AcceptedIfRepresentable x ∧ ¬ StandsFor x Int64.minValue := by
  intro x
  have finite : x.isFinite = true := Real.isFinite_ofInt64 Int64.minValue
  have value : (Int64.minValue.toInt : ℚ) = Real.exact x :=
    (Real.toInt?_eq_some_iff finite _).mp (by decide)
  refine ⟨finite, value, by decide, by decide, by decide, by decide, ?_, ?_⟩
  · rw [acceptedIfRepresentable_iff finite]
    exact fun other => other value.symm
  · rw [standsFor_iff finite value]
    exact fun other => other rfl

end Pseudocode.Arithmetic
