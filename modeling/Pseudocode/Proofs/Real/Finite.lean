import Pseudocode.Real.Dyadic

set_option autoImplicit false

namespace Pseudocode.Real

open Float.Model (Format UnpackedFloat totalExponent)
open Float.Model.UnpackedFloat

/-- The exponent of the largest steps between REALs. -/
def greatestExponent : Int := 971

/-- A number that the machine form has room for. -/
def InRange : UnpackedFloat → Prop
  | .zero _ => True
  | .finite _ _ e _ => e ≤ greatestExponent
  | _ => False

theorem exponentBias_eq : Format.binary64.exponentBias = 1023 := by
  decide

theorem targetExponent_eq (m : Nat) (e : Int) :
    Format.binary64.targetExponent (totalExponent m e) = max (m.log2 + e - 52) leastExponent := by
  have bits : ((Format.binary64.mantissaBits : Nat) : Int) = 53 := rfl
  have least : Format.binary64.minExponent = leastExponent := by decide
  rw [Format.targetExponent, totalExponent, bits, least]
  omega

/-- A machine form is finite unless all bits of its exponent are set, and then it is in range. -/
theorem unpack_cases (b : BitVec Format.binary64.numBits) :
    (unpackExponent b).toNat = 2047 ∧ (unpack Format.binary64 b).isFinite = false ∨
      (unpackExponent b).toNat < 2047 ∧ (unpack Format.binary64 b).isFinite = true ∧
        InRange (unpack Format.binary64 b) := by
  have bound : (unpackExponent b).toNat < 2048 := (unpackExponent b).isLt
  have bias := exponentBias_eq
  have full : unpackExponent b = -BitVec.ofNat Format.binary64.exponentBits 1 ↔
      (unpackExponent b).toNat = 2047 := by
    rw [← BitVec.toNat_inj]
    rfl
  unfold unpack
  dsimp only
  by_cases top : (unpackExponent b).toNat = 2047
  · rw [if_pos (full.mpr top)]
    refine .inl ⟨top, ?_⟩
    split <;> rfl
  · rw [if_neg (mt full.mp top)]
    refine .inr ⟨by omega, ?_⟩
    by_cases least : unpackExponent b = BitVec.ofNat Format.binary64.exponentBits 0
    · have zero : (unpackExponent b).toNat = 0 := by
        rw [least]
        rfl
      rw [if_pos least]
      by_cases none : unpackMantissa b =
          BitVec.ofNat Format.binary64.mantissaBitsWithoutImplicit 0
      · rw [dif_pos none]
        exact ⟨rfl, trivial⟩
      · rw [dif_neg none]
        refine ⟨rfl, ?_⟩
        show _ ≤ greatestExponent
        unfold greatestExponent
        omega
    · rw [if_neg least]
      refine ⟨rfl, ?_⟩
      show _ ≤ greatestExponent
      unfold greatestExponent
      omega

theorem inRange_unpack {b : BitVec Format.binary64.numBits}
    (finite : (unpack Format.binary64 b).isFinite = true) : InRange (unpack Format.binary64 b) := by
  rcases unpack_cases b with ⟨_, infinite⟩ | ⟨_, _, inRange⟩
  · rw [infinite] at finite
    cases finite
  · exact inRange

theorem isFinite_pack {u : UnpackedFloat} (inRange : InRange u) :
    (unpack Format.binary64 (pack Format.binary64 u)).isFinite = true := by
  suffices other : (unpackExponent (pack Format.binary64 u)).toNat ≠ 2047 by
    rcases unpack_cases (pack Format.binary64 u) with ⟨top, _⟩ | ⟨_, finite, _⟩
    · exact absurd top other
    · exact finite
  cases u with
  | notANumber => cases inRange
  | infinity s => cases inRange
  | zero s =>
      change (unpackExponent (packComponents Format.binary64 s _ _)).toNat ≠ 2047
      rw [unpackExponent_packComponents]
      decide
  | finite s m e positive =>
      have bias := exponentBias_eq
      have limit : e ≤ 971 := inRange
      unfold pack
      dsimp only
      split
      · rename_i above
        omega
      · split
        · rw [unpackExponent_packComponents, BitVec.toNat_ofNat]
          omega
        · rw [unpackExponent_packComponents]
          decide

theorem inRange_neg {u : UnpackedFloat} (inRange : InRange u) : InRange u.neg := by
  cases u <;> exact inRange

theorem isFinite_neg {x : Float} (finite : x.isFinite = true) : (-x).isFinite = true :=
  isFinite_pack (inRange_neg (inRange_unpack finite))

theorem isFinite_neg_eq (x : Float) : (-x).isFinite = x.isFinite := by
  cases finite : x.isFinite with
  | true => exact isFinite_neg finite
  | false =>
      have packed : (-x).isFinite =
          (unpack Format.binary64 (pack Format.binary64 x.toModel.unpack.neg)).isFinite := rfl
      have form : x.isFinite = x.toModel.unpack.isFinite := rfl
      rw [form] at finite
      rw [packed]
      cases shape : x.toModel.unpack with
      | notANumber => rfl
      | infinity s => cases s <;> rfl
      | zero s =>
          rw [shape] at finite
          cases finite
      | finite s m e positive =>
          rw [shape] at finite
          cases finite

theorem log2_le_of_lt {m : Nat} (bits : Nat) (small : m < Nat.pow 2 (bits + 1)) :
    m.log2 ≤ bits := by
  by_cases zero : m = 0
  · subst zero
    exact Nat.zero_le bits
  · exact Nat.le_of_lt_succ ((Nat.log2_lt zero).mpr small)

theorem mantissa_shiftRight_le (em : ExtendedMantissa) (n : Nat) :
    (em >>> n).mantissa ≤ em.mantissa := by
  induction n with
  | zero => exact Nat.le_refl _
  | succ n ih =>
      have halved : (em >>> (n + 1)).mantissa = (em >>> n).mantissa / 2 := rfl
      omega

theorem mantissa_ofMantissaAndAccuracy (m : Nat) (accuracy : Accuracy) :
    (ExtendedMantissa.ofMantissaAndAccuracy m accuracy).mantissa = m := by
  rcases accuracy with _ | order
  · rfl
  · cases order <;> rfl

/-- Rounding to the nearest mantissa may carry into one more bit. -/
theorem log2_roundedMantissa_le (em : ExtendedMantissa) :
    em.roundedMantissa.log2 ≤ em.mantissa.log2 + 1 := by
  have carried : em.roundedMantissa ≤ em.mantissa + 1 := by
    obtain ⟨m, round, sticky⟩ := em
    rcases round <;> rcases sticky <;>
      simp only [ExtendedMantissa.roundedMantissa, ExtendedMantissa.accuracy,
        Accuracy.roundToNearestEven] <;> omega
  have size : em.mantissa < 2 ^ (em.mantissa.log2 + 1) := Nat.lt_log2_self
  apply log2_le_of_lt
  show _ < 2 ^ (em.mantissa.log2 + 1 + 1)
  rw [Nat.pow_succ]
  omega

theorem log2_mono {m n : Nat} (ordered : m ≤ n) : m.log2 ≤ n.log2 :=
  log2_le_of_lt _ (Nat.lt_of_le_of_lt ordered Nat.lt_log2_self)

/-- Shifting to the exponent that the format asks for: the mantissa does not grow, and the exponent
grows by no more than the mantissa has bits. -/
theorem shiftToTargetExponent_le (m : Nat) {e : Int} (above : leastExponent ≤ e)
    (accuracy : Accuracy) :
    let shifted := shiftToTargetExponent Format.binary64 m e accuracy
    shifted.1.mantissa ≤ m ∧ e ≤ shifted.2 ∧ shifted.2 ≤ e + m.log2 := by
  refine ⟨?_, ?_, ?_⟩
  · have kept := mantissa_shiftRight_le (.ofMantissaAndAccuracy m accuracy)
    rw [mantissa_ofMantissaAndAccuracy] at kept
    exact kept _
  · show e ≤ e + _
    omega
  · show e + ((Format.binary64.targetExponent (totalExponent m e) - e).toNat : Int) ≤ _
    rw [targetExponent_eq]
    omega

theorem inRange_zero_or_finite (s : Sign) (m : Nat) {e : Int} (room : e ≤ greatestExponent) :
    InRange (if zero : m = 0 then .zero s else .finite s m e (Nat.pos_of_ne_zero zero)) := by
  by_cases zero : m = 0
  · rw [dif_pos zero]
    trivial
  · rw [dif_neg zero]
    exact room

/-- Rounding shifts twice, before and after the carry. -/
theorem inRange_roundWithAccuracy (s : Sign) {m : Nat} {e : Int} (above : leastExponent ≤ e)
    (room : e + (2 * m.log2 + 1) ≤ greatestExponent) (accuracy : Accuracy) :
    InRange (roundWithAccuracy Format.binary64 s m e accuracy) := by
  obtain ⟨smaller, onward, first⟩ := shiftToTargetExponent_le m above accuracy
  unfold roundWithAccuracy
  generalize shiftToTargetExponent Format.binary64 m e accuracy = shifted at *
  obtain ⟨_, _, second⟩ :=
    shiftToTargetExponent_le shifted.1.roundedMantissa (Int.le_trans above onward) Accuracy.exact
  have bits := log2_mono smaller
  have carried := log2_roundedMantissa_le shifted.1
  dsimp only
  apply inRange_zero_or_finite
  omega

/-- A whole number of 64 bits is rounded to one in range. -/
theorem inRange_round (s : Sign) {m : Nat} (small : m.log2 ≤ 63) :
    InRange (UnpackedFloat.round Format.binary64 s m 0) := by
  unfold UnpackedFloat.round decreaseExponent
  rw [targetExponent_eq]
  dsimp only
  generalize shift : (0 - max ((m.log2 : Int) + 0 - 52) leastExponent).toNat = k
  have few : k ≤ 52 := by omega
  have scaled : (m <<< k).log2 ≤ m.log2 + k := by
    apply log2_le_of_lt
    show _ < 2 ^ (m.log2 + k + 1)
    rw [Nat.shiftLeft_eq, Nat.add_right_comm, Nat.pow_add]
    exact Nat.mul_lt_mul_of_pos_right Nat.lt_log2_self (Nat.two_pow_pos k)
  refine inRange_roundWithAccuracy s ?_ ?_ _
  · unfold leastExponent
    omega
  · unfold greatestExponent
    omega

/-- The REAL nearest to an INTEGER is finite. -/
theorem isFinite_ofInt64 (n : Int64) : (ofInt64 n).isFinite = true := by
  have least := n.le_toInt
  have greatest := n.toInt_lt
  have bits (k : Nat) (small : k ≤ 2 ^ 63) : k.log2 ≤ 63 :=
    log2_le_of_lt 63 (Nat.lt_of_le_of_lt small (by decide))
  apply isFinite_pack
  unfold UnpackedFloat.ofInt64 UnpackedFloat.ofInt UnpackedFloat.normalize
  split
  · exact inRange_round _ (bits _ (by omega))
  · trivial
  · exact inRange_round _ (bits _ (by omega))

end Pseudocode.Real
