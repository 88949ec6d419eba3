import Mathlib.Tactic.NormNum.Pow
import Pseudocode.Proofs.Real.Exact
import Pseudocode.Proofs.Real.Finite

set_option autoImplicit false

namespace Pseudocode.Real

open Float.Model (Format UnpackedFloat totalExponent)
open Float.Model.UnpackedFloat

/-- The form in which the machine keeps a finite number other than zero: a mantissa of 53 bits, or
of fewer at the least exponent. -/
structure Canonical (m : Nat) (e : Int) : Prop where
  bits : m < 9007199254740992
  least : leastExponent ≤ e
  greatest : e ≤ greatestExponent
  normal : 4503599627370496 ≤ m ∨ e = leastExponent

theorem toNat_implicit (m : BitVec 52) : (1#1 ++ m).toNat = 4503599627370496 + m.toNat := by
  rw [BitVec.toNat_append, ← Nat.shiftLeft_add_eq_or_of_lt m.isLt]
  rfl

theorem unpackSign_packComponents (s : Sign) (e : BitVec 11) (m : BitVec 52) :
    unpackSign (packComponents Format.binary64 s e m) = s.toBitVec := by
  have room := e.isLt
  have below := m.isLt
  apply BitVec.eq_of_toNat_eq
  show (s.toBitVec ++ e ++ m).toNat >>> 63 % 2 = s.toBitVec.toNat
  rw [BitVec.toNat_append, ← Nat.shiftLeft_add_eq_or_of_lt below, BitVec.toNat_append,
    ← Nat.shiftLeft_add_eq_or_of_lt room]
  simp only [Nat.shiftLeft_eq, Nat.shiftRight_eq_div_pow]
  omega

theorem ofBitVec_toBitVec (s : Sign) : Sign.ofBitVec s.toBitVec = s := by
  cases s <;> rfl

theorem finite_congr {s t : Sign} {m n : Nat} {e f : Int} {p : 0 < m} {q : 0 < n} (sign : s = t)
    (mantissa : m = n) (exponent : e = f) :
    UnpackedFloat.finite s m e p = .finite t n f q := by
  subst sign mantissa exponent
  rfl

theorem unpack_normal {b : BitVec Format.binary64.numBits} {k : Nat}
    (field : (unpackExponent b).toNat = k) (low : 0 < k) (high : k < 2047) :
    unpack Format.binary64 b =
      .finite (Sign.ofBitVec (unpackSign b)) (4503599627370496 + (unpackMantissa b).toNat)
        (k - 1075) (by omega) := by
  have notTop : unpackExponent b ≠ -1#11 := by
    intro same
    rw [same] at field
    exact absurd field (by simp; omega)
  have notZero : unpackExponent b ≠ 0#11 := by
    intro same
    rw [same] at field
    exact absurd field (by simp; omega)
  unfold unpack
  dsimp only
  rw [if_neg notTop, if_neg notZero]
  refine finite_congr rfl (toNat_implicit _) ?_
  rw [field, exponentBias_eq]
  rfl

theorem unpack_subnormal {b : BitVec Format.binary64.numBits} (field : unpackExponent b = 0#11)
    (some : 0 < (unpackMantissa b).toNat) :
    unpack Format.binary64 b =
      .finite (Sign.ofBitVec (unpackSign b)) (unpackMantissa b).toNat leastExponent some := by
  have notZero : unpackMantissa b ≠ 0#52 := by
    intro same
    rw [same] at some
    exact absurd some (by simp)
  unfold unpack
  dsimp only
  rw [if_neg (by rw [field]; decide), if_pos field, dif_neg notZero]
  refine finite_congr rfl rfl ?_
  rw [field, exponentBias_eq]
  rfl

theorem unpack_zero {b : BitVec Format.binary64.numBits} (field : unpackExponent b = 0#11)
    (none : unpackMantissa b = 0#52) :
    unpack Format.binary64 b = .zero (Sign.ofBitVec (unpackSign b)) := by
  unfold unpack
  dsimp only
  rw [if_neg (by rw [field]; decide), if_pos field, dif_pos none]

/-- The machine form of every finite number is canonical. -/
theorem canonical_of_unpack {b : BitVec Format.binary64.numBits} {s : Sign} {m : Nat} {e : Int}
    {positive : 0 < m} (form : unpack Format.binary64 b = .finite s m e positive) :
    Canonical m e := by
  have small : (unpackMantissa b).toNat < 4503599627370496 := (unpackMantissa b).isLt
  rcases unpack_cases b with ⟨_, infinite⟩ | ⟨below, _, greatest⟩
  · rw [form] at infinite
    cases infinite
  · rw [form] at greatest
    by_cases least : (unpackExponent b).toNat = 0
    · have field : unpackExponent b = 0#11 := BitVec.eq_of_toNat_eq least
      by_cases some : 0 < (unpackMantissa b).toNat
      · rw [unpack_subnormal field some] at form
        cases form
        exact ⟨by omega, Int.le_refl _, greatest, .inr rfl⟩
      · have none : unpackMantissa b = 0#52 := BitVec.eq_of_toNat_eq (show _ = 0 by omega)
        rw [unpack_zero field none] at form
        cases form
    · rw [unpack_normal rfl (by omega) below] at form
      cases form
      refine ⟨by omega, ?_, greatest, .inl (by omega)⟩
      unfold leastExponent
      omega

theorem log2_eq_iff {m : Nat} (positive : 0 < m) (bits : m < 9007199254740992) :
    m.log2 + 1 = 53 ↔ 4503599627370496 ≤ m := by
  have lower : 52 ≤ m.log2 ↔ 2 ^ 52 ≤ m := Nat.le_log2 (by omega)
  have upper : m.log2 < 53 ↔ m < 2 ^ 53 := Nat.log2_lt (by omega)
  omega

/-- A canonical number is packed as it is; a full mantissa loses its highest bit, which the exponent
stands for. -/
theorem pack_canonical {s : Sign} {m : Nat} {e : Int} {positive : 0 < m}
    (canonical : Canonical m e) :
    pack Format.binary64 (.finite s m e positive) =
      packComponents Format.binary64 s
        (if 4503599627370496 ≤ m then BitVec.ofNat 11 (e + 1075).toNat else 0#11)
        (BitVec.ofNat 52 m) := by
  obtain ⟨bits, least, greatest, normal⟩ := canonical
  unfold leastExponent at least
  unfold greatestExponent at greatest
  have room : ¬ 2048 ≤ (e + (1023 : Nat) + (52 : Nat)).toNat + 1 := by omega
  have exponent : (e + (1023 : Nat) + (52 : Nat)).toNat = (e + 1075).toNat := by omega
  have size : Format.binary64.mantissaBits = 53 := rfl
  unfold pack
  simp only [exponentBias_eq, size]
  rw [if_neg room]
  have full := log2_eq_iff positive bits
  by_cases large : 4503599627370496 ≤ m
  · rw [if_pos (full.mpr large), if_pos large, exponent]
  · rw [if_neg (mt full.mp large), if_neg large]

/-- Canonical numbers survive being packed into machine form. -/
theorem unpack_pack {s : Sign} {m : Nat} {e : Int} {positive : 0 < m} (canonical : Canonical m e) :
    unpack Format.binary64 (pack Format.binary64 (.finite s m e positive)) =
      .finite s m e positive := by
  rw [pack_canonical canonical]
  obtain ⟨bits, least, greatest, normal⟩ := canonical
  unfold leastExponent at least normal
  unfold greatestExponent at greatest
  have sign (k : BitVec 11) : Sign.ofBitVec (unpackSign
      (packComponents Format.binary64 s k (BitVec.ofNat 52 m))) = s := by
    rw [unpackSign_packComponents, ofBitVec_toBitVec]
  by_cases large : 4503599627370496 ≤ m
  · rw [if_pos large]
    have field : (unpackExponent (packComponents Format.binary64 s
        (BitVec.ofNat 11 (e + 1075).toNat) (BitVec.ofNat 52 m))).toNat = (e + 1075).toNat := by
      rw [unpackExponent_packComponents]
      exact Nat.mod_eq_of_lt (show (e + 1075).toNat < 2048 by omega)
    refine (unpack_normal field (by omega) (by omega)).trans (finite_congr (sign _) ?_ (by omega))
    rw [unpackMantissa_packComponents]
    show 4503599627370496 + m % 4503599627370496 = m
    omega
  · rw [if_neg large]
    have mantissa : (unpackMantissa (packComponents Format.binary64 s 0#11
        (BitVec.ofNat 52 m))).toNat = m := by
      rw [unpackMantissa_packComponents]
      exact Nat.mod_eq_of_lt (by omega)
    have field : unpackExponent
        (packComponents Format.binary64 s 0#11 (BitVec.ofNat 52 m)) = 0#11 :=
      unpackExponent_packComponents ..
    refine (unpack_subnormal field (by omega)).trans (finite_congr (sign _) mantissa ?_)
    unfold leastExponent
    omega

/-- A finite REAL is zero or a canonical number. -/
theorem unpack_of_isFinite {x : Float} (finite : x.isFinite = true) :
    (∃ s, x.toModel.unpack = .zero s) ∨
      ∃ s m e positive, x.toModel.unpack = .finite s m e positive ∧ Canonical m e := by
  replace finite : x.toModel.unpack.isFinite = true := finite
  cases form : x.toModel.unpack with
  | zero s => exact .inl ⟨s, rfl⟩
  | finite s m e positive => exact .inr ⟨s, m, e, positive, rfl, canonical_of_unpack form⟩
  | infinity s =>
      rw [form] at finite
      cases finite
  | notANumber =>
      rw [form] at finite
      cases finite

theorem unpack_abs {x : Float} (finite : x.isFinite = true) :
    x.abs.toModel.unpack = x.toModel.unpack.abs := by
  show unpack Format.binary64 (pack Format.binary64 x.toModel.unpack.abs) = _
  rcases unpack_of_isFinite finite with ⟨s, form⟩ | ⟨s, m, e, positive, form, canonical⟩
  · rw [form]
    cases s <;> rfl
  · rw [form]
    exact unpack_pack canonical

theorem unpack_greatest :
    (ofInt64 Int64.maxValue).toModel.unpack =
      .finite .positive 4503599627370496 11 (by decide) := by
  rfl

theorem lt_finite_iff {m n : Nat} {e f : Int} {p : 0 < m} {q : 0 < n} :
    UnpackedFloat.lt (.finite .positive m e p) (.finite .positive n f q) = true ↔
      e < f ∨ e = f ∧ m < n := by
  show (some ((compare e f).then (compare m n)) == some Ordering.lt) = true ↔ _
  rw [beq_iff_eq, Option.some.injEq, Ordering.then_eq_lt, compare_lt_iff_lt, compare_eq_iff_eq,
    compare_lt_iff_lt]

theorem lt_iff (x y : Float) :
    x < y ↔ UnpackedFloat.lt x.toModel.unpack y.toModel.unpack = true := by
  show Float.lt x y = true ↔ _
  unfold Float.lt
  rw [decide_eq_true_iff]
  exact Iff.rfl

theorem abs_toRat (negative : Bool) (m : Nat) (e : Int) :
    |Dyadic.toRat ⟨negative, m, e⟩| = m * 2 ^ e := by
  have magnitude : (0 : ℚ) ≤ m * 2 ^ e := by positivity
  cases negative <;> simp [Dyadic.toRat, abs_of_nonneg magnitude]

/-- A canonical number is less than `2 ^ 63` exactly if its exponent leaves room for 53 bits. -/
theorem Canonical.value_lt_iff {m : Nat} {e : Int} (canonical : Canonical m e) :
    (m : ℚ) * 2 ^ e < 2 ^ 63 ↔ e < 11 := by
  obtain ⟨bits, _, _, normal⟩ := canonical
  constructor
  · intro smaller
    by_contra high
    have large : 4503599627370496 ≤ m := by
      unfold leastExponent at normal
      omega
    have exponent : 11 ≤ e := by omega
    refine absurd smaller (not_lt.mpr ?_)
    calc (2 : ℚ) ^ 63 = 4503599627370496 * 2 ^ (11 : Int) := by norm_num
      _ ≤ m * 2 ^ (11 : Int) := by gcongr; exact_mod_cast large
      _ ≤ m * 2 ^ e := by gcongr; norm_num
  · intro low
    have exponent : e ≤ 10 := by omega
    calc (m : ℚ) * 2 ^ e < 9007199254740992 * 2 ^ e := by gcongr; exact_mod_cast bits
      _ ≤ 9007199254740992 * 2 ^ (10 : Int) := by gcongr; norm_num
      _ = 2 ^ 63 := by norm_num

/-- The greatest INTEGER is rounded up to `2 ^ 63`, and the magnitude of a finite REAL is less than
that exactly if the machine finds it to be less. -/
theorem abs_lt_greatest_iff {x : Float} (finite : x.isFinite = true) :
    x.abs < ofInt64 Int64.maxValue ↔ |exact x| < 2 ^ 63 := by
  rw [lt_iff, unpack_abs finite, unpack_greatest, exact, denoted]
  rcases unpack_of_isFinite finite with ⟨s, form⟩ | ⟨s, m, e, positive, form, canonical⟩
  · rw [form]
    show _ ↔ |Dyadic.toRat ⟨isNegative s, 0, leastExponent⟩| < 2 ^ 63
    rw [abs_toRat, Nat.cast_zero, zero_mul]
    exact iff_of_true rfl (by norm_num)
  · rw [form]
    show _ ↔ |Dyadic.toRat ⟨isNegative s, m, e⟩| < 2 ^ 63
    rw [abs_toRat, canonical.value_lt_iff]
    have mantissa := canonical.normal
    unfold leastExponent at mantissa
    refine lt_finite_iff.trans ?_
    omega

end Pseudocode.Real
