import Mathlib.Logic.Relation
import Pseudocode.Proofs.Store.Entries

set_option autoImplicit false

namespace Pseudocode.Store

theorem readType_eq_ok_iff (keyword : Text) (type : DataType) :
    readType keyword = .ok type ↔ DataType.ofKeyword? keyword = some type := by
  unfold readType fail
  cases DataType.ofKeyword? keyword <;> simp

/-- A name may be declared if it is an identifier and no constant has it. -/
theorem checkDeclarable_eq_ok_iff (s : Store) (name : Text) :
    s.checkDeclarable name = .ok () ↔
      Text.isIdentifier name = true ∧ s.isConstant name = false := by
  unfold checkDeclarable fail
  cases Text.isIdentifier name <;> cases s.isConstant name <;> simp

theorem declareScalar_eq_ok_iff (s next : Store) (name keyword : Text) :
    s.declareScalar name keyword = .ok next ↔
      s.checkDeclarable name = .ok () ∧
        ∃ type, DataType.ofKeyword? keyword = some type ∧
          next = s.put name (.scalar type .unset) := by
  unfold declareScalar
  constructor
  · intro made
    obtain ⟨_, free, made⟩ := bind_eq_ok made
    obtain ⟨type, known, made⟩ := bind_eq_ok made
    cases made
    exact ⟨free, type, (readType_eq_ok_iff _ _).mp known, rfl⟩
  · rintro ⟨free, type, known, rfl⟩
    rw [free, (readType_eq_ok_iff _ _).mpr known]
    rfl

theorem declareArray_eq_ok_iff (s next : Store) (name keyword : Text) (lower upper : Int64) :
    s.declareArray name keyword lower upper = .ok next ↔
      s.checkDeclarable name = .ok () ∧ lower.toInt ≤ upper.toInt ∧
        s.checkCapacity [name] lower upper = .ok () ∧
        ∃ type, DataType.ofKeyword? keyword = some type ∧
          next = s.put name (.array (.fresh type lower upper)) := by
  unfold declareArray
  constructor
  · intro made
    obtain ⟨_, free, made⟩ := bind_eq_ok made
    by_cases reversed : upper.toInt < lower.toInt
    · rw [if_pos reversed] at made
      cases made
    · rw [if_neg reversed] at made
      obtain ⟨type, known, made⟩ := bind_eq_ok made
      obtain ⟨_, fits, made⟩ := bind_eq_ok made
      cases made
      exact ⟨free, Int.not_lt.mp reversed, fits, type, (readType_eq_ok_iff _ _).mp known, rfl⟩
  · rintro ⟨free, ordered, fits, type, known, rfl⟩
    rw [free, if_neg (Int.not_lt.mpr ordered), (readType_eq_ok_iff _ _).mpr known, fits]
    rfl

theorem get_eq_ok_iff (s : Store) (name : Text) (e : Entry) :
    s.get name = .ok e ↔ s.find? name = some e := by
  unfold get fail
  cases s.find? name <;> simp

theorem getArray_eq_ok {s : Store} {name : Text} {b : Block} (made : s.getArray name = .ok b) :
    s.find? name = some (.array b) := by
  obtain ⟨e, found, made⟩ := bind_eq_ok made
  rw [get_eq_ok_iff] at found
  cases e with
  | array block =>
      cases made
      exact found
  | scalar type value => cases made
  | constant value => cases made

theorem position_eq_ok {name : Text} {b : Block} {index : Int64} {i : Nat}
    (made : position name b index = .ok i) : b.offset? index = some i := by
  unfold position fail at made
  cases place : b.offset? index with
  | none =>
      rw [place] at made
      cases made
  | some found =>
      rw [place] at made
      cases made
      rfl

theorem declareConstant_eq_ok {s next : Store} {name : Text} {value : Value}
    (made : s.declareConstant name value = .ok next) :
    s.checkDeclarable name = .ok () ∧ value.isSet = true ∧ next = s.put name (.constant value) := by
  unfold declareConstant fail at made
  split at made
  · cases made
  · rename_i identifier
    split at made
    · cases made
    · rename_i other
      split at made
      · cases made
      · rename_i set
        cases made
        rw [Bool.not_eq_true, Bool.not_eq_false'] at identifier set
        rw [Bool.not_eq_true] at other
        exact ⟨(checkDeclarable_eq_ok_iff s name).mpr ⟨identifier, other⟩, set, rfl⟩

theorem setScalar_eq_ok {s next : Store} {name : Text} {value : Value}
    (made : s.setScalar name value = .ok next) :
    ∃ type old stored, s.find? name = some (.scalar type old) ∧
      coerce s.policy type value = .ok stored ∧ next = s.put name (.scalar type stored) := by
  obtain ⟨e, found, made⟩ := bind_eq_ok made
  rw [get_eq_ok_iff] at found
  cases e with
  | array b => cases made
  | constant v => cases made
  | scalar type old =>
      obtain ⟨stored, coerced, made⟩ := bind_eq_ok made
      cases made
      exact ⟨type, old, stored, found, coerced, rfl⟩

theorem setElement_eq_ok {s next : Store} {name : Text} {index : Int64} {value : Value}
    (made : s.setElement name index value = .ok next) :
    ∃ b i stored, s.find? name = some (.array b) ∧ b.offset? index = some i ∧
      coerce s.policy b.type value = .ok stored ∧
      next = s.put name (.array { b with elements := b.elements.setIfInBounds i stored }) := by
  obtain ⟨b, found, made⟩ := bind_eq_ok made
  obtain ⟨i, inside, made⟩ := bind_eq_ok made
  obtain ⟨stored, coerced, made⟩ := bind_eq_ok made
  cases made
  exact ⟨b, i, stored, getArray_eq_ok found, position_eq_ok inside, coerced, rfl⟩

/-- The entries that a successful operation can put under a name. -/
inductive Writes (s : Store) : Text → Entry → Prop where
  | scalar {name : Text} (type : DataType) (free : s.checkDeclarable name = .ok ()) :
      Writes s name (.scalar type .unset)
  | array {name : Text} {lower upper : Int64} (type : DataType)
      (free : s.checkDeclarable name = .ok ()) (ordered : lower.toInt ≤ upper.toInt)
      (fits : s.checkCapacity [name] lower upper = .ok ()) :
      Writes s name (.array (.fresh type lower upper))
  | constant {name : Text} {value : Value} (free : s.checkDeclarable name = .ok ())
      (set : value.isSet = true) : Writes s name (.constant value)
  | assign {name : Text} {type : DataType} {old value stored : Value}
      (found : s.find? name = some (.scalar type old))
      (made : coerce s.policy type value = .ok stored) : Writes s name (.scalar type stored)
  | element {name : Text} {b : Block} {index : Int64} {i : Nat} {value stored : Value}
      (found : s.find? name = some (.array b)) (inside : b.offset? index = some i)
      (made : coerce s.policy b.type value = .ok stored) :
      Writes s name (.array { b with elements := b.elements.setIfInBounds i stored })

/-- One successful operation. -/
def Step (s next : Store) : Prop :=
  ∃ name e, Writes s name e ∧ next = s.put name e

abbrev Steps : Store → Store → Prop :=
  Relation.ReflTransGen Step

theorem declareScalar_step {s next : Store} {name keyword : Text}
    (made : s.declareScalar name keyword = .ok next) : Step s next := by
  obtain ⟨free, type, _, rfl⟩ := (declareScalar_eq_ok_iff _ _ _ _).mp made
  exact ⟨name, _, .scalar type free, rfl⟩

theorem declareArray_step {s next : Store} {name keyword : Text} {lower upper : Int64}
    (made : s.declareArray name keyword lower upper = .ok next) : Step s next := by
  obtain ⟨free, ordered, fits, type, _, rfl⟩ := (declareArray_eq_ok_iff _ _ _ _ _ _).mp made
  exact ⟨name, _, .array type free ordered fits, rfl⟩

theorem declareConstant_step {s next : Store} {name : Text} {value : Value}
    (made : s.declareConstant name value = .ok next) : Step s next := by
  obtain ⟨free, set, rfl⟩ := declareConstant_eq_ok made
  exact ⟨name, _, .constant free set, rfl⟩

theorem setScalar_step {s next : Store} {name : Text} {value : Value}
    (made : s.setScalar name value = .ok next) : Step s next := by
  obtain ⟨type, old, stored, found, coerced, rfl⟩ := setScalar_eq_ok made
  exact ⟨name, _, .assign found coerced, rfl⟩

theorem setElement_step {s next : Store} {name : Text} {index : Int64} {value : Value}
    (made : s.setElement name index value = .ok next) : Step s next := by
  obtain ⟨b, i, stored, found, inside, coerced, rfl⟩ := setElement_eq_ok made
  exact ⟨name, _, .element found inside coerced, rfl⟩

/-- What every write keeps, any number of operations keeps. -/
theorem Steps.preserves {P : Store → Prop} {s next : Store} (steps : Steps s next)
    (kept : ∀ s name e, P s → Writes s name e → P (s.put name e)) (start : P s) : P next := by
  induction steps with
  | refl => exact start
  | tail _ step ih =>
      obtain ⟨name, e, writes, rfl⟩ := step
      exact kept _ name e ih writes

end Pseudocode.Store
