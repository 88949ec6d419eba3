import Pseudocode.Proofs.Places
import Pseudocode.Store.Basic

set_option autoImplicit false

namespace Pseudocode.Store

open Failure (Plain About)

variable (s : Store) (name : Text)

theorem get_fails : FailsAs (About name) (s.get name) := by
  unfold get
  split
  · trivial
  · exact ⟨rfl, fun _ => rfl⟩

theorem getScalar_fails : FailsAs (About name) (s.getScalar name) := by
  apply (s.get_fails name).bind
  intro e _
  cases e with
  | array b => exact Plain.about ⟨rfl, rfl⟩
  | _ => trivial

theorem getArray_fails : FailsAs (About name) (s.getArray name) := by
  apply (s.get_fails name).bind
  intro e _
  cases e with
  | array b => trivial
  | _ => exact Plain.about ⟨rfl, rfl⟩

theorem position_fails (b : Block) (index : Int64) :
    FailsAs Plain (position name b index) := by
  unfold position
  split
  · trivial
  · exact ⟨rfl, rfl⟩

theorem getElement_fails (index : Int64) :
    FailsAs (About name) (s.getElement name index) := by
  apply (s.getArray_fails name).bind
  intro b _
  have placed : FailsAs (About name) (position name b index) :=
    (position_fails name b index).weaken fun _ => Plain.about
  exact placed.bind fun _ _ => trivial

theorem scalarType_fails : FailsAs (About name) (s.scalarType name) := by
  apply (s.get_fails name).bind
  intro e _
  cases e with
  | scalar type value => trivial
  | _ => exact Plain.about ⟨rfl, rfl⟩

/-- A value that is set is refused for its type only. -/
theorem coerce_fails (policy : Policy) (type : DataType) {v : Value} (set : v.isSet = true) :
    FailsAs Plain (coerce policy type v) := by
  unfold coerce
  split
  · rename_i unset
    simp [set] at unset
  · split
    · trivial
    · split
      · trivial
      · exact ⟨rfl, rfl⟩

theorem setScalar_fails {v : Value} (set : v.isSet = true) :
    FailsAs (About name) (s.setScalar name v) := by
  apply (s.get_fails name).bind
  intro e _
  cases e with
  | scalar type old =>
      have coerced : FailsAs (About name) (coerce s.policy type v) :=
        (coerce_fails s.policy type set).weaken fun _ => Plain.about
      exact coerced.bind fun _ _ => trivial
  | _ => exact Plain.about ⟨rfl, rfl⟩

theorem setElement_fails (index : Int64) {v : Value} (set : v.isSet = true) :
    FailsAs (About name) (s.setElement name index v) := by
  apply (s.getArray_fails name).bind
  intro b _
  have placed : FailsAs (About name) (position name b index) :=
    (position_fails name b index).weaken fun _ => Plain.about
  apply placed.bind
  intro i _
  have coerced : FailsAs (About name) (coerce s.policy b.type v) :=
    (coerce_fails s.policy b.type set).weaken fun _ => Plain.about
  exact coerced.bind fun _ _ => trivial

theorem checkDeclarable_fails : FailsAs Plain (s.checkDeclarable name) := by
  unfold checkDeclarable
  split
  · exact ⟨rfl, rfl⟩
  · split
    · exact ⟨rfl, rfl⟩
    · trivial

theorem checkCapacity_fails (names : List Text) (lower upper : Int64) :
    FailsAs Plain (s.checkCapacity names lower upper) := by
  unfold checkCapacity
  dsimp only
  split
  · exact ⟨rfl, rfl⟩
  · split
    · exact ⟨rfl, rfl⟩
    · trivial

theorem readType_fails (keyword : Text) : FailsAs Plain (readType keyword) := by
  unfold readType
  split
  · trivial
  · exact ⟨rfl, rfl⟩

theorem declareScalar_fails (keyword : Text) :
    FailsAs Plain (s.declareScalar name keyword) := by
  apply (s.checkDeclarable_fails name).bind
  intro _ _
  exact (readType_fails keyword).bind fun _ _ => trivial

theorem declareArray_fails (keyword : Text) (lower upper : Int64) :
    FailsAs Plain (s.declareArray name keyword lower upper) := by
  apply (s.checkDeclarable_fails name).bind
  intro _ _
  have rest : FailsAs Plain (do
      let type ← readType keyword
      s.checkCapacity [name] lower upper
      return s.put name (.array (.fresh type lower upper))) := by
    apply (readType_fails keyword).bind
    intro type _
    exact (s.checkCapacity_fails [name] lower upper).bind fun _ _ => trivial
  split
  · exact ⟨rfl, rfl⟩
  · exact rest

theorem declareConstant_fails {v : Value} (set : v.isSet = true) :
    FailsAs Plain (s.declareConstant name v) := by
  rw [declareConstant, set]
  split
  · exact ⟨rfl, rfl⟩
  · split
    · exact ⟨rfl, rfl⟩
    · trivial

end Pseudocode.Store
