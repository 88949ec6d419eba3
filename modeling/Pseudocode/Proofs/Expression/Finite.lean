import Pseudocode.Proofs.Expression.Types
import Pseudocode.Proofs.Real.Finite

set_option autoImplicit false

namespace Pseudocode

/-- A value that is neither an infinity nor a NaN. -/
def Value.Finite : Value → Prop
  | .real x => x.isFinite = true
  | _ => True

namespace Arithmetic

theorem finite_of_exactly {o : Operator} {n : Int} {v : Value} (made : exactly o n = .ok v) :
    v.Finite := by
  obtain ⟨i, rfl⟩ := Infix.exists_integer_of_exactly made
  trivial

theorem finite_of_finitely {o : Operator} {x : Float} {v : Value} (made : finitely o x = .ok v) :
    v.Finite := by
  unfold finitely at made
  split at made
  · rename_i finite
    cases made
    exact finite
  · cases made

theorem finite_of_combineNumbers {o : Operator} {whole : Int → Int → Int}
    {real : Float → Float → Float} {left right v : Value}
    (made : combineNumbers o whole real left right = .ok v) : v.Finite := by
  unfold combineNumbers at made
  split at made
  · exact finite_of_exactly made
  · obtain ⟨a, _, made⟩ := bind_eq_ok made
    obtain ⟨b, _, made⟩ := bind_eq_ok made
    exact finite_of_finitely made

theorem finite_of_divide {left right v : Value} (made : divide left right = .ok v) : v.Finite := by
  obtain ⟨divisor, _, made⟩ := bind_eq_ok made
  split at made
  · cases made
  · obtain ⟨dividend, _, made⟩ := bind_eq_ok made
    exact finite_of_finitely made

theorem finite_of_divideWhole {o : Operator} {f : Int → Int → Int} {left right v : Value}
    (made : divideWhole o f left right = .ok v) : v.Finite := by
  obtain ⟨a, _, made⟩ := bind_eq_ok made
  obtain ⟨b, _, made⟩ := bind_eq_ok made
  split at made
  · cases made
  · exact finite_of_exactly made

/-- The result of an operator is finite, whatever the operands are. -/
theorem finite_of_apply {o : Operator} {left right v : Value} (made : apply o left right = .ok v) :
    v.Finite := by
  obtain ⟨_, _, made⟩ := bind_eq_ok made
  obtain ⟨_, _, made⟩ := bind_eq_ok made
  cases o with
  | add => exact finite_of_combineNumbers made
  | sub => exact finite_of_combineNumbers made
  | mul => exact finite_of_combineNumbers made
  | div => exact finite_of_divide made
  | intDiv => exact finite_of_divideWhole made
  | mod => exact finite_of_divideWhole made
  | neg => cases made

theorem finite_of_negate {v w : Value} (finite : v.Finite) (made : negate v = .ok w) :
    w.Finite := by
  cases v with
  | integer n => exact finite_of_exactly made
  | real x =>
      cases made
      exact Real.isFinite_neg finite
  | _ => cases made

theorem finite_of_join {left right v : Value} (made : join left right = .ok v) : v.Finite := by
  unfold join at made
  split at made
  · exact finite_of_apply made
  · cases made
    trivial

theorem keeps_finite : Keeps Value.Finite where
  negate := finite_of_negate
  apply _ _ made := finite_of_apply made
  join _ _ made := finite_of_join made

theorem finite_of_literal {text : Text} {v : Value} (made : literal text = .ok v) : v.Finite := by
  unfold literal at made
  split at made
  · split at made
    · split at made
      · rename_i finite
        cases made
        exact finite
      · cases made
    · cases made
  · split at made
    · cases made
      trivial
    · cases made

end Arithmetic

namespace Store

/-- A store in which every variable, constant and array element is finite. -/
def Finite (s : Store) : Prop :=
  ∀ name e, s.find? name = some e → ∀ v ∈ e.values, v.Finite

variable {s : Store} {name : Text} {v : Value}

theorem Finite.getScalar (finite : s.Finite) (made : s.getScalar name = .ok v) : v.Finite := by
  obtain ⟨e, found, made⟩ := bind_eq_ok made
  rw [get_eq_ok_iff] at found
  cases e with
  | scalar type w =>
      cases made
      exact finite name _ found v List.mem_cons_self
  | constant w =>
      cases made
      exact finite name _ found v List.mem_cons_self
  | array b => cases made

theorem Finite.getElement (finite : s.Finite) {index : Int64}
    (made : s.getElement name index = .ok v) : v.Finite := by
  obtain ⟨b, found, made⟩ := bind_eq_ok made
  obtain ⟨i, _, made⟩ := bind_eq_ok made
  cases made
  by_cases below : i < b.elements.size
  · rw [Array.getD, dif_pos below]
    exact finite name _ (getArray_eq_ok found) _
      (Array.mem_toList_iff.mpr (Array.getElem_mem below))
  -- A position outside the array would give `unset`, so the bounds need not be looked at.
  · rw [Array.getD, dif_neg below]
    trivial

end Store

namespace Expression

variable {s : Store}

theorem finite_of_operandWith (finite : s.Finite) {t : Spanned Token}
    {visit : ∀ index, t.node.index? = some index → Result Int64} {v : Value}
    (made : operandWith s t visit = .ok v) : v.Finite := by
  obtain ⟨node, place⟩ := t
  cases node with
  | number text => exact Arithmetic.finite_of_literal (mapError_eq_ok made)
  | ident name =>
      obtain ⟨w, read, made⟩ := bind_eq_ok made
      obtain ⟨rfl, _⟩ := requireSet_eq_ok made
      exact finite.getScalar (mapError_eq_ok read)
  | element name index =>
      obtain ⟨i, _, made⟩ := bind_eq_ok made
      obtain ⟨w, read, made⟩ := bind_eq_ok made
      obtain ⟨rfl, _⟩ := requireSet_eq_ok made
      exact finite.getElement (mapError_eq_ok read)
  | string text =>
      cases made
      trivial
  | char c =>
      cases made
      trivial
  | boolean b =>
      cases made
      trivial
  | _ => cases made

/-- In a store that holds finite values, expressions have finite values. -/
theorem finite_of_evaluate (finite : s.Finite) {t : Text} {v : Value}
    (made : evaluate s t = .ok v) : v.Finite :=
  evaluate_keeps Arithmetic.keeps_finite (fun _ _ _ => finite_of_operandWith finite) made

end Expression

end Pseudocode
