import Pseudocode.Proofs.Expression.Finite
import Pseudocode.Proofs.Machine.EntryPoints
import Pseudocode.Proofs.Machine.Frame
import Pseudocode.Proofs.Machine.Runs

set_option autoImplicit false

namespace Pseudocode

open Text (bytes)

/-- A REAL is stored as it is, or it is a widened INTEGER. -/
theorem DataType.accept?_eq_real {type : DataType} {v : Value} {x : Float}
    (accepted : type.accept? v = some (.real x)) :
    v = .real x ∨ ∃ n, v = .integer n ∧ x = Real.ofInt64 n := by
  unfold accept? at accepted
  split at accepted <;> cases accepted
  · exact .inl rfl
  · exact .inr ⟨_, rfl, rfl⟩

theorem DataType.finite_of_accept? {type : DataType} {v stored : Value} (finite : v.Finite)
    (accepted : type.accept? v = some stored) : stored.Finite := by
  cases stored with
  | real x =>
      rcases accept?_eq_real accepted with rfl | ⟨n, _, rfl⟩
      · exact finite
      · exact Real.isFinite_ofInt64 n
  | _ => trivial

theorem DataType.finite_of_ofInput? {type : DataType} {line : Text} {v : Value}
    (read : type.ofInput? line = some v) : v.Finite := by
  cases v with
  | real x => exact (ofInput?_eq_some read).2 x rfl
  | _ => trivial

theorem Store.finite_of_coerce {policy : Policy} {type : DataType} {v stored : Value}
    (finite : v.Finite) (made : coerce policy type v = .ok stored) : stored.Finite := by
  have converts := converts_of_coerce made
  cases policy with
  | strict => exact DataType.finite_of_accept? finite converts
  | permissive =>
      rw [show stored = v from converts]
      exact finite

namespace Statement

theorem finite_of_literalValue {tokens : List Token} {v : Value}
    (made : literalValue tokens = .ok v) : v.Finite := by
  unfold literalValue at made
  split at made
  · exact Arithmetic.finite_of_literal made
  · exact Arithmetic.finite_of_literal made
  · cases made
    trivial
  · cases made
    trivial
  · cases made
    trivial
  · cases made

theorem finite_of_readConstant {base : Nat} {body : Text} {name : Spanned Text}
    {value : Spanned Value} (made : readConstant base body = .ok (name, value)) :
    value.node.Finite := by
  unfold readConstant at made
  split at made
  · cases made
  · dsimp only at made
    split at made
    · cases made
    · obtain ⟨tokens, _, made⟩ := bind_eq_ok made
      obtain ⟨v, read, made⟩ := bind_eq_ok made
      cases made
      exact finite_of_literalValue (mapError_eq_ok read)

/-- A statement that gives no constant an infinite value. -/
def Finite : Statement → Prop
  | .constant _ value => value.node.Finite
  | _ => True

theorem finite_of_ofLine {line : Text} {statement : Spanned Statement}
    (read : ofLine line = .ok (some statement)) : statement.node.Finite := by
  rcases readCode_cases (readCode_of_ofLine read) with
    ⟨_, _, _, _, same⟩ | ⟨_, _, _, _, made, same⟩ | ⟨_, _, _, _, same⟩ | ⟨_, _, _, _, same⟩ |
      ⟨_, _, _, _, _, same⟩
  case inr.inl =>
    rw [same]
    exact finite_of_readConstant made
  all_goals
    rw [same]
    trivial

end Statement

namespace Store

theorem finite_empty (policy : Policy) : ({ policy } : Store).Finite := by
  intro name e found
  cases found

theorem Finite.put {s : Store} (finite : s.Finite) (name : Text) {e : Entry}
    (held : ∀ v ∈ e.values, v.Finite) : (s.put name e).Finite := by
  intro other entry found
  rw [find?_put] at found
  split at found
  · cases found
    exact held
  · exact finite other entry found

end Store

theorem Declaration.finite_blank (d : Declaration) (type : DataType) :
    ∀ v ∈ (d.blank type).values, v.Finite := by
  intro v member
  unfold blank at member
  split at member
  · rw [Block.mem_fresh (Array.mem_toList_iff.mp member)]
    trivial
  · rw [List.mem_singleton.mp member]
    trivial

theorem Declaration.declareNames_finite (d : Declaration) {s : Store} (finite : s.Finite)
    (names : List (Spanned Text)) : (d.declareNames s names).1.Finite := by
  induction names generalizing s with
  | nil => exact finite
  | cons name rest ih =>
      rw [declareNames]
      cases declared : d.declareName s name with
      | error e => exact finite
      | ok next =>
          obtain ⟨_, _, type, _, rfl⟩ := (declareName_eq_ok_iff d s next name).mp declared
          exact ih (finite.put name.node (d.finite_blank type))

theorem Declaration.apply_finite (d : Declaration) {s : Store} (finite : s.Finite) :
    (d.apply s).1.Finite := by
  unfold apply
  cases d.check s with
  | error e => exact finite
  | ok _ => exact d.declareNames_finite finite d.names

theorem Slot.write_finite {s next : Store} {v : Value} {slot : Slot} (finite : s.Finite)
    (value : v.Finite) (made : slot.write s v = .ok next) : next.Finite := by
  cases slot with
  | scalar name =>
      obtain ⟨type, old, stored, _, coerced, rfl⟩ := Store.setScalar_eq_ok made
      refine finite.put name fun w member => ?_
      rw [List.mem_singleton.mp member]
      exact Store.finite_of_coerce value coerced
  | element name index =>
      obtain ⟨b, i, stored, found, _, coerced, rfl⟩ := Store.setElement_eq_ok made
      refine finite.put name fun w member => ?_
      -- An element of the array is one that it had before or the one that has been stored.
      rcases Array.mem_or_eq_of_mem_setIfInBounds (Array.mem_toList_iff.mp member) with old | new
      · exact finite name _ found w (Array.mem_toList_iff.mpr old)
      · rw [new]
        exact Store.finite_of_coerce value coerced

namespace Machine

theorem readInto_finite {m : Machine} (finite : m.store.Finite) (target : Spanned Target) :
    (m.readInto target).1.store.Finite := by
  rcases m.readInto_cases target with same | ⟨slot, type, line, value, _, read, written⟩
  · rw [same]
    exact finite
  · exact Slot.write_finite finite (DataType.finite_of_ofInput? read) written

/-- A statement keeps the values of the store finite. -/
theorem execute_finite {m : Machine} (finite : m.store.Finite) {statement : Statement}
    (given : statement.Finite) : (m.execute statement).1.store.Finite := by
  cases statement with
  | declare d => exact d.apply_finite finite
  | constant name value =>
      refine Store.settle_cases (P := Store.Finite) finite fun next made => ?_
      obtain ⟨_, _, rfl⟩ := Store.declareConstant_eq_ok (mapError_eq_ok_iff.mp made)
      refine finite.put name.node fun v member => ?_
      rw [List.mem_singleton.mp member]
      exact given
  | assign target expr =>
      refine Store.settle_cases (P := Store.Finite) finite fun next made => ?_
      obtain ⟨value, valued, made⟩ := bind_eq_ok made
      obtain ⟨slot, _, written⟩ := Target.write_eq_ok made
      have evaluated := Expression.finite_of_evaluate finite (mapError_eq_ok valued)
      exact Slot.write_finite finite evaluated written
  | input target => exact readInto_finite finite target
  | output exprs =>
      change (m.writeValues exprs).1.store.Finite
      rw [writeValues_store]
      exact finite

theorem executeLine_finite {m : Machine} (finite : m.store.Finite) (line : Text) :
    (m.executeLine line).1.store.Finite := by
  unfold executeLine
  rcases read : Statement.ofLine line with e | ⟨_ | statement⟩
  · exact finite
  · exact finite
  · exact execute_finite finite (Statement.finite_of_ofLine read)

theorem runLines_finite {m : Machine} (finite : m.store.Finite) (offset : Nat)
    (report : RunReport) (lines : List Text) :
    (m.runLines offset report lines).1.store.Finite := by
  induction lines generalizing m offset report with
  | nil => exact finite
  | cons line rest ih =>
      rw [runLines_line]
      exact ih (executeLine_finite finite _) _ _

/-- Wherever a run is looked at, between two lines or between two names of a DECLARE, the store
holds no infinity and no NaN. In such a store the value of an expression is set and is neither. -/
theorem reals_stay_finite (policy : Policy) (input : List UInt8) (capacity : Option Nat)
    {source : Text} {before after : List Text} (cut : sourceLines source = before ++ after) :
    let m := start policy input capacity
    let here := m.runLines 0 {} before
    m.run source = here.1.runLines (bytes before.flatten) here.2 after ∧
      here.1.store.Finite ∧
      (∀ (d : Declaration) (names : List (Spanned Text)),
        (d.declareNames here.1.store names).1.Finite) ∧
      ∀ (s : Store), s.Finite → ∀ (t : Text) (v : Value), Expression.evaluate s t = .ok v →
        v.isSet = true ∧ v.Finite := by
  intro m here
  have finite : here.1.store.Finite := runLines_finite (Store.finite_empty policy) 0 {} before
  refine ⟨?_, finite, fun d names => d.declareNames_finite finite names, ?_⟩
  · rw [run, cut, runLines_append, Nat.zero_add]
  · intro s finite t v made
    have set := Expression.type?_ne_none_of_evaluate made
    exact ⟨v.isSet_iff.mpr set, Expression.finite_of_evaluate finite made⟩

/-- An INTEGER has been widened and a REAL has been read. Its negative is finite; its square would
not be, and the line that asks for it fails. -/
theorem reals_stay_finite_squared :
    let first : Text := "DECLARE x : ARRAY[1:2] OF REAL\nx[1] <- 3\nINPUT x[2]\n".toList
    let last : Text := "x[1] <- x[2] * x[2]".toList
    let m := start .strict (Text.encode "1e200\n".toList) none
    let here := m.runLines 0 {} (sourceLines first)
    let negative : Value := .real (-1e200)
    sourceLines (first ++ last) = sourceLines first ++ [last] ∧
      here.1.store.find? ['x'] = some (.array ⟨.real, 1, 2, #[.real 3, .real 1e200]⟩) ∧
      here.1.store.Finite ∧
      Expression.evaluate here.1.store "-x[2]".toList = .ok negative ∧ negative.Finite ∧
      (m.run (first ++ last)).2.errors.map (·.failure.kind) = [.overflow] := by
  intro first last
  have cut : sourceLines (first ++ last) = sourceLines first ++ [last] := by decide +kernel
  obtain ⟨whole, finite, _, values⟩ :=
    reals_stay_finite .strict (Text.encode "1e200\n".toList) none cut
  dsimp only
  refine ⟨cut, by decide +kernel, finite, ?valued, (values _ finite _ _ ?valued).2, ?overflow⟩
  case valued => decide +kernel
  case overflow =>
    rw [whole]
    decide +kernel

end Machine

end Pseudocode
