import Pseudocode.Proofs.Machine.Failing
import Pseudocode.Proofs.Machine.Places

set_option autoImplicit false

namespace Pseudocode

def Statement.Names : Statement → Text → Prop
  | .declare d, name => name ∈ d.names.map (·.node)
  | .constant declared _, name => declared.node = name
  | .assign target _, name | .input target, name => target.node.name = name
  | .output _, _ => False

namespace Store

theorem settle_eq_ok {s : Store} {r : Result Store} (done : (s.settle r).2 = .ok ()) :
    r = .ok (s.settle r).1 := by
  cases r with
  | error e => cases done
  | ok next => rfl

/-- A store that differs from `s` at most in the entries of the touched names. -/
structure SameOutside (touched : Text → Prop) (s next : Store) : Prop where
  policy : next.policy = s.policy
  entries : ∀ name, ¬ touched name → next.find? name = s.find? name

namespace SameOutside

variable {touched : Text → Prop} {s next : Store}

theorem refl (touched : Text → Prop) (s : Store) : SameOutside touched s s :=
  ⟨rfl, fun _ _ => rfl⟩

theorem trans {last : Store} (first : SameOutside touched s next)
    (second : SameOutside touched next last) : SameOutside touched s last :=
  ⟨second.policy.trans first.policy,
    fun name other => (second.entries name other).trans (first.entries name other)⟩

theorem put {name : Text} (named : touched name) (s : Store) (e : Entry) :
    SameOutside touched s (s.put name e) := by
  refine ⟨rfl, fun other outside => ?_⟩
  rw [find?_put, if_neg]
  rintro rfl
  exact outside named

end SameOutside

end Store

open Store (SameOutside)

namespace Declaration

theorem declareNames_frame {touched : Text → Prop} (d : Declaration) (s : Store)
    {names : List (Spanned Text)} (named : ∀ name ∈ names, touched name.node) :
    SameOutside touched s (d.declareNames s names).1 := by
  induction names generalizing s with
  | nil => exact .refl touched s
  | cons name rest ih =>
      obtain ⟨first, later⟩ := List.forall_mem_cons.mp named
      rw [declareNames]
      cases declared : d.declareName s name with
      | error e => exact .refl touched s
      | ok next =>
          obtain ⟨_, _, type, _, rfl⟩ := (declareName_eq_ok_iff d s next name).mp declared
          exact (SameOutside.put first s _).trans (ih _ later)

theorem apply_frame (d : Declaration) (s : Store) :
    SameOutside (Statement.declare d).Names s (d.apply s).1 := by
  unfold apply
  cases d.check s with
  | error e => exact .refl _ s
  | ok _ => exact d.declareNames_frame s fun name member => List.mem_map_of_mem member

end Declaration

namespace Slot

theorem name_of_locate {s : Store} {target : Target} {slot : Slot}
    (located : locate s target = .ok slot) : slot.name = target.name := by
  rcases target with name | ⟨name, index⟩
  · cases located
    rfl
  · obtain ⟨i, _, rfl⟩ := map_eq_ok located
    rfl

theorem write_frame {s next : Store} {value : Value} {slot : Slot}
    (made : slot.write s value = .ok next) : SameOutside (slot.name = ·) s next := by
  cases slot with
  | scalar name =>
      obtain ⟨type, old, stored, _, _, rfl⟩ := Store.setScalar_eq_ok made
      exact .put rfl s _
  | element name index =>
      obtain ⟨b, i, stored, _, _, _, rfl⟩ := Store.setElement_eq_ok made
      exact .put rfl s _

end Slot

namespace Target

/-- A successful assignment: the place that the target names has been written. -/
theorem write_eq_ok {s next : Store} {target : Spanned Target} {value : Value}
    (made : write s target value = .ok next) :
    ∃ slot, Slot.locate s target.node = .ok slot ∧ slot.write s value = .ok next := by
  obtain ⟨slot, located, made⟩ := bind_eq_ok made
  exact ⟨slot, located, mapError_eq_ok_iff.mp made⟩

/-- A successful INPUT: the line spells a value of the type of the place, which has been written. -/
theorem store_eq_ok {s next : Store} {target : Spanned Target} {line : Text}
    (made : store s target line = .ok next) :
    ∃ slot type value, Slot.locate s target.node = .ok slot ∧ slot.type s = .ok type ∧
      type.ofInput? line = some value ∧ slot.write s value = .ok next := by
  obtain ⟨⟨slot, type⟩, checked, made⟩ := bind_eq_ok made
  obtain ⟨place, located, checked⟩ := bind_eq_ok checked
  obtain ⟨found, typed, checked⟩ := bind_eq_ok checked
  cases checked
  dsimp only at made
  cases read : type.ofInput? line with
  | none =>
      rw [read] at made
      cases made
  | some value =>
      rw [read] at made
      exact ⟨slot, type, value, located, mapError_eq_ok_iff.mp typed, read,
        mapError_eq_ok_iff.mp made⟩

theorem frame_of_write {s next : Store} {target : Spanned Target} {slot : Slot} {value : Value}
    (located : Slot.locate s target.node = .ok slot) (made : slot.write s value = .ok next) :
    SameOutside (target.node.name = ·) s next := by
  rw [← Slot.name_of_locate located]
  exact Slot.write_frame made

end Target

namespace Machine

theorem readInto_eq_ok {m : Machine} {target : Spanned Target}
    (made : (m.readInto target).2 = .ok ()) :
    ∃ text, Text.decode (nextLine m.input).1 = some text ∧
      (m.readInto target).1.input = (nextLine m.input).2 ∧
      Target.store m.store target (Text.trimLineEnd text) = .ok (m.readInto target).1.store := by
  unfold readInto at made ⊢
  cases checked : Target.check m.store target with
  | error e =>
      rw [checked] at made
      cases made
  | ok found =>
      rw [checked] at made
      dsimp only at made ⊢
      split at made
      · cases made
      · rename_i some
        rw [if_neg some]
        cases read : Text.decode (nextLine m.input).1 with
        | none =>
            rw [read] at made
            cases made
        | some text =>
            rw [read] at made
            exact ⟨text, rfl, rfl, Store.settle_eq_ok made⟩

/-- `INPUT` leaves the store alone, or writes what a line spells to the place that it names. -/
theorem readInto_cases (m : Machine) (target : Spanned Target) :
    (m.readInto target).1.store = m.store ∨
      ∃ slot type line value, Slot.locate m.store target.node = .ok slot ∧
        DataType.ofInput? type line = some value ∧
        slot.write m.store value = .ok (m.readInto target).1.store := by
  cases made : (m.readInto target).2 with
  | error e => exact .inl (untouched_readInto made).store
  | ok _ =>
      obtain ⟨text, _, _, stored⟩ := readInto_eq_ok made
      obtain ⟨slot, type, value, located, _, read, written⟩ := Target.store_eq_ok stored
      exact .inr ⟨slot, type, _, value, located, read, written⟩

theorem readInto_frame (m : Machine) (target : Spanned Target) :
    SameOutside (target.node.name = ·) m.store (m.readInto target).1.store := by
  rcases m.readInto_cases target with same | ⟨slot, type, line, value, located, _, written⟩
  · rw [same]
    exact .refl _ m.store
  · exact Target.frame_of_write located written

/-- A statement leaves all entries alone but those of the names that it declares or assigns. -/
theorem execute_frame (m : Machine) (statement : Statement) :
    SameOutside statement.Names m.store (m.execute statement).1.store := by
  cases statement with
  | declare d => exact d.apply_frame m.store
  | constant name value =>
      refine Store.settle_cases (P := SameOutside _ m.store) (.refl _ m.store) fun next made => ?_
      obtain ⟨_, _, rfl⟩ := Store.declareConstant_eq_ok (mapError_eq_ok_iff.mp made)
      exact .put rfl m.store _
  | assign target expr =>
      refine Store.settle_cases (P := SameOutside _ m.store) (.refl _ m.store) fun next made => ?_
      obtain ⟨value, _, made⟩ := bind_eq_ok made
      obtain ⟨slot, located, written⟩ := Target.write_eq_ok made
      exact Target.frame_of_write located written
  | input target => exact m.readInto_frame target
  | output exprs =>
      change SameOutside _ m.store (m.writeValues exprs).1.store
      rw [writeValues_store]
      exact .refl _ m.store

theorem executeLine_frame (m : Machine) (line : Text) :
    SameOutside (fun name => Holds line (·.Names name)) m.store (m.executeLine line).1.store := by
  unfold executeLine
  rcases read : Statement.ofLine line with e | ⟨_ | statement⟩
  · exact .refl _ m.store
  · exact .refl _ m.store
  · have frame := m.execute_frame statement.node
    refine ⟨frame.policy, fun name outside => frame.entries name ?_⟩
    exact fun named => outside ⟨statement, read, named⟩

end Machine

/-- The value as it is stored: converted to the declared type under the strict policy, itself under
the permissive one. -/
def Store.Converts (policy : Policy) (type : DataType) (value stored : Value) : Prop :=
  match policy with
  | .strict => type.accept? value = some stored
  | .permissive => stored = value

theorem Store.converts_of_coerce {policy : Policy} {type : DataType} {value stored : Value}
    (made : coerce policy type value = .ok stored) : Converts policy type value stored := by
  unfold coerce fail at made
  split at made
  · cases made
  · cases policy with
    | permissive =>
        cases made
        rfl
    | strict =>
        cases accepted : type.accept? value with
        | none =>
            rw [accepted] at made
            cases made
        | some v =>
            rw [accepted] at made
            cases made
            exact accepted

/-- An array with another value at position `i` and nothing else changed. -/
structure Block.ChangedAt (i : Nat) (stored : Value) (b after : Block) : Prop where
  type : after.type = b.type
  lower : after.lower = b.lower
  upper : after.upper = b.upper
  size : after.elements.size = b.elements.size
  here : after.elements[i]? = some stored
  others : ∀ j, j ≠ i → after.elements[j]? = b.elements[j]?

theorem Block.changedAt_set (b : Block) {i : Nat} (below : i < b.elements.size) (stored : Value) :
    b.ChangedAt i stored { b with elements := b.elements.set i stored below } := by
  refine ⟨rfl, rfl, rfl, ?_, ?_, ?_⟩
  · exact Array.size_set below
  · exact Array.getElem?_set_self below
  · intro j other
    exact Array.getElem?_set_ne below (Ne.symm other)

/-- The store after `value` has been written to a place: a variable has its type and the new value,
an array differs at the index's position, and reading the place gives the new value. -/
inductive Slot.Written (s : Store) (value : Value) (next : Store) : Slot → Prop where
  | scalar {name : Text} {type : DataType} {old stored : Value}
      (before : s.find? name = some (.scalar type old))
      (converts : Store.Converts s.policy type value stored)
      (after : next.find? name = some (.scalar type stored))
      (read : next.getScalar name = .ok stored) : Written s value next (.scalar name)
  | element {name : Text} {index : Int64} {b changed : Block} {i : Nat} {stored : Value}
      (before : s.find? name = some (.array b))
      (position : (i : Int) = index.toInt - b.lower.toInt)
      (converts : Store.Converts s.policy b.type value stored)
      (after : next.find? name = some (.array changed)) (change : b.ChangedAt i stored changed)
      (read : next.getElement name index = .ok stored) : Written s value next (.element name index)

theorem Store.getScalar_of_find? {s : Store} {name : Text} {type : DataType} {v : Value}
    (found : s.find? name = some (.scalar type v)) : s.getScalar name = .ok v := by
  unfold getScalar
  rw [(get_eq_ok_iff s name _).mpr found]
  rfl

theorem Store.getElement_of_find? {s : Store} {name : Text} {b : Block} {index : Int64} {i : Nat}
    {v : Value} (found : s.find? name = some (.array b)) (inside : b.offset? index = some i)
    (held : b.elements[i]? = some v) : s.getElement name index = .ok v := by
  simp only [getElement, getArray, (get_eq_ok_iff s name _).mpr found, position, inside, bind,
    Except.bind, pure, Except.pure, Array.getD_eq_getD_getElem?, held, Option.getD_some]

/-- A successful write does what `Written` says. -/
theorem Store.Valid.written {s next : Store} (valid : s.Valid) {value : Value} {slot : Slot}
    (made : slot.write s value = .ok next) : slot.Written s value next := by
  cases slot with
  | scalar name =>
      obtain ⟨type, old, stored, found, coerced, rfl⟩ := setScalar_eq_ok made
      have after : (s.put name (.scalar type stored)).find? name = some (.scalar type stored) := by
        rw [find?_put, if_pos rfl]
      exact .scalar found (converts_of_coerce coerced) after (getScalar_of_find? after)
  | element name index =>
      obtain ⟨b, i, stored, found, inside, coerced, below, rfl⟩ := valid.setElement made
      have change := b.changedAt_set below stored
      generalize { b with elements := b.elements.set i stored below } = changed at *
      have after : (s.put name (.array changed)).find? name = some (.array changed) := by
        rw [find?_put, if_pos rfl]
      have place := (b.offset?_eq_some_iff index i).mp inside
      have within : changed.offset? index = some i := by
        rw [Block.offset?_eq_some_iff, change.lower, change.upper]
        exact place
      exact .element found (by omega) (converts_of_coerce coerced) after change
        (getElement_of_find? after within change.here)

namespace Machine

theorem execute_of_executeLine {m : Machine} {line : Text} {statement : Spanned Statement}
    (read : Statement.ofLine line = .ok (some statement))
    (done : (m.executeLine line).2 = .ok true) :
    (m.execute statement.node).2 = .ok () ∧
      (m.executeLine line).1 = (m.execute statement.node).1 := by
  unfold executeLine at done ⊢
  rw [read] at done ⊢
  dsimp only at done ⊢
  obtain ⟨_, succeeds, _⟩ := map_eq_ok done
  exact ⟨succeeds, rfl⟩

/-- Whether a line succeeds or fails, it leaves the policy and the entries of all names alone that
it does not declare or assign. Where an assignment or an INPUT succeeds, the place that its target
names has been written, with the value of the expression or with what the line of input spells. -/
theorem line_touches_named (m : Machine) (reached : m.store.Reachable) (line : Text) :
    let next := (m.executeLine line).1
    let result := (m.executeLine line).2
    next.store.policy = m.store.policy ∧
      (∀ name, ¬ Holds line (·.Names name) → next.store.find? name = m.store.find? name) ∧
      (∀ target expr place, Statement.ofLine line = .ok (some ⟨.assign target expr, place⟩) →
        result = .ok true → ∃ slot value, Slot.locate m.store target.node = .ok slot ∧
          Expression.evaluateAt m.store expr = .ok value ∧
          slot.Written m.store value next.store) ∧
      (∀ target place, Statement.ofLine line = .ok (some ⟨.input target, place⟩) →
        result = .ok true → ∃ slot type taken text value,
          Slot.locate m.store target.node = .ok slot ∧ slot.type m.store = .ok type ∧
          FirstLine m.input taken next.input ∧ Text.decode taken = some text ∧
          type.ofInput? (Text.trimLineEnd text) = some value ∧
          slot.Written m.store value next.store) := by
  intro next result
  have frame := m.executeLine_frame line
  refine ⟨frame.policy, frame.entries, ?_, ?_⟩
  · intro target expr place read done
    obtain ⟨succeeds, same⟩ := execute_of_executeLine read done
    obtain ⟨value, valued, made⟩ := bind_eq_ok (Store.settle_eq_ok succeeds)
    obtain ⟨slot, located, written⟩ := Target.write_eq_ok made
    refine ⟨slot, value, located, valued, ?_⟩
    show slot.Written m.store value (m.executeLine line).1.store
    rw [same]
    exact reached.valid.written written
  · intro target place read done
    obtain ⟨succeeds, same⟩ := execute_of_executeLine read done
    obtain ⟨text, decoded, rest, stored⟩ := readInto_eq_ok succeeds
    obtain ⟨slot, type, value, located, typed, spelt, written⟩ := Target.store_eq_ok stored
    refine ⟨slot, type, (nextLine m.input).1, text, value, located, typed, ?_, decoded, spelt, ?_⟩
    · show FirstLine m.input _ (m.executeLine line).1.input
      rw [same, show (m.execute (.input target)).1.input = _ from rest]
      exact firstLine_nextLine m.input
    · show slot.Written m.store value (m.executeLine line).1.store
      rw [same]
      exact reached.valid.written written

def furnished : Machine :=
  (start .strict [] none).acts
    [.declareArray ['a'] "STRING".toList (-1) 1, .setElement ['a'] 1 (.string ['z']),
      .declareScalar ['n'] "INTEGER".toList, .setScalar ['n'] (.integer 2)]

/-- The element with index 0, which `n - 2` is, takes the CHAR as a STRING; `n` is not touched. -/
theorem line_touches_named_element :
    let line := "a[n - 2] <- 'x'".toList
    furnished.store.Reachable ∧ (furnished.executeLine line).2 = .ok true ∧
      (furnished.executeLine line).1.store.find? ['n'] = furnished.store.find? ['n'] ∧
      (Slot.element ['a'] 0).Written furnished.store (.char 'x')
        (furnished.executeLine line).1.store := by
  intro line
  have reached : furnished.store.Reachable := ⟨_, _, _, _, rfl⟩
  have read : Statement.ofLine line = .ok (some ⟨.assign
      ⟨.element ['a'] ⟨"n - 2".toList, ⟨2, 7⟩⟩, ⟨0, 8⟩⟩ ⟨"'x'".toList, ⟨12, 15⟩⟩, ⟨0, 15⟩⟩) := by
    decide +kernel
  have done : (furnished.executeLine line).2 = .ok true := by decide +kernel
  have other : ¬ Holds line (·.Names ['n']) := by
    rw [holds_iff _ read]
    intro same
    cases same
  obtain ⟨_, frame, assigned, _⟩ := furnished.line_touches_named reached line
  obtain ⟨slot, value, located, valued, written⟩ := assigned _ _ _ read done
  have place : Slot.locate furnished.store (.element ['a'] ⟨"n - 2".toList, ⟨2, 7⟩⟩) =
      .ok (.element ['a'] 0) := by
    decide +kernel
  have literal : Expression.evaluateAt furnished.store ⟨"'x'".toList, ⟨12, 15⟩⟩ =
      .ok (.char 'x') := by
    decide +kernel
  cases place.symm.trans located
  cases literal.symm.trans valued
  exact ⟨reached, done, frame _ other, written⟩

end Machine

end Pseudocode
