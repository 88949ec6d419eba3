import Pseudocode.Machine
import Pseudocode.Proofs.Store.Valid

set_option autoImplicit false

namespace Pseudocode

theorem mapError_eq_ok_iff {α : Type} {r : Result α} {f : Failure → Failure} {a : α} :
    r.mapError f = .ok a ↔ r = .ok a := by
  cases r <;> simp [Except.mapError]

namespace Store

/-- An operation that fails leaves the store as it was. -/
theorem settle_cases {P : Store → Prop} {s : Store} {r : Result Store} (unchanged : P s)
    (made : ∀ next, r = .ok next → P next) : P (s.settle r).1 := by
  cases r with
  | error e => exact unchanged
  | ok next => exact made next rfl

theorem settle_steps {s : Store} {r : Result Store} (step : ∀ next, r = .ok next → Step s next) :
    Steps s (s.settle r).1 :=
  settle_cases (P := Steps s) .refl fun next made => .single (step next made)

theorem define_step {s next : Store} {name : Spanned Text} {value : Value}
    (made : s.define name value = .ok next) : Step s next :=
  declareConstant_step (mapError_eq_ok_iff.mp made)

end Store

open Store (Step Steps)

namespace Declaration

theorem declareName_step {d : Declaration} {s next : Store} {name : Spanned Text}
    (made : d.declareName s name = .ok next) : Step s next := by
  unfold declareName at made
  cases bounds : d.bounds with
  | some b =>
      rw [bounds] at made
      exact Store.declareArray_step (mapError_eq_ok_iff.mp made)
  | none =>
      rw [bounds] at made
      exact Store.declareScalar_step (mapError_eq_ok_iff.mp made)

theorem declareNames_steps (d : Declaration) (s : Store) (names : List (Spanned Text)) :
    Steps s (d.declareNames s names).1 := by
  induction names generalizing s with
  | nil => exact .refl
  | cons name rest ih =>
      rw [declareNames]
      cases made : d.declareName s name with
      | error e => exact .refl
      | ok next => exact .head (declareName_step made) (ih next)

theorem apply_steps (d : Declaration) (s : Store) : Steps s (d.apply s).1 := by
  unfold apply
  cases d.check s with
  | error e => exact .refl
  | ok _ => exact declareNames_steps d s d.names

end Declaration

theorem Slot.write_step {s next : Store} {value : Value} {slot : Slot}
    (made : slot.write s value = .ok next) : Step s next := by
  cases slot with
  | scalar name => exact Store.setScalar_step made
  | element name index => exact Store.setElement_step made

namespace Target

theorem write_step {s next : Store} {target : Spanned Target} {value : Value}
    (made : write s target value = .ok next) : Step s next := by
  obtain ⟨slot, _, made⟩ := bind_eq_ok made
  exact Slot.write_step (mapError_eq_ok_iff.mp made)

theorem store_step {s next : Store} {target : Spanned Target} {line : Text}
    (made : store s target line = .ok next) : Step s next := by
  obtain ⟨⟨slot, type⟩, _, made⟩ := bind_eq_ok made
  dsimp only at made
  cases read : type.ofInput? line with
  | none =>
      rw [read] at made
      cases made
  | some value =>
      rw [read] at made
      exact Slot.write_step (mapError_eq_ok_iff.mp made)

end Target

namespace Machine

theorem readInto_steps (m : Machine) (target : Spanned Target) :
    Steps m.store (m.readInto target).1.store := by
  unfold readInto
  cases Target.check m.store target with
  | error e => exact .refl
  | ok _ =>
      dsimp only
      split
      · exact .refl
      · cases Text.decode (nextLine m.input).1 with
        | none => exact .refl
        | some text => exact Store.settle_steps fun next made => Target.store_step made

theorem writeValues_store (m : Machine) (exprs : List (Spanned Text)) :
    (m.writeValues exprs).1.store = m.store := by
  unfold writeValues
  cases outputText m.store exprs <;> rfl

/-- A statement does nothing to the store but what store operations do. -/
theorem execute_steps (m : Machine) (statement : Statement) :
    Steps m.store (m.execute statement).1.store := by
  cases statement with
  | declare d => exact d.apply_steps m.store
  | constant name value => exact Store.settle_steps fun next made => Store.define_step made
  | assign target expr =>
      refine Store.settle_steps fun next made => ?_
      obtain ⟨value, _, made⟩ := bind_eq_ok made
      exact Target.write_step made
  | input target => exact m.readInto_steps target
  | output exprs =>
      change Steps m.store (m.writeValues exprs).1.store
      rw [writeValues_store]

theorem executeLine_steps (m : Machine) (line : Text) :
    Steps m.store (m.executeLine line).1.store := by
  unfold executeLine
  rcases Statement.ofLine line with e | ⟨_ | statement⟩
  · exact .refl
  · exact .refl
  · exact m.execute_steps statement.node

end Machine

/-- What can be asked of a machine: an operation on its store with any arguments, or a line. -/
inductive Action where
  | declareScalar (name keyword : Text)
  | declareArray (name keyword : Text) (lower upper : Int64)
  | declareConstant (name : Text) (value : Value)
  | setScalar (name : Text) (value : Value)
  | setElement (name : Text) (index : Int64) (value : Value)
  | line (text : Text)

namespace Machine

/-- A machine with nothing declared, the bytes that it is to read and the room for its output. -/
def start (policy : Policy) (input : List UInt8) (capacity : Option Nat) : Machine :=
  { store := { policy }, input, output := { capacity } }

def act (m : Machine) : Action → Machine × Result Unit
  | .declareScalar name keyword =>
      m.withStore (m.store.settle (m.store.declareScalar name keyword))
  | .declareArray name keyword lower upper =>
      m.withStore (m.store.settle (m.store.declareArray name keyword lower upper))
  | .declareConstant name value =>
      m.withStore (m.store.settle (m.store.declareConstant name value))
  | .setScalar name value => m.withStore (m.store.settle (m.store.setScalar name value))
  | .setElement name index value =>
      m.withStore (m.store.settle (m.store.setElement name index value))
  | .line text => ((m.executeLine text).1, (m.executeLine text).2.map fun _ => ())

/-- The machine after a sequence of actions; a failing one does not stop it. -/
def acts (m : Machine) : List Action → Machine
  | [] => m
  | action :: rest => (m.act action).1.acts rest

theorem act_steps (m : Machine) (action : Action) : Steps m.store (m.act action).1.store := by
  cases action with
  | declareScalar name keyword =>
      exact Store.settle_steps fun next made => Store.declareScalar_step made
  | declareArray name keyword lower upper =>
      exact Store.settle_steps fun next made => Store.declareArray_step made
  | declareConstant name value =>
      exact Store.settle_steps fun next made => Store.declareConstant_step made
  | setScalar name value => exact Store.settle_steps fun next made => Store.setScalar_step made
  | setElement name index value =>
      exact Store.settle_steps fun next made => Store.setElement_step made
  | line text => exact m.executeLine_steps text

theorem acts_steps (m : Machine) (actions : List Action) :
    Steps m.store (m.acts actions).store := by
  induction actions generalizing m with
  | nil => exact .refl
  | cons action rest ih => exact (m.act_steps action).trans (ih (m.act action).1)

theorem acts_append (m : Machine) (actions more : List Action) :
    m.acts (actions ++ more) = (m.acts actions).acts more := by
  induction actions generalizing m with
  | nil => rfl
  | cons action rest ih => exact ih (m.act action).1

end Machine

/-- A store that a machine can come to have. -/
def Store.Reachable (s : Store) : Prop :=
  ∃ policy input capacity actions, ((Machine.start policy input capacity).acts actions).store = s

namespace Store

theorem Reachable.valid {s : Store} (reached : s.Reachable) : s.Valid := by
  obtain ⟨policy, input, capacity, actions, rfl⟩ := reached
  exact (valid_empty policy).steps
    (Machine.acts_steps (Machine.start policy input capacity) actions)

theorem reachable_empty (policy : Policy) : ({ policy } : Store).Reachable :=
  ⟨policy, [], none, [], rfl⟩

theorem Reachable.declareArray {s next : Store} (reached : s.Reachable) {name keyword : Text}
    {lower upper : Int64} (made : s.declareArray name keyword lower upper = .ok next) :
    next.Reachable := by
  obtain ⟨policy, input, capacity, actions, rfl⟩ := reached
  refine ⟨policy, input, capacity, actions ++ [.declareArray name keyword lower upper], ?_⟩
  rw [Machine.acts_append, Machine.acts, Machine.act, made]
  rfl

theorem policy_acts (m : Machine) (actions : List Action) :
    (m.acts actions).store.policy = m.store.policy :=
  (m.acts_steps actions).preserves (P := fun s => s.policy = m.store.policy)
    (fun _ _ _ same _ => same) rfl

/-- A value read from an array is the one at the index's position, never a stand-in. -/
theorem Valid.getElement {s : Store} (valid : s.Valid) {name : Text} {index : Int64} {v : Value}
    (made : s.getElement name index = .ok v) :
    ∃ b i, s.find? name = some (.array b) ∧ b.offset? index = some i ∧
      b.elements[i]? = some v := by
  obtain ⟨b, found, made⟩ := bind_eq_ok made
  obtain ⟨i, inside, made⟩ := bind_eq_ok made
  have found := getArray_eq_ok found
  have inside := position_eq_ok inside
  have below := ((valid.wellFormed name _ found).block b rfl).offset?_lt inside
  cases made
  exact ⟨b, i, found, inside, by simp [below]⟩

/-- A value written to an array takes the index's position. -/
theorem Valid.setElement {s next : Store} (valid : s.Valid) {name : Text} {index : Int64}
    {v : Value} (made : s.setElement name index v = .ok next) :
    ∃ b i stored, s.find? name = some (.array b) ∧ b.offset? index = some i ∧
      coerce s.policy b.type v = .ok stored ∧
      ∃ below : i < b.elements.size,
        next = s.put name (.array { b with elements := b.elements.set i stored below }) := by
  obtain ⟨b, i, stored, found, inside, coerced, rfl⟩ := setElement_eq_ok made
  have below := ((valid.wellFormed name _ found).block b rfl).offset?_lt inside
  refine ⟨b, i, stored, found, inside, coerced, below, ?_⟩
  rw [Array.setIfInBounds, dif_pos below]

/-- Whatever has been done to a machine that began with nothing declared: the invariant holds of its
store, indices between the bounds of an array and positions of its elements belong to each other one
to one, and reading and writing an element stay within the array. -/
theorem invariant_of_actions (policy : Policy) (input : List UInt8) (capacity : Option Nat)
    (actions : List Action) :
    let s := ((Machine.start policy input capacity).acts actions).store
    s.policy = policy ∧ s.Valid ∧
      (∀ name b, s.find? name = some (.array b) →
        (∀ index, b.lower.toInt ≤ index.toInt ∧ index.toInt ≤ b.upper.toInt →
          ∃ i, b.offset? index = some i ∧ i < b.elements.size) ∧
        (∀ i, i < b.elements.size → ∃! index, b.offset? index = some i) ∧
        (∀ index, ¬ (b.lower.toInt ≤ index.toInt ∧ index.toInt ≤ b.upper.toInt) →
          b.offset? index = none)) ∧
      (∀ name index v, s.getElement name index = .ok v →
        ∃ b i, s.find? name = some (.array b) ∧ b.offset? index = some i ∧
          b.elements[i]? = some v) ∧
      (∀ name index v next, s.setElement name index v = .ok next →
        ∃ b i stored, s.find? name = some (.array b) ∧ b.offset? index = some i ∧
          coerce s.policy b.type v = .ok stored ∧
          ∃ below : i < b.elements.size,
            next = s.put name (.array { b with elements := b.elements.set i stored below })) := by
  intro s
  have valid : s.Valid := Reachable.valid ⟨policy, input, capacity, actions, rfl⟩
  refine ⟨policy_acts _ actions, valid, ?_, fun _ _ _ => valid.getElement,
    fun _ _ _ _ => valid.setElement⟩
  intro name b found
  have block := (valid.wellFormed name _ found).block b rfl
  refine ⟨?_, fun i below => block.existsUnique_offset? below, ?_⟩
  · intro index inside
    cases place : b.offset? index with
    | none => exact absurd inside ((b.offset?_eq_none_iff index).mp place)
    | some i => exact ⟨i, rfl, block.offset?_lt place⟩
  · intro index outside
    exact (b.offset?_eq_none_iff index).mpr outside

end Store

end Pseudocode
