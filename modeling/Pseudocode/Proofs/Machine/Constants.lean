import Pseudocode.Proofs.Machine.Frame

set_option autoImplicit false

namespace Pseudocode

namespace Store

variable {s next : Store} {name : Text} {v : Value}

theorem isConstant_eq_false {e : Entry} (found : s.find? name = some e)
    (other : e.isConstant = false) : s.isConstant name = false := by
  rw [isConstant, found]
  exact other

theorem isConstant_eq_true (constant : s.find? name = some (.constant v)) :
    s.isConstant name = true := by
  rw [isConstant, constant]
  rfl

/-- What is written takes the place of no constant. -/
theorem Writes.replaceable {e : Entry} (writes : Writes s name e) : s.isConstant name = false := by
  cases writes with
  | scalar _ free => exact ((checkDeclarable_eq_ok_iff s name).mp free).2
  | array _ free => exact ((checkDeclarable_eq_ok_iff s name).mp free).2
  | constant free => exact ((checkDeclarable_eq_ok_iff s name).mp free).2
  | assign found => exact isConstant_eq_false found rfl
  | element found => exact isConstant_eq_false found rfl

theorem Steps.constant (steps : Steps s next) (constant : s.find? name = some (.constant v)) :
    next.find? name = some (.constant v) := by
  refine steps.preserves (P := fun s => s.find? name = some (.constant v)) ?_ constant
  intro s other e kept writes
  rw [find?_put, if_neg]
  · exact kept
  · rintro rfl
    have replaceable := writes.replaceable
    rw [isConstant_eq_true kept] at replaceable
    cases replaceable

/-- A name that has an entry keeps one. -/
theorem Steps.names (steps : Steps s next) (declared : name ∈ s.names) : name ∈ next.names :=
  steps.preserves (P := fun s => name ∈ s.names)
    (fun s other e kept _ => (mem_names_put s other name e).mpr (.inr kept)) declared

theorem checkDeclarable_constant (identifier : Text.isIdentifier name = true)
    (constant : s.find? name = some (.constant v)) :
    s.checkDeclarable name = fail (.duplicateName name) := by
  simp [checkDeclarable, identifier, isConstant_eq_true constant]

theorem declareScalar_constant (identifier : Text.isIdentifier name = true)
    (constant : s.find? name = some (.constant v)) (keyword : Text) :
    s.declareScalar name keyword = fail (.duplicateName name) := by
  rw [declareScalar, checkDeclarable_constant identifier constant]
  rfl

theorem declareArray_constant (identifier : Text.isIdentifier name = true)
    (constant : s.find? name = some (.constant v)) (keyword : Text) (lower upper : Int64) :
    s.declareArray name keyword lower upper = fail (.duplicateName name) := by
  rw [declareArray, checkDeclarable_constant identifier constant]
  rfl

theorem declareConstant_constant (identifier : Text.isIdentifier name = true)
    (constant : s.find? name = some (.constant v)) (value : Value) :
    s.declareConstant name value = fail (.constantRedeclared name) := by
  simp [declareConstant, identifier, isConstant_eq_true constant]

theorem setScalar_constant (constant : s.find? name = some (.constant v)) (value : Value) :
    s.setScalar name value = fail (.assignToConstant name) := by
  rw [setScalar, (get_eq_ok_iff s name _).mpr constant]
  rfl

theorem setElement_constant (constant : s.find? name = some (.constant v)) (index : Int64)
    (value : Value) : s.setElement name index value = fail (.notAnArray name) := by
  rw [setElement, getArray, (get_eq_ok_iff s name _).mpr constant]
  rfl

end Store

theorem Slot.isConstant_of_write {s next : Store} {slot : Slot} {value : Value}
    (made : slot.write s value = .ok next) : s.isConstant slot.name = false := by
  cases slot with
  | scalar name =>
      obtain ⟨type, old, stored, found, _⟩ := Store.setScalar_eq_ok made
      exact Store.isConstant_eq_false found rfl
  | element name index =>
      obtain ⟨b, i, stored, found, _⟩ := Store.setElement_eq_ok made
      exact Store.isConstant_eq_false found rfl

theorem Declaration.check_of_apply {d : Declaration} {s : Store} (done : (d.apply s).2 = .ok ()) :
    d.check s = .ok () := by
  unfold apply at done
  cases checked : d.check s with
  | error e =>
      rw [checked] at done
      cases done
  | ok _ => rfl

namespace Machine

/-- A statement that succeeds declares and assigns no constant. -/
theorem execute_spares_constants {m : Machine} {statement : Statement} {name : Text}
    (done : (m.execute statement).2 = .ok ()) (named : statement.Names name) :
    m.store.isConstant name = false := by
  cases statement with
  | declare d =>
      obtain ⟨declared, member, rfl⟩ := List.mem_map.mp named
      have checked := (d.check_eq_ok_iff m.store).mp (Declaration.check_of_apply done)
      exact ((Store.checkDeclarable_eq_ok_iff _ _).mp (checked.1 declared member)).2
  | constant declared value =>
      cases named
      have made := mapError_eq_ok_iff.mp (Store.settle_eq_ok done)
      exact ((Store.checkDeclarable_eq_ok_iff _ _).mp (Store.declareConstant_eq_ok made).1).2
  | assign target expr =>
      cases named
      obtain ⟨value, _, made⟩ := bind_eq_ok (Store.settle_eq_ok done)
      obtain ⟨slot, located, written⟩ := Target.write_eq_ok made
      rw [← Slot.name_of_locate located]
      exact Slot.isConstant_of_write written
  | input target =>
      cases named
      obtain ⟨text, _, _, stored⟩ := readInto_eq_ok done
      obtain ⟨slot, type, value, located, _, _, written⟩ := Target.store_eq_ok stored
      rw [← Slot.name_of_locate located]
      exact Slot.isConstant_of_write written
  | output exprs => cases named

end Machine

namespace Action

/-- The names that an action declares or assigns. -/
def Names : Action → Text → Prop
  | .declareScalar other _, name | .declareArray other _ _ _, name
  | .declareConstant other _, name | .setScalar other _, name
  | .setElement other _ _, name => other = name
  | .line text, name => Machine.Holds text (·.Names name)

/-- How an operation on the store is refused if its name is that of a constant. A line may fail for
other reasons first. -/
def refusal? : Action → Option Kind
  | .declareScalar .. | .declareArray .. => some .duplicateName
  | .declareConstant .. => some .constantRedeclared
  | .setScalar .. => some .assignToConstant
  | .setElement .. => some .notAnArray
  | .line _ => none

end Action

namespace Machine

theorem executeLine_refused {m : Machine} {line name : Text}
    (constant : m.store.isConstant name = true) (named : Holds line (·.Names name)) :
    ∃ e, (m.executeLine line).2 = .error e := by
  obtain ⟨statement, read, named⟩ := named
  rw [executeLine, read]
  dsimp only
  cases done : (m.execute statement.node).2 with
  | error e => exact ⟨e, rfl⟩
  | ok _ =>
      rw [execute_spares_constants done named] at constant
      cases constant

theorem act_refused {m : Machine} (valid : m.store.Valid) {action : Action} {name : Text}
    {v : Value} (constant : m.store.find? name = some (.constant v)) (named : action.Names name) :
    ∃ e, (m.act action).2 = .error e ∧ ∀ kind ∈ action.refusal?, e.kind = kind := by
  have identifier : Text.isIdentifier name = true :=
    valid.identifiers name ((Store.mem_names_iff m.store name).mpr ⟨_, constant⟩)
  have refused {r : Result Store} {cause : Cause} (failed : r = fail cause) :
      ∃ e, (m.withStore (m.store.settle r)).2 = .error e ∧
        ∀ kind ∈ some cause.kind, e.kind = kind := by
    subst failed
    refine ⟨_, rfl, fun kind same => ?_⟩
    cases same
    rfl
  cases action with
  | declareScalar other keyword =>
      cases named
      exact refused (Store.declareScalar_constant identifier constant keyword)
  | declareArray other keyword lower upper =>
      cases named
      exact refused (Store.declareArray_constant identifier constant keyword lower upper)
  | declareConstant other value =>
      cases named
      exact refused (Store.declareConstant_constant identifier constant value)
  | setScalar other value =>
      cases named
      exact refused (Store.setScalar_constant constant value)
  | setElement other index value =>
      cases named
      exact refused (Store.setElement_constant constant index value)
  | line text =>
      obtain ⟨e, failed⟩ := executeLine_refused (Store.isConstant_eq_true constant) named
      refine ⟨e, ?_, fun kind none => by cases none⟩
      show (m.executeLine text).2.map _ = .error e
      rw [failed]
      rfl

/-- Whatever is asked of a machine: a constant stays a constant and keeps its value, every line and
every operation that names it fails, and no name is ever taken out of the store. -/
theorem constants_are_final (m : Machine) (reached : m.store.Reachable) (actions : List Action) :
    (∀ name v, m.store.find? name = some (.constant v) →
      (m.acts actions).store.find? name = some (.constant v) ∧
      ∀ before action after, actions = before ++ action :: after → action.Names name →
        ∃ e, ((m.acts before).act action).2 = .error e ∧
          ∀ kind ∈ action.refusal?, e.kind = kind) ∧
    ∀ name ∈ m.store.names, name ∈ (m.acts actions).store.names := by
  refine ⟨fun name v constant => ⟨(m.acts_steps actions).constant constant, ?_⟩,
    fun name declared => (m.acts_steps actions).names declared⟩
  intro before action after _ named
  have steps := m.acts_steps before
  exact act_refused (reached.valid.steps steps) (steps.constant constant) named

def fixed : Machine :=
  (start .permissive [50, 10] none).acts [.line "CONSTANT c = 1".toList]

/-- Neither a DECLARE that lists `c` last nor an INPUT nor an indexed write gets at `c`. -/
theorem constants_are_final_listed :
    let actions : List Action := [.line "DECLARE x, c : INTEGER".toList, .line "INPUT c".toList,
      .setElement ['c'] 1 (.integer 5)]
    fixed.store.Reachable ∧ fixed.store.find? ['c'] = some (.constant (.integer 1)) ∧
      (fixed.acts actions).store.find? ['c'] = some (.constant (.integer 1)) ∧
      (∃ e, (fixed.act (.line "DECLARE x, c : INTEGER".toList)).2 = .error e) ∧
      ∃ e, ((fixed.acts (actions.take 2)).act (.setElement ['c'] 1 (.integer 5))).2 = .error e ∧
        e.kind = .notAnArray := by
  intro actions
  have reached : fixed.store.Reachable := ⟨_, _, _, _, rfl⟩
  have constant : fixed.store.find? ['c'] = some (.constant (.integer 1)) := by decide +kernel
  obtain ⟨kept, refused⟩ := (fixed.constants_are_final reached actions).1 _ _ constant
  have names : (Action.line "DECLARE x, c : INTEGER".toList).Names ['c'] := by
    refine ⟨⟨.declare ⟨[⟨['x'], ⟨8, 9⟩⟩, ⟨['c'], ⟨11, 12⟩⟩], ⟨"INTEGER".toList, ⟨15, 22⟩⟩, none⟩,
      ⟨0, 22⟩⟩, by decide +kernel, ?_⟩
    exact List.mem_cons_of_mem _ List.mem_cons_self
  obtain ⟨e, failed, _⟩ := refused [] _ _ rfl names
  obtain ⟨e', failed', kind⟩ := refused (actions.take 2) _ [] rfl rfl
  exact ⟨reached, constant, kept, ⟨e, failed⟩, e', failed', kind _ rfl⟩

end Machine

end Pseudocode
