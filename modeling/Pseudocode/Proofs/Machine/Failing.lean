import Mathlib.Data.List.TakeWhile
import Pseudocode.Proofs.Statement.Declare

set_option autoImplicit false

namespace Pseudocode

/-- What a failed step leaves of a store that it was to change. -/
def Store.Kept (s : Store) (outcome : Outcome) : Prop :=
  ∀ e, outcome.2 = .error e → outcome.1 = s

theorem Store.kept_settle (s : Store) (r : Result Store) : s.Kept (s.settle r) := by
  intro e failed
  cases r with
  | ok next => cases failed
  | error reason => rfl

namespace Declaration

theorem apply_unnamed {d : Declaration} {s : Store} (unnamed : d.names = [])
    (unbounded : d.bounds = none) : (d.apply s).2 = .ok () := by
  have checked : d.check s = .ok () := by
    refine (check_eq_ok_iff d s).mpr ⟨?_, ?_⟩
    · intro name member
      rw [unnamed] at member
      cases member
    · intro bounds given
      rw [unbounded] at given
      cases given
  rw [apply, checked, unnamed]
  rfl

/-- Variables are declared all or none: what fails for one of them fails for the first. -/
theorem kept_scalars {d : Declaration} (unbounded : d.bounds = none) (s : Store) :
    s.Kept (d.apply s) := by
  intro e failed
  by_cases unnamed : d.names = []
  · rw [apply_unnamed unnamed unbounded] at failed
    cases failed
  · by_cases passes : d.Passes s
    · obtain ⟨type, typed⟩ := passes.typed
      rw [passes.apply_eq, declareNames_scalars unbounded typed d.names s passes.declarable]
        at failed
      cases failed
    · obtain ⟨reason, refused⟩ := apply_of_not_passes unnamed passes
      rw [refused]

/-- A single name leaves nothing behind when it fails. -/
theorem kept_single {d : Declaration} (few : d.names.length < 2) (s : Store) :
    s.Kept (d.apply s) := by
  intro e failed
  unfold apply at failed ⊢
  cases checked : d.check s with
  | error reason => rfl
  | ok _ =>
      rw [checked] at failed
      dsimp only at failed ⊢
      rcases names : d.names with _ | ⟨name, rest⟩
      · rfl
      · rw [names, List.length_cons] at few
        obtain rfl : rest = [] := List.length_eq_zero_iff.mp (by omega)
        rw [names, declareNames] at failed
        rw [declareNames]
        cases declared : d.declareName s name with
        | error reason => rfl
        | ok next =>
            rw [declared] at failed
            cases failed

end Declaration

/-- A DECLARE of two or more arrays. -/
def Statement.DeclaresArrays : Statement → Prop
  | .declare d => d.bounds ≠ none ∧ 2 ≤ d.names.length
  | _ => False

theorem Declaration.kept_apply {d : Declaration}
    (other : ¬ Statement.DeclaresArrays (.declare d)) (s : Store) : s.Kept (d.apply s) := by
  by_cases unbounded : d.bounds = none
  · exact kept_scalars unbounded s
  · apply kept_single
    by_contra several
    exact other ⟨unbounded, by omega⟩

namespace Target

/-- A target that may be read into: its index has a value, and there is a variable of its name, or
an array with an element at that index. -/
def Ready (s : Store) : Target → Prop
  | .variable name => ∃ type value, s.find? name = some (.scalar type value)
  | .element name index => ∃ i b, Expression.indexValue s index = .ok i ∧
      s.find? name = some (.array b) ∧ b.lower.toInt ≤ i.toInt ∧ i.toInt ≤ b.upper.toInt

theorem scalarType_eq_ok_iff (s : Store) (name : Text) (type : DataType) :
    s.scalarType name = .ok type ↔ ∃ value, s.find? name = some (.scalar type value) := by
  constructor
  · intro made
    obtain ⟨e, found, made⟩ := bind_eq_ok made
    rw [Store.get_eq_ok_iff] at found
    cases e with
    | scalar t value =>
        cases made
        exact ⟨value, found⟩
    | constant value => cases made
    | array b => cases made
  · rintro ⟨value, found⟩
    unfold Store.scalarType
    rw [(Store.get_eq_ok_iff s name _).mpr found]
    rfl

theorem type_element_eq_ok_iff (s : Store) (name : Text) (i : Int64) (type : DataType) :
    (Slot.element name i).type s = .ok type ↔
      ∃ b, s.find? name = some (.array b) ∧ b.type = type ∧ b.lower.toInt ≤ i.toInt ∧
        i.toInt ≤ b.upper.toInt := by
  constructor
  · intro made
    obtain ⟨b, found, made⟩ := bind_eq_ok made
    obtain ⟨place, inside, made⟩ := bind_eq_ok made
    cases made
    have bound := (b.offset?_eq_some_iff i place).mp (Store.position_eq_ok inside)
    exact ⟨b, Store.getArray_eq_ok found, rfl, by omega, bound.1⟩
  · rintro ⟨b, found, rfl, above, below⟩
    have inside : b.offset? i = some (i.toInt - b.lower.toInt).toNat :=
      (b.offset?_eq_some_iff i _).mpr ⟨below, by omega⟩
    simp only [Slot.type, Store.getArray, (Store.get_eq_ok_iff s name _).mpr found,
      Store.position, bind, Except.bind, pure, Except.pure, inside]

/-- The check that INPUT makes before it reads. -/
theorem check_eq_ok_iff (s : Store) (target : Spanned Target) :
    (∃ found, check s target = .ok found) ↔ Ready s target.node := by
  obtain ⟨node, span⟩ := target
  constructor
  · rintro ⟨⟨slot, type⟩, made⟩
    obtain ⟨place, located, made⟩ := bind_eq_ok made
    obtain ⟨found, placed, made⟩ := bind_eq_ok made
    cases made
    have typed := mapError_eq_ok_iff.mp placed
    rcases node with name | ⟨name, index⟩
    · cases located
      obtain ⟨value, declared⟩ := (scalarType_eq_ok_iff s name type).mp typed
      exact ⟨type, value, declared⟩
    · simp only [Slot.locate] at located
      cases valued : Expression.indexValue s index with
      | error e =>
          rw [valued] at located
          cases located
      | ok i =>
          rw [valued] at located
          cases located
          obtain ⟨b, declared, _, above, below⟩ := (type_element_eq_ok_iff s name i type).mp typed
          exact ⟨i, b, valued, declared, above, below⟩
  · intro ready
    rcases node with name | ⟨name, index⟩
    · obtain ⟨type, value, declared⟩ := ready
      refine ⟨(.scalar name, type), ?_⟩
      have typed := (scalarType_eq_ok_iff s name type).mpr ⟨value, declared⟩
      simp only [check, Slot.locate, Slot.type, typed, bind, Except.bind, Except.mapError, pure,
        Except.pure]
    · obtain ⟨i, b, valued, declared, above, below⟩ := ready
      refine ⟨(.element name i, b.type), ?_⟩
      have typed := (type_element_eq_ok_iff s name i b.type).mpr ⟨b, declared, rfl, above, below⟩
      simp only [check, Slot.locate, valued, Except.map, typed, bind, Except.bind,
        Except.mapError, pure, Except.pure]

end Target

/-- `line` is the line at the front of the input: up to its first line feed or, where there is none,
all of it. It is empty only at the end of the input. -/
structure FirstLine (input line rest : List UInt8) : Prop where
  whole : input = line ++ rest
  single : ∀ front back, line = front ++ 10 :: back → back = []
  ended : rest ≠ [] → line.getLast? = some 10
  nonempty : line = [] → input = []

theorem firstLine_nextLine (input : List UInt8) :
    FirstLine input (nextLine input).1 (nextLine input).2 := by
  have parts := List.takeWhile_append_dropWhile (p := (· != (10 : UInt8))) (l := input)
  unfold nextLine
  split
  · rename_i none
    refine ⟨(List.append_nil input).symm, ?_, fun more => absurd rfl more, fun empty => empty⟩
    rintro front back rfl
    have feed := List.dropWhile_eq_nil_iff.mp none 10 (by simp)
    cases feed
  · rename_i feed rest found
    have stop := List.head?_dropWhile_not (· != (10 : UInt8)) input
    rw [found, List.head?_cons] at stop
    obtain rfl : feed = 10 := bne_eq_false_iff_eq.mp stop
    rw [found] at parts
    refine ⟨by rw [List.append_assoc]; exact parts.symm, ?_, fun _ => by simp, ?_⟩
    · intro front back split
      rcases List.eq_nil_or_concat back with rfl | ⟨init, last, rfl⟩
      · rfl
      · rw [List.concat_eq_append, ← List.cons_append, ← List.append_assoc] at split
        have inner := (List.append_inj' split rfl).1
        have member : (10 : UInt8) ∈ input.takeWhile (· != 10) := by rw [inner]; simp
        cases List.mem_takeWhile_imp member
    · intro empty
      exact absurd empty (by simp)

namespace Machine

/-- What is left of a machine after a failed step, where `reads` says that the step is an INPUT with
a target that may be read into. -/
structure Untouched (m next : Machine) (e : Failure) (reads : Prop) : Prop where
  store : next.store = m.store
  output : e.kind ≠ .io → next.output = m.output
  consumed : reads → ∃ line, FirstLine m.input line next.input
  unread : ¬ reads → next.input = m.input

theorem untouched_withStore {m : Machine} {outcome : Outcome} {e : Failure}
    (kept : m.store.Kept outcome) (failed : (m.withStore outcome).2 = .error e) :
    m.Untouched (m.withStore outcome).1 e False :=
  ⟨kept e failed, fun _ => rfl, False.elim, fun _ => rfl⟩

theorem untouched_readInto {m : Machine} {target : Spanned Target} {e : Failure}
    (failed : (m.readInto target).2 = .error e) :
    m.Untouched (m.readInto target).1 e (Target.Ready m.store target.node) := by
  have checks := Target.check_eq_ok_iff m.store target
  unfold readInto at failed ⊢
  cases checked : Target.check m.store target with
  | error reason =>
      have refused : ¬ Target.Ready m.store target.node := by
        rw [← checks, checked]
        rintro ⟨found, impossible⟩
        cases impossible
      exact ⟨rfl, fun _ => rfl, fun ready => absurd ready refused, fun _ => rfl⟩
  | ok found =>
      have ready : Target.Ready m.store target.node := checks.mp ⟨found, checked⟩
      have first := firstLine_nextLine m.input
      have taken : ∀ (next : Machine), next.store = m.store → next.output = m.output →
          next.input = (nextLine m.input).2 →
            m.Untouched next e (Target.Ready m.store target.node) := by
        intro next store output input
        exact ⟨store, fun _ => output, fun _ => ⟨_, by rw [input]; exact first⟩,
          fun never => absurd ready never⟩
      rw [checked] at failed
      dsimp only at failed ⊢
      split
      · exact taken _ rfl rfl rfl
      · rename_i some
        rw [if_neg some] at failed
        cases read : Text.decode (nextLine m.input).1 with
        | none => exact taken _ rfl rfl rfl
        | some text =>
            rw [read] at failed
            exact taken _ (Store.kept_settle m.store _ e failed) rfl rfl

theorem kind_of_writeLine {o : Output} {t : Text} {e : Failure}
    (failed : (o.writeLine t).2 = .error e) : e.kind = .io := by
  unfold Output.writeLine Output.write at failed
  split at failed
  · cases failed
  · dsimp only at failed
    split at failed
    · cases failed
    · cases failed
      rfl

theorem untouched_writeValues {m : Machine} {exprs : List (Spanned Text)} {e : Failure}
    (failed : (m.writeValues exprs).2 = .error e) :
    m.Untouched (m.writeValues exprs).1 e False := by
  unfold writeValues at failed ⊢
  cases valued : outputText m.store exprs with
  | error reason => exact ⟨rfl, fun _ => rfl, False.elim, fun _ => rfl⟩
  | ok text =>
      rw [valued] at failed
      exact ⟨rfl, fun other => absurd (kind_of_writeLine failed) other, False.elim, fun _ => rfl⟩

def Reads (s : Store) : Statement → Prop
  | .input target => Target.Ready s target.node
  | _ => False

theorem untouched_execute {m : Machine} {statement : Statement} {e : Failure}
    (other : ¬ statement.DeclaresArrays) (failed : (m.execute statement).2 = .error e) :
    m.Untouched (m.execute statement).1 e (Reads m.store statement) := by
  cases statement with
  | declare d => exact untouched_withStore (d.kept_apply other m.store) failed
  | constant name value => exact untouched_withStore (m.store.kept_settle _) failed
  | assign target expr => exact untouched_withStore (m.store.kept_settle _) failed
  | input target => exact untouched_readInto failed
  | output exprs => exact untouched_writeValues failed

def Holds (line : Text) (property : Statement → Prop) : Prop :=
  ∃ statement, Statement.ofLine line = .ok (some statement) ∧ property statement.node

theorem holds_iff {line : Text} {statement : Spanned Statement} (property : Statement → Prop)
    (read : Statement.ofLine line = .ok (some statement)) :
    Holds line property ↔ property statement.node := by
  constructor
  · rintro ⟨same, found, has⟩
    rw [read] at found
    cases found
    exact has
  · intro has
    exact ⟨statement, read, has⟩

theorem executeLine_eq_error {m next : Machine} {line : Text} {e : Failure}
    (failed : m.executeLine line = (next, .error e)) :
    (Statement.ofLine line = .error e ∧ next = m) ∨
      ∃ statement, Statement.ofLine line = .ok (some statement) ∧
        m.execute statement.node = (next, .error e) := by
  unfold executeLine at failed
  rcases read : Statement.ofLine line with reason | ⟨_ | statement⟩ <;> rw [read] at failed
  · cases failed
    exact .inl ⟨rfl, rfl⟩
  · cases failed
  · dsimp only at failed
    refine .inr ⟨statement, rfl, ?_⟩
    generalize m.execute statement.node = step at failed
    obtain ⟨after, result⟩ := step
    cases result with
    | ok _ => cases failed
    | error reason =>
        cases failed
        rfl

/-- Whatever fails in a line, unless it is a DECLARE of several arrays: the store is unchanged, the
output is unchanged unless it was the output that failed, and no input is lost but the one line that
an INPUT with a good target takes, which is nothing at the end of the input. -/
theorem failed_line_leaves_no_trace {m next : Machine} {line : Text} {e : Failure}
    (failed : m.executeLine line = (next, .error e))
    (other : ¬ Holds line Statement.DeclaresArrays) :
    next.store = m.store ∧ (e.kind ≠ .io → next.output = m.output) ∧
      (Holds line (Reads m.store) → ∃ taken, FirstLine m.input taken next.input) ∧
      (¬ Holds line (Reads m.store) → next.input = m.input) := by
  rcases executeLine_eq_error failed with ⟨unread, rfl⟩ | ⟨statement, read, broken⟩
  · refine ⟨rfl, fun _ => rfl, ?_, fun _ => rfl⟩
    rintro ⟨statement, found, _⟩
    rw [unread] at found
    cases found
  · rw [holds_iff _ read] at other ⊢
    have left := untouched_execute (m := m) (e := e) other (by rw [broken])
    rw [broken] at left
    exact ⟨left.store, left.output, left.consumed, left.unread⟩

def expectant : Machine where
  store := { entries := [(['x'], .scalar .integer (.integer 7))] }
  input := [97, 10, 49]

/-- `INPUT x` finds `a`, which is no INTEGER: one line is gone and nothing else has changed. -/
theorem failed_line_leaves_no_trace_input :
    let line := "INPUT x".toList
    ∃ next e, expectant.executeLine line = (next, .error e) ∧ next.store = expectant.store ∧
      (e.kind ≠ .io → next.output = expectant.output) ∧
      ∃ taken, FirstLine expectant.input taken next.input := by
  intro line
  have read : Statement.ofLine line = .ok (some ⟨.input ⟨.variable ['x'], ⟨6, 7⟩⟩, ⟨0, 7⟩⟩) := by
    decide +kernel
  have failed : expectant.executeLine line =
      ({ expectant with input := [49] }, .error ⟨.invalidInput (.unreadable ['a'] .integer ['x']),
        some ⟨6, 7⟩⟩) := by
    decide +kernel
  have other : ¬ Holds line Statement.DeclaresArrays := by
    rintro ⟨statement, found, holds⟩
    rw [read] at found
    cases found
    exact holds
  have ready : Holds line (Reads expectant.store) :=
    ⟨_, read, .integer, .integer 7, rfl⟩
  obtain ⟨store, output, consumed, _⟩ := failed_line_leaves_no_trace failed other
  exact ⟨_, _, failed, store, output, consumed ready⟩

end Machine

end Pseudocode
