import Pseudocode.Machine
import Pseudocode.Proofs.Expression.Sums
import Pseudocode.Proofs.Statement.Printed

set_option autoImplicit false

namespace Pseudocode

open Text (bytes trim trimmed afterWord? isBlank breakOuter splitOuter stripComment)

namespace Declaration

/-- A declaration that can be read has a type, so blanks after it are no part of it. -/
theorem read_append_blanks {base : Nat} {body blanks : Text} {d : Declaration}
    (made : read base body = .ok d) (blank : ∀ c ∈ blanks, isBlank c = true) :
    read base (body ++ blanks) = .ok d := by
  cases colon : body.dropWhile (· != ':') with
  | nil =>
      rw [read, colon] at made
      cases made
  | cons mark after =>
      have found : body.dropWhile (· != ':') ≠ [] := by simp [colon]
      -- Were there only blanks after the colon, the type would be missing.
      have typed : trim after ≠ [] := by
        intro none
        rw [read, colon] at made
        obtain ⟨names, _, made⟩ := bind_eq_ok made
        have untyped (base : Nat) :
            readType (trimmed base after) = .ok (trimmed base after, .none) := by
          rw [readType, trimmed, none]
          rfl
        rw [untyped] at made
        change (if (trim after).isEmpty = true then _ else _) = _ at made
        rw [none] at made
        cases made
      rw [read, Text.dropWhile_append_of_found found, colon, List.cons_append]
      dsimp only
      rw [Text.takeWhile_append_of_found found, Text.trimmed_append_blanks typed blank]
      rw [read, colon] at made
      exact made

end Declaration

namespace Statement

/-- A constant that can be read has a value, so blanks after it are no part of it. -/
theorem readConstant_append_blanks {base : Nat} {body blanks : Text}
    {constant : Spanned Text × Spanned Value} (made : readConstant base body = .ok constant)
    (blank : ∀ c ∈ blanks, isBlank c = true) :
    readConstant base (body ++ blanks) = .ok constant := by
  cases found : breakOuter Keyword.equals body with
  | none =>
      rw [readConstant, found] at made
      cases made
  | some parts =>
      obtain ⟨front, rest⟩ := parts
      have again : breakOuter Keyword.equals (body ++ blanks) = some (front, rest ++ blanks) :=
        Text.Outline.breakOuter_append_right found blanks
      obtain ⟨_, depth, marked⟩ := Text.Outline.breakAt_eq_some found
      rw [readConstant, found] at made
      cases rest with
      | nil => simp [Keyword.equals] at marked
      | cons mark rest =>
          have valued : trim rest ≠ [] := by
            intro none
            change (if ((trim front).isEmpty || (trim rest).isEmpty) = true then _ else _) = _
              at made
            simp only [none, List.isEmpty_nil, Bool.or_true, if_true] at made
            cases made
          rw [readConstant, again]
          change (if _ then _ else _) = _ at made
          split at made
          · cases made
          · rename_i some
            change (if _ then _ else _) = _
            rw [List.cons_append, List.drop_succ_cons, List.drop_zero,
              Text.trimmed_append_blanks valued blank]
            exact (if_neg some).trans made

/-- The texts that the parts of a statement are read from. -/
theorem readCode_cases {code : Spanned Text} {s : Statement} (made : readCode code = .ok s) :
    (∃ body d, afterWord? Keyword.declare code.node = some body ∧
      Declaration.read (code.span.start + bytes Keyword.declare) body = .ok d ∧ s = .declare d) ∨
    (∃ body name value, afterWord? Keyword.constant code.node = some body ∧
      readConstant (code.span.start + bytes Keyword.constant) body = .ok (name, value) ∧
        s = .constant name value) ∨
    (∃ body target, afterWord? Keyword.input code.node = some body ∧
      Target.read (code.span.start + bytes Keyword.input) body = .ok target ∧ s = .input target) ∨
    (∃ body exprs, afterWord? Keyword.output code.node = some body ∧
      (splitOuter ',' body).mapM (readOutputPart (code.span.start + bytes Keyword.output)) =
        .ok exprs ∧ s = .output exprs) ∨
    ∃ front rest target, breakOuter Keyword.arrow code.node = some (front, rest) ∧
      Target.read code.span.start front = .ok target ∧
        s = .assign target (trimmed (code.span.start + bytes front + 2) (rest.drop 2)) := by
  unfold readCode at made
  dsimp only at made
  split at made
  · rename_i body found
    obtain ⟨d, read, same⟩ := map_eq_ok made
    exact .inl ⟨body, d, found, read, same.symm⟩
  · split at made
    · rename_i body found
      obtain ⟨⟨name, value⟩, read, same⟩ := map_eq_ok made
      exact .inr (.inl ⟨body, name, value, found, read, same.symm⟩)
    · split at made
      · rename_i body found
        obtain ⟨target, read, same⟩ := map_eq_ok made
        exact .inr (.inr (.inl ⟨body, target, found, read, same.symm⟩))
      · split at made
        · rename_i body found
          obtain ⟨exprs, read, same⟩ := map_eq_ok made
          exact .inr (.inr (.inr (.inl ⟨body, exprs, found, read, same.symm⟩)))
        · split at made
          · rename_i front rest found
            split at made
            · cases made
            · obtain ⟨target, read, same⟩ := map_eq_ok made
              exact .inr (.inr (.inr (.inr ⟨front, rest, target, found, read, same.symm⟩)))
          · cases made

theorem readCode_of_ofLine {line : Text} {statement : Spanned Statement}
    (read : ofLine line = .ok (some statement)) :
    readCode (trimmed 0 (stripComment line)) = .ok statement.node := by
  unfold ofLine at read
  dsimp only at read
  split at read
  · cases read
  · obtain ⟨s, made, same⟩ := map_eq_ok read
    cases same
    exact made

end Statement

/-- Before a trimmed text stand as many bytes as were trimmed, after it blanks. -/
theorem Text.trimStart_eq_append (spec : Text) :
    bytes spec - bytes (trimStart spec) = (trimmed 0 spec).span.start ∧
      ∃ blanks, trimStart spec = (trimmed 0 spec).node ++ blanks ∧
        ∀ c ∈ blanks, isBlank c = true := by
  constructor
  · have parts := congrArg bytes (List.takeWhile_append_dropWhile (p := isBlank) (l := spec))
    rw [bytes_append] at parts
    simp only [trimStart, trimmed]
    omega
  · exact exists_trimEnd_append (trimStart spec)

namespace Store

theorem declare_eq_apply {s : Store} {spec body : Text} {d : Declaration}
    (found : afterWord? Keyword.declare (trimmed 0 spec).node = some body)
    (read : Declaration.read ((trimmed 0 spec).span.start + bytes Keyword.declare) body = .ok d) :
    s.declare spec = d.apply s := by
  obtain ⟨base, blanks, text, blank⟩ := Text.trimStart_eq_append spec
  have begins := (Text.eq_append_of_afterWord? found).1
  -- CONSTANT is looked for first; a text that begins with DECLARE does not begin with it.
  have other : afterWord? Keyword.constant (Text.trimStart spec) = none := by
    rw [text, begins]
    rfl
  have again : afterWord? Keyword.declare (Text.trimStart spec) = some (body ++ blanks) := by
    rw [text]
    exact Text.afterWord?_append_blanks (by decide) found blank
  rw [declare]
  dsimp only
  rw [other, base, readDeclaration, again]
  dsimp only
  rw [Declaration.read_append_blanks read blank]

theorem declare_eq_define {s : Store} {spec body : Text} {name : Spanned Text}
    {value : Spanned Value}
    (found : afterWord? Keyword.constant (trimmed 0 spec).node = some body)
    (read : Statement.readConstant ((trimmed 0 spec).span.start + bytes Keyword.constant) body =
      .ok (name, value)) :
    s.declare spec = s.settle (s.define name value.node) := by
  obtain ⟨base, blanks, text, blank⟩ := Text.trimStart_eq_append spec
  have again : afterWord? Keyword.constant (Text.trimStart spec) = some (body ++ blanks) := by
    rw [text]
    exact Text.afterWord?_append_blanks (by decide) found blank
  rw [declare]
  dsimp only
  rw [again, base]
  dsimp only
  rw [Statement.readConstant_append_blanks read blank]
  rfl

end Store

theorem unplaced_map {α β : Type} {r s : Result α} (same : unplaced r = unplaced s) (f : α → β) :
    unplaced (r.map f) = unplaced (s.map f) := by
  have moved (r : Result α) : unplaced (r.map f) = (unplaced r).map f := by cases r <;> rfl
  rw [moved, moved, same]

theorem unplaced_orSpan {α : Type} (r : Result α) (place other : Span) :
    unplaced (r.mapError (·.orSpan place)) = unplaced (r.mapError (·.orSpan other)) := by
  cases r <;> rfl

namespace Target

variable {target other : Spanned Target}

theorem display_of_bare {target other : Target} (same : target.bare = other.bare) :
    target.display = other.display := by
  have shown (target : Target) : target.bare.display = target.display := by cases target <;> rfl
  rw [← shown, same, shown]

theorem unplaced_locate (s : Store) {target other : Target} (same : target.bare = other.bare) :
    unplaced (Slot.locate s target) = unplaced (Slot.locate s other) := by
  rcases target with name | ⟨name, index⟩
  · rcases other with name' | ⟨name', index'⟩
    · cases same
      rfl
    · cases same
  · rcases other with name' | ⟨name', index'⟩
    · cases same
    · obtain ⟨names, indices⟩ := Target.element.inj same
      rw [Spanned.bare_eq_iff] at indices
      subst names
      apply unplaced_map
      rw [Expression.indexValue, Expression.indexValue, indices]
      exact Expression.unplaced_toIndex _ _ _

theorem unplaced_write (s : Store) (same : target.node.bare = other.node.bare) (v : Value) :
    unplaced (write s target v) = unplaced (write s other v) :=
  unplaced_bind (unplaced_locate s same) fun _ => unplaced_orSpan _ target.span other.span

theorem unplaced_check (s : Store) (same : target.node.bare = other.node.bare) :
    unplaced (check s target) = unplaced (check s other) :=
  unplaced_bind (unplaced_locate s same) fun _ =>
    unplaced_bind (unplaced_orSpan _ target.span other.span) fun _ => rfl

theorem unplaced_store (s : Store) (same : target.node.bare = other.node.bare) (line : Text) :
    unplaced (store s target line) = unplaced (store s other line) := by
  apply unplaced_bind (unplaced_check s same)
  intro found
  obtain ⟨slot, type⟩ := found
  dsimp only
  cases type.ofInput? line with
  | none =>
      rw [display_of_bare same]
      rfl
  | some value => exact unplaced_orSpan _ target.span other.span

theorem exists_read_display {base : Nat} {t : Text} (made : read base t = .ok target) :
    ∃ found, read 0 target.node.display = .ok found ∧ target.node.bare = found.node.bare := by
  obtain ⟨found, again, same⟩ :=
    (legible_of_read made).read_display 0 (List.forall_mem_nil _) (List.forall_mem_nil _)
  rw [List.nil_append, List.append_nil] at again
  exact ⟨found, again, same.symm⟩

end Target

namespace Store

theorem unplaced_assign (s : Store) {base : Nat} {t : Text} {target : Spanned Target}
    (read : Target.read base t = .ok target) (expr : Spanned Text) :
    unplaced (do
      let value ← Expression.evaluateAt s expr
      Target.write s target value) = unplaced (s.assign target.node.display expr.node) := by
  obtain ⟨found, again, same⟩ := Target.exists_read_display read
  rw [assign, again]
  apply unplaced_bind
  · rw [Expression.evaluateAt]
    apply unplaced_mapError
    exact fun _ => rfl
  · exact Target.unplaced_write s same

theorem unplaced_input (s : Store) {base : Nat} {t : Text} {target : Spanned Target}
    (read : Target.read base t = .ok target) (line : Text) :
    unplaced (Target.store s target line) = unplaced (s.input target.node.display line) := by
  obtain ⟨found, again, same⟩ := Target.exists_read_display read
  rw [input, again]
  exact Target.unplaced_store s same line

end Store

namespace Machine

/-- A statement's machine and result, and the outcome of an operation on the store: the same store,
and both succeed or both fail with the same kind and message. -/
structure Matches (ran : Machine × Result Unit) (outcome : Outcome) : Prop where
  store : ran.1.store = outcome.1
  result : ran.2.mapError (fun e => (e.kind, e.message)) =
    outcome.2.mapError fun e => (e.kind, e.message)

theorem matches_settle (m : Machine) {r s : Result Store} (same : unplaced r = unplaced s) :
    Matches (m.withStore (m.store.settle r)) (m.store.settle s) := by
  cases r with
  | ok next =>
      rw [eq_ok_of_unplaced same rfl]
      exact ⟨rfl, rfl⟩
  | error e =>
      cases s with
      | ok next => cases same
      | error f =>
          have cause : e.cause = f.cause := Except.error.inj same
          refine ⟨rfl, ?_⟩
          show Except.error (e.cause.kind, e.cause.message) = Except.error _
          rw [cause]
          rfl

/-- For any machine and any line that holds a statement: a DECLARE or CONSTANT does what `declare`
does with the line up to its comment, an assignment what `assign` does with the written form of its
target and the text of its expression, and an INPUT whose target may be read into what `input` does
with the written form of its target and the next line, provided that there is one and it is text. -/
theorem execute_matches_operation {line : Text} {statement : Spanned Statement}
    (read : Statement.ofLine line = .ok (some statement)) (m : Machine) :
    (∀ d, statement.node = .declare d →
      Matches (m.execute statement.node) (m.store.declare (stripComment line))) ∧
    (∀ name value, statement.node = .constant name value →
      Matches (m.execute statement.node) (m.store.declare (stripComment line))) ∧
    (∀ target expr, statement.node = .assign target expr →
      Matches (m.execute statement.node)
        (m.store.settle (m.store.assign target.node.display expr.node))) ∧
    (∀ target found text, statement.node = .input target →
      Target.check m.store target = .ok found → (nextLine m.input).1 ≠ [] →
        Text.decode (nextLine m.input).1 = some text →
          Matches (m.execute statement.node)
            (m.store.settle (m.store.input target.node.display (Text.trimLineEnd text)))) := by
  rcases Statement.readCode_cases (Statement.readCode_of_ofLine read) with
    ⟨body, d, found, made, node⟩ | ⟨body, name, value, found, made, node⟩ |
    ⟨body, target, _, made, node⟩ | ⟨body, exprs, _, _, node⟩ |
    ⟨front, rest, target, _, made, node⟩
  · rw [node]
    refine ⟨fun _ _ => ?_, by simp, by simp, by simp⟩
    rw [Store.declare_eq_apply found made]
    exact ⟨rfl, rfl⟩
  · rw [node]
    refine ⟨by simp, fun _ _ _ => ?_, by simp, by simp⟩
    rw [Store.declare_eq_define found made]
    exact ⟨rfl, rfl⟩
  · rw [node]
    refine ⟨by simp, by simp, by simp, ?_⟩
    intro other checked text same check some decoded
    cases same
    have step : m.readInto target = { m with input := (nextLine m.input).2 }.withStore
        (m.store.settle (Target.store m.store target (Text.trimLineEnd text))) := by
      rw [readInto, check]
      dsimp only
      rw [if_neg (by simpa using some), decoded]
    rw [execute, step]
    exact matches_settle { m with input := (nextLine m.input).2 }
      (Store.unplaced_input m.store made (Text.trimLineEnd text))
  · rw [node]
    exact ⟨by simp, by simp, by simp, by simp⟩
  · rw [node]
    refine ⟨by simp, by simp, ?_, by simp⟩
    intro other expr same
    cases same
    exact matches_settle m (Store.unplaced_assign m.store made _)

/-- `INPUT n` refuses the line `seven` in the words in which `input` refuses it. -/
theorem execute_matches_operation_input :
    let m : Machine :=
      { store := { entries := [("n".toList, .scalar .integer .unset)] }
        input := Text.encode "seven\r\n".toList }
    let target : Spanned Target := ⟨.variable "n".toList, ⟨8, 9⟩⟩
    Statement.ofLine "  INPUT n // how many".toList = .ok (some ⟨.input target, ⟨2, 9⟩⟩) ∧
      Matches (m.execute (.input target))
        (m.store.settle (m.store.input "n".toList "seven".toList)) := by
  intro m target
  have read : Statement.ofLine "  INPUT n // how many".toList =
      .ok (some ⟨.input target, ⟨2, 9⟩⟩) := by decide +kernel
  have line : (nextLine m.input).1 = Text.encode "seven\r\n".toList := by decide +kernel
  have check : Target.check m.store target = .ok (.scalar "n".toList, .integer) := by
    decide +kernel
  have nonempty : (nextLine m.input).1 ≠ [] := by
    rw [line]
    decide +kernel
  have text : Text.decode (nextLine m.input).1 = some "seven\r\n".toList := by
    rw [line]
    exact Text.decode_encode _
  exact ⟨read, (execute_matches_operation read m).2.2.2 target _ _ rfl check nonempty text⟩

end Machine

end Pseudocode
