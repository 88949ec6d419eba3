import Pseudocode.Console
import Pseudocode.Proofs.Expression.Comments
import Pseudocode.Proofs.Machine.Frame
import Pseudocode.Proofs.Statement.Comments

set_option autoImplicit false

namespace Pseudocode

open Text (trim stripComment splitOuter)
open Statement (isMeant)

namespace Console

def failure? (c : Console) (line : Text) : Option Failure :=
  if isMeant line then
    match (c.machine.executeLine line).2 with
    | .ok _ => none
    | .error e => some e
  else
    match Expression.evaluate c.machine.store line with
    | .ok _ => none
    | .error e => some e

theorem machine_enter (c : Console) (line : Text) :
    (c.enter line).machine =
      if isMeant line then (c.machine.executeLine line).1
      else
        match Expression.evaluate c.machine.store line with
        | .ok v => (c.print (v.display ++ ['\n'])).machine
        | .error _ => c.machine := by
  unfold enter
  split
  · rcases c.machine.executeLine line with ⟨machine, e | done⟩ <;> rfl
  · cases Expression.evaluate c.machine.store line <;> rfl

/-- A line that fails is reported, and no other. -/
theorem errors_enter (c : Console) (line : Text) :
    (c.enter line).errors =
      ((c.failure? line).map fun e => (c.report line e).errors).getD c.errors := by
  unfold enter failure?
  split
  · rcases c.machine.executeLine line with ⟨machine, e | done⟩ <;> rfl
  · cases Expression.evaluate c.machine.store line <;> rfl

/-- What a line changes and prints, and the kind of failure that it is reported with. -/
def effect (c : Console) (line : Text) : Machine × Option Kind :=
  ((c.enter line).machine, (c.failure? line).map Failure.kind)

/-- A line has the effect of its code, or none if there is no code. -/
def IgnoresComment (c : Console) (line : Text) : Prop :=
  (trim (stripComment line) ≠ [] → c.effect line = c.effect (stripComment line)) ∧
    (trim (stripComment line) = [] → c.effect line = (c.machine, none))

def shown (r : Result Value) : Except Kind Text :=
  (r.map Value.display).mapError Failure.kind

theorem print_inj {c : Console} (unlimited : c.machine.output.capacity = none) {t u : Text}
    (same : (c.print t).machine = (c.print u).machine) : t = u := by
  have written := congrArg (·.output.written) same
  simp only [print, Output.write, unlimited, List.append_cancel_left_eq] at written
  have decoded := congrArg Text.decode written
  rwa [Text.decode_encode, Text.decode_encode, Option.some.injEq] at decoded

theorem effect_of_expression {c : Console} {line : Text} (unmeant : isMeant line = false) :
    c.effect line =
      match shown (Expression.evaluate c.machine.store line) with
      | .ok text => ((c.print (text ++ ['\n'])).machine, none)
      | .error kind => (c.machine, some kind) := by
  rw [effect, machine_enter, failure?, unmeant]
  cases Expression.evaluate c.machine.store line <;> rfl

theorem effect_eq_iff {c : Console} (unlimited : c.machine.output.capacity = none)
    {line other : Text} (unmeant : isMeant line = false) (unmeant' : isMeant other = false) :
    c.effect line = c.effect other ↔
      shown (Expression.evaluate c.machine.store line) =
        shown (Expression.evaluate c.machine.store other) := by
  rw [effect_of_expression unmeant, effect_of_expression unmeant']
  cases shown (Expression.evaluate c.machine.store line) with
  | error kind =>
      cases shown (Expression.evaluate c.machine.store other) with
      | error kind' => simp
      | ok text => simp
  | ok text =>
      cases shown (Expression.evaluate c.machine.store other) with
      | error kind => simp
      | ok text' =>
          simp only [Prod.mk.injEq, and_true, Except.ok.injEq]
          constructor
          · intro same
            exact List.append_cancel_right (print_inj unlimited same)
          · rintro rfl
            rfl

theorem effect_of_statement {c : Console} {line : Text} (meant : isMeant line = true) :
    c.effect line = c.effect (stripComment line) := by
  obtain ⟨read, same⟩ := Statement.ofLine_stripComment line
  have executed : c.machine.executeLine (stripComment line) = c.machine.executeLine line := by
    rw [Machine.executeLine, Machine.executeLine, read]
  simp only [effect, machine_enter, failure?, same, executed, meant, if_true]

theorem isMeant_of_blank {line : Text} (none : trim (stripComment line) = []) :
    isMeant line = false := by
  rw [Statement.isMeant_eq, none]
  decide

/-- Where there is no code, a failure is reported all the same. -/
theorem effect_of_blank {c : Console} {line : Text} (none : trim (stripComment line) = []) :
    (c.effect line).2 ≠ .none := by
  obtain ⟨alone, commented⟩ := Expression.evaluate_fails_of_blank none c.machine.store
  obtain ⟨e, failed⟩ : ∃ e, Expression.evaluate c.machine.store line = .error e := by
    rcases Text.stripComment_cases line with ⟨_, same⟩ | ⟨rest, found⟩
    · rwa [same] at alone
    · obtain ⟨parts, after, rfl⟩ := Text.Outline.eq_append_of_comment? found
      rw [parts]
      exact commented after
  rw [effect_of_expression (isMeant_of_blank none), failed]
  nofun

/-- A line has the effect of its code exactly if it is meant as a statement, or as an expression of
which the same is shown with the comment and without. So a value is not shown where a comment
follows it, if one operand is all that stands before the comment since the last `+`. -/
theorem ignoresComment_iff {c : Console} (unlimited : c.machine.output.capacity = none)
    (line : Text) :
    (c.IgnoresComment line ↔ isMeant line = true ∨ trim (stripComment line) ≠ [] ∧
      shown (Expression.evaluate c.machine.store line) =
        shown (Expression.evaluate c.machine.store (stripComment line))) ∧
    (stripComment line ≠ line → isMeant line = false → ∀ start part t v,
      (splitOuter '+' (stripComment line)).getLast? = some (start, part) →
      tokenize (trim part) = .ok [t] → t.node.isOperand = true →
      Expression.evaluate c.machine.store (stripComment line) = .ok v →
      ¬ c.IgnoresComment line) := by
  have condition : c.IgnoresComment line ↔ isMeant line = true ∨ trim (stripComment line) ≠ [] ∧
      shown (Expression.evaluate c.machine.store line) =
        shown (Expression.evaluate c.machine.store (stripComment line)) := by
    cases meant : isMeant line with
    | true =>
        refine iff_of_true ⟨fun _ => effect_of_statement meant, fun none => ?_⟩ (.inl rfl)
        rw [isMeant_of_blank none] at meant
        cases meant
    | false =>
        have code := (Statement.ofLine_stripComment line).2.trans meant
        rw [IgnoresComment, effect_eq_iff unlimited meant code]
        by_cases none : trim (stripComment line) = []
        · have reported : c.effect line ≠ (c.machine, .none) :=
            fun quiet => effect_of_blank none (congrArg Prod.snd quiet)
          simp [none, reported]
        · simp [none]
  refine ⟨condition, ?_⟩
  intro commented unmeant start part t v last read operand valued ignores
  obtain ⟨rest, found⟩ : ∃ rest, Text.Outline.comment? {} line = some (stripComment line, rest) :=
    (Text.stripComment_cases line).resolve_left fun plain => commented plain.2
  obtain ⟨parts, after, rfl⟩ := Text.Outline.eq_append_of_comment? found
  obtain ⟨e, failed⟩ := Expression.evaluate_fails_of_comment last read (.inr ⟨t, rfl, operand⟩)
    c.machine.store after
  rw [← parts] at failed
  rcases condition.mp ignores with meant | ⟨_, same⟩
  · rw [unmeant] at meant
    cases meant
  · rw [failed, valued] at same
    cases same

/-- An assignment is executed without its comment, but a text is not shown with one. -/
theorem ignoresComment_iff_quoted :
    let c : Console := { machine := Machine.furnished, color := false }
    let statement := "n <- n - 1 // \"one\" less".toList
    let line := "\"n // \" + a[1] // the last".toList
    stripComment statement = "n <- n - 1 ".toList ∧ c.IgnoresComment statement ∧
      stripComment line = "\"n // \" + a[1] ".toList ∧
      Expression.evaluate c.machine.store (stripComment line) = .ok (.string "n // z".toList) ∧
      ¬ c.IgnoresComment line := by
  intro c statement line
  have unlimited : c.machine.output.capacity = none := rfl
  have valued : Expression.evaluate c.machine.store (stripComment line) =
      .ok (.string "n // z".toList) := by decide +kernel
  have last : (splitOuter '+' (stripComment line)).getLast? = some (9, " a[1] ".toList) := by
    decide +kernel
  have read : tokenize (trim " a[1] ".toList) =
      .ok [⟨.element ['a'] ⟨['1'], ⟨2, 3⟩⟩, ⟨0, 4⟩⟩] := by decide +kernel
  refine ⟨by decide +kernel, ?_, by decide +kernel, valued, ?_⟩
  · exact (ignoresComment_iff unlimited statement).1.mpr (.inl (by decide +kernel))
  · exact (ignoresComment_iff unlimited line).2 (by decide +kernel) (by decide +kernel) 9 _ _ _
      last read rfl valued

/-- `2` is shown, but `2 // two` is a quotient with an unknown name, and a comment alone one without
operands. -/
theorem expression_comment_not_ignored :
    let c : Console := { machine := {}, color := false }
    stripComment "2 // two".toList = "2 ".toList ∧
      c.effect "2 ".toList = ({ output := { written := Text.encode "2\n".toList } }, none) ∧
      c.effect "2 // two".toList = ({}, some .undeclaredVariable) ∧
      stripComment "// two".toList = [] ∧
      c.effect "// two".toList = ({}, some .undeclaredVariable) ∧
      ¬ c.IgnoresComment "2 // two".toList ∧ ¬ c.IgnoresComment "// two".toList := by
  intro c
  have code : stripComment "2 // two".toList = "2 ".toList := by decide +kernel
  have value : c.effect "2 ".toList =
      ({ output := { written := Text.encode "2\n".toList } }, none) := by decide +kernel
  have quotient : c.effect "2 // two".toList = ({}, some .undeclaredVariable) := by decide +kernel
  have blank : stripComment "// two".toList = [] := by decide +kernel
  have alone : c.effect "// two".toList = ({}, some .undeclaredVariable) := by decide +kernel
  refine ⟨code, value, quotient, blank, alone, fun ignores => ?_, fun ignores => ?_⟩
  · have same := ignores.1 (by decide +kernel)
    rw [code, value, quotient] at same
    cases same
  · have same := ignores.2 (by decide +kernel)
    rw [alone] at same
    cases same

end Console

end Pseudocode
