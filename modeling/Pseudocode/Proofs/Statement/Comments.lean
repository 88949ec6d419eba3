import Pseudocode.Proofs.Expression.Parentheses
import Pseudocode.Proofs.Text.Comment
import Pseudocode.Statement.Reader

set_option autoImplicit false

namespace Pseudocode

open Text (trim trimmed afterWord? breakOuter stripComment isBlank)

/-- A failure of a line that was recognised as a statement of some form. -/
def Failure.Recognised (e : Failure) : Prop :=
  e.cause ≠ .malformedStatement .noStatement

open Failure (Recognised)

theorem failStatement_recognised {α : Type} (span : Span) {fault : StatementFault}
    (other : fault ≠ .noStatement) : FailsAs Recognised (failStatement span fault : Result α) :=
  fun same => other (Cause.malformedStatement.inj same)

namespace Bounds

theorem readBound_recognised (span : Span) (t : Text) :
    FailsAs Recognised (readBound span t) := by
  unfold readBound
  split
  · trivial
  · exact failStatement_recognised span nofun

theorem readContent_recognised (span : Span) (content : Text) :
    FailsAs Recognised (readContent span content) := by
  unfold readContent
  split
  · exact failStatement_recognised span nofun
  · split
    · exact failStatement_recognised span nofun
    · apply (readBound_recognised span _).bind
      intro lower _
      exact (readBound_recognised span _).bind fun _ _ => trivial

theorem read_recognised (base : Nat) (t : Text) : FailsAs Recognised (read base t) := by
  unfold read
  split
  · split
    · exact failStatement_recognised _ nofun
    · exact (readContent_recognised _ _).bind fun _ _ => trivial
  · exact failStatement_recognised _ nofun

end Bounds

namespace Declaration

theorem readName_recognised (base stop : Nat) (part : Nat × Text) :
    FailsAs Recognised (readName base stop part) := by
  unfold readName
  dsimp only
  split
  · exact failStatement_recognised _ nofun
  · trivial

theorem readType_recognised (t : Spanned Text) : FailsAs Recognised (readType t) := by
  unfold readType
  split
  · trivial
  · apply (Bounds.read_recognised _ _).bind
    intro found _
    dsimp only
    split
    · exact failStatement_recognised _ nofun
    · trivial

theorem read_recognised (base : Nat) (body : Text) : FailsAs Recognised (read base body) := by
  unfold read
  split
  · exact failStatement_recognised _ nofun
  · apply FailsAs.bind (Ensures.mapM fun part _ => readName_recognised base _ part).fails
    intro names _
    apply (readType_recognised _).bind
    intro found _
    dsimp only
    split
    · exact failStatement_recognised _ nofun
    · trivial

end Declaration

namespace Target

theorem checkName_recognised (span : Span) (name : Text) :
    FailsAs Recognised (checkName span name) := by
  unfold checkName
  split
  · trivial
  · exact failStatement_recognised span nofun

theorem read_recognised (base : Nat) (t : Text) : FailsAs Recognised (read base t) := by
  unfold read
  dsimp only
  split
  · exact failStatement_recognised _ nofun
  · split
    · exact (checkName_recognised _ _).bind fun _ _ => trivial
    · split
      · exact failStatement_recognised _ nofun
      · split
        · exact failStatement_recognised _ nofun
        · exact (checkName_recognised _ _).bind fun _ _ => trivial

end Target

namespace Statement

theorem recognised_of_kind {e : Failure} (other : e.kind ≠ .malformedStatement) : e.Recognised := by
  intro same
  apply other
  rw [Failure.kind, same]
  rfl

theorem literalValue_recognised (tokens : List Token) :
    FailsAs Recognised (literalValue tokens) := by
  have number (text : Text) : FailsAs Recognised (Arithmetic.literal text) := by
    refine (Arithmetic.literal_fails_as text).weaken fun e kinds => recognised_of_kind ?_
    rcases kinds with kind | kind <;> simp [kind]
  unfold literalValue
  split
  · exact number _
  · exact number _
  · trivial
  · trivial
  · trivial
  · nofun

theorem readConstant_recognised (base : Nat) (body : Text) :
    FailsAs Recognised (readConstant base body) := by
  have tokens (t : Text) (offset : Nat) :
      FailsAs Recognised ((tokenize t).mapError (·.shift offset)) := by
    refine (tokenize_malformed t).mapError fun e malformed => recognised_of_kind ?_
    simp [show (e.shift offset).kind = _ from malformed]
  have literal (found : List Token) (span : Span) :
      FailsAs Recognised ((literalValue found).mapError (·.orSpan span)) :=
    (literalValue_recognised found).mapError fun _ recognised => recognised
  unfold readConstant
  split
  · exact failStatement_recognised _ nofun
  · show FailsAs _ (if _ then _ else _)
    split
    · exact failStatement_recognised _ nofun
    · apply (tokens _ _).bind
      intro found _
      exact (literal _ _).bind fun _ _ => trivial

theorem readOutputPart_recognised (base : Nat) (part : Nat × Text) :
    FailsAs Recognised (readOutputPart base part) := by
  unfold readOutputPart
  dsimp only
  split
  · exact failStatement_recognised _ nofun
  · trivial

/-- Whether there is a keyword or an arrow that makes a statement of a text. -/
def opens (code : Text) : Bool :=
  Keyword.opening.any (fun word => (afterWord? word code).isSome) ||
    (breakOuter Keyword.arrow code).isSome

theorem isMeant_eq (line : Text) : isMeant line = opens (trim (stripComment line)) := rfl

theorem opens_eq_false_iff (code : Text) :
    opens code = false ↔ afterWord? Keyword.declare code = none ∧
      afterWord? Keyword.constant code = none ∧ afterWord? Keyword.input code = none ∧
      afterWord? Keyword.output code = none ∧ breakOuter Keyword.arrow code = none := by
  simp [opens, Keyword.opening, and_assoc]

theorem readCode_recognised {code : Spanned Text} (opened : opens code.node = true) :
    FailsAs Recognised (readCode code) := by
  unfold readCode
  dsimp only
  split
  · exact (Declaration.read_recognised _ _).map
  · rename_i declare
    split
    · exact (readConstant_recognised _ _).map
    · rename_i constant
      split
      · exact (Target.read_recognised _ _).map
      · rename_i input
        split
        · exact FailsAs.map (Ensures.mapM fun part _ => readOutputPart_recognised _ part).fails
        · rename_i output
          split
          · split
            · exact failStatement_recognised _ nofun
            · exact (Target.read_recognised _ _).map
          · rename_i arrow
            have unopened : opens code.node = false := by
              simp only [opens_eq_false_iff, Option.eq_none_iff_forall_ne_some]
              exact ⟨declare, constant, input, output, fun cut => arrow cut.1 cut.2⟩
            rw [unopened] at opened
            cases opened

theorem readCode_unopened {code : Spanned Text} (unopened : opens code.node = false) :
    readCode code = failStatement code.span .noStatement := by
  obtain ⟨declare, constant, input, output, arrow⟩ := (opens_eq_false_iff _).mp unopened
  simp only [readCode, declare, constant, input, output, arrow]

/-- Blanks after the code of a line are no part of the statement. -/
theorem ofLine_append_blanks {line other blanks : Text} (blank : ∀ c ∈ blanks, isBlank c = true)
    (code : stripComment other = stripComment line ++ blanks) :
    ofLine other = ofLine line ∧ isMeant other = isMeant line := by
  have same : trim (stripComment other) = trim (stripComment line) := by
    rw [code, Text.trim_append_blanks _ blank]
  refine ⟨?_, by rw [isMeant_eq, isMeant_eq, same]⟩
  by_cases none : trim (stripComment line) = []
  · have empty (t : Text) (blank : trim t = []) : (trimmed 0 t).node.isEmpty = true := by
      rw [List.isEmpty_iff]
      exact blank
    simp only [ofLine, empty _ none, empty _ (same.trans none), if_true]
  · rw [ofLine, code, Text.trimmed_append_blanks none blank, ofLine]

/-- A line is read as its code. -/
theorem ofLine_stripComment (line : Text) :
    ofLine (stripComment line) = ofLine line ∧ isMeant (stripComment line) = isMeant line :=
  ofLine_append_blanks (List.forall_mem_nil _)
    (by rw [Text.stripComment_stripComment, List.append_nil])

/-- A line is meant as a statement exactly if it holds code that is not reported as no statement. -/
theorem isMeant_iff (line : Text) :
    isMeant line = true ↔ ofLine line ≠ .ok none ∧ ∀ e, ofLine line = .error e → e.Recognised := by
  have code : (trimmed 0 (stripComment line)).node = trim (stripComment line) := rfl
  rw [isMeant_eq, ← code]
  by_cases none : (trimmed 0 (stripComment line)).node.isEmpty = true
  · have read : ofLine line = .ok .none := if_pos none
    have unopened : opens [] = false := by decide
    simp [List.isEmpty_iff.mp none, read, unopened]
  · have read : ofLine line = (readCode (trimmed 0 (stripComment line))).map fun s =>
        some ⟨s, (trimmed 0 (stripComment line)).span⟩ := if_neg none
    cases opened : opens (trimmed 0 (stripComment line)).node with
    | true =>
        have recognised := readCode_recognised opened
        cases made : readCode (trimmed 0 (stripComment line)) with
        | error e =>
            rw [made] at recognised
            have here : e.Recognised := recognised
            simpa [read, made, Except.map] using here
        | ok s => simp [read, made, Except.map]
    | false => simp [read, readCode_unopened opened, failStatement, failAt, Except.map, Recognised]

/-- Comments are invisible to statements: a comment after a line that ends outside quotes or has a
comment already changes neither what is read from it, places and failures included, nor whether it
is meant as a statement; code has no comment left in it; and a line is meant as a statement exactly
if it is neither empty nor reported as no statement. -/
theorem comments_are_invisible :
    (∀ line blanks after : Text, Text.Commentable line → blanks ≠ [] →
      (∀ c ∈ blanks, isBlank c = true) →
        ofLine (line ++ (blanks ++ '/' :: '/' :: after)) = ofLine line ∧
          isMeant (line ++ (blanks ++ '/' :: '/' :: after)) = isMeant line) ∧
    (∀ line : Text, stripComment (stripComment line) = stripComment line) ∧
    ∀ line : Text, isMeant line = true ↔
      ofLine line ≠ .ok none ∧
        ∀ e, ofLine line = .error e → e.cause ≠ .malformedStatement .noStatement := by
  refine ⟨?_, Text.stripComment_stripComment, isMeant_iff⟩
  intro line blanks after commentable some blank
  obtain ⟨more, blank, code⟩ := Text.exists_stripComment_append commentable some blank after
  exact ofLine_append_blanks blank code

/-- A line that ends with a slash after quoted slashes, and a comment with quotes in it. -/
theorem comments_are_invisible_quotes :
    Text.Commentable "x <- \"a // 'b\" / ".toList ∧
    ofLine "x <- \"a // 'b\" /  \t// it's \" here".toList =
      ofLine "x <- \"a // 'b\" / ".toList ∧
    isMeant "x <- \"a // 'b\" / ".toList = true := by
  have commentable : Text.Commentable "x <- \"a // 'b\" / ".toList := .inr (by decide)
  refine ⟨commentable, ?_, by decide⟩
  exact (comments_are_invisible.1 _ " \t".toList " it's \" here".toList commentable
    (by decide) (List.all_eq_true.mp (by decide))).1

end Statement

end Pseudocode
