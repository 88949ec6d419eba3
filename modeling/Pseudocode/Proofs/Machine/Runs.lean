import Pseudocode.Proofs.Machine.Lines

set_option autoImplicit false

namespace Pseudocode

open Text (bytes trimLineEnd)

/-- The failure of a later part of a source, told from its beginning; `lines` lines in `offset`
bytes stand before the part. -/
def LineFailure.after (f : LineFailure) (lines offset : Nat) : LineFailure :=
  ⟨f.line + lines, f.failure.shift offset⟩

theorem Failure.shift_zero (f : Failure) : f.shift 0 = f := by
  obtain ⟨cause, span⟩ := f
  cases span <;> rfl

theorem Failure.shift_shift (f : Failure) (m n : Nat) : (f.shift m).shift n = f.shift (m + n) := by
  simp only [shift, Option.map_map]
  congr
  funext span
  exact span.shift_shift m n

theorem LineFailure.after_zero (f : LineFailure) : f.after 0 0 = f := by
  simp only [after, f.failure.shift_zero, Nat.add_zero]

theorem LineFailure.after_after (f : LineFailure) (lines lines' offset offset' : Nat) :
    (f.after lines offset).after lines' offset' = f.after (lines' + lines) (offset' + offset) := by
  have lineNumber : f.line + lines + lines' = f.line + (lines' + lines) := by omega
  rw [after, after, f.failure.shift_shift, lineNumber, Nat.add_comm offset]
  rfl

namespace RunReport

def followedBy (first : RunReport) (offset : Nat) (second : RunReport) : RunReport where
  lines := first.lines + second.lines
  executed := first.executed + second.executed
  failed := first.failed + second.failed
  errors := first.errors ++ second.errors.map (·.after first.lines offset)

/-- The report of a single line. -/
def ofLine : Result Bool → RunReport
  | .ok true => { lines := 1, executed := 1 }
  | .ok false => { lines := 1 }
  | .error e => { lines := 1, failed := 1, errors := [⟨1, e⟩] }

theorem followedBy_empty (r : RunReport) (offset : Nat) : r.followedBy offset {} = r := by
  simp [followedBy]

theorem empty_followedBy (r : RunReport) : followedBy {} 0 r = r := by
  simp [followedBy, LineFailure.after_zero]

theorem followedBy_assoc (a b c : RunReport) (offset offset' : Nat) :
    (a.followedBy offset b).followedBy (offset + offset') c =
      a.followedBy offset (b.followedBy offset' c) := by
  simp only [followedBy, Nat.add_assoc, List.append_assoc, List.map_append, List.map_map,
    Function.comp_def, LineFailure.after_after]

/-- A report whose failures are counted and come in the order of their lines. -/
structure Ordered (r : RunReport) : Prop where
  counted : r.failed = r.errors.length
  numbered : ∀ error ∈ r.errors, 1 ≤ error.line ∧ error.line ≤ r.lines
  increasing : r.errors.Pairwise fun error later => error.line < later.line

theorem ordered_empty : Ordered {} :=
  ⟨rfl, List.forall_mem_nil _, List.Pairwise.nil⟩

theorem ordered_ofLine (result : Result Bool) : (ofLine result).Ordered := by
  rcases result with e | _ | _
  · exact ⟨rfl, by simp [ofLine], List.pairwise_singleton _ _⟩
  · exact ⟨rfl, List.forall_mem_nil _, List.Pairwise.nil⟩
  · exact ⟨rfl, List.forall_mem_nil _, List.Pairwise.nil⟩

theorem Ordered.followedBy {first second : RunReport} (one : first.Ordered) (two : second.Ordered)
    (offset : Nat) : (first.followedBy offset second).Ordered := by
  have moved : ∀ error ∈ second.errors.map (·.after first.lines offset),
      first.lines + 1 ≤ error.line ∧ error.line ≤ first.lines + second.lines := by
    intro error member
    obtain ⟨inner, own, rfl⟩ := List.mem_map.mp member
    have bounds := two.numbered inner own
    show _ ≤ inner.line + first.lines ∧ inner.line + first.lines ≤ _
    omega
  refine ⟨?_, ?_, ?_⟩
  · show first.failed + second.failed = _
    rw [one.counted, two.counted]
    simp [RunReport.followedBy]
  · intro error member
    show 1 ≤ error.line ∧ error.line ≤ first.lines + second.lines
    rcases List.mem_append.mp member with earlier | later
    · have bounds := one.numbered error earlier
      omega
    · have bounds := moved error later
      omega
  · refine List.pairwise_append.mpr ⟨one.increasing, ?_, ?_⟩
    · refine List.Pairwise.map _ ?_ two.increasing
      intro error later before
      exact Nat.add_lt_add_right before first.lines
    · intro error earlier later member
      have before := one.numbered error earlier
      have bounds := moved later member
      omega

end RunReport

theorem sourceLines_cons_of_ne {c : Char} {t line : Text} {rest : List Text} (other : c ≠ '\n')
    (lines : sourceLines t = line :: rest) : sourceLines (c :: t) = (c :: line) :: rest := by
  rw [sourceLines, if_neg other, lines]

/-- A line that ends with a line feed is finished, whatever comes after it. -/
theorem sourceLines_append_feed (front back : Text) :
    sourceLines (front ++ '\n' :: back) = sourceLines (front ++ ['\n']) ++ sourceLines back := by
  induction front with
  | nil => rfl
  | cons c front ih =>
      by_cases feed : c = '\n'
      · simp only [List.cons_append, sourceLines, if_pos feed, ih]
      · cases lines : sourceLines (front ++ ['\n']) with
        | nil =>
            have whole := flatten_sourceLines (front ++ ['\n'])
            rw [lines] at whole
            exact absurd whole.symm (by simp)
        | cons line rest =>
            rw [lines] at ih
            rw [List.cons_append, List.cons_append, sourceLines_cons_of_ne feed ih,
              sourceLines_cons_of_ne feed lines]
            rfl

theorem length_sourceLines_feed (front : Text) :
    (sourceLines (front ++ ['\n'])).length = (front ++ ['\n']).count '\n' := by
  induction front with
  | nil => rfl
  | cons c front ih =>
      rw [List.cons_append]
      by_cases feed : c = '\n'
      · rw [sourceLines, if_pos feed, List.length_cons, ih, feed, List.count_cons_self]
      · rw [List.count_cons_of_ne feed, ← ih]
        cases lines : sourceLines (front ++ ['\n']) with
        | nil =>
            have whole := flatten_sourceLines (front ++ ['\n'])
            rw [lines] at whole
            exact absurd whole.symm (by simp)
        | cons line rest =>
            rw [sourceLines_cons_of_ne feed lines, List.length_cons, List.length_cons]

namespace Machine

theorem runLines_line (m : Machine) (offset : Nat) (report : RunReport) (line : Text)
    (rest : List Text) :
    m.runLines offset report (line :: rest) =
      (m.executeLine (trimLineEnd line)).1.runLines (offset + bytes line)
        (report.followedBy offset (.ofLine (m.executeLine (trimLineEnd line)).2)) rest := by
  rw [runLines]
  rcases m.executeLine (trimLineEnd line) with ⟨next, e | _ | _⟩
  · simp only [RunReport.followedBy, RunReport.ofLine, List.map_cons, List.map_nil,
      LineFailure.after, Nat.add_comm 1, Nat.add_zero]
  · simp [RunReport.followedBy, RunReport.ofLine]
  · simp [RunReport.followedBy, RunReport.ofLine]

/-- What comes before a run neither changes what it does nor what it reports. -/
theorem runLines_eq (m : Machine) (offset : Nat) (report : RunReport) (lines : List Text) :
    m.runLines offset report lines =
      ((m.runLines 0 {} lines).1, report.followedBy offset (m.runLines 0 {} lines).2) := by
  induction lines generalizing m offset report with
  | nil => exact congrArg (m, ·) (report.followedBy_empty offset).symm
  | cons line rest ih =>
      rw [runLines_line, ih, runLines_line m 0, ih _ (0 + bytes line)]
      simp only [RunReport.empty_followedBy, Nat.zero_add, RunReport.followedBy_assoc]

theorem runLines_append (m : Machine) (offset : Nat) (report : RunReport)
    (lines more : List Text) :
    m.runLines offset report (lines ++ more) =
      (m.runLines offset report lines).1.runLines (offset + bytes lines.flatten)
        (m.runLines offset report lines).2 more := by
  induction lines generalizing m offset report with
  | nil => rfl
  | cons line rest ih =>
      rw [List.cons_append, runLines_line, ih, runLines_line m offset report line rest,
        List.flatten_cons, Text.bytes_append, Nat.add_assoc]

theorem ordered_runLines (m : Machine) (lines : List Text) :
    (m.runLines 0 {} lines).2.Ordered := by
  induction lines generalizing m with
  | nil => exact RunReport.ordered_empty
  | cons line rest ih =>
      rw [runLines_line, runLines_eq, RunReport.empty_followedBy]
      exact (RunReport.ordered_ofLine _).followedBy (ih _) _

theorem lines_runLines (m : Machine) (lines : List Text) :
    (m.runLines 0 {} lines).2.lines = lines.length := by
  induction lines generalizing m with
  | nil => rfl
  | cons line rest ih =>
      have single (result : Result Bool) : (RunReport.ofLine result).lines = 1 := by
        rcases result with e | _ | _ <;> rfl
      rw [runLines_line, runLines_eq, RunReport.empty_followedBy]
      show (RunReport.ofLine _).lines + _ = _
      rw [single, ih, List.length_cons, Nat.add_comm]

/-- A source whose first part is empty or ends with a line feed is run as its two parts one after
the other: the machine ends up alike, the failures of the second part are moved by the lines and the
bytes of the first, and the counts add up. Every failure is counted, and failures come in the order
of their lines, no two in one line. -/
theorem run_in_two_parts (m : Machine) {first : Text} (second : Text)
    (ends : first = [] ∨ ∃ front, first = front ++ ['\n']) :
    let one := m.run first
    let two := one.1.run second
    let both := m.run (first ++ second)
    both.1 = two.1 ∧
      both.2.errors = one.2.errors ++ two.2.errors.map (fun error =>
        ⟨error.line + first.count '\n', error.failure.shift (bytes first)⟩) ∧
      one.2.lines = first.count '\n' ∧
      both.2.lines = one.2.lines + two.2.lines ∧
      both.2.executed = one.2.executed + two.2.executed ∧
      both.2.failed = one.2.failed + two.2.failed ∧
      both.2.failed = both.2.errors.length ∧
      both.2.errors.Pairwise fun error later => error.line < later.line := by
  intro one two both
  have cut : sourceLines (first ++ second) = sourceLines first ++ sourceLines second := by
    rcases ends with rfl | ⟨front, rfl⟩
    · rfl
    · rw [List.append_assoc]
      exact sourceLines_append_feed front second
  have counted : one.2.lines = first.count '\n' := by
    have lines : one.2.lines = (sourceLines first).length := m.lines_runLines _
    rw [lines]
    rcases ends with rfl | ⟨front, rfl⟩
    · rfl
    · exact length_sourceLines_feed front
  have whole : both = (two.1, one.2.followedBy (bytes first) two.2) := by
    show m.runLines 0 {} _ = _
    rw [cut, runLines_append, flatten_sourceLines, runLines_eq, Nat.zero_add]
    rfl
  have ordered : both.2.Ordered := m.ordered_runLines _
  refine ⟨?_, ?_, counted, ?_, ?_, ?_, ordered.counted, ordered.increasing⟩
  · rw [whole]
  · rw [whole, ← counted]
    rfl
  · rw [whole]
    rfl
  · rw [whole]
    rfl
  · rw [whole]
    rfl

/-- The first part has two lines in 22 bytes. Its second line fails, and so does the second line of
the other part, which is the fourth line of the whole. -/
theorem run_in_two_parts_misspelt :
    let first : Text := "OUTPUT \"é\"\r\nOUTPUT a\n".toList
    let second : Text := "\nOUTPUT b".toList
    let failure (name : Char) (start : Nat) : Failure :=
      ⟨.undeclared [name] none, some ⟨start, start + 1⟩⟩
    (∃ front, first = front ++ ['\n']) ∧
      (run {} first).2.errors = [⟨2, failure 'a' 20⟩] ∧
      ((run {} first).1.run second).2.errors = [⟨2, failure 'b' 8⟩] ∧
      (run {} (first ++ second)).2.errors = [⟨2, failure 'a' 20⟩, ⟨4, failure 'b' 30⟩] ∧
      (run {} (first ++ second)).1.output.written = Text.encode ['é', '\n'] := by
  intro first second failure
  have ends : first = "OUTPUT \"é\"\r\nOUTPUT a".toList ++ ['\n'] := by decide
  have one : (run {} first).2.errors = [⟨2, failure 'a' 20⟩] := by decide +kernel
  have two : ((run {} first).1.run second).2.errors = [⟨2, failure 'b' 8⟩] := by decide +kernel
  have written : ((run {} first).1.run second).1.output.written = Text.encode ['é', '\n'] := by
    decide +kernel
  obtain ⟨machine, errors, _⟩ := run_in_two_parts {} second (.inr ⟨_, ends⟩)
  refine ⟨⟨_, ends⟩, one, two, ?_, ?_⟩
  · rw [errors, one, two]
    decide
  · rw [machine, written]

end Machine

end Pseudocode
