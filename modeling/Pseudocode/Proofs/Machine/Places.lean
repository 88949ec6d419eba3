import Pseudocode.Proofs.Expression.Types
import Pseudocode.Proofs.Machine.Lines
import Pseudocode.Proofs.Statement.Places

set_option autoImplicit false

namespace Pseudocode

open Text (bytes slice trimLineEnd StandsAt)
open Failure (Located Pinned Plain About pinned_at)

variable {whole : Text}

namespace Declaration

theorem pinned_blame {d : Declaration} (placed : d.PlacedIn whole) {name : Spanned Text}
    (named : name.span.Within whole) {e : Failure} (plain : e.Plain) :
    (d.blame name e).Pinned whole := by
  unfold blame
  split
  · exact plain.located.orSpan placed.type
  · rename_i bounds _ has
    exact plain.located.orSpan (placed.bounds bounds has)
  · exact plain.located.orSpan named

theorem declareName_pinned {d : Declaration} (placed : d.PlacedIn whole) (s : Store)
    {name : Spanned Text} (named : name.span.Within whole) :
    FailsAs (Pinned whole) (d.declareName s name) := by
  unfold declareName
  apply Ensures.mapError
  · split
    · exact s.declareArray_fails _ _ _ _
    · exact s.declareScalar_fails _ _
  · intro e plain
    exact pinned_blame placed named plain

theorem check_pinned {d : Declaration} (placed : d.PlacedIn whole) (s : Store) :
    FailsAs (Pinned whole) (d.check s) := by
  apply FailsAs.bind
  · apply FailsAs.forM
    intro name member
    exact (s.checkDeclarable_fails name.node).mapError fun _ plain =>
      plain.withSpan (placed.names name member)
  · intro _ _
    unfold checkCapacity
    split
    · rename_i bounds has
      dsimp only
      split
      · exact (s.checkCapacity_fails _ _ _).mapError fun _ plain =>
          plain.withSpan (placed.bounds bounds has)
      · trivial
    · trivial

theorem declareNames_pinned {d : Declaration} (placed : d.PlacedIn whole) (s : Store)
    {names : List (Spanned Text)} (named : ∀ name ∈ names, name.span.Within whole) :
    FailsAs (Pinned whole) (d.declareNames s names).2 := by
  induction names generalizing s with
  | nil => trivial
  | cons name rest ih =>
      obtain ⟨first, later⟩ := List.forall_mem_cons.mp named
      rw [declareNames]
      cases made : d.declareName s name with
      | ok next => exact ih next later
      | error e => exact (declareName_pinned placed s first).of_error made

theorem apply_pinned {d : Declaration} (placed : d.PlacedIn whole) (s : Store) :
    FailsAs (Pinned whole) (d.apply s).2 := by
  unfold apply
  cases made : d.check s with
  | ok _ => exact declareNames_pinned placed s placed.names
  | error e => exact (check_pinned placed s).of_error made

end Declaration

/-- The variable or array of a place. -/
def Slot.name : Slot → Text
  | .scalar name | .element name _ => name

namespace Slot

theorem type_fails (s : Store) (slot : Slot) : FailsAs (About slot.name) (slot.type s) := by
  cases slot with
  | scalar name => exact s.scalarType_fails name
  | element name index =>
      apply (s.getArray_fails name).bind
      intro b _
      have placed : FailsAs (About name) (Store.position name b index) :=
        (Store.position_fails name b index).weaken fun _ => Plain.about
      exact placed.bind fun _ _ => trivial

theorem write_fails (s : Store) {v : Value} (set : v.isSet = true) (slot : Slot) :
    FailsAs (About slot.name) (slot.write s v) := by
  cases slot with
  | scalar name => exact s.setScalar_fails name set
  | element name index => exact s.setElement_fails name index set

theorem locate_places (s : Store) {target : Spanned Target}
    (placed : Target.PlacedIn whole target) :
    Ensures (fun slot => slot.name = target.node.name) (Pinned whole) (locate s target.node) := by
  obtain ⟨node, place⟩ := target
  rcases node with name | ⟨name, index⟩
  · rfl
  · have index := Expression.indexValue_pinned (s := s) (placed.index index rfl)
    exact Ensures.map index fun _ _ _ => rfl

end Slot

/-- A line of input spells a value of the type that is asked for, and a REAL only if it is
finite. -/
theorem DataType.ofInput?_eq_some {type : DataType} {line : Text} {v : Value}
    (read : type.ofInput? line = some v) :
    v.type? = some type ∧ ∀ x, v = .real x → x.isFinite = true := by
  unfold ofInput? at read
  split at read
  · obtain ⟨n, _, rfl⟩ := Option.map_eq_some_iff.mp read
    exact ⟨rfl, nofun⟩
  · obtain ⟨x, kept, rfl⟩ := Option.map_eq_some_iff.mp read
    refine ⟨rfl, fun y same => ?_⟩
    cases same
    exact (Option.filter_eq_some_iff.mp kept).2
  · cases read
    exact ⟨rfl, nofun⟩
  · cases read
  · cases read
    exact ⟨rfl, nofun⟩
  · dsimp only at read
    split at read
    · cases read
      exact ⟨rfl, nofun⟩
    · split at read
      · cases read
        exact ⟨rfl, nofun⟩
      · cases read

namespace Target

variable {target : Spanned Target}

theorem PlacedIn.orSpan (placed : PlacedIn whole target) {slot : Slot}
    (same : slot.name = target.node.name) {e : Failure} (about : e.About slot.name) :
    (e.orSpan target.span).Pinned whole := by
  rw [same] at about
  exact about.orSpan placed.within placed.opens

theorem write_pinned (placed : PlacedIn whole target) (s : Store) {v : Value}
    (set : v.isSet = true) : FailsAs (Pinned whole) (write s target v) := by
  apply (Slot.locate_places s placed).bind
  intro slot _ same
  exact (slot.write_fails s set).mapError fun _ about => placed.orSpan same about

theorem check_places (placed : PlacedIn whole target) (s : Store) :
    Ensures (fun found => found.1.name = target.node.name) (Pinned whole) (check s target) := by
  apply (Slot.locate_places s placed).bind
  intro slot _ same
  apply Ensures.bind ((slot.type_fails s).mapError fun _ about => placed.orSpan same about)
  exact fun _ _ _ => same

theorem isSet_of_ofInput? {type : DataType} {line : Text} {v : Value}
    (read : type.ofInput? line = some v) : v.isSet = true := by
  rw [v.isSet_iff, (DataType.ofInput?_eq_some read).1]
  exact Option.some_ne_none type

theorem store_pinned (placed : PlacedIn whole target) (s : Store) (line : Text) :
    FailsAs (Pinned whole) (store s target line) := by
  apply (check_places placed s).bind
  intro found _ same
  obtain ⟨slot, type⟩ := found
  dsimp only
  split
  · exact pinned_at placed.within rfl
  · rename_i value read
    exact (slot.write_fails s (isSet_of_ofInput? read)).mapError fun _ about =>
      placed.orSpan same about

end Target

theorem Store.settle_fails {bad : Failure → Prop} (s : Store) {r : Result Store}
    (fails : FailsAs bad r) : FailsAs bad (s.settle r).2 := by
  cases r with
  | ok next => trivial
  | error e => exact fails

namespace Machine

/-- A failure that is no fault of the line: its output takes no more bytes. -/
structure OutputFull (statement : Statement) (e : Failure) : Prop where
  output : ∃ exprs, statement = .output exprs
  unplaced : e.span = none
  kind : e.kind = .io

theorem readInto_pinned (m : Machine) {target : Spanned Target}
    (placed : Target.PlacedIn whole target) : FailsAs (Pinned whole) (m.readInto target).2 := by
  unfold readInto
  cases checked : Target.check m.store target with
  | error e => exact (Target.check_places placed m.store).of_error checked
  | ok found =>
      dsimp only
      split
      · exact pinned_at placed.within rfl
      · split
        · exact pinned_at placed.within rfl
        · exact m.store.settle_fails (Target.store_pinned placed m.store _)

theorem writeLine_fails (o : Output) (t : Text) :
    FailsAs (fun e => e.span = none ∧ e.kind = .io) (o.writeLine t).2 := by
  unfold Output.writeLine Output.write
  split
  · trivial
  · dsimp only
    split
    · trivial
    · exact ⟨rfl, rfl⟩

/-- A failing statement is reported in its line, or its output is full. -/
theorem execute_places (m : Machine) {statement : Statement} (placed : statement.PlacedIn whole) :
    FailsAs (fun e => e.Pinned whole ∨ OutputFull statement e) (m.execute statement).2 := by
  cases statement with
  | declare d => exact (Declaration.apply_pinned placed m.store).weaken fun _ => .inl
  | constant name value =>
      have fails : FailsAs (Pinned whole) (m.store.define name value.node) :=
        (m.store.declareConstant_fails name.node placed.2).mapError fun _ plain =>
          plain.located.orSpan placed.1
      exact (m.store.settle_fails fails).weaken fun _ => .inl
  | assign target expr =>
      have fails : FailsAs (Pinned whole) (do
          let value ← Expression.evaluateAt m.store expr
          Target.write m.store target value) := by
        apply FailsAs.bind (Expression.evaluateAt_pinned placed.2)
        intro value made
        apply Target.write_pinned placed.1
        exact value.isSet_iff.mpr (Expression.type?_ne_none_of_evaluate (mapError_eq_ok made))
      exact (m.store.settle_fails fails).weaken fun _ => .inl
  | input target => exact (m.readInto_pinned placed).weaken fun _ => .inl
  | output exprs =>
      have texts : FailsAs (Pinned whole) (outputText m.store exprs) := by
        have values : FailsAs (Pinned whole) (exprs.mapM (Expression.evaluateAt m.store)) :=
          (Ensures.mapM fun expr member => Expression.evaluateAt_pinned (placed expr member)).fails
        exact values.bind fun _ _ => trivial
      show FailsAs _ (m.writeValues exprs).2
      unfold writeValues
      cases made : outputText m.store exprs with
      | error e => exact .inl (texts.of_error made)
      | ok text =>
          exact (writeLine_fails m.output text).weaken fun e given =>
            .inr ⟨⟨exprs, rfl⟩, given.1, given.2⟩

/-- A failing line is reported in the line, or it is an OUTPUT that is full. -/
theorem executeLine_places (m : Machine) (line : Text) :
    FailsAs (fun e => e.Pinned line ∨ ∃ statement,
      Statement.ofLine line = .ok (some statement) ∧ OutputFull statement.node e)
      (m.executeLine line).2 := by
  have read := Statement.ofLine_places line
  unfold executeLine
  cases made : Statement.ofLine line with
  | error e => exact .inl (read.of_error made)
  | ok found =>
      cases found with
      | none => trivial
      | some statement =>
          apply FailsAs.map
          apply (m.execute_places (read.of_ok made statement rfl)).weaken
          intro e given
          exact given.imp_right fun full => ⟨statement, rfl, full⟩

/-- A line is counted and adds at most one failure to those reported before. -/
theorem runLines_cons (m : Machine) (offset : Nat) (report : RunReport) (line : Text)
    (rest : List Text) :
    ∃ given : RunReport,
      m.runLines offset report (line :: rest) =
        (m.executeLine (trimLineEnd line)).1.runLines (offset + bytes line) given rest ∧
      given.lines = report.lines + 1 ∧
      ∀ error ∈ given.errors, error ∈ report.errors ∨
        ∃ e, (m.executeLine (trimLineEnd line)).2 = .error e ∧
          error = ⟨report.lines + 1, e.shift offset⟩ := by
  rw [runLines]
  cases executed : m.executeLine (trimLineEnd line) with
  | mk next result =>
      cases result with
      | ok done => cases done <;> exact ⟨_, rfl, rfl, fun _ => .inl⟩
      | error e =>
          refine ⟨_, rfl, rfl, fun error member => ?_⟩
          rcases List.mem_append.mp member with earlier | own
          · exact .inl earlier
          · exact .inr ⟨e, rfl, List.mem_singleton.mp own⟩

/-- Every failure of a run is one of a line, moved by the bytes of the lines before it. -/
theorem runLines_errors {m : Machine} {offset : Nat} {report : RunReport} {lines : List Text}
    {error : LineFailure} (reported : error ∈ (m.runLines offset report lines).2.errors) :
    error ∈ report.errors ∨ ∃ before line after, ∃ next : Machine, ∃ e,
      lines = before ++ line :: after ∧
      (next.executeLine (trimLineEnd line)).2 = .error e ∧
      error = ⟨report.lines + before.length + 1, e.shift (offset + bytes before.flatten)⟩ := by
  induction lines generalizing m offset report with
  | nil => exact .inl reported
  | cons line rest ih =>
      obtain ⟨given, onward, counted, own⟩ := m.runLines_cons offset report line rest
      rw [onward] at reported
      rcases ih reported with earlier | ⟨before, other, after, next, e, rfl, failed, rfl⟩
      · rcases own error earlier with earlier | ⟨e, failed, rfl⟩
        · exact .inl earlier
        · exact .inr ⟨[], line, rest, m, e, rfl, failed, rfl⟩
      · refine .inr ⟨line :: before, other, after, next, e, rfl, failed, ?_⟩
        have number : given.lines + before.length + 1 =
            report.lines + (line :: before).length + 1 := by
          rw [counted, List.length_cons]
          omega
        have moved : offset + bytes line + bytes before.flatten =
            offset + bytes (line :: before).flatten := by
          rw [List.flatten_cons, Text.bytes_append]
          omega
        rw [number, moved]

/-- The name that a message quotes: what follows the first back quote, up to a back quote or an
opening bracket. -/
def quotedName (message : String) : Text :=
  ((message.toList.dropWhile (· != '\x60')).drop 1).takeWhile fun c => c != '\x60' && c != '['

theorem quotedName_ticked {name rest : Text} (word : name.IsWord)
    (stops : rest = [] ∨ ∃ inner, rest = '[' :: inner) (tail : String) :
    quotedName (ticked (name ++ rest) ++ tail) = name := by
  have shown : (ticked (name ++ rest) ++ tail).toList =
      '\x60' :: (name ++ (rest ++ '\x60' :: tail.toList)) := by
    simp only [ticked, showText, String.toList_append, String.toList_ofList]
    simp
  have inside : ∀ c ∈ name, (c != '\x60' && c != '[') = true := by
    intro c member
    have named := word.all c member
    simp only [Bool.and_eq_true, bne_iff_ne, ne_eq]
    constructor
    · rintro rfl
      cases named
    · rintro rfl
      cases named
  rw [quotedName, shown, List.dropWhile_cons_of_neg (by simp), List.drop_succ_cons, List.drop_zero,
    List.takeWhile_append_of_pos inside]
  rcases stops with rfl | ⟨inner, rfl⟩
  · rw [List.nil_append, List.takeWhile_cons_of_neg (by simp), List.append_nil]
  · rw [List.cons_append, List.takeWhile_cons_of_neg (by simp), List.append_nil]

theorem quotedName_message {cause : Cause} {name : Text} (named : cause.subject? = some name)
    (word : name.IsWord) : quotedName cause.message = name := by
  have bare (tail : String) : quotedName (ticked name ++ tail) = name := by
    have quoted := quotedName_ticked word (.inl rfl) tail
    rw [List.append_nil] at quoted
    exact quoted
  cases cause with
  | undeclared other similar =>
      cases named
      show quotedName (ticked name ++ " is not declared" ++ suggestion similar) = name
      rw [String.append_assoc]
      exact bare _
  | uninitialized what =>
      cases what with
      | scalar other =>
          cases named
          exact bare _
      | element other index =>
          cases named
          have quoted := quotedName_ticked word (.inr ⟨Integer.display index ++ [']'], rfl⟩)
            " is used before a value is assigned"
          show quotedName (ticked (name ++ '[' :: Integer.display index ++ [']']) ++ _) = name
          rw [List.append_assoc, List.cons_append]
          exact quoted
      | constant other => cases named
      | value => cases named
  | _ => cases named

/-- Every failure of a run is reported in its own line: at a range of whole characters of the
source that lies in the line with the failure's number, unless an OUTPUT cannot be written. Where a
variable is unknown or has no value, the range begins with the name that the message quotes. -/
theorem errors_point_into_lines {m : Machine} {source : Text} {error : LineFailure}
    (reported : error ∈ (m.run source).2.errors) :
    ∃ front line, source.LineAt error.line front line ∧
      (error.failure.span = none → error.failure.kind = .io ∧
        ∃ exprs place, Statement.ofLine line = .ok (some ⟨.output exprs, place⟩)) ∧
      (∀ span, error.failure.span = some span → span.Within source ∧
        bytes front ≤ span.start ∧ span.stop ≤ bytes front + bytes line) ∧
      (error.failure.kind = .undeclaredVariable ∨ error.failure.kind = .uninitializedValue →
        ∃ span, error.failure.span = some span ∧ quotedName error.failure.message ≠ [] ∧
          quotedName error.failure.message <+: slice source span) := by
  rcases runLines_errors reported with earlier | ⟨before, line, after, next, e, cut, failed, rfl⟩
  · cases earlier
  · have numbered := lineAt_of_sourceLines cut
    rw [Nat.zero_add, Nat.zero_add]
    refine ⟨before.flatten, trimLineEnd line, numbered, ?_⟩
    rcases (next.executeLine_places (trimLineEnd line)).of_error failed with
      pinned | ⟨statement, read, full⟩
    · have moved := pinned.shift numbered.standsAt
      refine ⟨fun none => absurd none moved.placed, fun span has => ?_, fun reference => ?_⟩
      · refine ⟨moved.within span has, ?_⟩
        obtain ⟨inner, given, rfl⟩ := Option.map_eq_some_iff.mp has
        obtain ⟨front, back, parts, stop⟩ := (pinned.within inner given).last
        have size := congrArg bytes parts
        rw [Text.bytes_append] at size
        show bytes before.flatten ≤ inner.start + bytes before.flatten ∧
          inner.stop + bytes before.flatten ≤ _
        omega
      · have kind : (e.shift (bytes before.flatten)).kind.isReference = true := by
          rcases reference with same | same <;> rw [same] <;> rfl
        obtain ⟨name, span, subject, has, opens⟩ := moved.opens kind
        have quoted := quotedName_message subject opens.word
        refine ⟨span, has, ?_, ?_⟩
        · show quotedName (Cause.message _) ≠ []
          rw [quoted]
          exact opens.word.nonempty
        · show quotedName (Cause.message _) <+: _
          rw [quoted]
          exact opens.prefix_slice
    · have unplaced : (e.shift (bytes before.flatten)).span = none := by
        show e.span.map _ = none
        rw [full.unplaced]
        rfl
      refine ⟨fun _ => ⟨full.kind, ?_⟩, fun span has => ?_, fun reference => ?_⟩
      · obtain ⟨exprs, output⟩ := full.output
        obtain ⟨node, place⟩ := statement
        subst output
        exact ⟨exprs, place, read⟩
      · rw [unplaced] at has
        cases has
      · have kind : (e.shift (bytes before.flatten)).kind = .io := full.kind
        rw [kind] at reference
        simp at reference

/-- The unknown `i` in an index of an index is reported in the second line at its own byte, after
characters that take two. -/
theorem errors_point_into_lines_nested :
    let source : Text := "OUTPUT \"é\"\r\nOUTPUT \"é\" + b[c[i + 1]]".toList
    let error : LineFailure := ⟨2, ⟨.undeclared ['i'] none, some ⟨31, 32⟩⟩⟩
    (run {} source).2.errors = [error] ∧ ∃ front line, source.LineAt 2 front line ∧
      bytes front ≤ 31 ∧ 32 ≤ bytes front + bytes line ∧
        quotedName error.failure.message <+: slice source ⟨31, 32⟩ := by
  intro source error
  have errors : (run {} source).2.errors = [error] := by decide +kernel
  have reported : error ∈ (run {} source).2.errors := by
    rw [errors]
    exact List.mem_cons_self
  obtain ⟨front, line, numbered, _, within, opens⟩ := errors_point_into_lines reported
  obtain ⟨_, after, before⟩ := within ⟨31, 32⟩ rfl
  obtain ⟨span, has, _, begins⟩ := opens (.inl rfl)
  cases has
  exact ⟨errors, front, line, numbered, after, before, begins⟩

end Machine

end Pseudocode
