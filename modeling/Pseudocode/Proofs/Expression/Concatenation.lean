import Pseudocode.Proofs.Expression.Sums

set_option autoImplicit false

namespace Pseudocode

namespace Arithmetic

theorem apply_add_ensures {u v : Value} (first : u.isNumeric = true) (second : v.isNumeric = true) :
    Ensures (·.isNumeric = true) (·.cause = .overflow (.operation .add)) (apply .add u v) := by
  have whole (n : Int) :
      Ensures (·.isNumeric = true) (·.cause = .overflow (.operation .add)) (exactly .add n) := by
    unfold exactly
    split <;> rfl
  have real (x : Float) :
      Ensures (·.isNumeric = true) (·.cause = .overflow (.operation .add)) (finitely .add x) := by
    unfold finitely
    split <;> rfl
  cases u with
  | integer a =>
      cases v with
      | integer b => exact whole _
      | real y => exact real _
      | _ => cases second
  | real x =>
      cases v with
      | integer b => exact real _
      | real y => exact real _
      | _ => cases second
  | _ => cases first

/-- Numbers add up to a number, or the first addition that fails overflows. -/
theorem foldlM_add_ensures {v : Value} {rest : List Value}
    (numbers : ∀ u ∈ v :: rest, u.isNumeric = true) :
    Ensures (·.isNumeric = true) (·.cause = .overflow (.operation .add))
      (rest.foldlM (apply .add) v) := by
  obtain ⟨first, others⟩ := List.forall_mem_cons.mp numbers
  refine Ensures.foldlM first fun a number u member => ?_
  exact apply_add_ensures number (others u member)

theorem join_numbers {u v : Value} (first : u.isNumeric = true) (second : v.isNumeric = true) :
    join u v = apply .add u v := by
  rw [join, first, second]
  rfl

theorem join_text {u v : Value} (text : u.isNumeric = false ∨ v.isNumeric = false) :
    join u v = .ok (.string (u.display ++ v.display)) := by
  have mixed : ¬ (u.isNumeric && v.isNumeric) = true := by
    rcases text with text | text <;> simp [text]
  rw [join, if_neg mixed]

/-- Once there is text, every further value is appended. -/
theorem foldlM_join_string (front : Text) (vs : List Value) :
    vs.foldlM join (.string front) = .ok (.string (front ++ vs.flatMap Value.display)) := by
  induction vs generalizing front with
  | nil => simp [pure, Except.pure]
  | cons v rest ih =>
      rw [List.foldlM_cons, join_text (.inl rfl)]
      show rest.foldlM join (.string (front ++ v.display)) = _
      rw [ih, List.flatMap_cons, List.append_assoc]

theorem foldlM_join_numbers {v : Value} {rest : List Value} (first : v.isNumeric = true)
    (others : ∀ u ∈ rest, u.isNumeric = true) :
    rest.foldlM join v = rest.foldlM (apply .add) v := by
  induction rest generalizing v with
  | nil => rfl
  | cons u rest ih =>
      obtain ⟨second, later⟩ := List.forall_mem_cons.mp others
      rw [List.foldlM_cons, List.foldlM_cons, join_numbers first second]
      cases added : apply .add v u with
      | error e => rfl
      | ok w => exact ih ((apply_add_ensures first second).of_ok added) later

/-- The sum of the numbers at the front, from left to right, if there are any. -/
def leadingSum (vs : List Value) : Result (Option Value) :=
  match vs.takeWhile (·.isNumeric) with
  | [] => .ok none
  | v :: rest => (rest.foldlM (apply .add) v).map some

theorem leadingSum_cons_text {v : Value} (text : v.isNumeric = false) (rest : List Value) :
    leadingSum (v :: rest) = .ok none := by
  rw [leadingSum, List.takeWhile_cons_of_neg (by simp [text])]

theorem leadingSum_cons_number {v : Value} (number : v.isNumeric = true) (rest : List Value) :
    leadingSum (v :: rest) =
      ((rest.takeWhile (·.isNumeric)).foldlM (apply .add) v).map some := by
  rw [leadingSum, List.takeWhile_cons_of_pos number]

theorem leadingSum_numbers {v : Value} {rest : List Value}
    (numbers : ∀ u ∈ v :: rest, u.isNumeric = true) :
    leadingSum (v :: rest) = (rest.foldlM (apply .add) v).map some := by
  obtain ⟨first, others⟩ := List.forall_mem_cons.mp numbers
  rw [leadingSum_cons_number first, List.takeWhile_eq_self_iff.mpr others]

theorem foldlM_join_cons {v u : Value} (text : v.isNumeric = false ∨ u.isNumeric = false)
    (rest : List Value) :
    (u :: rest).foldlM join v = .ok (.string (v.display ++ (u :: rest).flatMap Value.display)) := by
  rw [List.foldlM_cons, join_text text]
  show rest.foldlM join (.string (v.display ++ u.display)) = _
  rw [foldlM_join_string, List.flatMap_cons, List.append_assoc]

/-- The closed form of a chain that does not consist of numbers only. -/
theorem foldlM_join_mixed {v : Value} {rest : List Value} (more : rest ≠ [])
    (text : ¬ ∀ u ∈ v :: rest, u.isNumeric = true) :
    rest.foldlM join v =
      (leadingSum (v :: rest)).map fun sum =>
        .string (sum.elim [] Value.display ++
          ((v :: rest).dropWhile (·.isNumeric)).flatMap Value.display) := by
  cases first : v.isNumeric with
  | false =>
      obtain ⟨u, others, rfl⟩ := List.exists_cons_of_ne_nil more
      rw [foldlM_join_cons (.inl first), leadingSum_cons_text first,
        List.dropWhile_cons_of_neg (by simp [first])]
      rfl
  | true =>
      rw [leadingSum_cons_number first, List.dropWhile_cons_of_pos first]
      -- The numbers among the rest, and the first value after them.
      have parts := List.takeWhile_append_dropWhile (p := Value.isNumeric) (l := rest)
      have numbers : ∀ u ∈ rest.takeWhile (·.isNumeric), u.isNumeric = true :=
        fun u member => List.mem_takeWhile_imp member
      have head := List.head?_dropWhile_not Value.isNumeric rest
      cases after : rest.dropWhile (·.isNumeric) with
      | nil =>
          rw [after, List.append_nil] at parts
          rw [parts] at numbers
          refine absurd ?_ text
          exact List.forall_mem_cons.mpr ⟨first, numbers⟩
      | cons x texts =>
          rw [after] at parts head
          have other : x.isNumeric = false := by simpa using head
          conv_lhs => rw [← parts]
          rw [List.foldlM_append, foldlM_join_numbers first numbers]
          cases (rest.takeWhile (·.isNumeric)).foldlM (apply .add) v with
          | error e => rfl
          | ok w => exact foldlM_join_cons (.inr other) texts

theorem isOk_foldlM_join (v : Value) (rest : List Value) :
    (∃ b, rest.foldlM join v = .ok b) ↔ ∃ sum, leadingSum (v :: rest) = .ok sum := by
  by_cases numbers : ∀ u ∈ v :: rest, u.isNumeric = true
  · obtain ⟨first, others⟩ := List.forall_mem_cons.mp numbers
    rw [foldlM_join_numbers first others, leadingSum_numbers numbers]
    cases rest.foldlM (apply .add) v <;> simp [Except.map]
  · by_cases more : rest = []
    · subst more
      have text : v.isNumeric = false := by simpa using numbers
      simp [leadingSum_cons_text text, pure, Except.pure]
    · rw [foldlM_join_mixed more numbers]
      cases leadingSum (v :: rest) <;> simp [Except.map]

/-- A chain is a number only if all its values are, and then it is their sum. -/
theorem numbers_of_foldlM_join {v b : Value} {rest : List Value}
    (made : rest.foldlM join v = .ok b) (number : b.isNumeric = true) :
    (∀ u ∈ v :: rest, u.isNumeric = true) ∧ leadingSum (v :: rest) = .ok (some b) := by
  by_cases numbers : ∀ u ∈ v :: rest, u.isNumeric = true
  · obtain ⟨first, others⟩ := List.forall_mem_cons.mp numbers
    rw [foldlM_join_numbers first others] at made
    rw [leadingSum_numbers numbers, made]
    exact ⟨numbers, rfl⟩
  · by_cases more : rest = []
    · subst more
      obtain rfl : v = b := Except.ok.inj made
      exact absurd (by simpa using number) numbers
    · rw [foldlM_join_mixed more numbers] at made
      obtain ⟨sum, _, rfl⟩ := map_eq_ok made
      cases number

end Arithmetic

namespace Expression

open Arithmetic (join leadingSum)

abbrev Valued (s : Store) (pieces : List (Spanned Text)) (vs : List Value) : Prop :=
  List.Forall₂ (fun piece v => segmentValue s piece.node = .ok v) pieces vs

theorem segmentAt_eq_ok_iff {s : Store} {piece : Spanned Text} {v : Value} :
    segmentAt s piece = .ok v ↔ segmentValue s piece.node = .ok v := by
  constructor
  · exact mapError_eq_ok
  · intro made
    rw [segmentAt, made]
    rfl

theorem segmentAt_eq_error_iff {s : Store} {piece : Spanned Text} {e : Failure} :
    segmentAt s piece = .error e ↔ ∃ f, segmentValue s piece.node = .error f ∧
      e = (f.shift piece.span.start).orSpan piece.span := by
  rw [segmentAt]
  cases segmentValue s piece.node with
  | ok v => simp [Except.mapError]
  | error f => simp only [Except.mapError, Except.error.injEq, exists_eq_left', eq_comm]

/-- Joining segments one after the other is evaluating them and joining their values. -/
theorem unplaced_foldlM_joinSegment {s : Store} {pieces : List (Spanned Text)} {vs : List Value}
    (valued : Valued s pieces vs) (a : Value) :
    unplaced (pieces.foldlM (joinSegment s) a) = unplaced (vs.foldlM join a) := by
  induction valued generalizing a with
  | nil => rfl
  | @cons piece v pieces vs first _ ih =>
      rw [List.foldlM_cons, List.foldlM_cons, joinSegment, segmentAt_eq_ok_iff.mpr first]
      refine unplaced_bind ?_ ih
      show unplaced ((join a v).mapError _) = _
      rw [unplaced_mapError]
      exact fun _ => rfl

theorem valued_of_foldlM_joinSegment {s : Store} {pieces : List (Spanned Text)} {a b : Value}
    (made : pieces.foldlM (joinSegment s) a = .ok b) :
    ∃ vs, Valued s pieces vs ∧ vs.foldlM join a = .ok b := by
  have valued : ∃ vs, Valued s pieces vs := by
    induction pieces generalizing a with
    | nil => exact ⟨[], .nil⟩
    | cons piece rest ih =>
        rw [List.foldlM_cons] at made
        obtain ⟨next, joined, made⟩ := bind_eq_ok made
        obtain ⟨v, first, _⟩ := bind_eq_ok joined
        obtain ⟨vs, others⟩ := ih made
        exact ⟨v :: vs, .cons (segmentAt_eq_ok_iff.mp first) others⟩
  obtain ⟨vs, valued⟩ := valued
  exact ⟨vs, valued, eq_ok_of_unplaced (unplaced_foldlM_joinSegment valued a) made⟩

theorem segments_ne_nil {t : Text} {pieces : List (Spanned Text)} (cut : segments t = .ok pieces) :
    pieces ≠ [] := by
  obtain ⟨_, rfl⟩ := (segments_eq_ok_iff t pieces).mp cut
  rw [ne_eq, List.map_eq_nil_iff]
  exact Text.withOffsets_ne_nil 0 (Text.Outline.parts_ne_nil _ _ _)

/-- What goes wrong first: a segment that has no value, after the numbers before it added up, or the
addition of a number. -/
inductive FirstFailure (s : Store) (pieces : List (Spanned Text)) (e : Failure) : Prop where
  | segment {before after : List (Spanned Text)} {piece : Spanned Text} {vs : List Value}
      {sum : Option Value} {f : Failure} (parts : pieces = before ++ piece :: after)
      (valued : Valued s before vs) (added : leadingSum vs = .ok sum)
      (failed : segmentValue s piece.node = .error f)
      (placed : e = (f.shift piece.span.start).orSpan piece.span)
  | addition {before after : List (Spanned Text)} {piece : Spanned Text} {vs : List Value}
      {sum v : Value} {f : Failure} (parts : pieces = before ++ piece :: after)
      (valued : Valued s before vs) (numbers : ∀ u ∈ vs, u.isNumeric = true)
      (added : leadingSum vs = .ok (some sum)) (next : segmentValue s piece.node = .ok v)
      (number : v.isNumeric = true) (failed : Arithmetic.apply .add sum v = .error f)
      (placed : e = f.orSpan piece.span)

theorem joinSegment_eq_error {s : Store} {a : Value} {piece : Spanned Text} {e : Failure}
    (failed : joinSegment s a piece = .error e) :
    segmentAt s piece = .error e ∨
      ∃ v f, segmentValue s piece.node = .ok v ∧ a.isNumeric = true ∧ v.isNumeric = true ∧
        Arithmetic.apply .add a v = .error f ∧ e = f.orSpan piece.span := by
  rw [joinSegment] at failed
  cases valued : segmentAt s piece with
  | error f =>
      rw [valued] at failed
      exact .inl failed
  | ok v =>
      rw [valued] at failed
      replace failed : (join a v).mapError (·.orSpan piece.span) = .error e := failed
      by_cases numbers : a.isNumeric = true ∧ v.isNumeric = true
      · rw [Arithmetic.join_numbers numbers.1 numbers.2] at failed
        cases added : Arithmetic.apply .add a v with
        | ok w =>
            rw [added] at failed
            cases failed
        | error f =>
            rw [added] at failed
            exact .inr ⟨v, f, segmentAt_eq_ok_iff.mp valued, numbers.1, numbers.2, added,
              (Except.error.inj failed).symm⟩
      · have text : a.isNumeric = false ∨ v.isNumeric = false := by
          simpa [imp_iff_not_or] using numbers
        rw [Arithmetic.join_text text] at failed
        cases failed

theorem joinSegment_of_addition {s : Store} {a v : Value} {piece : Spanned Text} {f : Failure}
    (next : segmentValue s piece.node = .ok v) (first : a.isNumeric = true)
    (second : v.isNumeric = true) (failed : Arithmetic.apply .add a v = .error f) :
    joinSegment s a piece = .error (f.orSpan piece.span) := by
  rw [joinSegment, segmentAt_eq_ok_iff.mpr next]
  show (join a v).mapError _ = _
  rw [Arithmetic.join_numbers first second, failed]
  rfl

theorem exists_foldlM_joinSegment {s : Store} {rest : List (Spanned Text)} {v : Value}
    {vs : List Value} (valued : Valued s rest vs) {sum : Option Value}
    (added : leadingSum (v :: vs) = .ok sum) :
    ∃ b, rest.foldlM (joinSegment s) v = .ok b ∧ vs.foldlM join v = .ok b := by
  obtain ⟨b, joined⟩ := (Arithmetic.isOk_foldlM_join v vs).mpr ⟨sum, added⟩
  exact ⟨b, eq_ok_of_unplaced (unplaced_foldlM_joinSegment valued v).symm joined, joined⟩

theorem evaluate_of_failing {s : Store} {t : Text} {before after : List (Spanned Text)}
    {piece : Spanned Text} {v : Value} {first : Spanned Text}
    (cut : segments t = .ok (first :: (before ++ piece :: after)))
    (value : segmentValue s first.node = .ok v) {b : Value}
    (reached : before.foldlM (joinSegment s) v = .ok b) {e : Failure}
    (failed : joinSegment s b piece = .error e) : evaluate s t = .error e := by
  rw [evaluate_eq_of_segments cut, segmentAt_eq_ok_iff.mpr value]
  exact foldlM_eq_error_iff.mpr ⟨before, piece, after, b, rfl, reached, failed⟩

theorem firstFailure_of_evaluate {s : Store} {t : Text} {pieces : List (Spanned Text)}
    (cut : segments t = .ok pieces) {e : Failure} (failed : evaluate s t = .error e) :
    FirstFailure s pieces e := by
  obtain ⟨first, rest, rfl⟩ := List.exists_cons_of_ne_nil (segments_ne_nil cut)
  rw [evaluate_eq_of_segments cut] at failed
  cases valued : segmentAt s first with
  | error f =>
      rw [valued] at failed
      cases failed
      obtain ⟨g, stuck, placed⟩ := segmentAt_eq_error_iff.mp valued
      exact .segment (List.nil_append (first :: rest)).symm .nil rfl stuck placed
  | ok v =>
      rw [valued] at failed
      obtain ⟨before, piece, after, b, rfl, reached, failing⟩ := foldlM_eq_error_iff.mp failed
      -- All segments before the failing one have values, and joining them succeeded.
      obtain ⟨vs, others, joined⟩ := valued_of_foldlM_joinSegment reached
      have all : Valued s (first :: before) (v :: vs) :=
        .cons (segmentAt_eq_ok_iff.mp valued) others
      rcases joinSegment_eq_error failing with stuck | ⟨u, f, next, number, second, excess, placed⟩
      · obtain ⟨sum, added⟩ := (Arithmetic.isOk_foldlM_join v vs).mp ⟨b, joined⟩
        obtain ⟨g, stuck, placed⟩ := segmentAt_eq_error_iff.mp stuck
        exact .segment rfl all added stuck placed
      · obtain ⟨numbers, added⟩ := Arithmetic.numbers_of_foldlM_join joined number
        exact .addition rfl all numbers added next second excess placed

theorem evaluate_of_firstFailure {s : Store} {t : Text} {pieces : List (Spanned Text)}
    (cut : segments t = .ok pieces) {e : Failure} (failure : FirstFailure s pieces e) :
    evaluate s t = .error e := by
  cases failure with
  | @segment before after piece vs sum f parts valued added failed placed =>
      subst parts
      have stuck := segmentAt_eq_error_iff.mpr ⟨f, failed, placed⟩
      cases valued with
      | nil =>
          rw [evaluate_eq_of_segments cut, stuck]
          rfl
      | cons value others =>
          obtain ⟨b, reached, _⟩ := exists_foldlM_joinSegment others added
          refine evaluate_of_failing cut value reached ?_
          rw [joinSegment, stuck]
          rfl
  | @addition before after piece vs sum v f parts valued numbers added next number failed placed =>
      subst parts placed
      cases valued with
      | nil => cases added
      | cons value others =>
          obtain ⟨first, rest⟩ := List.forall_mem_cons.mp numbers
          obtain ⟨b, reached, joined⟩ := exists_foldlM_joinSegment others added
          rw [Arithmetic.leadingSum_numbers numbers, ← Arithmetic.foldlM_join_numbers first rest,
            joined] at added
          obtain rfl : b = sum := Option.some.inj (Except.ok.inj added)
          rw [Arithmetic.foldlM_join_numbers first rest] at joined
          exact evaluate_of_failing cut value reached (joinSegment_of_addition next
            ((Arithmetic.foldlM_add_ensures numbers).of_ok joined) number failed)

theorem unplaced_evaluate {s : Store} {t : Text} {pieces : List (Spanned Text)}
    (cut : segments t = .ok pieces) {v : Value} {vs : List Value}
    (valued : Valued s pieces (v :: vs)) :
    unplaced (evaluate s t) = unplaced (vs.foldlM join v) := by
  cases valued with
  | cons first others =>
      rw [evaluate_eq_of_segments cut, segmentAt_eq_ok_iff.mpr first]
      exact unplaced_foldlM_joinSegment others v

/-- What a chain of segments amounts to. One segment keeps its value; numbers are added up from left
to right, and the first addition that fails overflows; in any other chain the numbers at the front
are added up, and the text of their sum is followed by the texts of all further values. A chain
fails with what goes wrong first when its segments are evaluated and added in turn. -/
theorem chain_closed_form {s : Store} {t : Text} {pieces : List (Spanned Text)}
    (cut : segments t = .ok pieces) :
    (∀ v vs, Valued s pieces (v :: vs) →
      (vs = [] → evaluate s t = .ok v) ∧
      ((∀ u ∈ v :: vs, u.isNumeric = true) →
        unplaced (evaluate s t) = unplaced (vs.foldlM (Arithmetic.apply .add) v) ∧
          ∀ e, evaluate s t = .error e → e.kind = .overflow) ∧
      (vs ≠ [] → (¬ ∀ u ∈ v :: vs, u.isNumeric = true) →
        ∀ sum, leadingSum (v :: vs) = .ok sum →
          evaluate s t = .ok (.string (sum.elim [] Value.display ++
            ((v :: vs).dropWhile (·.isNumeric)).flatMap Value.display)))) ∧
    ∀ e, evaluate s t = .error e ↔ FirstFailure s pieces e := by
  refine ⟨fun v vs valued => ?_,
    fun e => ⟨firstFailure_of_evaluate cut, evaluate_of_firstFailure cut⟩⟩
  have closed := unplaced_evaluate cut valued
  refine ⟨?_, ?_, ?_⟩
  · rintro rfl
    exact eq_ok_of_unplaced closed.symm rfl
  · intro numbers
    obtain ⟨first, others⟩ := List.forall_mem_cons.mp numbers
    rw [Arithmetic.foldlM_join_numbers first others] at closed
    refine ⟨closed, fun e failed => ?_⟩
    obtain ⟨f, excess, same⟩ := cause_eq_of_unplaced closed failed
    have cause := (Arithmetic.foldlM_add_ensures numbers).of_error excess
    rw [Failure.kind, ← same, cause]
    rfl
  · intro more text sum added
    refine eq_ok_of_unplaced closed.symm ?_
    rw [Arithmetic.foldlM_join_mixed more text, added]
    rfl

/-- `1 + 2 + " apples" + 3 + 4` adds up before the text and not after it. -/
theorem chain_closed_form_apples :
    let t := "1 + 2 + \" apples\" + 3 + 4".toList
    let pieces : List (Spanned Text) :=
      [⟨"1".toList, ⟨0, 1⟩⟩, ⟨"2".toList, ⟨4, 5⟩⟩, ⟨"\" apples\"".toList, ⟨8, 17⟩⟩,
        ⟨"3".toList, ⟨20, 21⟩⟩, ⟨"4".toList, ⟨24, 25⟩⟩]
    segments t = .ok pieces ∧
      Valued {} pieces [.integer 1, .integer 2, .string " apples".toList, .integer 3, .integer 4] ∧
      evaluate {} t = .ok (.string "3 apples34".toList) := by
  intro t pieces
  have cut : segments t = .ok pieces := by decide +kernel
  have valued : Valued {} pieces
      [.integer 1, .integer 2, .string " apples".toList, .integer 3, .integer 4] := by
    refine .cons ?_ (.cons ?_ (.cons ?_ (.cons ?_ (.cons ?_ .nil)))) <;>
      rw [segmentValue_eq] <;> decide +kernel
  obtain ⟨_, _, mixed⟩ := (chain_closed_form cut).1 _ _ valued
  exact ⟨cut, valued, mixed (by simp) (by decide) (some (.integer 3)) (by decide)⟩

end Expression

end Pseudocode
