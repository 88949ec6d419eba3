import Pseudocode.Proofs.Lexeme.Read

set_option autoImplicit false

namespace Pseudocode

/-- The same range in a text that begins `offset` bytes later. -/
def Span.unshift (s : Span) (offset : Nat) : Span :=
  ⟨s.start - offset, s.stop - offset⟩

def Spanned.unshift {α : Type} (s : Spanned α) (offset : Nat) : Spanned α :=
  ⟨s.node, s.span.unshift offset⟩

theorem Span.unshift_merge (a b : Span) (offset : Nat) :
    (a.merge b).unshift offset = (a.unshift offset).merge (b.unshift offset) := by
  simp only [Span.merge, Span.unshift, Nat.sub_min_sub_right, Nat.sub_max_sub_right]

theorem Spanned.shift_unshift {α : Type} {s : Spanned α} {offset : Nat}
    (before : offset ≤ s.span.start) (ordered : s.span.start ≤ s.span.stop) :
    (s.unshift offset).shift offset = s := by
  obtain ⟨node, start, stop⟩ := s
  dsimp only at before ordered
  simp only [Spanned.unshift, Spanned.shift, Span.unshift, Span.shift, Nat.sub_add_cancel before,
    Nat.sub_add_cancel (Nat.le_trans before ordered)]

namespace Lexeme

open Text (bytes isBlank Outline)

/-- `Lexed pos t lexemes`: a text whose first byte has position `pos` consists of these lexemes and
gaps. -/
inductive Lexed : Nat → Text → List (Spanned Lexeme) → Prop where
  | nil (pos : Nat) : Lexed pos [] []
  | gap {pos : Nat} {c : Char} {t : Text} {lexemes : List (Spanned Lexeme)}
      (gap : isGap c = true) (later : Lexed (pos + c.utf8Size) t lexemes) :
      Lexed pos (c :: t) lexemes
  | lexeme {pos : Nat} {c : Char} {w rest : Text} {l : Lexeme} {lexemes : List (Spanned Lexeme)}
      (solid : isGap c = false) (found : read c (w ++ rest) = some (l, rest))
      (begins : l.written = c :: w) (later : Lexed (pos + bytes l.written) rest lexemes) :
      Lexed pos (c :: (w ++ rest)) (⟨l, ⟨pos, pos + bytes l.written⟩⟩ :: lexemes)

theorem lexed_iff (pos : Nat) (t : Text) (lexemes : List (Spanned Lexeme)) :
    Lexed pos t lexemes ↔ lexFrom pos t = ⟨lexemes, none⟩ := by
  constructor
  · intro lexed
    induction lexed with
    | nil pos => rw [lexFrom]
    | gap gap _ ih => rw [lexFrom, if_pos gap, ih]
    | lexeme solid found begins _ ih =>
        rw [lexFrom, if_neg (by rw [solid]; exact Bool.false_ne_true)]
        split
        · rename_i none
          rw [found] at none
          cases none
        · rename_i l rest made
          rw [found] at made
          cases made
          dsimp only
          rw [ih]
  · intro lexed
    fun_induction lexFrom pos t generalizing lexemes with
    | case1 =>
        cases lexed
        exact .nil _
    | case2 pos c t gap ih => exact .gap gap (ih lexemes lexed)
    | case3 => cases lexed
    | case4 pos c t solid l rest found stop after ih =>
        obtain ⟨w, begins, rfl⟩ := read_written found
        rw [Reading.mk.injEq] at lexed
        obtain ⟨rfl, ended⟩ := lexed
        have later := ih after.lexemes (by rw [← ended])
        exact .lexeme (eq_false_of_ne_true solid) found begins later

theorem lexed_lex {t : Text} (whole : (lex t).stuck = none) : Lexed 0 t (lex t).lexemes :=
  (lexed_iff 0 t _).mpr (by rw [← whole]; rfl)

theorem Lexed.lex_eq {t : Text} {lexemes : List (Spanned Lexeme)} (lexed : Lexed 0 t lexemes) :
    lex t = ⟨lexemes, none⟩ :=
  (lexed_iff 0 t lexemes).mp lexed

theorem Lexed.unique {pos : Nat} {t : Text} {first second : List (Spanned Lexeme)}
    (one : Lexed pos t first) (other : Lexed pos t second) : first = second := by
  rw [lexed_iff] at one other
  rw [one] at other
  exact congrArg Reading.lexemes other

theorem Lexed.eq_nil {pos : Nat} {lexemes : List (Spanned Lexeme)} (lexed : Lexed pos [] lexemes) :
    lexemes = [] := by
  cases lexed
  rfl

/-- Lexemes stand in the text, none before its first byte. -/
theorem Lexed.ordered {pos : Nat} {t : Text} {lexemes : List (Spanned Lexeme)}
    (lexed : Lexed pos t lexemes) :
    ∀ l ∈ lexemes, pos ≤ l.span.start ∧ l.span.start ≤ l.span.stop := by
  intro l member
  rw [lexed_iff] at lexed
  have placed := span_nonempty_of_mem_lexFrom pos t l (by rw [lexed]; exact member)
  omega

theorem Lexed.start_mem {pos : Nat} {t : Text} {lexemes : List (Spanned Lexeme)}
    (lexed : Lexed pos t lexemes) {l : Spanned Lexeme} (member : l ∈ lexemes) :
    ∃ m b, t = m ++ b ∧ l.span.start = pos + bytes m := by
  induction lexed with
  | nil pos => cases member
  | @gap pos c t lexemes _ _ ih =>
      obtain ⟨m, b, rfl, place⟩ := ih member
      exact ⟨c :: m, b, rfl, by rw [place, Text.bytes_cons, Nat.add_assoc]⟩
  | @lexeme pos c w rest first lexemes _ _ begins _ ih =>
      rcases List.mem_cons.mp member with rfl | member
      · exact ⟨[], _, rfl, rfl⟩
      · obtain ⟨m, b, rfl, place⟩ := ih member
        refine ⟨first.written ++ m, b, ?_, by rw [place, Text.bytes_append, Nat.add_assoc]⟩
        rw [begins, List.append_assoc, List.cons_append]

/-- Between two lexemes stands a piece of the text. -/
theorem Lexed.pairwise_between {pos : Nat} {t : Text} {lexemes : List (Spanned Lexeme)}
    (lexed : Lexed pos t lexemes) :
    lexemes.Pairwise fun x y => ∃ a m b, t = a ++ (m ++ b) ∧ x.span.stop = pos + bytes a ∧
      y.span.start = pos + bytes a + bytes m := by
  induction lexed with
  | nil pos => exact .nil
  | @gap pos c t lexemes _ _ ih =>
      refine ih.imp fun {x y} between => ?_
      obtain ⟨a, m, b, rfl, stop, start⟩ := between
      refine ⟨c :: a, m, b, rfl, ?_, ?_⟩
      · rw [stop, Text.bytes_cons, Nat.add_assoc]
      · rw [start, Text.bytes_cons, Nat.add_assoc pos]
  | @lexeme pos c w rest first lexemes _ _ begins later ih =>
      have written : c :: (w ++ rest) = first.written ++ rest := by rw [begins, List.cons_append]
      refine .cons (fun y member => ?_) (ih.imp fun {x y} between => ?_)
      · obtain ⟨m, b, rfl, start⟩ := later.start_mem member
        exact ⟨first.written, m, b, written, rfl, start⟩
      · obtain ⟨a, m, b, rfl, stop, start⟩ := between
        refine ⟨first.written ++ a, m, b, by rw [written, List.append_assoc], ?_, ?_⟩
        · rw [stop, Text.bytes_append, Nat.add_assoc]
        · rw [start, Text.bytes_append, Nat.add_assoc pos]

/-- The texts before and after a lexeme, each with its own lexemes. Nothing before it is open. -/
theorem Lexed.cutAt {pos : Nat} {t : Text} {front back : List (Spanned Lexeme)} {x : Spanned Lexeme}
    (lexed : Lexed pos t (front ++ x :: back)) :
    ∃ u v, t = u ++ (x.node.written ++ v) ∧
      x.span = ⟨pos + bytes u, pos + bytes u + bytes x.node.written⟩ ∧
      Lexed pos u front ∧ Lexed x.span.stop v back ∧ ∀ l ∈ front, l.node.isClosed = true := by
  generalize all : front ++ x :: back = lexemes at lexed
  induction lexed generalizing front with
  | nil pos =>
      rw [List.append_eq_nil_iff] at all
      cases all.2
  | @gap pos c t lexemes gap later ih =>
      obtain ⟨u, v, rfl, place, before, after, closed⟩ := ih all
      refine ⟨c :: u, v, rfl, ?_, .gap gap before, after, closed⟩
      rw [place, Text.bytes_cons, Nat.add_assoc]
  | @lexeme pos c w rest l lexemes solid found begins later ih =>
      cases front with
      | nil =>
          cases all
          refine ⟨[], rest, ?_, rfl, .nil pos, later, fun l member => nomatch member⟩
          rw [begins]
          rfl
      | cons first front =>
          obtain ⟨rfl, rest_eq⟩ := List.cons.inj all
          obtain ⟨u, v, rfl, place, before, after, closed⟩ := ih rest_eq
          have size : bytes (c :: (w ++ u)) = bytes l.written + bytes u := by
            rw [begins, ← List.cons_append, Text.bytes_append]
          refine ⟨c :: (w ++ u), v, ?_, ?_,
            .lexeme solid (read_truncate found begins) begins before, after, ?_⟩
          · rw [List.cons_append, List.append_assoc]
          · rw [place, size, Nat.add_assoc pos]
          · intro y member
            rcases List.mem_cons.mp member with rfl | member
            -- A string that is not closed takes the rest of the text, so nothing comes after it.
            · cases opened : l.isClosed with
              | true => rfl
              | false =>
                  rw [rest_of_open found opened] at later
                  rw [later.eq_nil] at rest_eq
                  exact absurd rest_eq (by simp)
            · exact closed y member

theorem Lexed.unshift {pos : Nat} {t : Text} {lexemes : List (Spanned Lexeme)}
    (lexed : Lexed pos t lexemes) {offset : Nat} (before : offset ≤ pos) :
    Lexed (pos - offset) t (lexemes.map (·.unshift offset)) := by
  induction lexed with
  | nil pos => exact .nil _
  | @gap pos c t lexemes gap _ ih =>
      refine .gap gap ?_
      rw [← Nat.sub_add_comm before]
      exact ih (by omega)
  | @lexeme pos c w rest l lexemes solid found begins _ ih =>
      have later := ih (by omega)
      have place : (⟨pos, pos + bytes l.written⟩ : Span).unshift offset =
          ⟨pos - offset, pos - offset + bytes l.written⟩ := by
        rw [Span.unshift, Nat.sub_add_comm before]
      rw [Nat.sub_add_comm before] at later
      rw [List.map_cons, Spanned.unshift, place]
      exact .lexeme solid found begins later

/-- The lexemes of a text that stands `pos` bytes into another. -/
theorem Lexed.map_shift_lex {pos : Nat} {t : Text} {lexemes : List (Spanned Lexeme)}
    (lexed : Lexed pos t lexemes) :
    (lex t).stuck = none ∧ (lex t).lexemes.map (·.shift pos) = lexemes := by
  have alone := lexed.unshift (Nat.le_refl pos)
  rw [Nat.sub_self] at alone
  rw [alone.lex_eq]
  refine ⟨rfl, ?_⟩
  rw [List.map_map]
  refine (List.map_congr_left fun l member => ?_).trans (List.map_id lexemes)
  obtain ⟨before, ordered⟩ := lexed.ordered l member
  exact Spanned.shift_unshift before ordered

theorem isBlank_of_isGap {c : Char} (gap : isGap c = true) : isBlank c = true := by
  simp only [isGap, Bool.or_eq_true, beq_iff_eq] at gap
  rcases gap with ((rfl | rfl) | rfl) | rfl <;> decide

theorem Lexed.trimStart {pos : Nat} {t : Text} {lexemes : List (Spanned Lexeme)}
    (lexed : Lexed pos t lexemes) :
    Lexed (pos + bytes (t.takeWhile isBlank)) (Text.trimStart t) lexemes := by
  induction lexed with
  | nil pos => exact .nil pos
  | @gap pos c t lexemes gap _ ih =>
      have blank := isBlank_of_isGap gap
      rw [Text.trimStart, List.takeWhile_cons_of_pos blank, List.dropWhile_cons_of_pos blank,
        Text.bytes_cons, ← Nat.add_assoc]
      exact ih
  | @lexeme pos c w rest l lexemes solid found begins later _ =>
      have blank : ¬ isBlank c = true := by
        rw [isBlank_of_read found]
        exact Bool.false_ne_true
      rw [Text.trimStart, List.takeWhile_cons_of_neg blank, List.dropWhile_cons_of_neg blank]
      exact .lexeme solid found begins later

theorem Lexed.of_append_blanks {pos : Nat} {u blanks : Text} {lexemes : List (Spanned Lexeme)}
    (lexed : Lexed pos (u ++ blanks) lexemes) (blank : ∀ c ∈ blanks, isBlank c = true)
    (closed : ∀ l ∈ lexemes, l.node.isClosed = true) : Lexed pos u lexemes := by
  generalize all : u ++ blanks = t at lexed
  induction lexed generalizing u blanks with
  | nil pos =>
      rw [(List.append_eq_nil_iff.mp all).1]
      exact .nil pos
  | @gap pos c t lexemes gap _ ih =>
      cases u with
      | nil =>
          obtain rfl : blanks = c :: t := all
          have later := fun x member => blank x (List.mem_cons_of_mem c member)
          rw [(ih later closed (List.nil_append t)).eq_nil]
          exact .nil pos
      | cons x u =>
          obtain ⟨rfl, rest_eq⟩ := List.cons.inj all
          exact .gap gap (ih blank closed rest_eq)
  | @lexeme pos c w rest l lexemes solid found begins later ih =>
      cases u with
      | nil =>
          obtain rfl : blanks = c :: (w ++ rest) := all
          have first := blank c List.mem_cons_self
          rw [isBlank_of_read found] at first
          cases first
      | cons x u =>
          obtain rfl : x = c := (List.cons.inj all).1
          -- The lexeme ends with no blank, so all the blanks come after it.
          obtain ⟨front, last, ends, solid_end⟩ :=
            exists_written_last (read_proper found) (closed _ List.mem_cons_self) begins
          have same : x :: u ++ blanks = front ++ last :: rest := by
            rw [all, ← List.cons_append, ← begins, ends, List.append_assoc]
            rfl
          obtain ⟨r, u_eq, rfl⟩ := Text.exists_append_of_append_blanks same blank solid_end
          obtain rfl : u = w ++ r := by
            have split : front ++ last :: r = x :: w ++ r := by
              rw [← begins, ends, List.append_assoc]
              rfl
            exact (List.cons.inj (u_eq.trans split)).2
          exact .lexeme solid (read_truncate found begins) begins
            (ih blank (fun l member => closed l (List.mem_cons_of_mem _ member)) rfl)

/-- Trimming takes gaps only. -/
theorem Lexed.trimmed {pos : Nat} {t : Text} {lexemes : List (Spanned Lexeme)}
    (lexed : Lexed pos t lexemes) (closed : ∀ l ∈ lexemes, l.node.isClosed = true) :
    Lexed (Text.trimmed pos t).span.start (Text.trimmed pos t).node lexemes := by
  obtain ⟨blanks, parts, blank⟩ := Text.exists_trimEnd_append (Text.trimStart t)
  have started := lexed.trimStart
  rw [parts] at started
  exact started.of_append_blanks blank closed

def scan : Scan Int (Spanned Lexeme) :=
  .weighing (·.node.weight) (·.node == .plus)

theorem scan_cutsAt_iff (d : Int) (l : Spanned Lexeme) :
    scan.cutsAt d l = true ↔ l.node = .plus ∧ d = 0 := by
  rw [scan, Scan.weighing_cutsAt_iff, beq_iff_eq]

/-- Outside strings and characters the outline counts the brackets among the lexemes. -/
theorem Lexed.run {pos : Nat} {t : Text} {lexemes : List (Spanned Lexeme)}
    (lexed : Lexed pos t lexemes) (closed : ∀ l ∈ lexemes, l.node.isClosed = true) (d : Int) :
    Outline.run ⟨none, d⟩ t = ⟨none, scan.run d lexemes⟩ := by
  induction lexed generalizing d with
  | nil pos => rfl
  | gap gap _ ih =>
      rw [Outline.run_cons, Outline.step_plain (Outline.plain_of_class gap (by decide))]
      exact ih closed d
  | lexeme solid found begins _ ih =>
      have first := closed _ List.mem_cons_self
      have others := fun l member => closed l (List.mem_cons_of_mem _ member)
      rw [← List.cons_append, ← begins, Outline.run_append, run_written (read_proper found) first]
      exact ih others _

/-- Where no lexeme is cut at, no character is. -/
theorem Lexed.passes {pos : Nat} {t : Text} {lexemes : List (Spanned Lexeme)}
    (lexed : Lexed pos t lexemes) {d : Int} (passes : scan.Passes d lexemes) :
    (Outline.scan '+').Passes ⟨none, d⟩ t := by
  induction lexed generalizing d with
  | nil pos => rfl
  | @gap pos c t lexemes gap _ ih =>
      have other : '+' ∉ [c] := by
        rintro member
        rw [← List.mem_singleton.mp member] at gap
        cases gap
      have unmoved := Outline.step_plain (Outline.plain_of_class gap (by decide)) d
      refine (Scan.passes_append_iff _ _ [c] t).mpr ⟨Outline.passes_of_not_mem other _, ?_⟩
      rw [Outline.run_scan, Outline.run_cons, unmoved]
      exact ih passes
  | @lexeme pos c w rest l lexemes solid found begins _ ih =>
      obtain ⟨here, others⟩ := (Scan.passes_cons_iff _ _ _ _).mp passes
      have inside : l = .plus → d ≠ 0 := by
        rintro rfl rfl
        cases here
      have proper := read_proper found
      rw [← List.cons_append, ← begins, Scan.passes_append_iff]
      refine ⟨passes_written proper inside, ?_⟩
      cases closed : l.isClosed with
      | true =>
          rw [Outline.run_scan, run_written proper closed]
          exact ih others
      | false =>
          rw [rest_of_open found closed]
          exact Scan.passes_nil _ _

end Lexeme

end Pseudocode
