import Mathlib.Data.List.Forall2
import Pseudocode.Proofs.Expression.Sweep
import Pseudocode.Proofs.Lexeme.Lexed
import Pseudocode.Proofs.Places

set_option autoImplicit false

namespace Pseudocode

open Text (bytes slice trim trimmed splitOuter withOffsets Outline)

namespace Lexeme

def outerPluses (lexemes : List (Spanned Lexeme)) : List (Spanned Lexeme) :=
  scan.marks 0 lexemes

theorem Lexed.parts_of_passes {pos : Nat} {t : Text} {lexemes : List (Spanned Lexeme)} {d : Int}
    (lexed : Lexed pos t lexemes) (passes : scan.Passes d lexemes) :
    Outline.parts '+' ⟨none, d⟩ t = [t] := by
  rw [Outline.parts_eq_cut]
  exact lexed.passes passes

/-- The first `+` that lexemes are cut at is the first that the text is cut at. -/
theorem Lexed.parts_of_cutsAt {pos : Nat} {t : Text} {front back : List (Spanned Lexeme)}
    {x : Spanned Lexeme} {d : Int} (lexed : Lexed pos t (front ++ x :: back))
    (passes : scan.Passes d front) (here : scan.cutsAt (scan.run d front) x = true) :
    ∃ u v, t = u ++ '+' :: v ∧ x.span.start = pos + bytes u ∧ Lexed pos u front ∧
      Lexed (pos + bytes u + 1) v back ∧
      Outline.parts '+' ⟨none, d⟩ t =
        u :: Outline.parts '+' ⟨none, scan.next (scan.run d front) x⟩ v := by
  obtain ⟨plus, outside⟩ := (scan_cutsAt_iff _ _).mp here
  obtain ⟨u, v, rfl, place, before, after, closed⟩ := lexed.cutAt
  rw [plus] at place ⊢
  rw [place] at after
  refine ⟨u, v, rfl, by rw [place], before, after, ?_⟩
  have reached : (Outline.scan '+').run ⟨none, d⟩ u = ⟨none, 0⟩ := by
    rw [Outline.run_scan, before.run closed]
    rw [outside]
  have cut : (Outline.scan '+').cutsAt ((Outline.scan '+').run ⟨none, d⟩ u) '+' = true := by
    rw [reached]
    rfl
  have onward : scan.next (scan.run d front) x = 0 := by
    change scan.run d front + x.node.weight = 0
    rw [plus, outside]
    rfl
  rw [Outline.parts_eq_cut, Outline.parts_eq_cut, onward]
  change (Outline.scan '+').cut ⟨none, d⟩ (u ++ '+' :: v) = _
  rw [Scan.cut_append_cons _ cut, before.passes passes, reached]
  rfl

end Lexeme

open Lexeme

/-- The byte positions at which a text was cut into these parts. -/
def Text.cuts (parts : List (Nat × Text)) : List Nat :=
  parts.dropLast.map fun part => part.1 + bytes part.2

/-- The ranges before, between and after marks of one byte at these places. -/
def Span.gaps (start : Nat) (places : List Nat) (stop : Nat) : List Span :=
  match places with
  | [] => [⟨start, stop⟩]
  | place :: places => ⟨start, place⟩ :: gaps (place + 1) places stop

theorem Text.withOffsets_ne_nil (pos : Nat) {parts : List Text} (some : parts ≠ []) :
    withOffsets pos parts ≠ [] := by
  cases parts with
  | nil => exact absurd rfl some
  | cons part parts => exact List.cons_ne_nil _ _

theorem Text.Outline.parts_ne_nil (sep : Char) (o : Outline) (t : Text) : o.parts sep t ≠ [] := by
  rw [parts_eq_cut]
  exact Scan.cut_ne_nil _ _ _

theorem Lexeme.Lexed.cuts_parts {t : Text} {lexemes : List (Spanned Lexeme)} {d : Int} {pos : Nat}
    (lexed : Lexed pos t lexemes) :
    Text.cuts (withOffsets pos (Outline.parts '+' ⟨none, d⟩ t)) =
      (scan.marks d lexemes).map (·.span.start) := by
  -- Along the cuts: the first part, its plus, and the same for the rest of the text.
  induction d, lexemes using scan.cut_induction generalizing pos t with
  | uncut d lexemes passes =>
      rw [lexed.parts_of_passes passes, scan.marks_of_passes passes]
      rfl
  | cut d front x back passes here ih =>
      obtain ⟨u, v, rfl, place, _, after, parts⟩ := lexed.parts_of_cutsAt passes here
      have later := ih after
      have some := Text.withOffsets_ne_nil (pos + bytes u + 1)
        (Outline.parts_ne_nil '+' ⟨none, scan.next (scan.run d front) x⟩ v)
      rw [parts, scan.marks_append_cons passes here, withOffsets, Text.cuts,
        List.dropLast_cons_of_ne_nil some, List.map_cons, List.map_cons, place]
      exact congrArg ((pos + bytes u) :: ·) later

theorem Lexeme.Lexed.parts_eq_slices (front : Text) {t : Text} {lexemes : List (Spanned Lexeme)}
    {d : Int} (lexed : Lexed (bytes front) t lexemes) :
    withOffsets (bytes front) (Outline.parts '+' ⟨none, d⟩ t) =
      (Span.gaps (bytes front) ((scan.marks d lexemes).map (·.span.start))
        (bytes (front ++ t))).map fun g => (g.start, slice (front ++ t) g) := by
  induction d, lexemes using scan.cut_induction generalizing front t with
  | uncut d lexemes passes =>
      have whole := Text.slice_append front t []
      rw [List.append_nil] at whole
      rw [lexed.parts_of_passes passes, scan.marks_of_passes passes, Text.bytes_append]
      simp only [List.map_nil, Span.gaps, List.map_cons, whole]
      rfl
  | cut d before x back passes here ih =>
      obtain ⟨u, v, rfl, place, _, after, parts⟩ := lexed.parts_of_cutsAt passes here
      have size := Text.bytes_append_plus front u
      have whole := Text.append_plus_append front u v
      rw [← size] at after
      have later := ih _ after
      have first := Text.slice_append front u ('+' :: v)
      rw [size, whole] at later
      rw [List.append_assoc] at first
      rw [parts, scan.marks_append_cons passes here, withOffsets, later]
      simp only [List.map_cons, Span.gaps, place, first]

/-- Each part stands at its place and consists of the lexemes between two cuts. -/
theorem Lexeme.Lexed.forall₂_parts (front : Text) {t : Text} {lexemes : List (Spanned Lexeme)}
    {d : Int} (lexed : Lexed (bytes front) t lexemes) :
    List.Forall₂
      (fun part piece => Text.StandsAt (front ++ t) part.1 part.2 ∧ Lexed part.1 part.2 piece)
      (withOffsets (bytes front) (Outline.parts '+' ⟨none, d⟩ t)) (scan.cut d lexemes) := by
  induction d, lexemes using scan.cut_induction generalizing front t with
  | uncut d lexemes passes =>
      rw [lexed.parts_of_passes passes, passes]
      exact .cons ⟨⟨front, [], by rw [List.append_nil], rfl⟩, lexed⟩ .nil
  | cut d before x back passes here ih =>
      obtain ⟨u, v, rfl, _, first, after, parts⟩ := lexed.parts_of_cutsAt passes here
      have size := Text.bytes_append_plus front u
      have whole := Text.append_plus_append front u v
      rw [← size] at after
      have later := ih _ after
      rw [size, whole] at later
      rw [parts, scan.cut_append_cons here, passes, List.singleton_append, withOffsets]
      exact .cons ⟨⟨front, '+' :: v, rfl, rfl⟩, first⟩ later

namespace Expression

theorem segment_eq_ok {total start : Nat} {part : Text} (some : trim part ≠ []) :
    segment total start part = .ok (trimmed start part) := by
  have full : ¬ (trim part).isEmpty = true := by
    rw [List.isEmpty_iff]
    exact some
  exact if_neg full

theorem trim_ne_nil_of_segment {total start : Nat} {part : Text} {piece : Spanned Text}
    (made : segment total start part = .ok piece) : trim part ≠ [] := by
  intro none
  have blank : (trimmed start part).node.isEmpty = true := List.isEmpty_iff.mpr none
  rw [segment, if_pos blank] at made
  cases made

/-- An expression has segments exactly if no part is blank. -/
theorem segments_eq_ok_iff (t : Text) (found : List (Spanned Text)) :
    segments t = .ok found ↔ (∀ part ∈ splitOuter '+' t, trim part.2 ≠ []) ∧
      found = (splitOuter '+' t).map fun part => trimmed part.1 part.2 := by
  have whole : (∀ part ∈ splitOuter '+' t, trim part.2 ≠ []) →
      segments t = .ok ((splitOuter '+' t).map fun part => trimmed part.1 part.2) :=
    fun some => mapM_eq_ok_of_forall fun part member => segment_eq_ok (some part member)
  constructor
  · intro made
    have some : ∀ part ∈ splitOuter '+' t, trim part.2 ≠ [] := by
      intro part member
      obtain ⟨piece, one⟩ := forall_of_mapM_eq_ok made part member
      exact trim_ne_nil_of_segment one
    rw [whole some, Except.ok.injEq] at made
    exact ⟨some, made.symm⟩
  · rintro ⟨some, rfl⟩
    exact whole some

theorem segments_of_uncut {t : Text} (uncut : splitOuter '+' t = [(0, t)]) (some : trim t ≠ []) :
    segments t = .ok [trimmed 0 t] := by
  rw [segments_eq_ok_iff, uncut]
  exact ⟨List.forall_mem_singleton.mpr some, rfl⟩

theorem forall₂_segments {t : Text} {lexemes : List (Spanned Lexeme)} {found : List (Spanned Text)}
    (lexed : Lexed 0 t lexemes) (closed : ∀ l ∈ lexemes, l.node.isClosed = true)
    (made : segments t = .ok found) :
    List.Forall₂
      (fun piece lexemes => Text.StandsAt t piece.span.start piece.node ∧
        Lexed piece.span.start piece.node lexemes)
      found (scan.cut 0 lexemes) := by
  obtain ⟨_, rfl⟩ := (segments_eq_ok_iff t found).mp made
  have parts := lexed.forall₂_parts [] (d := 0)
  rw [List.forall₂_map_left_iff]
  refine List.forall₂_iff_zip.mpr ⟨parts.length_eq, ?_⟩
  intro part piece among
  have inside := (List.of_mem_zip among).2
  obtain ⟨stands, read⟩ := (List.forall₂_iff_zip.mp parts).2 among
  exact ⟨stands.trimmed, read.trimmed fun l member => closed l (scan.mem_of_mem_cut inside member)⟩

theorem exists_related {α β : Type} {related : α → β → Prop} {xs : List α} {ys : List β}
    (all : List.Forall₂ related xs ys) {x : α} (member : x ∈ xs) : ∃ y ∈ ys, related x y := by
  induction all with
  | nil => cases member
  | cons here _ ih =>
      rcases List.mem_cons.mp member with rfl | member
      · exact ⟨_, List.mem_cons_self, here⟩
      · obtain ⟨y, among, there⟩ := ih member
        exact ⟨y, List.mem_cons_of_mem _ among, there⟩

theorem exists_segments {t : Text} {lexemes : List (Spanned Lexeme)} (lexed : Lexed 0 t lexemes)
    (closed : ∀ l ∈ lexemes, l.node.isClosed = true)
    (full : ∀ piece ∈ scan.cut 0 lexemes, piece ≠ []) : ∃ found, segments t = .ok found := by
  have parts := lexed.forall₂_parts [] (d := 0)
  refine ⟨_, (segments_eq_ok_iff t _).mpr ⟨fun part member blank => ?_, rfl⟩⟩
  obtain ⟨piece, among, _, read⟩ := exists_related parts member
  have alone := read.trimmed fun l inside => closed l (scan.mem_of_mem_cut among inside)
  have none : (trimmed part.1 part.2).node = [] := blank
  rw [none] at alone
  exact full piece among alone.eq_nil

theorem lex_of_forall₂ {t : Text} {found : List (Spanned Text)}
    {pieces : List (List (Spanned Lexeme))}
    (lexed : List.Forall₂
      (fun piece lexemes => Text.StandsAt t piece.span.start piece.node ∧
        Lexed piece.span.start piece.node lexemes)
      found pieces) :
    (∀ piece ∈ found, (lex piece.node).stuck = none) ∧
      (found.map fun piece => (lex piece.node).lexemes.map (·.shift piece.span.start)) =
        pieces := by
  induction lexed with
  | nil => exact ⟨List.forall_mem_nil _, rfl⟩
  | @cons piece lexemes found pieces first _ ih =>
      obtain ⟨unstuck, same⟩ := first.2.map_shift_lex
      refine ⟨fun other member => ?_, ?_⟩
      · rcases List.mem_cons.mp member with rfl | member
        · exact unstuck
        · exact ih.1 other member
      · rw [List.map_cons, same, ih.2]

/-- The splitter cuts at the pluses outside parentheses and brackets, and nowhere else, and so does
the pass that makes segments; an expression has segments unless a part before, between or after them
is blank; and the lexemes of the whole are those of the segments, each at its place, with the pluses
between them. -/
theorem segments_follow_lexemes {t : Text} (lexed : (lex t).stuck = none) :
    let pluses := outerPluses (lex t).lexemes
    let parts := (Span.gaps 0 (pluses.map (·.span.start)) (bytes t)).map fun g =>
      (g.start, slice t g)
    Text.cuts (splitOuter '+' t) = pluses.map (·.span.start) ∧
      splitOuter '+' t = parts ∧
      sweep t = segments t ∧
      ((∃ e, segments t = .error e) ↔ ∃ part ∈ parts, trim part.2 = []) ∧
      ∀ found, segments t = .ok found →
        found = parts.map (fun part => trimmed part.1 part.2) ∧
          ((∀ l ∈ (lex t).lexemes, l.node.isClosed = true) →
            (∀ piece ∈ found, (lex piece.node).stuck = none) ∧
              (lex t).lexemes = Scan.join
                (found.map fun piece => (lex piece.node).lexemes.map (·.shift piece.span.start))
                pluses) := by
  intro pluses parts
  have whole := lexed_lex lexed
  have sliced : splitOuter '+' t = parts := whole.parts_eq_slices [] (d := 0)
  refine ⟨whole.cuts_parts, sliced, sweep_eq_segments t, ?_, ?_⟩
  · rw [← sliced]
    constructor
    · rintro ⟨e, failed⟩
      by_contra none
      push Not at none
      rw [(segments_eq_ok_iff t _).mpr ⟨none, rfl⟩] at failed
      cases failed
    · rintro ⟨part, member, blank⟩
      cases made : segments t with
      | error e => exact ⟨e, rfl⟩
      | ok found => exact absurd blank (((segments_eq_ok_iff t found).mp made).1 part member)
  · intro found made
    rw [← sliced]
    refine ⟨((segments_eq_ok_iff t found).mp made).2, fun closed => ?_⟩
    obtain ⟨unstuck, pieces⟩ := lex_of_forall₂ (forall₂_segments whole closed made)
    refine ⟨unstuck, ?_⟩
    rw [pieces]
    exact (scan.join_cut 0 _).symm

/-- `a[1+2] + "+(" + '+'` is cut twice. -/
theorem segments_follow_lexemes_quoted :
    (lex "a[1+2] + \"+(\" + '+'".toList).stuck = none ∧
      Text.cuts (splitOuter '+' "a[1+2] + \"+(\" + '+'".toList) = [7, 14] := by
  have lexed : (lex "a[1+2] + \"+(\" + '+'".toList).stuck = none := by decide +kernel
  refine ⟨lexed, ?_⟩
  rw [(segments_follow_lexemes lexed).1]
  decide +kernel

end Expression

end Pseudocode
