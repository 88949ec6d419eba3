import Pseudocode.Expression
import Pseudocode.Proofs.Text.Outline
import Pseudocode.Proofs.Text.Pieces

set_option autoImplicit false

namespace Pseudocode.Expression

open Text (bytes slice splitOuter withOffsets Outline)

/-- Where a pass over the characters of an expression stands: what is open there, the byte at which
the next segment begins, and the segments found. -/
structure Sweep where
  outline : Outline := {}
  start : Nat := 0
  found : List (Spanned Text) := []

namespace Sweep

def step (t : Text) (w : Sweep) (pos : Nat) (c : Char) : Result Sweep :=
  match w.outline.quote, c with
  | some q, c => .ok (if c = q then { w with outline.quote := none } else w)
  | none, '"' | none, '\'' => .ok { w with outline.quote := some c }
  | none, '(' | none, '[' => .ok { w with outline.depth := w.outline.depth + 1 }
  | none, ')' | none, ']' => .ok { w with outline.depth := w.outline.depth - 1 }
  | none, '+' =>
      if w.outline.depth = 0 then do
        let piece ← segment (bytes t) w.start (slice t ⟨w.start, pos⟩)
        return { w with start := pos + 1, found := w.found ++ [piece] }
      else .ok w
  | none, _ => .ok w

/-- Reads characters from byte `pos` of `t` on, and takes the last segment after them. -/
def run (t : Text) (w : Sweep) (pos : Nat) : Text → Result (List (Spanned Text))
  | [] => do
      let last ← segment (bytes t) w.start (slice t ⟨w.start, bytes t⟩)
      return w.found ++ [last]
  | c :: rest => do
      let next ← w.step t pos c
      next.run t (pos + c.utf8Size) rest

variable {o : Outline} {c : Char}

theorem step_of_passes (passes : (Outline.scan '+').cutsAt o c = false) (t : Text)
    (start pos : Nat) (found : List (Spanned Text)) :
    step t ⟨o, start, found⟩ pos c = .ok ⟨o.step c, start, found⟩ := by
  obtain ⟨quote, depth⟩ := o
  cases quote with
  | some q => by_cases closes : c = q <;> simp [step, Outline.step, closes]
  | none =>
      -- Quotation marks and brackets move the outline alike. That leaves a `+` inside brackets and
      -- a character that is no mark.
      unfold step
      split
      case h_1 same => cases same
      case h_8 =>
        refine if_neg fun outside => ?_
        have cuts := (Outline.scan_cutsAt_iff '+' ⟨none, depth⟩ '+').mpr ⟨rfl, rfl, outside⟩
        rw [passes] at cuts
        cases cuts
      case h_9 c _ _ _ _ _ _ _ _ _ _ =>
        have isPlain : Outline.plain c = true := by
          simp_all [Outline.plain, Text.isQuote, Text.isOpening, Text.isClosing]
        rw [Outline.step_plain isPlain]
      all_goals rfl

theorem step_of_cutsAt (here : (Outline.scan '+').cutsAt o c = true) (t : Text)
    (start pos : Nat) (found : List (Spanned Text)) :
    step t ⟨o, start, found⟩ pos c = (do
      let piece ← segment (bytes t) start (slice t ⟨start, pos⟩)
      return ⟨o.step c, pos + 1, found ++ [piece]⟩) := by
  obtain ⟨quote, depth⟩ := o
  obtain ⟨seen, rfl, outside⟩ := (Outline.scan_cutsAt_iff _ _ _).mp here
  simp only [Outline.sees, Bool.and_eq_true, Option.isNone_iff_eq_none] at seen
  obtain rfl : quote = none := seen.1
  exact if_pos outside

/-- Where nothing is cut, a pass goes on with the same start and the same segments. -/
theorem run_of_passes {u : Text} (passes : (Outline.scan '+').Passes o u) (t : Text)
    (start pos : Nat) (found : List (Spanned Text)) (rest : Text) :
    run t ⟨o, start, found⟩ pos (u ++ rest) =
      run t ⟨o.run u, start, found⟩ (pos + bytes u) rest := by
  induction u generalizing o pos with
  | nil => rfl
  | cons c u ih =>
      obtain ⟨here, later⟩ := (Scan.passes_cons_iff _ _ _ _).mp passes
      have onward := ih later (pos + c.utf8Size)
      rw [Nat.add_assoc] at onward
      rw [List.cons_append, run, step_of_passes here]
      exact onward

theorem run_eq (o : Outline) (front t : Text) (found : List (Spanned Text)) :
    run (front ++ t) ⟨o, bytes front, found⟩ (bytes front) t = (do
      let later ← (withOffsets (bytes front) (o.parts '+' t)).mapM fun part =>
        segment (bytes (front ++ t)) part.1 part.2
      return found ++ later) := by
  rw [Outline.parts_eq_cut]
  -- Along the cuts: the first part, its `+`, and the same for the rest of the text.
  induction o, t using (Outline.scan '+').cut_induction generalizing front found with
  | uncut o t passes =>
      have whole := run_of_passes passes (front ++ t) (bytes front) (bytes front) found []
      have piece := Text.slice_append front t []
      rw [List.append_nil] at whole piece
      rw [whole, passes, run, Text.bytes_append, piece]
      simp [withOffsets]
  | cut o u c v passes here ih =>
      obtain ⟨_, rfl, _⟩ := (Outline.scan_cutsAt_iff _ _ _).mp here
      have cuts : (Outline.scan '+').cutsAt (o.run u) '+' = true := here
      have reached := run_of_passes passes (front ++ (u ++ '+' :: v)) (bytes front) (bytes front)
        found ('+' :: v)
      have piece := Text.slice_append front u ('+' :: v)
      rw [List.append_assoc] at piece
      have size := Text.bytes_append_plus front u
      have whole := Text.append_plus_append front u v
      have later := ih (front ++ u ++ ['+'])
      rw [size, whole] at later
      rw [reached, run, step_of_cutsAt cuts, piece, Scan.cut_append_cons _ here, passes,
        List.singleton_append, withOffsets, List.mapM_cons]
      simp only [bind_assoc, pure_bind]
      refine bind_congr fun next => ?_
      refine (later (found ++ [next])).trans ?_
      simp only [List.append_assoc, List.singleton_append]

end Sweep

def sweep (t : Text) : Result (List (Spanned Text)) :=
  Sweep.run t {} 0 t

/-- The pass cuts where `splitOuter` does, and it fails where a part is blank. -/
theorem sweep_eq_segments (t : Text) : sweep t = segments t := by
  rw [sweep, segments, splitOuter]
  refine (Sweep.run_eq {} [] t []).trans ?_
  simp

end Pseudocode.Expression
