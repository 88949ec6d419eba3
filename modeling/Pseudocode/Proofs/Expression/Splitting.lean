import Mathlib.Data.List.Chain
import Pseudocode.Proofs.Expression.Segments
import Pseudocode.Proofs.Text.Clause

set_option autoImplicit false

namespace Pseudocode

open Text (bytes slice trim trimmed isBlank splitOuter withOffsets StandsAt Outline)

/-- Cutting at one kind of item loses only those items. -/
theorem Scan.intercalate_cut {σ α : Type} (s : Scan σ α) {mark : α}
    (only : ∀ state x, s.cutsAt state x = true → x = mark) (state : σ) (items : List α) :
    List.intercalate [mark] (s.cut state items) = items := by
  induction state, items using s.cut_induction with
  | uncut state items passes => rw [passes, List.intercalate_singleton]
  | cut state front x back passes here ih =>
      have same := only _ x here
      subst same
      obtain ⟨first, parts, later⟩ := s.exists_cut_eq_cons (s.next (s.run state front) x) back
      rw [later] at ih
      rw [s.cut_append_cons here, passes, later, List.singleton_append,
        List.intercalate_cons_cons, ih, List.append_assoc, List.singleton_append]

namespace Text

variable {sep : Char} {t : Text}

namespace Outline

/-- Where a text is cut, no quote or bracket is open, before the separator and after it. -/
theorem eq_of_cutsAt (isPlain : plain sep = true) {o : Outline} {c : Char}
    (here : (scan sep).cutsAt o c = true) : o = {} ∧ (scan sep).next o c = {} := by
  obtain ⟨seen, rfl, outside⟩ := (scan_cutsAt_iff sep o c).mp here
  obtain ⟨quote, depth⟩ := o
  simp only [sees, Bool.and_eq_true, Option.isNone_iff_eq_none] at seen
  obtain rfl : quote = none := seen.1
  have stays := step_plain isPlain depth
  rw [stays] at outside
  have zero : depth = 0 := outside
  subst zero
  exact ⟨rfl, stays⟩

theorem passes_of_mem_cut (isPlain : plain sep = true) {o : Outline} (start : o = {}) :
    ∀ part ∈ (scan sep).cut o t, (scan sep).Passes {} part := by
  induction o, t using (scan sep).cut_induction with
  | uncut o t passes =>
      subst start
      rw [passes]
      exact List.forall_mem_singleton.mpr passes
  | cut o front x back passes here ih =>
      subst start
      have next := (eq_of_cutsAt isPlain here).2
      rw [Scan.cut_append_cons _ here, passes, List.singleton_append]
      exact List.forall_mem_cons.mpr ⟨passes, ih next⟩

theorem passes_trim (passes : (scan sep).Passes {} t) : (scan sep).Passes {} (trim t) := by
  obtain ⟨blanks, parts, _⟩ := exists_trim_append t
  have lead : run {} (t.takeWhile isBlank) = {} :=
    run_plain (fun c member => plain_of_class (List.mem_takeWhile_imp member) (by decide)) 0
  rw [parts, Scan.passes_append_iff, run_scan, lead, Scan.passes_append_iff] at passes
  exact passes.2.1

end Outline

theorem splitOuter_of_passes (passes : (Outline.scan sep).Passes {} t) :
    splitOuter sep t = [(0, t)] := by
  rw [splitOuter, Outline.parts_eq_cut, passes]
  rfl

theorem passes_of_mem_splitOuter (isPlain : Outline.plain sep = true) {part : Nat × Text}
    (member : part ∈ splitOuter sep t) : (Outline.scan sep).Passes {} part.2 := by
  have among := List.mem_map_of_mem (f := Prod.snd) member
  rw [splitOuter, map_snd_withOffsets, Outline.parts_eq_cut] at among
  exact Outline.passes_of_mem_cut isPlain rfl part.2 among

theorem intercalate_splitOuter (sep : Char) (t : Text) :
    List.intercalate [sep] ((splitOuter sep t).map Prod.snd) = t := by
  rw [splitOuter, map_snd_withOffsets, Outline.parts_eq_cut]
  refine Scan.intercalate_cut (Outline.scan sep) (fun o c here => ?_) {} t
  exact ((Outline.scan_cutsAt_iff sep o c).mp here).2.1

theorem exists_intercalate_eq_append (sep : Char) (part : Text) (rest : List Text) :
    ∃ back, List.intercalate [sep] (part :: rest) = part ++ back := by
  cases rest with
  | nil => exact ⟨[], by simp⟩
  | cons next others => exact ⟨_, by rw [List.intercalate_cons_cons, List.append_assoc]⟩

/-- Parts that are joined stand one after the other, with one separator between them. -/
theorem isChain_withOffsets (narrow : sep.utf8Size = 1) (front : Text) (parts : List Text) :
    (withOffsets (bytes front) parts).IsChain fun a b =>
      b.1 = a.1 + bytes a.2 + 1 ∧
        StandsAt (front ++ List.intercalate [sep] parts) a.1 (a.2 ++ sep :: b.2) := by
  induction parts generalizing front with
  | nil => simp [withOffsets]
  | cons first rest ih =>
      cases rest with
      | nil => simp [withOffsets]
      | cons second others =>
          have size : bytes (front ++ (first ++ [sep])) = bytes front + bytes first + 1 := by
            simp [narrow, Nat.add_assoc]
          have whole : front ++ (first ++ [sep]) ++ List.intercalate [sep] (second :: others) =
              front ++ List.intercalate [sep] (first :: second :: others) := by
            simp [List.intercalate_cons_cons]
          have later := ih (front ++ (first ++ [sep]))
          rw [size, whole] at later
          obtain ⟨back, begins⟩ := exists_intercalate_eq_append sep second others
          refine List.isChain_cons_cons.mpr ⟨⟨rfl, front, back, ?_, rfl⟩, later⟩
          simp [List.intercalate_cons_cons, begins]

/-- Between the trimmed forms of two neighbours stand blanks and the separator. -/
theorem slice_between_trimmed (narrow : sep.utf8Size = 1) {start : Nat} {first second : Text}
    (stands : StandsAt t start (first ++ sep :: second)) :
    ∃ before after, slice t ⟨(trimmed start first).span.stop,
        (trimmed (start + bytes first + 1) second).span.start⟩ = before ++ sep :: after ∧
      ∀ c ∈ before ++ after, isBlank c = true := by
  obtain ⟨trail, parts, blank⟩ := exists_trim_append first
  have lead := List.takeWhile_append_dropWhile (p := isBlank) (l := second)
  obtain ⟨front, back, rfl, rfl⟩ := stands
  refine ⟨trail, second.takeWhile isBlank, ?_, ?_⟩
  · have whole : front ++ (first ++ sep :: second ++ back) =
        front ++ (first.takeWhile isBlank ++ trim first) ++
          (trail ++ sep :: second.takeWhile isBlank) ++ (second.dropWhile isBlank ++ back) := by
      nth_rewrite 1 [parts, ← lead]
      simp only [List.append_assoc, List.cons_append]
    have sizes := congrArg bytes parts
    have between := slice_append (front ++ (first.takeWhile isBlank ++ trim first))
      (trail ++ sep :: second.takeWhile isBlank) (second.dropWhile isBlank ++ back)
    rw [← whole] at between
    refine Eq.trans ?_ between
    congr 1
    simp only [trimmed, bytes_append, bytes_cons, narrow, Span.mk.injEq] at sizes ⊢
    omega
  · exact List.forall_mem_append.mpr ⟨blank, fun c member => List.mem_takeWhile_imp member⟩

end Text

namespace Expression

theorem trimmed_zero_of_trim {t : Text} (some : t ≠ []) (tight : trim t = t) :
    trimmed 0 t = ⟨t, ⟨0, bytes t⟩⟩ := by
  obtain ⟨c, rest, rfl, solid⟩ := Text.startsSolid_of_trim some tight
  simp [trimmed, tight, solid]

theorem segments_of_passes {t : Text} (passes : (Outline.scan '+').Passes {} t) (some : t ≠ [])
    (tight : trim t = t) : segments t = .ok [⟨t, ⟨0, bytes t⟩⟩] := by
  rw [segments_of_uncut (Text.splitOuter_of_passes passes) (by rwa [tight]),
    trimmed_zero_of_trim some tight]

def ApartByPlus (t : Text) (a b : Spanned Text) : Prop :=
  ∃ before after, slice t ⟨a.span.stop, b.span.start⟩ = before ++ '+' :: after ∧
    ∀ c ∈ before ++ after, isBlank c = true

theorem isChain_segments {t : Text} {found : List (Spanned Text)} (made : segments t = .ok found) :
    found.IsChain (ApartByPlus t) := by
  have whole := Text.intercalate_splitOuter '+' t
  rw [splitOuter, Text.map_snd_withOffsets] at whole
  have narrow : '+'.utf8Size = 1 := rfl
  have chain := Text.isChain_withOffsets narrow [] (Outline.parts '+' {} t)
  rw [List.nil_append, whole] at chain
  rw [((segments_eq_ok_iff t found).mp made).2, List.isChain_map]
  refine chain.imp fun a b apart => ?_
  obtain ⟨offset, stands⟩ := apart
  rw [offset]
  exact Text.slice_between_trimmed narrow stands

/-- A segment stands in the text without blanks around it, and it is its own only segment. -/
theorem segment_standsIn {t : Text} {found : List (Spanned Text)} (made : segments t = .ok found)
    {piece : Spanned Text} (member : piece ∈ found) :
    piece.node ≠ [] ∧ trim piece.node = piece.node ∧ piece.StandsIn t ∧
      segments piece.node = .ok [⟨piece.node, ⟨0, bytes piece.node⟩⟩] := by
  obtain ⟨full, rfl⟩ := (segments_eq_ok_iff t found).mp made
  obtain ⟨part, among, rfl⟩ := List.mem_map.mp member
  have stands := (Text.standsAt_of_mem_splitOuter rfl among).1
  have passes := Text.passes_of_mem_splitOuter (by decide) among
  have tight := Text.trim_trim part.2
  exact ⟨full part among, tight, stands.trimmed_standsIn,
    segments_of_passes (Outline.passes_trim passes) (full part among) tight⟩

/-- The parts of a text with their separators between them make up the text, and each stands at its
offset; a part is not split again. The pass over the characters makes the segments that the parts
give. Each segment is a piece of the text, neither empty nor padded, with blanks and one `+` between
it and the next; a segment is not cut again. -/
theorem splitting_is_lossless (t : Text) :
    (∀ sep ∈ [',', '+'],
      List.intercalate [sep] ((splitOuter sep t).map Prod.snd) = t ∧
        ∀ part ∈ splitOuter sep t, StandsAt t part.1 part.2 ∧
          slice t ⟨part.1, part.1 + bytes part.2⟩ = part.2 ∧
          splitOuter sep part.2 = [(0, part.2)]) ∧
    sweep t = segments t ∧
    ∀ found, segments t = .ok found →
      (∀ piece ∈ found, piece.node ≠ [] ∧ trim piece.node = piece.node ∧
        piece.StandsIn t ∧ slice t piece.span = piece.node ∧
        segments piece.node = .ok [⟨piece.node, ⟨0, bytes piece.node⟩⟩]) ∧
      found.IsChain (ApartByPlus t) := by
  refine ⟨?_, sweep_eq_segments t, ?_⟩
  · intro sep among
    have narrow : Outline.plain sep = true ∧ sep.utf8Size = 1 := by
      simp only [List.mem_cons, List.not_mem_nil, or_false] at among
      rcases among with rfl | rfl <;> decide
    refine ⟨Text.intercalate_splitOuter sep t, fun part member => ?_⟩
    have stands := (Text.standsAt_of_mem_splitOuter narrow.2 member).1
    have passes := Text.passes_of_mem_splitOuter narrow.1 member
    exact ⟨stands, stands.slice_eq, Text.splitOuter_of_passes passes⟩
  · intro found made
    refine ⟨fun piece member => ?_, isChain_segments made⟩
    obtain ⟨full, tight, stands, alone⟩ := segment_standsIn made member
    exact ⟨full, tight, stands, stands.slice_eq, alone⟩

/-- A wide space is trimmed, and a quote that is left open hides a `+` and a comma. -/
theorem splitting_is_lossless_unclosed :
    let t := "f(1, 2),\u3000'é,' + \"a+b, c".toList
    let parts := ["f(1, 2)".toList, "\u3000'é,' + \"a+b, c".toList]
    let first : Spanned Text := ⟨"f(1, 2),\u3000'é,'".toList, ⟨0, 16⟩⟩
    let second : Spanned Text := ⟨"\"a+b, c".toList, ⟨19, 26⟩⟩
    (splitOuter ',' t).map Prod.snd = parts ∧ List.intercalate [','] parts = t ∧
      segments t = .ok [first, second] ∧ ApartByPlus t first second ∧
      segments second.node = .ok [⟨second.node, ⟨0, bytes second.node⟩⟩] := by
  intro t parts first second
  obtain ⟨whole, _, cut⟩ := splitting_is_lossless t
  have comma : (splitOuter ',' t).map Prod.snd = parts := by decide +kernel
  have made : segments t = .ok [first, second] := by decide +kernel
  have joined := (whole ',' (by simp)).1
  rw [comma] at joined
  obtain ⟨alone, chain⟩ := cut _ made
  exact ⟨comma, joined, made, (List.isChain_cons_cons.mp chain).1, (alone second (by simp)).2.2.2.2⟩

end Expression

end Pseudocode
