import Pseudocode.Proofs.Text.Outline
import Pseudocode.Proofs.Text.Pieces

set_option autoImplicit false

namespace Pseudocode.Text

namespace Outline

/-- The text before the first `//` outside quotes, and the text from there on. -/
def comment? (o : Outline) (t : Text) : Option (Text × Text) :=
  breakAt (fun _ rest => ['/', '/'].isPrefixOf rest) o t

@[simp] theorem comment?_nil (o : Outline) : o.comment? [] = none := rfl

theorem comment?_cons (o : Outline) (c : Char) (t : Text) :
    o.comment? (c :: t) =
      if o.quote = none ∧ c = '/' ∧ t.head? = some '/' then some ([], c :: t)
      else ((o.step c).comment? t).map fun found => (c :: found.1, found.2) := by
  have here : (o.sees c && ['/', '/'].isPrefixOf (c :: t)) = true ↔
      o.quote = none ∧ c = '/' ∧ t.head? = some '/' := by
    cases t with
    | nil => simp [List.isPrefixOf]
    | cons d t =>
        simp only [sees, isQuote, List.isPrefixOf, List.head?_cons, Bool.and_eq_true, beq_iff_eq,
          Option.isNone_iff_eq_none, Option.some.injEq]
        constructor
        · rintro ⟨⟨outside, _⟩, rfl, rfl, _⟩
          exact ⟨outside, rfl, rfl⟩
        · rintro ⟨outside, rfl, rfl⟩
          exact ⟨⟨outside, rfl⟩, rfl, rfl, trivial⟩
  simp only [comment?, breakAt, here]

variable {o : Outline} {t code rest : Text}

theorem eq_append_of_comment? (found : o.comment? t = some (code, rest)) :
    t = code ++ rest ∧ ∃ after, rest = '/' :: '/' :: after := by
  obtain ⟨parts, _, marked⟩ := breakAt_eq_some found
  obtain ⟨after, begins⟩ := List.isPrefixOf_iff_prefix.mp marked
  exact ⟨parts, after, begins.symm⟩

theorem comment?_append_right (found : o.comment? t = some (code, rest)) (after : Text) :
    o.comment? (t ++ after) = some (code, rest ++ after) := by
  induction t generalizing o code with
  | nil => cases found
  | cons c t ih =>
      rw [comment?_cons] at found
      rw [List.cons_append, comment?_cons]
      cases t with
      | nil => simp at found
      | cons d t =>
          split at found
          · rename_i begins
            cases found
            exact if_pos begins
          · rename_i goes
            obtain ⟨⟨before, back⟩, later, same⟩ := Option.map_eq_some_iff.mp found
            cases same
            rw [List.cons_append, List.head?_cons]
            rw [List.head?_cons] at goes
            rw [if_neg goes, ← List.cons_append, ih later]
            rfl

theorem comment?_code (found : o.comment? t = some (code, rest)) : o.comment? code = none := by
  induction t generalizing o code with
  | nil => cases found
  | cons c t ih =>
      rw [comment?_cons] at found
      split at found
      · cases found
        rfl
      · rename_i goes
        obtain ⟨⟨before, back⟩, later, same⟩ := Option.map_eq_some_iff.mp found
        cases same
        have begins : o.quote = none ∧ c = '/' ∧ before.head? = some '/' → False := by
          rintro ⟨outside, slash, next⟩
          refine goes ⟨outside, slash, ?_⟩
          rw [(eq_append_of_comment? later).1, List.head?_append, next]
          rfl
        rw [comment?_cons, if_neg begins, ih later]
        rfl

/-- A comment is looked for after a text without one, if none begins at the seam. -/
theorem comment?_append {s : Text} (clear : o.comment? s = none) (apart : t.head? ≠ some '/') :
    o.comment? (s ++ t) = ((o.run s).comment? t).map fun found => (s ++ found.1, found.2) := by
  induction s generalizing o with
  | nil => simp
  | cons c s ih =>
      rw [comment?_cons] at clear
      split at clear
      · cases clear
      · rename_i goes
        have begins : ¬ (o.quote = none ∧ c = '/' ∧ (s ++ t).head? = some '/') := by
          cases s with
          | nil => simp [apart]
          | cons d s => exact goes
        rw [List.cons_append, comment?_cons, if_neg begins, ih (Option.map_eq_none_iff.mp clear),
          Option.map_map]
        rfl

theorem comment?_blanks {blanks : Text} (blank : ∀ c ∈ blanks, isBlank c = true) (d : Int)
    (after : Text) :
    comment? ⟨none, d⟩ (blanks ++ '/' :: '/' :: after) = some (blanks, '/' :: '/' :: after) := by
  induction blanks with
  | nil => exact (comment?_cons _ _ _).trans (if_pos ⟨rfl, rfl, rfl⟩)
  | cons c blanks ih =>
      obtain ⟨first, later⟩ := List.forall_mem_cons.mp blank
      have other : c ≠ '/' := by
        rintro rfl
        cases first
      have begins : ¬ ((none : Option Char) = none ∧ c = '/' ∧
          (blanks ++ '/' :: '/' :: after).head? = some '/') :=
        fun marked => other marked.2.1
      rw [List.cons_append, comment?_cons, if_neg begins,
        step_plain (plain_of_class first (by decide)), ih later]
      rfl

end Outline

theorem stripComment_of_some {line code rest : Text}
    (found : Outline.comment? {} line = some (code, rest)) : stripComment line = code := by
  unfold stripComment
  unfold Outline.comment? at found
  rw [found]

theorem stripComment_of_none {line : Text} (none : Outline.comment? {} line = none) :
    stripComment line = line := by
  unfold stripComment
  unfold Outline.comment? at none
  rw [none]

/-- A line is its code, or its code and a comment. -/
theorem stripComment_cases (line : Text) :
    (Outline.comment? {} line = none ∧ stripComment line = line) ∨
      ∃ rest, Outline.comment? {} line = some (stripComment line, rest) := by
  cases found : Outline.comment? {} line with
  | none => exact .inl ⟨rfl, stripComment_of_none found⟩
  | some parts =>
      refine .inr ⟨parts.2, ?_⟩
      exact congrArg (fun code => some (code, parts.2)) (stripComment_of_some found).symm

theorem stripComment_stripComment (line : Text) :
    stripComment (stripComment line) = stripComment line := by
  rcases stripComment_cases line with ⟨_, same⟩ | ⟨rest, found⟩
  · rw [same, same]
  · exact stripComment_of_none (Outline.comment?_code found)

/-- A line that ends outside quotes or with a comment. -/
def Commentable (line : Text) : Prop :=
  stripComment line ≠ line ∨ (Outline.run {} line).quote = none

/-- A comment after blanks adds nothing to the code of a line but blanks. -/
theorem exists_stripComment_append {line : Text} (commentable : Commentable line) {blanks : Text}
    (some : blanks ≠ []) (blank : ∀ c ∈ blanks, isBlank c = true) (after : Text) :
    ∃ more, (∀ c ∈ more, isBlank c = true) ∧
      stripComment (line ++ (blanks ++ '/' :: '/' :: after)) = stripComment line ++ more := by
  rcases stripComment_cases line with ⟨none, same⟩ | ⟨rest, found⟩
  · have outside : (Outline.run {} line).quote = .none :=
      commentable.resolve_left fun other => other same
    have apart : (blanks ++ '/' :: '/' :: after).head? ≠ .some '/' := by
      obtain ⟨c, blanks, rfl⟩ := List.exists_cons_of_ne_nil some
      rintro ⟨rfl⟩
      cases blank '/' List.mem_cons_self
    have found := Outline.comment?_append none apart
    cases reached : Outline.run {} line with
    | mk quote depth =>
        rw [reached] at outside found
        cases outside
        rw [Outline.comment?_blanks blank] at found
        exact ⟨blanks, blank, by rw [stripComment_of_some found, same]⟩
  · refine ⟨[], List.forall_mem_nil _, ?_⟩
    rw [stripComment_of_some (Outline.comment?_append_right found _), List.append_nil]

end Pseudocode.Text
