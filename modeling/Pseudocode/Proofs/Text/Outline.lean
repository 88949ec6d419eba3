import Pseudocode.Proofs.Scan

set_option autoImplicit false

namespace Pseudocode.Text.Outline

def run (o : Outline) (t : Text) : Outline :=
  t.foldl step o

/-- The scan that cuts at a separator outside quotes and brackets. -/
def scan (sep : Char) : Scan Outline Char :=
  ⟨step, fun o c => o.sees c && c == sep && (o.step c).depth == 0⟩

@[simp] theorem run_nil (o : Outline) : o.run [] = o := rfl

@[simp] theorem run_cons (o : Outline) (c : Char) (t : Text) : o.run (c :: t) = (o.step c).run t :=
  rfl

@[simp] theorem run_append (o : Outline) (s t : Text) : o.run (s ++ t) = (o.run s).run t :=
  List.foldl_append

theorem run_scan (sep : Char) (o : Outline) (t : Text) : (scan sep).run o t = o.run t := rfl

theorem scan_cutsAt_iff (sep : Char) (o : Outline) (c : Char) :
    (scan sep).cutsAt o c = true ↔ o.sees c = true ∧ c = sep ∧ (o.step c).depth = 0 := by
  simp only [scan, Bool.and_eq_true, beq_iff_eq, and_assoc]

theorem parts_eq_cut (sep : Char) (o : Outline) (t : Text) :
    o.parts sep t = (scan sep).cut o t := by
  induction t generalizing o with
  | nil => rfl
  | cons c t ih =>
      have later := ih (o.step c)
      obtain ⟨first, rest, cut⟩ := (scan sep).exists_cut_eq_cons (o.step c) t
      rw [parts, Scan.cut, later]
      change (if _ then _ else _) =
        if _ then [] :: (scan sep).cut (o.step c) t else ((scan sep).cut (o.step c) t).modifyHead _
      rw [cut]
      rfl

/-- Whether a character, read outside quotes, leaves the outline as it is. -/
def plain (c : Char) : Bool :=
  !isQuote c && !isOpening c && !isClosing c

/-- A class of characters without quotation marks and brackets is plain. -/
theorem plain_of_class {p : Char → Bool} {c : Char} (member : p c = true)
    (none : ['"', '\'', '(', '[', ')', ']'].all (!p ·) = true) : plain c = true := by
  have other : c ∉ ['"', '\'', '(', '[', ')', ']'] := by
    intro among
    have excluded := List.all_eq_true.mp none c among
    rw [member] at excluded
    cases excluded
  simp only [List.mem_cons, List.not_mem_nil, or_false, not_or] at other
  simp [plain, isQuote, isOpening, isClosing, other]

theorem step_plain {c : Char} (isPlain : plain c = true) (d : Int) :
    step ⟨none, d⟩ c = ⟨none, d⟩ := by
  simp only [plain, Bool.and_eq_true, Bool.not_eq_eq_eq_not, Bool.not_true] at isPlain
  simp [step, isPlain]

theorem run_plain {t : Text} (all : ∀ c ∈ t, plain c = true) (d : Int) :
    run ⟨none, d⟩ t = ⟨none, d⟩ := by
  induction t with
  | nil => rfl
  | cons c t ih =>
      rw [run_cons, step_plain (all c List.mem_cons_self)]
      exact ih fun x member => all x (List.mem_cons_of_mem c member)

theorem step_quote {q : Char} (mark : isQuote q = true) (d : Int) :
    step ⟨none, d⟩ q = ⟨some q, d⟩ := by
  simp [step, mark]

theorem step_closing_quote (q : Char) (d : Int) : step ⟨some q, d⟩ q = ⟨none, d⟩ := by
  simp [step]

/-- Between quotation marks nothing counts but the closing mark. -/
theorem run_inside {q : Char} {t : Text} (absent : q ∉ t) (d : Int) :
    run ⟨some q, d⟩ t = ⟨some q, d⟩ := by
  induction t with
  | nil => rfl
  | cons c t ih =>
      rw [List.mem_cons, not_or] at absent
      have inside : step ⟨some q, d⟩ c = ⟨some q, d⟩ := by
        simp [step, Ne.symm absent.1]
      rw [run_cons, inside]
      exact ih absent.2

theorem run_quoted {q : Char} {t : Text} (mark : isQuote q = true) (absent : q ∉ t) (d : Int) :
    run ⟨none, d⟩ (q :: t ++ [q]) = ⟨none, d⟩ := by
  rw [List.cons_append, run_cons, step_quote mark, run_append, run_inside absent, run_cons,
    step_closing_quote, run_nil]

theorem step_raise (q : Option Char) (d k : Int) (c : Char) :
    step ⟨q, d + k⟩ c = { step ⟨q, d⟩ c with depth := (step ⟨q, d⟩ c).depth + k } := by
  unfold step
  cases q with
  | some mark =>
      dsimp only
      split <;> rfl
  | none =>
      dsimp only
      split
      · rfl
      · split
        · exact congrArg (Outline.mk none) (show d + k + 1 = d + 1 + k by omega)
        · split
          · exact congrArg (Outline.mk none) (show d + k - 1 = d - 1 + k by omega)
          · rfl

/-- With more brackets open, the same brackets more are open at the end. -/
theorem run_raise (q : Option Char) (d k : Int) (t : Text) :
    run ⟨q, d + k⟩ t = { run ⟨q, d⟩ t with depth := (run ⟨q, d⟩ t).depth + k } := by
  induction t generalizing q d with
  | nil => rfl
  | cons c t ih =>
      rw [run_cons, run_cons, step_raise]
      exact ih (step ⟨q, d⟩ c).quote (step ⟨q, d⟩ c).depth

theorem quote_run (q : Option Char) (d : Int) (t : Text) :
    (run ⟨q, d⟩ t).quote = (run ⟨q, 0⟩ t).quote := by
  have raised := run_raise q 0 d t
  rw [Int.zero_add] at raised
  rw [raised]

theorem passes_of_not_mem {sep : Char} {t : Text} (absent : sep ∉ t) (o : Outline) :
    (scan sep).Passes o t := by
  induction t generalizing o with
  | nil => rfl
  | cons c t ih =>
      rw [List.mem_cons, not_or] at absent
      rw [Scan.passes_cons_iff]
      refine ⟨?_, ih absent.2 _⟩
      simp [scan, Ne.symm absent.1]

theorem passes_inside {sep q : Char} {t : Text} (absent : q ∉ t) (d : Int) :
    (scan sep).Passes ⟨some q, d⟩ t := by
  rw [Scan.passes_iff]
  rintro front c back rfl
  rw [List.mem_append, not_or] at absent
  rw [run_scan, run_inside absent.1]
  rfl

theorem passes_quoted {sep q : Char} {t : Text} (mark : isQuote q = true) (absent : q ∉ t)
    (d : Int) : (scan sep).Passes ⟨none, d⟩ (q :: t ++ [q]) := by
  rw [List.cons_append, Scan.passes_cons_iff, Scan.passes_append_iff]
  have opened : (scan sep).next ⟨none, d⟩ q = ⟨some q, d⟩ := step_quote mark d
  rw [opened]
  refine ⟨?_, passes_inside absent d, ?_⟩
  · simp [scan, sees, mark]
  · rw [run_scan, run_inside absent, Scan.passes_cons_iff]
    exact ⟨rfl, rfl⟩

/-- Inside brackets nothing is cut. -/
theorem passes_of_positive {o : Outline} {t : Text}
    (inside : ∀ front back, t = front ++ back → 0 < (o.run front).depth) (sep : Char) :
    (scan sep).Passes o t := by
  rw [Scan.passes_iff]
  rintro front c back rfl
  have deep := inside (front ++ [c]) back (by simp)
  rw [run_append, run_cons, run_nil] at deep
  rw [run_scan, Bool.eq_false_iff, ne_eq, scan_cutsAt_iff]
  rintro ⟨_, _, outside⟩
  omega

theorem breakAt_eq_none {here : Int → Text → Bool} {o : Outline} {t : Text}
    (nowhere : ∀ front c back, t = front ++ c :: back → (o.run front).sees c = true →
      here ((o.run front).step c).depth (c :: back) = false) : breakAt here o t = none := by
  induction t generalizing o with
  | nil => rfl
  | cons c t ih =>
      have first : (o.sees c && here (o.step c).depth (c :: t)) = false := by
        cases seen : o.sees c with
        | false => rfl
        | true => exact nowhere [] c t rfl seen
      rw [breakAt, first, if_neg Bool.false_ne_true, ih]
      · rfl
      · rintro front x back rfl
        exact nowhere (c :: front) x back rfl

/-- A text is cut in two at a place where the condition holds. -/
theorem breakAt_eq_some {here : Int → Text → Bool} {o : Outline} {t front rest : Text}
    (found : breakAt here o t = some (front, rest)) :
    t = front ++ rest ∧ ∃ depth, here depth rest = true := by
  induction t generalizing o front with
  | nil => cases found
  | cons c t ih =>
      rw [breakAt] at found
      split at found
      · rename_i stop
        cases found
        exact ⟨rfl, _, (Bool.and_eq_true_iff.mp stop).2⟩
      · obtain ⟨⟨before, after⟩, later, same⟩ := Option.map_eq_some_iff.mp found
        cases same
        obtain ⟨rfl, holds⟩ := ih later
        exact ⟨rfl, holds⟩

/-- What is found by a single character is found whatever follows the text. -/
theorem breakOuter_append_right {m : Char} {t front rest : Text}
    (found : breakOuter [m] t = some (front, rest)) (after : Text) :
    breakOuter [m] (t ++ after) = some (front, rest ++ after) := by
  rw [breakOuter] at found ⊢
  generalize ({} : Outline) = o at found ⊢
  induction t generalizing o front with
  | nil => cases found
  | cons c t ih =>
      have first (u : Text) : [m].isPrefixOf (c :: u) = (m == c) := by simp [List.isPrefixOf]
      rw [breakAt, first] at found
      rw [List.cons_append, breakAt, first]
      split at found
      · rename_i stop
        rw [if_pos stop]
        cases found
        rfl
      · rename_i on
        obtain ⟨⟨before, back⟩, found, same⟩ := Option.map_eq_some_iff.mp found
        cases same
        rw [if_neg on, ih _ found]
        rfl

/-- A mark is looked for after all that its first character does not cut. -/
theorem breakAt_append {m : Char} {marks s : Text} {o : Outline} (passes : (scan m).Passes o s)
    (t : Text) :
    breakAt (fun depth rest => depth == 0 && (m :: marks).isPrefixOf rest) o (s ++ t) =
      (breakAt (fun depth rest => depth == 0 && (m :: marks).isPrefixOf rest) (o.run s) t).map
        fun found => (s ++ found.1, found.2) := by
  induction s generalizing o with
  | nil => simp
  | cons c s ih =>
      obtain ⟨here, later⟩ := (Scan.passes_cons_iff _ _ _ _).mp passes
      have skipped : (o.sees c &&
          ((o.step c).depth == 0 && (m :: marks).isPrefixOf (c :: (s ++ t)))) = false := by
        rw [Bool.eq_false_iff]
        intro found
        simp only [Bool.and_eq_true, beq_iff_eq, List.isPrefixOf] at found
        have cuts := (scan_cutsAt_iff m o c).mpr ⟨found.1, found.2.2.1.symm, found.2.1⟩
        rw [here] at cuts
        cases cuts
      have onward := ih (o := o.step c) later
      rw [List.cons_append, breakAt, skipped, if_neg Bool.false_ne_true, onward, Option.map_map]
      rfl

/-- A mark that follows a text without its first character is where the text is cut. -/
theorem breakOuter_append {m : Char} {marks s : Text} (isPlain : plain m = true)
    (closes : run {} s = {}) (passes : (scan m).Passes {} s) (t : Text) :
    breakOuter (m :: marks) (s ++ (m :: marks ++ t)) = some (s, m :: marks ++ t) := by
  have unquoted : isQuote m = false := by
    simp only [plain, Bool.and_eq_true, Bool.not_eq_eq_eq_not, Bool.not_true] at isPlain
    exact isPlain.1.1
  have stays : step {} m = {} := step_plain isPlain 0
  have here : (m :: marks).isPrefixOf (m :: marks ++ t) = true :=
    List.isPrefixOf_iff_prefix.mpr (List.prefix_append _ t)
  have found : breakAt (fun depth rest => depth == 0 && (m :: marks).isPrefixOf rest) {}
      (m :: marks ++ t) = some ([], m :: marks ++ t) := by
    rw [List.cons_append] at here ⊢
    rw [breakAt, stays, here, sees, unquoted]
    rfl
  rw [breakOuter, breakAt_append passes, closes, found, Option.map_some, List.append_nil]

/-- No `//` stands outside quotes. -/
def Uncommented (o : Outline) (t : Text) : Prop :=
  ∀ front back, t = front ++ '/' :: '/' :: back → (o.run front).quote ≠ none

theorem stripComment_eq_self {t : Text} (uncommented : Uncommented {} t) : stripComment t = t := by
  have none : breakAt (fun _ rest => ['/', '/'].isPrefixOf rest) {} t = none := by
    apply breakAt_eq_none
    intro front c back same seen
    rw [Bool.eq_false_iff]
    intro found
    obtain ⟨rest, begins⟩ := List.isPrefixOf_iff_prefix.mp found
    rw [← begins] at same
    have quoted := uncommented front rest same
    simp only [sees, Bool.and_eq_true, Option.isNone_iff_eq_none] at seen
    exact quoted seen.1
  rw [stripComment, none]

theorem uncommented_of_not_mem {t : Text} (absent : '/' ∉ t) (o : Outline) : o.Uncommented t := by
  rintro front back rfl
  exact absurd (by simp) absent

theorem uncommented_inside {q : Char} {t : Text} (absent : q ∉ t) (d : Int) :
    Uncommented ⟨some q, d⟩ t := by
  rintro front back rfl
  rw [run_inside fun member => absent (List.mem_append_left _ member)]
  exact Option.some_ne_none q

theorem Uncommented.raise {q : Option Char} {d : Int} {t : Text}
    (uncommented : Uncommented ⟨q, 0⟩ t) : Uncommented ⟨q, d⟩ t := by
  intro front back same
  rw [quote_run]
  exact uncommented front back same

/-- Two texts with no slash at the seam. -/
theorem Uncommented.append {o : Outline} {s t : Text} (first : o.Uncommented s)
    (second : (o.run s).Uncommented t)
    (apart : (∀ r, s ≠ r ++ ['/']) ∨ ∀ r, t ≠ '/' :: r) : o.Uncommented (s ++ t) := by
  intro front back same
  rcases List.append_eq_append_iff.mp same with ⟨a, front_eq, rest_eq⟩ | ⟨a, s_eq, rest_eq⟩
  · rw [front_eq, run_append]
    exact second a back rest_eq
  · cases a with
    | nil =>
        rw [List.append_nil] at s_eq
        rw [← s_eq]
        exact second [] back rest_eq.symm
    | cons x a =>
        cases a with
        | nil =>
            cases rest_eq
            exact (apart.elim (fun ends => ends front s_eq) fun starts => starts back rfl).elim
        | cons y a =>
            cases rest_eq
            exact first front a s_eq

theorem Uncommented.after {o : Outline} {s t : Text} (second : (o.run s).Uncommented t)
    (absent : '/' ∉ s) : o.Uncommented (s ++ t) := by
  refine (uncommented_of_not_mem absent o).append second (.inl ?_)
  rintro r rfl
  exact absent (by simp)

theorem Uncommented.before {o : Outline} {s t : Text} (first : o.Uncommented s)
    (absent : '/' ∉ t) : o.Uncommented (s ++ t) := by
  refine first.append (uncommented_of_not_mem absent _) (.inr ?_)
  rintro r rfl
  exact absent (by simp)

theorem uncommented_quoted {q : Char} {t : Text} (mark : isQuote q = true) (slashless : q ≠ '/')
    (absent : q ∉ t) (d : Int) : Uncommented ⟨none, d⟩ (q :: t ++ [q]) := by
  have other : '/' ∉ [q] := fun member => slashless (List.mem_singleton.mp member).symm
  refine Uncommented.after (s := [q]) ?_ other
  rw [run_cons, run_nil, step_quote mark]
  exact (uncommented_inside absent d).before other

end Pseudocode.Text.Outline
