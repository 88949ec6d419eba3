import Pseudocode.Text.Outline

set_option autoImplicit false

namespace Pseudocode

/-- A scan from the left over items of type `α` with states of type `σ`. Whether it cuts at an item
depends on the state before it. -/
structure Scan (σ α : Type) where
  next : σ → α → σ
  cutsAt : σ → α → Bool

namespace Scan

variable {σ α β : Type} (s : Scan σ α)

def run (state : σ) (items : List α) : σ :=
  items.foldl s.next state

/-- The parts between the items that are cut at. -/
def cut (state : σ) : List α → List (List α)
  | [] => [[]]
  | x :: rest =>
      if s.cutsAt state x then [] :: cut (s.next state x) rest
      else (cut (s.next state x) rest).modifyHead (x :: ·)

def marks (state : σ) : List α → List α
  | [] => []
  | x :: rest =>
      if s.cutsAt state x then x :: marks (s.next state x) rest else marks (s.next state x) rest

/-- Parts with marks between them, as one list. -/
def join : List (List α) → List α → List α
  | [], _ => []
  | [part], _ => part
  | part :: next :: parts, [] => part ++ join (next :: parts) []
  | part :: next :: parts, mark :: marks => part ++ mark :: join (next :: parts) marks

@[simp] theorem run_nil (state : σ) : s.run state [] = state := rfl

@[simp] theorem run_cons (state : σ) (x : α) (rest : List α) :
    s.run state (x :: rest) = s.run (s.next state x) rest := rfl

@[simp] theorem run_append (state : σ) (xs ys : List α) :
    s.run state (xs ++ ys) = s.run (s.run state xs) ys :=
  List.foldl_append

theorem cut_cons_of_cutsAt {state : σ} {x : α} (here : s.cutsAt state x = true) (rest : List α) :
    s.cut state (x :: rest) = [] :: s.cut (s.next state x) rest := by
  rw [cut, if_pos here]

theorem cut_cons_of_passes {state : σ} {x : α} (passes : s.cutsAt state x = false)
    (rest : List α) :
    s.cut state (x :: rest) = (s.cut (s.next state x) rest).modifyHead (x :: ·) := by
  rw [cut, if_neg (by rw [passes]; exact Bool.false_ne_true)]

theorem cut_ne_nil (state : σ) (items : List α) : s.cut state items ≠ [] := by
  cases items with
  | nil => exact List.cons_ne_nil _ _
  | cons x rest =>
      have later := cut_ne_nil (s.next state x) rest
      rw [cut]
      split
      · exact List.cons_ne_nil _ _
      · rwa [ne_eq, List.modifyHead_eq_nil_iff]

theorem exists_cut_eq_cons (state : σ) (items : List α) :
    ∃ first parts, s.cut state items = first :: parts :=
  List.exists_cons_of_ne_nil (s.cut_ne_nil state items)

/-- The scan cuts nowhere in the items. -/
def Passes (state : σ) (items : List α) : Prop :=
  s.cut state items = [items]

theorem passes_nil (state : σ) : s.Passes state [] := rfl

theorem passes_cons_iff (state : σ) (x : α) (rest : List α) :
    s.Passes state (x :: rest) ↔
      s.cutsAt state x = false ∧ s.Passes (s.next state x) rest := by
  unfold Passes
  cases here : s.cutsAt state x with
  | true => simp [s.cut_cons_of_cutsAt here]
  | false =>
      obtain ⟨first, parts, cut⟩ := s.exists_cut_eq_cons (s.next state x) rest
      simp [s.cut_cons_of_passes here, cut]

theorem passes_append_iff (state : σ) (xs ys : List α) :
    s.Passes state (xs ++ ys) ↔ s.Passes state xs ∧ s.Passes (s.run state xs) ys := by
  induction xs generalizing state with
  | nil => simp [passes_nil]
  | cons x rest ih =>
      rw [List.cons_append, passes_cons_iff, passes_cons_iff, ih, run_cons, and_assoc]

theorem passes_iff (state : σ) (items : List α) :
    s.Passes state items ↔
      ∀ front x back, items = front ++ x :: back → s.cutsAt (s.run state front) x = false := by
  constructor
  · rintro passes front x back rfl
    rw [passes_append_iff, passes_cons_iff] at passes
    exact passes.2.1
  · intro all
    induction items generalizing state with
    | nil => rfl
    | cons x rest ih =>
        rw [passes_cons_iff]
        refine ⟨all [] x rest rfl, ih _ ?_⟩
        rintro front y back rfl
        exact all (x :: front) y back rfl

/-- What the scan passes goes to the first part of what follows. -/
theorem cut_append_of_passes {state : σ} {xs : List α} (passes : s.Passes state xs)
    (ys : List α) :
    s.cut state (xs ++ ys) = (s.cut (s.run state xs) ys).modifyHead (xs ++ ·) := by
  induction xs generalizing state with
  | nil =>
      obtain ⟨first, parts, cut⟩ := s.exists_cut_eq_cons state ys
      simp [cut]
  | cons x rest ih =>
      obtain ⟨here, later⟩ := (s.passes_cons_iff state x rest).mp passes
      obtain ⟨first, parts, cut⟩ := s.exists_cut_eq_cons (s.run (s.next state x) rest) ys
      rw [List.cons_append, s.cut_cons_of_passes here, ih later, run_cons, cut]
      rfl

/-- A cut divides the parts before it from the parts after it. -/
theorem cut_append_cons {state : σ} {xs : List α} {x : α}
    (here : s.cutsAt (s.run state xs) x = true) (ys : List α) :
    s.cut state (xs ++ x :: ys) = s.cut state xs ++ s.cut (s.next (s.run state xs) x) ys := by
  induction xs generalizing state with
  | nil => exact s.cut_cons_of_cutsAt here ys
  | cons y rest ih =>
      rw [run_cons] at here
      have later := ih here
      obtain ⟨first, parts, cut⟩ := s.exists_cut_eq_cons (s.next state y) rest
      cases first_here : s.cutsAt state y with
      | true =>
          rw [List.cons_append, s.cut_cons_of_cutsAt first_here, s.cut_cons_of_cutsAt first_here,
            later]
          rfl
      | false =>
          rw [List.cons_append, s.cut_cons_of_passes first_here, s.cut_cons_of_passes first_here,
            later, cut]
          rfl

theorem mem_of_mem_cut {state : σ} {items part : List α} {x : α}
    (among : part ∈ s.cut state items) (member : x ∈ part) : x ∈ items := by
  induction items generalizing state part with
  | nil =>
      rw [List.mem_singleton.mp among] at member
      cases member
  | cons y rest ih =>
      obtain ⟨first, parts, cut⟩ := s.exists_cut_eq_cons (s.next state y) rest
      cases here : s.cutsAt state y with
      | true =>
          rw [s.cut_cons_of_cutsAt here] at among
          rcases List.mem_cons.mp among with rfl | among
          · cases member
          · exact List.mem_cons_of_mem y (ih among member)
      | false =>
          rw [s.cut_cons_of_passes here, cut, List.modifyHead_cons] at among
          rcases List.mem_cons.mp among with rfl | among
          · rcases List.mem_cons.mp member with rfl | member
            · exact List.mem_cons_self
            · exact List.mem_cons_of_mem y (ih (by rw [cut]; exact List.mem_cons_self) member)
          · have later := ih (by rw [cut]; exact List.mem_cons_of_mem _ among) member
            exact List.mem_cons_of_mem y later

theorem marks_of_passes {state : σ} {items : List α} (passes : s.Passes state items) :
    s.marks state items = [] := by
  induction items generalizing state with
  | nil => rfl
  | cons x rest ih =>
      obtain ⟨here, later⟩ := (s.passes_cons_iff state x rest).mp passes
      rw [marks, here, if_neg Bool.false_ne_true, ih later]

theorem marks_append_cons {state : σ} {front : List α} {x : α} (passes : s.Passes state front)
    (here : s.cutsAt (s.run state front) x = true) (back : List α) :
    s.marks state (front ++ x :: back) = x :: s.marks (s.next (s.run state front) x) back := by
  induction front generalizing state with
  | nil =>
      rw [run_nil] at here ⊢
      rw [List.nil_append, marks, if_pos here]
  | cons y rest ih =>
      obtain ⟨unmarked, later⟩ := (s.passes_cons_iff state y rest).mp passes
      rw [List.cons_append, marks, unmarked, if_neg Bool.false_ne_true, ih later here, run_cons]

theorem passes_or_cuts (state : σ) (items : List α) :
    s.Passes state items ∨ ∃ front x back, items = front ++ x :: back ∧ s.Passes state front ∧
      s.cutsAt (s.run state front) x = true := by
  induction items generalizing state with
  | nil => exact .inl rfl
  | cons x rest ih =>
      cases here : s.cutsAt state x with
      | true => exact .inr ⟨[], x, rest, rfl, rfl, here⟩
      | false =>
          rcases ih (s.next state x) with passes | ⟨front, y, back, rfl, passes, cuts⟩
          · exact .inl ((s.passes_cons_iff state x rest).mpr ⟨here, passes⟩)
          · exact .inr ⟨x :: front, y, back, rfl,
              (s.passes_cons_iff state x front).mpr ⟨here, passes⟩, cuts⟩

/-- Induction along the cuts: the items before the first cut, then what is after it. -/
theorem cut_induction {motive : σ → List α → Prop}
    (uncut : ∀ state items, s.Passes state items → motive state items)
    (cut : ∀ state front x back, s.Passes state front → s.cutsAt (s.run state front) x = true →
      motive (s.next (s.run state front) x) back → motive state (front ++ x :: back))
    (state : σ) (items : List α) : motive state items := by
  rcases s.passes_or_cuts state items with passes | ⟨front, x, back, same, passes, here⟩
  · exact uncut state items passes
  · rw [same]
    exact cut state front x back passes here (cut_induction uncut cut _ back)
termination_by items.length
decreasing_by
  rw [same, List.length_append, List.length_cons]
  omega

theorem exists_cut_append (state : σ) (xs ys : List α) :
    ∃ front last first back, s.cut state xs = front ++ [last] ∧
      s.cut (s.run state xs) ys = first :: back ∧
      s.cut state (xs ++ ys) = front ++ (last ++ first) :: back := by
  induction xs generalizing state with
  | nil =>
      obtain ⟨first, back, after⟩ := s.exists_cut_eq_cons state ys
      exact ⟨[], [], first, back, rfl, after, after⟩
  | cons x rest ih =>
      obtain ⟨front, last, first, back, before, after, whole⟩ := ih (s.next state x)
      cases here : s.cutsAt state x with
      | true =>
          refine ⟨[] :: front, last, first, back, ?_, after, ?_⟩
          · rw [s.cut_cons_of_cutsAt here, before]
            rfl
          · rw [List.cons_append, s.cut_cons_of_cutsAt here, whole]
            rfl
      | false =>
          rw [List.cons_append, s.cut_cons_of_passes here, s.cut_cons_of_passes here, before, whole]
          cases front with
          | nil => exact ⟨[], x :: last, first, back, rfl, after, rfl⟩
          | cons part parts => exact ⟨(x :: part) :: parts, last, first, back, rfl, after, rfl⟩

/-- Items without a cut go to the last part of what comes before them. -/
theorem cut_append_last {state : σ} (xs : List α) {ys : List α}
    (passes : s.Passes (s.run state xs) ys) :
    ∃ front last, s.cut state xs = front ++ [last] ∧
      s.cut state (xs ++ ys) = front ++ [last ++ ys] := by
  obtain ⟨front, last, first, back, before, after, whole⟩ := s.exists_cut_append state xs ys
  obtain ⟨rfl, rfl⟩ := List.cons.inj (after.symm.trans passes)
  exact ⟨front, last, before, whole⟩

/-- Cutting a row of parts at the marks between them, where each part leaves the state as it is. -/
theorem cut_intercalate {state : σ} {mark : α} (here : s.cutsAt state mark = true)
    (stays : s.next state mark = state) {parts : List (List α)} (some : parts ≠ [])
    (passes : ∀ part ∈ parts, s.Passes state part)
    (runs : ∀ part ∈ parts, s.run state part = state) :
    s.cut state (List.intercalate [mark] parts) = parts := by
  induction parts with
  | nil => exact absurd rfl some
  | cons first rest ih =>
      cases rest with
      | nil =>
          rw [List.intercalate_singleton]
          exact passes first List.mem_cons_self
      | cons second others =>
          have reached := runs first List.mem_cons_self
          have cuts : s.cutsAt (s.run state first) mark = true := by rw [reached]; exact here
          have later := ih (List.cons_ne_nil _ _)
            (fun part member => passes part (List.mem_cons_of_mem _ member))
            (fun part member => runs part (List.mem_cons_of_mem _ member))
          rw [List.intercalate_cons_cons, List.append_assoc, List.singleton_append,
            s.cut_append_cons cuts, passes first List.mem_cons_self, reached, stays, later]
          rfl

theorem join_cons_cons (x : α) (first : List α) (parts : List (List α)) (marks : List α) :
    join ((x :: first) :: parts) marks = x :: join (first :: parts) marks := by
  rcases parts with _ | ⟨part, parts⟩
  · rfl
  · cases marks <;> rfl

/-- Nothing is lost by cutting. -/
theorem join_cut (state : σ) (items : List α) :
    join (s.cut state items) (s.marks state items) = items := by
  induction items generalizing state with
  | nil => rfl
  | cons x rest ih =>
      have later := ih (s.next state x)
      obtain ⟨first, parts, cut⟩ := s.exists_cut_eq_cons (s.next state x) rest
      rw [marks]
      cases here : s.cutsAt state x with
      | true =>
          rw [s.cut_cons_of_cutsAt here, if_pos rfl]
          rw [cut] at later ⊢
          rw [join, later, List.nil_append]
      | false =>
          rw [s.cut_cons_of_passes here, if_neg Bool.false_ne_true]
          rw [cut] at later ⊢
          rw [List.modifyHead_cons, join_cons_cons, later]

/-- The same scan over items that are mapped first. -/
def comap (s : Scan σ β) (f : α → β) : Scan σ α :=
  ⟨fun state x => s.next state (f x), fun state x => s.cutsAt state (f x)⟩

theorem cut_map (s : Scan σ β) (f : α → β) (state : σ) (items : List α) :
    s.cut state (items.map f) = ((s.comap f).cut state items).map (List.map f) := by
  induction items generalizing state with
  | nil => rfl
  | cons x rest ih =>
      have later := ih (s.next state (f x))
      have moved : (s.comap f).next state x = s.next state (f x) := rfl
      rw [List.map_cons]
      cases here : s.cutsAt state (f x) with
      | true =>
          have picked : (s.comap f).cutsAt state x = true := here
          rw [s.cut_cons_of_cutsAt here, (s.comap f).cut_cons_of_cutsAt picked, later]
          rfl
      | false =>
          have passed : (s.comap f).cutsAt state x = false := here
          obtain ⟨first, parts, cut⟩ := (s.comap f).exists_cut_eq_cons (s.next state (f x)) rest
          rw [s.cut_cons_of_passes here, (s.comap f).cut_cons_of_passes passed, later, moved, cut]
          rfl

/-- The scan that adds up weights and cuts at the marks before which they sum to zero. -/
def weighing (weight : α → Int) (mark : α → Bool) : Scan Int α :=
  ⟨fun d x => d + weight x, fun d x => mark x && d == 0⟩

theorem weighing_cutsAt_iff (weight : α → Int) (mark : α → Bool) (d : Int) (x : α) :
    (weighing weight mark).cutsAt d x = true ↔ mark x = true ∧ d = 0 := by
  simp only [weighing, Bool.and_eq_true, beq_iff_eq]

theorem weighing_passes {weight : α → Int} {mark : α → Bool} {d : Int} {x : α}
    (unmarked : mark x = true → d ≠ 0) : (weighing weight mark).cutsAt d x = false := by
  rw [Bool.eq_false_iff, ne_eq, weighing_cutsAt_iff]
  exact fun ⟨marked, zero⟩ => unmarked marked zero

/-- From `d` on, the sum of the weights never falls below zero, and it ends at zero. -/
def Nests (weight : α → Int) : Int → List α → Prop
  | d, [] => d = 0
  | d, x :: rest => 0 ≤ d + weight x ∧ Nests weight (d + weight x) rest

theorem Nests.cons {weight : α → Int} {d e : Int} {x : α} {rest : List α}
    (moved : d + weight x = e) (above : 0 ≤ e) (later : Nests weight e rest) :
    Nests weight d (x :: rest) := by
  subst moved
  exact ⟨above, later⟩

theorem Nests.of_neutral {weight : α → Int} {d : Int} {x : α} {rest : List α}
    (nests : Nests weight d (x :: rest)) (neutral : weight x = 0) :
    0 ≤ d ∧ Nests weight d rest := by
  rwa [Nests, neutral, Int.add_zero] at nests

theorem Nests.append {weight : α → Int} {a b : Int} {xs ys : List α} (first : Nests weight a xs)
    (second : Nests weight b ys) (positive : 0 ≤ b) : Nests weight (a + b) (xs ++ ys) := by
  induction xs generalizing a with
  | nil =>
      obtain rfl : a = 0 := first
      rw [Int.zero_add]
      exact second
  | cons x rest ih =>
      obtain ⟨above, later⟩ := first
      refine ⟨by omega, ?_⟩
      rw [Int.add_right_comm]
      exact ih later

theorem nests_map (weight : β → Int) (f : α → β) (d : Int) (xs : List α) :
    Nests weight d (xs.map f) ↔ Nests (fun x => weight (f x)) d xs := by
  induction xs generalizing d with
  | nil => rfl
  | cons x rest ih => exact and_congr_right fun _ => ih _

theorem Nests.run {weight : α → Int} {a : Int} {xs : List α} (nests : Nests weight a xs)
    (mark : α → Bool) (b : Int) : (weighing weight mark).run (a + b) xs = b := by
  induction xs generalizing a with
  | nil =>
      obtain rfl : a = 0 := nests
      exact Int.zero_add b
  | cons x rest ih =>
      have later := ih nests.2
      rw [Int.add_right_comm] at later
      exact later

/-- Nothing is cut inside what nests above zero. -/
theorem Nests.passes {weight : α → Int} {a b : Int} {xs : List α} (nests : Nests weight a xs)
    (mark : α → Bool) (above : 0 ≤ a) (inside : 0 < b) :
    (weighing weight mark).Passes (a + b) xs := by
  induction xs generalizing a with
  | nil => rfl
  | cons x rest ih =>
      have later := ih nests.2 nests.1
      rw [Int.add_right_comm] at later
      exact (passes_cons_iff _ _ _ _).mpr ⟨weighing_passes fun _ => by omega, later⟩

end Scan

end Pseudocode
