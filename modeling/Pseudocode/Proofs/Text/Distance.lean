import Mathlib.Data.List.MinMax
import Pseudocode.Text.Distance

set_option autoImplicit false

namespace Pseudocode.Text

/-- Least number of edits that turn one text into the other, by what becomes of the first
characters: one is put for the other, the first is deleted, or the second is inserted. -/
def edits : Text → Text → Nat
  | [], t => t.length
  | a :: s, [] => (a :: s).length
  | a :: s, b :: t =>
      min (min (edits s t + if a = b then 0 else 1) (edits s (b :: t) + 1)) (edits (a :: s) t + 1)
termination_by s t => s.length + t.length

@[simp] theorem edits_nil_left (t : Text) : edits [] t = t.length := by
  rw [edits]

@[simp] theorem edits_nil_right (s : Text) : edits s [] = s.length := by
  cases s <;> simp [edits]

theorem edits_cons_cons (a b : Char) (s t : Text) :
    edits (a :: s) (b :: t) =
      min (min (edits s t + if a = b then 0 else 1) (edits s (b :: t) + 1))
        (edits (a :: s) t + 1) := by
  rw [edits]

/-- The same recursion from the last characters on. -/
theorem edits_concat (a b : Char) (s t : Text) :
    edits (s ++ [a]) (t ++ [b]) =
      min (min (edits s t + if a = b then 0 else 1) (edits s (t ++ [b]) + 1))
        (edits (s ++ [a]) t + 1) := by
  -- Both sides are the least of the same nine ways to treat the first and the last characters.
  match s, t with
  | [], [] => simp [edits_cons_cons]
  | [], d :: t =>
      have shorter := edits_concat a b [] t
      simp only [List.nil_append, List.cons_append] at shorter ⊢
      simp only [edits_cons_cons, shorter, edits_nil_left, List.length_append, List.length_cons,
        List.length_nil, ← Nat.add_min_add_right]
      ac_rfl
  | c :: s, [] =>
      have shorter := edits_concat a b s []
      simp only [List.nil_append, List.cons_append] at shorter ⊢
      simp only [edits_cons_cons, shorter, edits_nil_right, List.length_append, List.length_cons,
        List.length_nil, ← Nat.add_min_add_right]
      ac_rfl
  | c :: s, d :: t =>
      have both := edits_concat a b s t
      have first := edits_concat a b s (d :: t)
      have second := edits_concat a b (c :: s) t
      simp only [List.cons_append] at first second ⊢
      simp only [edits_cons_cons, both, first, second, ← Nat.add_min_add_right]
      ac_rfl
termination_by s.length + t.length

theorem edits_comm (s t : Text) : edits s t = edits t s := by
  fun_induction edits s t with
  | case1 t => simp
  | case2 a s => simp
  | case3 a s b t both first second =>
      simp only [edits_cons_cons, both, first, second, eq_comm (a := b)]
      omega

theorem edits_eq_zero_iff (s t : Text) : edits s t = 0 ↔ s = t := by
  fun_induction edits s t with
  | case1 t => cases t <;> simp
  | case2 a s => simp
  | case3 a s b t both first second =>
      by_cases same : a = b
      · simp only [same, if_true, List.cons.injEq, true_and, ← both]
        omega
      · simp only [same, if_false, List.cons.injEq, false_and, iff_false]
        omega

theorem length_le_edits_add (s t : Text) : s.length ≤ edits s t + t.length := by
  fun_induction edits s t with
  | case1 t => simp
  | case2 a s => simp
  | case3 a s b t both first second =>
      simp only [List.length_cons] at first second ⊢
      omega

theorem edits_le_add (s t : Text) : edits s t ≤ s.length + t.length := by
  fun_induction edits s t with
  | case1 t => simp
  | case2 a s => simp
  | case3 a s b t both first second =>
      simp only [List.length_cons] at both ⊢
      split <;> omega

theorem substitution_triangle (a b c : Char) :
    (if a = c then 0 else 1) ≤ (if a = b then 0 else 1) + if b = c then 0 else 1 := by
  by_cases first : a = b
  · simp [first]
  · simp only [first, if_false]
    split <;> omega

theorem edits_triangle (r s t : Text) : edits r t ≤ edits r s + edits s t := by
  match r, s, t with
  | [], s, t =>
      have size := length_le_edits_add t s
      simp only [edits_nil_left, edits_comm t s] at size ⊢
      omega
  | r, s, [] =>
      rw [edits_nil_right, edits_nil_right]
      exact length_le_edits_add r s
  | r, [], t =>
      rw [edits_nil_right, edits_nil_left]
      exact edits_le_add r t
  | a :: r, b :: s, c :: t =>
      have here := substitution_triangle a b c
      have each := edits_triangle r s t
      have deleted := edits_triangle r (b :: s) (c :: t)
      have replaced := edits_triangle r s (c :: t)
      have inserted := edits_triangle (a :: r) (b :: s) t
      have dropped := edits_triangle (a :: r) s (c :: t)
      have added := edits_triangle (a :: r) s t
      simp only [edits_cons_cons] at *
      omega
termination_by r.length + s.length + t.length

/-- The distances from `u` to `w` and to every longer initial part of `w ++ t`. -/
def rowFrom (u w : Text) : Text → List Nat
  | [] => [edits u w]
  | b :: t => edits u w :: rowFrom u (w ++ [b]) t

theorem exists_rowFrom_eq_cons (u w t : Text) : ∃ rest, rowFrom u w t = edits u w :: rest := by
  cases t <;> simp [rowFrom]

theorem rowFrom_nil_left (w t : Text) : rowFrom [] w t = List.range' w.length (t.length + 1) := by
  induction t generalizing w with
  | nil => simp [rowFrom]
  | cons b t ih =>
      rw [rowFrom, List.length_cons, List.range'_succ, ih, edits_nil_left, List.length_append,
        List.length_singleton]

theorem getLastD_rowFrom (u w t : Text) (n : Nat) :
    (rowFrom u w t).getLastD n = edits u (w ++ t) := by
  induction t generalizing w n with
  | nil => simp [rowFrom]
  | cons b t ih =>
      rw [rowFrom, List.getLastD_cons, ih, List.append_assoc, List.singleton_append]

/-- Each entry of a row is made from its three neighbours as the recursion says. -/
theorem extendRow_rowFrom (a : Char) (u w t : Text) :
    edits (u ++ [a]) w :: extendRow a (edits (u ++ [a]) w) t (rowFrom u w t) =
      rowFrom (u ++ [a]) w t := by
  induction t generalizing w with
  | nil => simp [rowFrom, extendRow]
  | cons b t ih =>
      obtain ⟨rest, above⟩ := exists_rowFrom_eq_cons u (w ++ [b]) t
      have onward := ih (w ++ [b])
      rw [above, edits_concat] at onward
      rw [rowFrom, above, extendRow, rowFrom, ← onward, ← edits_concat]

theorem nextRow_rowFrom (a : Char) (u t : Text) :
    nextRow a t (rowFrom u [] t) = rowFrom (u ++ [a]) [] t := by
  obtain ⟨rest, row⟩ := exists_rowFrom_eq_cons u [] t
  have first : (rowFrom u [] t).headD 0 + 1 = edits (u ++ [a]) [] := by simp [row]
  rw [nextRow, first, extendRow_rowFrom]

/-- After any initial part of the first text, the row holds the distances from that part to all
initial parts of the second. -/
theorem foldl_nextRow (s t u : Text) :
    s.foldl (fun above a => nextRow a t above) (rowFrom u [] t) = rowFrom (u ++ s) [] t := by
  induction s generalizing u with
  | nil => simp
  | cons a s ih =>
      rw [List.foldl_cons, nextRow_rowFrom, ih, List.append_assoc, List.singleton_append]

theorem distance_eq_edits (s t : Text) : distance s t = edits s t := by
  have start : List.range (t.length + 1) = rowFrom [] [] t := by
    rw [rowFrom_nil_left, List.range_eq_range', List.length_nil]
  rw [distance, start, foldl_nextRow, getLastD_rowFrom, List.nil_append, List.nil_append]

abbrev Row (t : Text) := Vector Nat (t.length + 1)

/-- Writes the entry after place `j` of `curr`, from the entry at `j` and the two of `prev` above
them. -/
def writeEntry (a : Char) {t : Text} (prev curr : Row t) (j : Fin t.length) : Row t :=
  let substitute := prev[j.val] + if a = t[j] then 0 else 1
  curr.set (j.val + 1) (min (min substitute (prev[j.val + 1] + 1)) (curr[j.val] + 1))

def fillRow (i : Nat) (a : Char) {t : Text} (prev curr : Row t) : Row t :=
  Fin.foldl t.length (writeEntry a prev) (curr.set 0 (i + 1))

/-- The rows after place `i` of the first text: the one just filled, and the one before it, which
is filled next. -/
def swapRows (s : Text) {t : Text} (rows : Row t × Row t) (i : Fin s.length) : Row t × Row t :=
  (fillRow i s[i] rows.1 rows.2, rows.1)

/-- Least number of edits, counted in two rows that are written in place and swapped. -/
def twoRowDistance (s t : Text) : Nat :=
  if s.isEmpty then t.length
  else if t.isEmpty then s.length
  else
    let start : Row t × Row t := (Vector.range (t.length + 1), Vector.replicate (t.length + 1) 0)
    (Fin.foldl s.length (swapRows s) start).1[t.length]

theorem foldl_invariant {α : Type} {n : Nat} {f : α → Fin n → α} {start : α}
    (holds : Nat → α → Prop) (first : holds 0 start)
    (step : ∀ (i : Fin n) (x : α), holds i x → holds (i + 1) (f x i)) :
    holds n (Fin.foldl n f start) := by
  induction n with
  | zero => exact first
  | succ n ih =>
      rw [Fin.foldl_succ_last]
      exact step (Fin.last n) _ (ih fun i x => step i.castSucc x)

/-- The entries up to place `n` are the distances from `u` to initial parts of the second text. -/
def Row.Agrees (u : Text) {t : Text} (n : Nat) (row : Row t) : Prop :=
  ∀ k, (inside : k < t.length + 1) → k ≤ n → row[k] = edits u (t.take k)

theorem agrees_writeEntry {u t : Text} {a : Char} {prev curr : Row t} {j : Fin t.length}
    (above : Row.Agrees u t.length prev) (left : Row.Agrees (u ++ [a]) j curr) :
    Row.Agrees (u ++ [a]) (j + 1) (writeEntry a prev curr j) := by
  intro k inside upTo
  by_cases here : j.val + 1 = k
  · subst here
    have diagonal := above j (by omega) (by omega)
    have up := above (j + 1) inside (by omega)
    have before := left j (by omega) (by omega)
    have part : t.take (j + 1) = t.take j ++ [t[j]] := List.take_succ_eq_append_getElem j.isLt
    rw [part] at up ⊢
    rw [edits_concat, writeEntry, Vector.getElem_set_self, diagonal, up, before]
  · rw [writeEntry, Vector.getElem_set_ne (by omega) inside here]
    exact left k inside (by omega)

theorem agrees_fillRow {u t : Text} {a : Char} {prev : Row t}
    (above : Row.Agrees u t.length prev) (curr : Row t) :
    Row.Agrees (u ++ [a]) t.length (fillRow u.length a prev curr) := by
  apply foldl_invariant (Row.Agrees (u ++ [a]))
  · intro k inside upTo
    obtain rfl : k = 0 := by omega
    simp
  · intro j row left
    exact agrees_writeEntry above left

/-- The row that is read is right after every iteration, whatever the other row holds. -/
theorem agrees_swapRows (s : Text) {t : Text} {prev : Row t}
    (first : Row.Agrees [] t.length prev) (curr : Row t) :
    Row.Agrees s t.length (Fin.foldl s.length (swapRows s) (prev, curr)).1 := by
  have done : Row.Agrees (s.take s.length) t.length
      (Fin.foldl s.length (swapRows s) (prev, curr)).1 := by
    apply foldl_invariant fun i (rows : Row t × Row t) => Row.Agrees (s.take i) t.length rows.1
    · exact first
    · intro i rows above
      have size : (s.take i).length = i := List.length_take_of_le (by omega)
      have next := agrees_fillRow (a := s[i]) above rows.2
      have part : s.take (i + 1) = s.take i ++ [s[i]] := List.take_succ_eq_append_getElem i.isLt
      rw [size] at next
      rw [part]
      exact next
  rwa [List.take_length] at done

theorem twoRowDistance_eq_edits (s t : Text) : twoRowDistance s t = edits s t := by
  rw [twoRowDistance]
  split
  · rename_i none
    rw [List.isEmpty_iff.mp none, edits_nil_left]
  · split
    · rename_i none
      rw [List.isEmpty_iff.mp none, edits_nil_right]
    · have first : Row.Agrees [] t.length (Vector.range (t.length + 1)) := by
        intro k inside upTo
        simp [Nat.min_eq_left upTo]
      have last := agrees_swapRows s first (Vector.replicate _ 0) t.length (by omega) (by omega)
      rwa [List.take_length] at last

theorem twoRowDistance_eq_distance (s t : Text) : twoRowDistance s t = distance s t := by
  rw [twoRowDistance_eq_edits, distance_eq_edits]

variable {name : Text} {candidates : List Text} {threshold : Nat}

/-- The candidate needs fewer edits than all before it, and no more than any after it. -/
def FirstClosest (name : Text) (candidates : List Text) (c : Text) : Prop :=
  ∃ before after, candidates = before ++ c :: after ∧
    (∀ x ∈ before, distance name c < distance name x) ∧
    ∀ x ∈ after, distance name c ≤ distance name x

theorem closest_eq_argmin (name : Text) (candidates : List Text) (threshold : Nat) :
    closest name candidates threshold =
      (candidates.filter fun c => decide (distance name c ≤ threshold)).argmin (distance name) := by
  have step : closer name = List.argAux fun b c => distance name b < distance name c := by
    funext best c
    cases best <;> rfl
  rw [closest, step]
  rfl

theorem closest_eq_none_iff :
    closest name candidates threshold = none ↔ ∀ c ∈ candidates, threshold < distance name c := by
  simp [closest_eq_argmin]

theorem closest_cons (c : Text) :
    closest name (c :: candidates) threshold =
      if distance name c ≤ threshold then
        match closest name candidates threshold with
        | none => some c
        | some x => if distance name x < distance name c then some x else some c
      else closest name candidates threshold := by
  by_cases near : distance name c ≤ threshold
  · simp only [closest_eq_argmin, List.filter_cons, near, decide_true, if_true, List.argmin_cons]
    cases List.argmin (distance name) (candidates.filter _) <;> rfl
  · simp only [closest_eq_argmin, List.filter_cons, near, decide_false, Bool.false_eq_true,
      if_false]

theorem firstClosest_cons_iff (x c : Text) :
    FirstClosest name (x :: candidates) c ↔
      (c = x ∧ ∀ y ∈ candidates, distance name x ≤ distance name y) ∨
        (distance name c < distance name x ∧ FirstClosest name candidates c) := by
  constructor
  · rintro ⟨before, after, split, farther, later⟩
    cases before with
    | nil =>
        obtain ⟨rfl, rfl⟩ := List.cons.inj split
        exact .inl ⟨rfl, later⟩
    | cons y before =>
        obtain ⟨rfl, rfl⟩ := List.cons.inj split
        rw [List.forall_mem_cons] at farther
        exact .inr ⟨farther.1, before, after, rfl, farther.2, later⟩
  · rintro (⟨rfl, later⟩ | ⟨closer, before, after, rfl, farther, later⟩)
    · exact ⟨[], candidates, rfl, List.forall_mem_nil _, later⟩
    · exact ⟨x :: before, after, rfl, List.forall_mem_cons.mpr ⟨closer, farther⟩, later⟩

theorem FirstClosest.le {c x : Text} (first : FirstClosest name candidates c)
    (member : x ∈ candidates) : distance name c ≤ distance name x := by
  obtain ⟨before, after, rfl, farther, later⟩ := first
  simp only [List.mem_append, List.mem_cons] at member
  rcases member with early | rfl | late
  · exact Nat.le_of_lt (farther x early)
  · exact Nat.le_refl _
  · exact later x late

theorem FirstClosest.mem {c : Text} (first : FirstClosest name candidates c) : c ∈ candidates := by
  obtain ⟨before, after, rfl, _⟩ := first
  simp

theorem FirstClosest.unique {c d : Text} (one : FirstClosest name candidates c)
    (other : FirstClosest name candidates d) : c = d := by
  induction candidates with
  | nil => cases one.mem
  | cons x rest ih =>
      rw [firstClosest_cons_iff] at one other
      rcases one with ⟨rfl, least⟩ | ⟨closer, one⟩ <;>
        rcases other with ⟨rfl, least'⟩ | ⟨closer', other⟩
      · rfl
      · have none := least d other.mem
        omega
      · have none := least' c one.mem
        omega
      · exact ih one other

theorem firstClosest_of_closest {c : Text} (found : closest name candidates threshold = some c) :
    FirstClosest name candidates c ∧ distance name c ≤ threshold := by
  induction candidates generalizing c with
  | nil => cases found
  | cons x rest ih =>
      rw [closest_cons] at found
      rw [firstClosest_cons_iff]
      by_cases near : distance name x ≤ threshold
      · rw [if_pos near] at found
        cases later : closest name rest threshold with
        | none =>
            simp only [later, Option.some.injEq] at found
            subst found
            refine ⟨.inl ⟨rfl, fun y member => ?_⟩, near⟩
            have far := closest_eq_none_iff.mp later y member
            omega
        | some y =>
            obtain ⟨first, within⟩ := ih later
            simp only [later] at found
            by_cases closer : distance name y < distance name x
            · simp only [closer, if_true, Option.some.injEq] at found
              subst found
              exact ⟨.inr ⟨closer, first⟩, within⟩
            · simp only [closer, if_false, Option.some.injEq] at found
              subst found
              refine ⟨.inl ⟨rfl, fun z member => ?_⟩, near⟩
              have least := first.le member
              omega
      · rw [if_neg near] at found
        obtain ⟨first, within⟩ := ih found
        exact ⟨.inr ⟨by omega, first⟩, within⟩

theorem closest_eq_some_iff (c : Text) :
    closest name candidates threshold = some c ↔
      FirstClosest name candidates c ∧ distance name c ≤ threshold := by
  refine ⟨firstClosest_of_closest, fun ⟨first, near⟩ => ?_⟩
  cases found : closest name candidates threshold with
  | none =>
      have far := closest_eq_none_iff.mp found c first.mem
      omega
  | some d => rw [first.unique (firstClosest_of_closest found).1]

theorem map_distance_closest {others : List Text} (same : others.Perm candidates) :
    (closest name others threshold).map (distance name) =
      (closest name candidates threshold).map (distance name) := by
  cases found : closest name candidates threshold with
  | none =>
      have far := closest_eq_none_iff.mp found
      have none : closest name others threshold = none :=
        closest_eq_none_iff.mpr fun c member => far c (same.mem_iff.mp member)
      rw [none]
  | some c =>
      obtain ⟨first, near⟩ := (closest_eq_some_iff c).mp found
      cases again : closest name others threshold with
      | none =>
          have far := closest_eq_none_iff.mp again c (same.mem_iff.mpr first.mem)
          omega
      | some d =>
          have other := ((closest_eq_some_iff d).mp again).1
          have forward := first.le (same.mem_iff.mp other.mem)
          have backward := other.le (same.mem_iff.mpr first.mem)
          simp only [Option.map_some, Option.some.injEq]
          omega

/-- The distance is the recursive number of edits, and so is what the loop counts in two rows; so it
is a metric. The closest name within reach is the first candidate of least distance, which is no
matter of the order in which the candidates come. -/
theorem closest_by_edits :
    (∀ s t, distance s t = edits s t) ∧
    (∀ s t, twoRowDistance s t = distance s t) ∧
    (∀ s t, distance s t = 0 ↔ s = t) ∧
    (∀ s t, distance s t = distance t s) ∧
    (∀ r s t, distance r t ≤ distance r s + distance s t) ∧
    ∀ name candidates threshold,
      (closest name candidates threshold = none ↔
        ∀ c ∈ candidates, threshold < distance name c) ∧
      (∀ c, closest name candidates threshold = some c ↔
        FirstClosest name candidates c ∧ distance name c ≤ threshold) ∧
      ∀ others, List.Perm others candidates →
        (closest name others threshold).map (distance name) =
          (closest name candidates threshold).map (distance name) := by
  refine ⟨distance_eq_edits, twoRowDistance_eq_distance, ?_, ?_, ?_, ?_⟩
  · intro s t
    rw [distance_eq_edits, edits_eq_zero_iff]
  · intro s t
    rw [distance_eq_edits, distance_eq_edits, edits_comm]
  · intro r s t
    simp only [distance_eq_edits]
    exact edits_triangle r s t
  · intro name candidates threshold
    exact ⟨closest_eq_none_iff, closest_eq_some_iff, fun others => map_distance_closest⟩

/-- `total` and `toll` are one edit away from `totl`, and the one that comes first is chosen. -/
theorem closest_by_edits_tie :
    let name := "totl".toList
    let names := ["price".toList, "total".toList, "toll".toList]
    closest name names 2 = some "total".toList ∧
      closest name names.reverse 2 = some "toll".toList ∧ names.reverse.Perm names ∧
      (closest name names.reverse 2).map (distance name) =
        (closest name names 2).map (distance name) := by
  intro name names
  have chosen := closest_by_edits.2.2.2.2.2 name names 2
  have turned := closest_by_edits.2.2.2.2.2 name names.reverse 2
  have order : names.reverse.Perm names := List.reverse_perm names
  refine ⟨(chosen.2.1 _).mpr ?_, (turned.2.1 _).mpr ?_, order, chosen.2.2 _ order⟩
  · exact ⟨⟨["price".toList], ["toll".toList], rfl, by decide +kernel⟩, by decide +kernel⟩
  · exact ⟨⟨[], ["total".toList, "price".toList], rfl, by decide +kernel⟩, by decide +kernel⟩

end Pseudocode.Text
