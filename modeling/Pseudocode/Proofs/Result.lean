import Pseudocode.Error

set_option autoImplicit false

namespace Pseudocode

variable {α β : Type}

theorem mapM_eq_ok_of_forall {f : α → Result β} {g : α → β} {items : List α}
    (all : ∀ x ∈ items, f x = .ok (g x)) : items.mapM f = .ok (items.map g) := by
  induction items with
  | nil => rfl
  | cons x rest ih =>
      rw [List.mapM_cons, all x List.mem_cons_self,
        ih fun y member => all y (List.mem_cons_of_mem x member)]
      rfl

theorem forall_of_mapM_eq_ok {f : α → Result β} {items : List α} {results : List β}
    (made : items.mapM f = .ok results) : ∀ x ∈ items, ∃ y, f x = .ok y := by
  induction items generalizing results with
  | nil =>
      intro x member
      cases member
  | cons x rest ih =>
      rw [List.mapM_cons] at made
      obtain ⟨first, here, made⟩ := bind_eq_ok made
      obtain ⟨others, later, _⟩ := bind_eq_ok made
      intro y member
      rcases List.mem_cons.mp member with rfl | member
      · exact ⟨first, here⟩
      · exact ih later y member

theorem mapError_eq_ok {r : Result α} {f : Failure → Failure} {a : α}
    (made : r.mapError f = .ok a) : r = .ok a := by
  cases r with
  | error e => cases made
  | ok b => exact made

theorem map_eq_ok {r : Result α} {f : α → β} {b : β} (made : r.map f = .ok b) :
    ∃ a, r = .ok a ∧ f a = b := by
  cases r with
  | error e => cases made
  | ok a => exact ⟨a, rfl, Except.ok.inj made⟩

/-- A result that is `good` if it is a value and `bad` if it is a failure. -/
def Ensures (good : α → Prop) (bad : Failure → Prop) : Result α → Prop
  | .ok a => good a
  | .error e => bad e

namespace Ensures

variable {good : α → Prop} {bad : Failure → Prop} {r : Result α}

theorem of_ok (ensures : Ensures good bad r) {a : α} (made : r = .ok a) : good a := by
  subst made
  exact ensures

theorem of_error (ensures : Ensures good bad r) {e : Failure} (failed : r = .error e) : bad e := by
  subst failed
  exact ensures

theorem mono {good' : α → Prop} {bad' : Failure → Prop} (ensures : Ensures good bad r)
    (values : ∀ a, r = .ok a → good a → good' a) (failures : ∀ e, bad e → bad' e) :
    Ensures good' bad' r := by
  cases r with
  | ok a => exact values a rfl ensures
  | error e => exact failures e ensures

theorem bind {f : α → Result β} {better : β → Prop} (first : Ensures good bad r)
    (second : ∀ a, r = .ok a → good a → Ensures better bad (f a)) :
    Ensures better bad (r >>= f) := by
  cases r with
  | ok a => exact second a rfl first
  | error e => exact first

theorem map {f : α → β} {better : β → Prop} (first : Ensures good bad r)
    (second : ∀ a, r = .ok a → good a → better (f a)) : Ensures better bad (r.map f) := by
  cases r with
  | ok a => exact second a rfl first
  | error e => exact first

theorem mapError {f : Failure → Failure} {worse : Failure → Prop} (ensures : Ensures good bad r)
    (failures : ∀ e, bad e → worse (f e)) : Ensures good worse (r.mapError f) := by
  cases r with
  | ok a => exact ensures
  | error e => exact failures e ensures

theorem mapM {f : α → Result β} {better : β → Prop} {items : List α}
    (each : ∀ x ∈ items, Ensures better bad (f x)) :
    Ensures (fun results => ∀ y ∈ results, better y) bad (items.mapM f) := by
  induction items with
  | nil => exact List.forall_mem_nil _
  | cons x rest ih =>
      rw [List.mapM_cons]
      apply (each x List.mem_cons_self).bind
      intro y _ first
      apply (ih fun other member => each other (List.mem_cons_of_mem x member)).bind
      intro others _ later
      exact List.forall_mem_cons.mpr ⟨first, later⟩

/-- What every step of a fold keeps, the fold keeps. -/
theorem foldlM {f : α → β → Result α} {items : List β} {a : α} (start : good a)
    (step : ∀ a, good a → ∀ x ∈ items, Ensures good bad (f a x)) :
    Ensures good bad (items.foldlM f a) := by
  induction items generalizing a with
  | nil => exact start
  | cons x rest ih =>
      rw [List.foldlM_cons]
      apply (step a start x List.mem_cons_self).bind
      intro next _ kept
      exact ih kept fun b given y member => step b given y (List.mem_cons_of_mem x member)

end Ensures

/-- What every successful step of a fold keeps, holds of its result. -/
theorem keeps_of_foldlM_eq_ok {good : α → Prop} {f : α → β → Result α} {items : List β} {a b : α}
    (start : good a) (step : ∀ a, good a → ∀ x ∈ items, ∀ next, f a x = .ok next → good next)
    (made : items.foldlM f a = .ok b) : good b := by
  have ensures : Ensures good (fun _ => True) (items.foldlM f a) := by
    refine Ensures.foldlM start fun a given x member => ?_
    cases stepped : f a x with
    | error e => trivial
    | ok next => exact step a given x member next stepped
  exact ensures.of_ok made

/-- A fold fails exactly if one of its steps does, after all the steps before it succeeded. -/
theorem foldlM_eq_error_iff {f : α → β → Result α} {items : List β} {a : α} {e : Failure} :
    items.foldlM f a = .error e ↔
      ∃ before x after b, items = before ++ x :: after ∧ before.foldlM f a = .ok b ∧
        f b x = .error e := by
  constructor
  · intro failed
    induction items generalizing a with
    | nil => cases failed
    | cons x rest ih =>
        rw [List.foldlM_cons] at failed
        cases stepped : f a x with
        | error e' =>
            rw [stepped] at failed
            cases failed
            exact ⟨[], x, rest, a, rfl, rfl, stepped⟩
        | ok next =>
            rw [stepped] at failed
            obtain ⟨before, y, after, b, rfl, reached, failing⟩ := ih failed
            refine ⟨x :: before, y, after, b, rfl, ?_, failing⟩
            rw [List.foldlM_cons, stepped]
            exact reached
  · rintro ⟨before, x, after, b, rfl, reached, failed⟩
    rw [List.foldlM_append, reached]
    show (x :: after).foldlM f b = .error e
    rw [List.foldlM_cons, failed]
    rfl

/-- A result that fails, if it does, as `bad` says. -/
abbrev FailsAs (bad : Failure → Prop) (r : Result α) : Prop :=
  Ensures (fun _ => True) bad r

theorem Ensures.fails {good : α → Prop} {bad : Failure → Prop} {r : Result α}
    (ensures : Ensures good bad r) : FailsAs bad r :=
  ensures.mono (fun _ _ _ => trivial) fun _ given => given

namespace FailsAs

variable {bad worse : Failure → Prop} {r : Result α}

theorem weaken (fails : FailsAs bad r) (implies : ∀ e, bad e → worse e) : FailsAs worse r :=
  fails.mono (fun _ _ _ => trivial) implies

theorem bind {f : α → Result β} (first : FailsAs bad r)
    (second : ∀ a, r = .ok a → FailsAs bad (f a)) : FailsAs bad (r >>= f) :=
  Ensures.bind first fun a made _ => second a made

theorem map {f : α → β} (fails : FailsAs bad r) : FailsAs bad (r.map f) :=
  Ensures.map fails fun _ _ _ => trivial

theorem forM {f : α → Result Unit} {items : List α} (each : ∀ x ∈ items, FailsAs bad (f x)) :
    FailsAs bad (items.forM f) := by
  induction items with
  | nil => trivial
  | cons x rest ih =>
      have unfolded : (x :: rest).forM f = (f x >>= fun _ => rest.forM f) := rfl
      rw [unfolded]
      apply (each x List.mem_cons_self).bind
      intro _ _
      exact ih fun y member => each y (List.mem_cons_of_mem x member)

end FailsAs

/-- Where two results agree as far as `view` tells failures apart, so do two steps that go on from
them alike. -/
theorem mapError_bind_congr {γ : Type} {view : Failure → γ} {r s : Result α} {f g : α → Result β}
    (first : r.mapError view = s.mapError view)
    (second : ∀ a, r = .ok a → (f a).mapError view = (g a).mapError view) :
    (r >>= f).mapError view = (s >>= g).mapError view := by
  cases r with
  | error e =>
      cases s with
      | error e' => exact congrArg Except.error (Except.error.inj first)
      | ok b => cases first
  | ok a =>
      cases s with
      | error e' => cases first
      | ok b =>
          obtain rfl : a = b := Except.ok.inj first
          exact second a rfl

/-- A result without the place of its failure. -/
def unplaced (r : Result α) : Except Cause α :=
  r.mapError Failure.cause

theorem eq_ok_of_unplaced {r s : Result α} (same : unplaced r = unplaced s) {a : α}
    (made : r = .ok a) : s = .ok a := by
  subst made
  cases s with
  | error e => cases same
  | ok b =>
      cases same
      rfl

theorem fails_of_unplaced {r s : Result α} (same : unplaced r = unplaced s)
    (failed : ∃ e, r = .error e) : ∃ e, s = .error e := by
  obtain ⟨e, rfl⟩ := failed
  cases s with
  | error e' => exact ⟨e', rfl⟩
  | ok a => cases same

theorem cause_eq_of_unplaced {r s : Result α} (same : unplaced r = unplaced s) {e : Failure}
    (failed : r = .error e) : ∃ f, s = .error f ∧ f.cause = e.cause := by
  subst failed
  cases s with
  | error f => exact ⟨f, rfl, (Except.error.inj same).symm⟩
  | ok a => cases same

theorem unplaced_mapError {f : Failure → Failure} (keeps : ∀ e, (f e).cause = e.cause)
    (r : Result α) : unplaced (r.mapError f) = unplaced r := by
  cases r with
  | error e => exact congrArg Except.error (keeps e)
  | ok a => rfl

theorem unplaced_bind {r s : Result α} {f g : α → Result β} (first : unplaced r = unplaced s)
    (second : ∀ a, unplaced (f a) = unplaced (g a)) : unplaced (r >>= f) = unplaced (s >>= g) :=
  mapError_bind_congr first fun a _ => second a

end Pseudocode
