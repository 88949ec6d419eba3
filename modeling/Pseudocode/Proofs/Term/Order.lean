import Pseudocode.Proofs.Result
import Pseudocode.Term.Order

set_option autoImplicit false

namespace Pseudocode.Term

/-- What can be wrong with the order of terms is a parenthesis among them. -/
structure MisplacedAmong (good : Spanned Term → Prop) (e : Failure) : Prop where
  kind : e.kind = .malformedExpression
  place : ∃ t, good t ∧ e.span = some t.span

theorem release_ensures {good : Spanned Term → Prop} {held : List (Spanned Term)}
    (all : ∀ t ∈ held, good t) :
    Ensures (fun queue => ∀ t ∈ queue, good t) (MisplacedAmong good) (release held) := by
  induction held with
  | nil => exact List.forall_mem_nil _
  | cons t rest ih =>
      obtain ⟨first, later⟩ := List.forall_mem_cons.mp all
      rw [release]
      split
      · exact ⟨rfl, t, first, rfl⟩
      · apply (ih later).map
        intro queue _ given
        exact List.forall_mem_cons.mpr ⟨first, given⟩

theorem reorder_ensures {good : Spanned Term → Prop} {held given : List (Spanned Term)}
    (before : ∀ t ∈ held, good t) (all : ∀ t ∈ given, good t) :
    Ensures (fun queue => ∀ t ∈ queue, good t) (MisplacedAmong good) (reorder held given) := by
  have prepended {front : List (Spanned Term)} (inside : ∀ t ∈ front, good t)
      {r : Result (List (Spanned Term))}
      (ensures : Ensures (fun queue => ∀ t ∈ queue, good t) (MisplacedAmong good) r) :
      Ensures (fun queue => ∀ t ∈ queue, good t) (MisplacedAmong good) (r.map (front ++ ·)) :=
    ensures.map fun queue _ given => List.forall_mem_append.mpr ⟨inside, given⟩
  induction given generalizing held with
  | nil => exact release_ensures before
  | cons t rest ih =>
      obtain ⟨first, later⟩ := List.forall_mem_cons.mp all
      have pushed : ∀ u ∈ t :: held, good u := List.forall_mem_cons.mpr ⟨first, before⟩
      have taken (p : Spanned Term → Bool) : ∀ u ∈ held.takeWhile p, good u :=
        fun u member => before u ((List.takeWhile_sublist p).subset member)
      have dropped (p : Spanned Term → Bool) : ∀ u ∈ held.dropWhile p, good u :=
        fun u member => before u ((List.dropWhile_sublist p).subset member)
      rw [reorder]
      split
      · exact prepended (List.forall_mem_singleton.mpr first) (ih before later)
      · rename_i o _
        split
        · exact ih pushed later
        · apply prepended (taken _)
          exact ih (List.forall_mem_cons.mpr ⟨first, dropped _⟩) later
      · exact ih pushed later
      · split
        · exact ⟨rfl, t, first, rfl⟩
        · rename_i opening outer found
          apply prepended (taken _)
          have inner := dropped (!isOpening ·)
          rw [found] at inner
          exact ih (List.forall_mem_cons.mp inner).2 later

/-- The term with its operand replaced. -/
def mapOperand (f : Value → Value) : Term → Term
  | .operand v => .operand (f v)
  | t => t

def exchange (f : Value → Value) (t : Spanned Term) : Spanned Term :=
  t.map (mapOperand f)

theorem goesBefore_exchange (f : Value → Value) (o : Operator) :
    goesBefore o ∘ exchange f = goesBefore o := by
  funext t
  obtain ⟨node, place⟩ := t
  cases node <;> rfl

theorem isOpening_exchange (f : Value → Value) : (!isOpening ·) ∘ exchange f = (!isOpening ·) := by
  funext t
  obtain ⟨node, place⟩ := t
  cases node <;> rfl

theorem release_map_exchange (f : Value → Value) (held : List (Spanned Term)) :
    release (held.map (exchange f)) = (release held).map (List.map (exchange f)) := by
  induction held with
  | nil => rfl
  | cons t rest ih =>
      obtain ⟨node, place⟩ := t
      cases node with
      | lparen => rfl
      | _ =>
          change (release (rest.map (exchange f))).map _ = ((release rest).map _).map _
          rw [ih]
          cases release rest <;> rfl

/-- The order of terms does not depend on the operands. -/
theorem reorder_map_exchange (f : Value → Value) (held given : List (Spanned Term)) :
    reorder (held.map (exchange f)) (given.map (exchange f)) =
      (reorder held given).map (List.map (exchange f)) := by
  have prepended (front : List (Spanned Term)) (r : Result (List (Spanned Term))) :
      (r.map (List.map (exchange f))).map (front.map (exchange f) ++ ·) =
        (r.map (front ++ ·)).map (List.map (exchange f)) := by
    cases r with
    | error e => rfl
    | ok queue => exact congrArg Except.ok List.map_append.symm
  induction given generalizing held with
  | nil => exact release_map_exchange f held
  | cons t rest ih =>
      obtain ⟨node, place⟩ := t
      cases node with
      | operand v =>
          change (reorder (held.map _) (rest.map _)).map _ = ((reorder held rest).map _).map _
          rw [ih]
          exact prepended [⟨.operand v, place⟩] _
      | lparen => exact ih (⟨.lparen, place⟩ :: held)
      | op o =>
          have kept : exchange f ⟨.op o, place⟩ = ⟨.op o, place⟩ := rfl
          simp only [List.map_cons, kept, reorder]
          by_cases unary : o.isUnary = true
          · rw [if_pos unary, if_pos unary]
            exact ih (⟨.op o, place⟩ :: held)
          · rw [if_neg unary, if_neg unary, List.takeWhile_map, List.dropWhile_map,
              goesBefore_exchange, ← prepended, ← ih]
            rfl
      | rparen =>
          have kept : exchange f ⟨.rparen, place⟩ = ⟨.rparen, place⟩ := rfl
          simp only [List.map_cons, kept, reorder, List.takeWhile_map, List.dropWhile_map,
            isOpening_exchange]
          cases held.dropWhile (!isOpening ·) with
          | nil => rfl
          | cons opening outer =>
              change (reorder (outer.map (exchange f)) (rest.map (exchange f))).map _ = _
              rw [ih]
              exact prepended _ _

end Pseudocode.Term
