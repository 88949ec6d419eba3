import Pseudocode.Proofs.Infix.Summands

set_option autoImplicit false

namespace Pseudocode

namespace Infix

variable {β γ δ : Type}

def Symbol.map (f : β → γ) : Symbol β → Symbol γ
  | .operand b => .operand (f b)
  | .op o => .op o
  | .lparen => .lparen
  | .rparen => .rparen

/-- A symbol with its operand and its place replaced. -/
def relabel (f : β → γ) (g : Span → Span) (s : Spanned (Symbol β)) : Spanned (Symbol γ) :=
  ⟨s.node.map f, g s.span⟩

def Tree.map (f : β → γ) (g : Span → Span) : Tree β → Tree γ
  | .operand b place => .operand (f b) (g place)
  | .negation sign t => .negation (g sign) (t.map f g)
  | .binary o two sign left right => .binary o two (g sign) (left.map f g) (right.map f g)

theorem Tree.map_map (f : β → γ) (g : Span → Span) (f' : γ → δ) (g' : Span → Span) (t : Tree β) :
    (t.map f g).map f' g' = t.map (f' ∘ f) (g' ∘ g) := by
  induction t with
  | operand b place => rfl
  | negation sign t ih => rw [map, map, map, ih]; rfl
  | binary o two sign left right first second => rw [map, map, map, first, second]; rfl

theorem Derives.map {level : Level} {symbols : List (Spanned (Symbol β))} {t : Tree β}
    (derived : Derives level symbols t) (f : β → γ) (g : Span → Span) :
    Derives level (symbols.map (relabel f g)) (t.map f g) := by
  induction derived with
  | product _ ih => exact .product ih
  | add member _ _ first second =>
      rw [List.map_append, List.map_cons]
      exact .add member first second
  | signed _ ih => exact .signed ih
  | multiply member _ _ first second =>
      rw [List.map_append, List.map_cons]
      exact .multiply member first second
  | primary _ ih => exact .primary ih
  | negate _ ih => exact .negate ih
  | operand b place => exact .operand (f b) (g place)
  | parens _ ih =>
      rw [List.map_cons, List.map_append]
      exact .parens ih

theorem Regroups.map {t : Tree β} {trees : List (Tree β)} (regroups : Regroups t trees)
    (f : β → γ) (g : Span → Span) : Regroups (t.map f g) (trees.map (·.map f g)) := by
  induction regroups with
  | whole t => exact .whole _
  | add _ ih =>
      rw [List.map_append]
      exact .add ih
  | sub _ ih =>
      rw [List.map_append] at ih ⊢
      exact .sub ih

/-- Places do not change the value. -/
theorem Tree.unplaced_value_map (f : β → Value) (g g' : Span → Span) (t : Tree β) :
    unplaced (t.map f g).value = unplaced (t.map f g').value := by
  induction t with
  | operand b place => rfl
  | negation sign t ih =>
      refine unplaced_bind ih fun v => ?_
      rw [unplaced_mapError, unplaced_mapError]
      · exact fun _ => rfl
      · exact fun _ => rfl
  | binary o two sign left right first second =>
      refine unplaced_bind first fun a => unplaced_bind second fun b => ?_
      rw [unplaced_mapError, unplaced_mapError]
      · exact fun _ => rfl
      · exact fun _ => rfl

/-- An operand that is an INTEGER, or anything else but `/`. -/
def Symbol.Whole : Symbol Value → Prop
  | .operand v => ∃ n, v = .integer n
  | .op o => o ≠ .div
  | _ => True

theorem Derives.whole {level : Level} {symbols : List (Spanned (Symbol Value))} {t : Tree Value}
    (derived : Derives level symbols t) (all : ∀ s ∈ symbols, s.node.Whole) : t.Whole := by
  induction derived with
  | product _ ih => exact ih all
  | add _ _ _ first second =>
      rw [List.forall_mem_append, List.forall_mem_cons] at all
      exact ⟨all.2.1, first all.1, second all.2.2⟩
  | signed _ ih => exact ih all
  | multiply _ _ _ first second =>
      rw [List.forall_mem_append, List.forall_mem_cons] at all
      exact ⟨all.2.1, first all.1, second all.2.2⟩
  | primary _ ih => exact ih all
  | negate _ ih => exact ih (List.forall_mem_cons.mp all).2
  | operand v place => exact all _ List.mem_cons_self
  | parens _ ih =>
      rw [List.forall_mem_cons, List.forall_mem_append] at all
      exact ih all.2.1

end Infix

end Pseudocode
