set_option autoImplicit false

namespace Pseudocode

/-- The bytes from `start` up to, not including, `stop`. -/
structure Span where
  start : Nat
  stop : Nat
deriving DecidableEq, Repr

namespace Span

/-- The least range that covers both. -/
def merge (a b : Span) : Span :=
  ⟨min a.start b.start, max a.stop b.stop⟩

/-- The same range in a text that begins `offset` bytes earlier. -/
def shift (s : Span) (offset : Nat) : Span :=
  ⟨s.start + offset, s.stop + offset⟩

def display (s : Span) : String :=
  toString s.start ++ ".." ++ toString s.stop

@[simp] theorem shift_shift (s : Span) (m n : Nat) : (s.shift m).shift n = s.shift (m + n) := by
  simp only [shift, Nat.add_assoc]

end Span

/-- A value and the range of source text that it was read from. -/
structure Spanned (α : Type) where
  node : α
  span : Span
deriving DecidableEq, Repr

namespace Spanned

def map {α β : Type} (f : α → β) (s : Spanned α) : Spanned β :=
  ⟨f s.node, s.span⟩

def shift {α : Type} (s : Spanned α) (offset : Nat) : Spanned α :=
  ⟨s.node, s.span.shift offset⟩

end Spanned

end Pseudocode
