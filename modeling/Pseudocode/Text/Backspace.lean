import Pseudocode.Text.Cluster

set_option autoImplicit false

namespace Pseudocode.Text

def backspace : Char := '\x08'

/-- A line while it is typed: its characters, the last one first, and the sizes in bytes of the
clusters that can be taken back. A size is kept in one byte. -/
structure Draft where
  reversed : Text := []
  sizes : List UInt8 := []
deriving DecidableEq

namespace Draft

def erase (d : Draft) : Draft :=
  match d.sizes with
  | [] => d
  | n :: sizes => ⟨dropBytes n.toNat d.reversed, sizes⟩

def enter (d : Draft) (cluster : Text) : Draft :=
  if cluster = [backspace] then d.erase
  else ⟨cluster.reverse ++ d.reversed, UInt8.ofNat (bytes cluster) :: d.sizes⟩

theorem reversed_foldl_enter (cs : List Text) (d : Draft) (plain : [backspace] ∉ cs) :
    (cs.foldl enter d).reversed = cs.flatten.reverse ++ d.reversed := by
  induction cs generalizing d with
  | nil => rfl
  | cons c cs ih =>
      simp only [List.mem_cons, not_or] at plain
      have kept : (d.enter c).reversed = c.reverse ++ d.reversed := by
        simp [enter, Ne.symm plain.1]
      simp [ih (d.enter c) plain.2, kept]

end Draft

/-- The line that is left when every backspace has taken back the cluster before it. -/
def applyBackspaces (t : Text) : Text :=
  ((clusters t).foldl Draft.enter {}).reversed.reverse

theorem applyBackspaces_eq_self (t : Text) (plain : backspace ∉ t) : applyBackspaces t = t := by
  have none : [backspace] ∉ clusters t := by
    intro found
    apply plain
    rw [← flatten_clusters t]
    exact List.mem_flatten.2 ⟨[backspace], found, List.mem_singleton.2 rfl⟩
  simp [applyBackspaces, Draft.reversed_foldl_enter _ _ none, flatten_clusters]

end Pseudocode.Text
