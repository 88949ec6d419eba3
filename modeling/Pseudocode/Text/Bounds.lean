set_option autoImplicit false

namespace Pseudocode.Text

/-- Whether `c` is in the class that begins and ends at these code points in turn: an odd number of
them lie at or below it. -/
def within (bounds : List Nat) (c : Char) : Bool :=
  bounds.countP (fun n => decide (n ≤ c.toNat)) % 2 == 1

end Pseudocode.Text
