import Pseudocode.Text.Basic

set_option autoImplicit false

namespace Pseudocode.Text

/-- Continues a row of the distance table: `left` is the entry just written, `above` the previous
row from the entry diagonally above on. -/
def extendRow (a : Char) : Nat → Text → List Nat → List Nat
  | left, b :: bs, diagonal :: up :: above =>
      let substitute := diagonal + if a = b then 0 else 1
      let here := min (min substitute (up + 1)) (left + 1)
      here :: extendRow a here bs (up :: above)
  | _, _, _ => []

def nextRow (a : Char) (bs : Text) (above : List Nat) : List Nat :=
  let first := above.headD 0 + 1
  first :: extendRow a first bs above

/-- Least number of edits that turn `s` into `t`, row by row. -/
def distance (s t : Text) : Nat :=
  (s.foldl (fun above a => nextRow a t above) (List.range (t.length + 1))).getLastD 0

/-- The better of a candidate and what was chosen before; the earlier one wins a tie. -/
def closer (name : Text) (best : Option Text) (candidate : Text) : Option Text :=
  match best with
  | none => some candidate
  | some b => if distance name candidate < distance name b then some candidate else some b

def closest (name : Text) (candidates : List Text) (threshold : Nat) : Option Text :=
  (candidates.filter fun c => decide (distance name c ≤ threshold)).foldl (closer name) none

end Pseudocode.Text
