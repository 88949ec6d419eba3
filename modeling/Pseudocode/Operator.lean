import Pseudocode.Text.Basic

set_option autoImplicit false

namespace Pseudocode

inductive Operator where
  | add
  | sub
  | mul
  /-- `/`, whose result is always a REAL. -/
  | div
  | intDiv
  /-- `MOD`, the remainder that belongs to `DIV`. -/
  | mod
  | neg
deriving DecidableEq, Repr

namespace Operator

def symbol : Operator → Text
  | .add => ['+']
  | .sub | .neg => ['-']
  | .mul => ['*']
  | .div => ['/']
  | .intDiv => ['D', 'I', 'V']
  | .mod => ['M', 'O', 'D']

def isUnary : Operator → Bool
  | .neg => true
  | _ => false

/-- Higher binds tighter. -/
def precedence : Operator → Nat
  | .add | .sub => 1
  | .mul | .div | .intDiv | .mod => 2
  | .neg => 3

end Operator

end Pseudocode
