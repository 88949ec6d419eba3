import Pseudocode.Value
import Pseudocode.Operator

set_option autoImplicit false

namespace Pseudocode

inductive Term where
  | operand (v : Value)
  | op (o : Operator)
  | lparen
  | rparen
deriving DecidableEq

end Pseudocode
