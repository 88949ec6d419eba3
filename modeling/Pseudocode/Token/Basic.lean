import Pseudocode.Operator

set_option autoImplicit false

namespace Pseudocode

inductive Token where
  | number (text : Text)
  | ident (name : Text)
  /-- `name[index]`; the index is the text between the brackets, as written. -/
  | element (name : Text) (index : Spanned Text)
  | op (o : Operator)
  | lparen
  | rparen
  | string (content : Text)
  | char (c : Char)
  | boolean (b : Bool)
deriving DecidableEq, Repr

namespace Token

def display : Token → Text
  | .number t => t
  | .ident n => n
  | .element n index => n ++ '[' :: index.node ++ [']']
  | .op o => o.symbol
  | .lparen => ['(']
  | .rparen => [')']
  | .string s => '"' :: s ++ ['"']
  | .char c => ['\'', c, '\'']
  | .boolean true => ['T', 'R', 'U', 'E']
  | .boolean false => ['F', 'A', 'L', 'S', 'E']

/-- Whether the token stands for a value of its own. -/
def isOperand : Token → Bool
  | .op _ | .lparen | .rparen => false
  | _ => true

def index? : Token → Option (Spanned Text)
  | .element _ index => some index
  | _ => none

end Token

end Pseudocode
