import Pseudocode.Text.Basic

set_option autoImplicit false

namespace Pseudocode.Text

def isNameStart (c : Char) : Bool := c.isAlpha || c == '_'

def isNameChar (c : Char) : Bool := c.isAlphanum || c == '_'

def reserved : List Text :=
  [['D', 'I', 'V'], ['M', 'O', 'D'], ['T', 'R', 'U', 'E'], ['F', 'A', 'L', 'S', 'E']]

/-- Whether a variable, array or constant may have this name. -/
def isIdentifier : Text → Bool
  | [] => false
  | c :: t => isNameStart c && t.all isNameChar && !reserved.contains (c :: t)

/-- What follows `word` if the text begins with it as a whole word. -/
def afterWord? (word t : Text) : Option Text :=
  if word.isPrefixOf t then
    match t.drop word.length with
    | [] => some []
    | c :: rest => if isNameChar c then none else some (c :: rest)
  else none

end Pseudocode.Text
