import Pseudocode.Text.Basic
import Pseudocode.Text.Hidden

set_option autoImplicit false

namespace Pseudocode.Text

/-- One character of a quoted form whose quotation mark is `mark`. -/
def escapeChar (mark c : Char) : Text :=
  if c = '\x00' then ['\\', '0']
  else if c = '\t' then ['\\', 't']
  else if c = '\n' then ['\\', 'n']
  else if c = '\r' then ['\\', 'r']
  else if c = '\\' || c = mark then ['\\', c]
  else if isHidden c then ['\\', 'u', '\x7b'] ++ Nat.toDigits 16 c.toNat ++ ['\x7d']
  else [c]

def quoted (t : Text) : Text :=
  '"' :: t.flatMap (escapeChar '"') ++ ['"']

def quotedChar (c : Char) : Text :=
  '\'' :: escapeChar '\'' c ++ ['\'']

end Pseudocode.Text
