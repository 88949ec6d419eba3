import Pseudocode.Real.Display
import Pseudocode.Real.Reader

set_option autoImplicit false

namespace Pseudocode

inductive DataType where
  | integer
  | real
  | char
  | string
  | boolean
deriving DecidableEq, Repr

namespace DataType

def all : List DataType := [.integer, .real, .char, .string, .boolean]

def keyword : DataType → String
  | .integer => "INTEGER"
  | .real => "REAL"
  | .char => "CHAR"
  | .string => "STRING"
  | .boolean => "BOOLEAN"

def ofKeyword? (t : Text) : Option DataType :=
  all.find? fun ty => ty.keyword.toList == t

end DataType

inductive Value where
  | integer (n : Int64)
  | real (x : Float)
  | char (c : Char)
  | string (s : Text)
  | boolean (b : Bool)
  /-- What a declared variable holds until it is assigned. -/
  | unset
deriving DecidableEq

namespace Value

def type? : Value → Option DataType
  | .integer _ => some .integer
  | .real _ => some .real
  | .char _ => some .char
  | .string _ => some .string
  | .boolean _ => some .boolean
  | .unset => none

def typeName (type : Option DataType) : String :=
  match type with
  | some ty => ty.keyword
  | none => "uninitialized"

def isNumeric : Value → Bool
  | .integer _ | .real _ => true
  | _ => false

def isSet : Value → Bool
  | .unset => false
  | _ => true

def toReal? : Value → Option Float
  | .real x => some x
  | .integer n => some (Real.ofInt64 n)
  | _ => none

/-- The text that OUTPUT writes. -/
def display : Value → Text
  | .integer n => Integer.display n
  | .real x => Real.display x
  | .char c => [c]
  | .string s => s
  | .boolean true => "TRUE".toList
  | .boolean false => "FALSE".toList
  | .unset => "<uninitialized>".toList

end Value

namespace DataType

/-- The value as a variable of this type holds it: an INTEGER widens to REAL, a CHAR to STRING, and
a STRING of one character narrows to CHAR. Nothing else is converted. -/
def accept? : DataType → Value → Option Value
  | .integer, .integer n => some (.integer n)
  | .real, .real x => some (.real x)
  | .real, .integer n => some (.real (Real.ofInt64 n))
  | .char, .char c => some (.char c)
  | .char, .string [c] => some (.char c)
  | .string, .string s => some (.string s)
  | .string, .char c => some (.string [c])
  | .boolean, .boolean b => some (.boolean b)
  | _, _ => none

/-- The value of this type that a line of input spells. -/
def ofInput? : DataType → Text → Option Value
  | .integer, line => (Integer.read? (Text.trim line)).map .integer
  | .real, line =>
      ((Real.read? (Text.trim line)).filter Float.isFinite).map .real
  | .char, [c] => some (.char c)
  | .char, _ => none
  | .string, line => some (.string line)
  | .boolean, line =>
      let word := Text.trim line
      if word = "TRUE".toList then some (.boolean true)
      else if word = "FALSE".toList then some (.boolean false)
      else none

end DataType

end Pseudocode
