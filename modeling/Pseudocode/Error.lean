import Pseudocode.Token.Basic
import Pseudocode.Text.Quoted
import Pseudocode.Value

set_option autoImplicit false

namespace Pseudocode

/-- The kinds of failure that a reader of a report tells apart. -/
inductive Kind where
  | undeclaredVariable
  | assignToConstant
  | constantRedeclared
  | duplicateName
  | invalidType
  | invalidBounds
  | invalidName
  | indexOutOfBounds
  | notAnArray
  | uninitializedValue
  | typeMismatch
  | divisionByZero
  | overflow
  | malformedExpression
  | invalidExpression
  | malformedStatement
  | invalidInput
  | io
deriving DecidableEq, Repr

def Kind.title : Kind → String
  | .undeclaredVariable => "undeclared variable"
  | .assignToConstant => "assignment to constant"
  | .constantRedeclared => "constant redeclared"
  | .duplicateName => "duplicate name"
  | .invalidType => "invalid type"
  | .invalidBounds => "invalid bounds"
  | .invalidName => "invalid name"
  | .indexOutOfBounds => "index out of bounds"
  | .notAnArray => "not an array"
  | .uninitializedValue => "uninitialized value"
  | .typeMismatch => "type mismatch"
  | .divisionByZero => "division by zero"
  | .overflow => "arithmetic overflow"
  | .malformedExpression => "malformed expression"
  | .invalidExpression => "invalid expression"
  | .malformedStatement => "malformed statement"
  | .invalidInput => "invalid input"
  | .io => "I/O error"

def showText (t : Text) : String := String.ofList t

def showInt64 (n : Int64) : String := showText (Integer.display n)

def ticked (t : Text) : String := "`" ++ showText t ++ "`"

/-- What was read before it had a value. -/
inductive Unset where
  | scalar (name : Text)
  | element (name : Text) (index : Int64)
  | constant (name : Text)
  | value
deriving DecidableEq

def Unset.describe : Unset → String
  | .scalar name => ticked name
  | .element name index => ticked (name ++ '[' :: Integer.display index ++ [']'])
  | .constant name => "constant " ++ ticked name
  | .value => "value"

/-- A value of one type where another is needed; `none` is the type of a value that is not set. -/
inductive Mismatch where
  | stored (expected : DataType) (got : Option DataType)
  | number (got : Option DataType)
  | operand (token : Token) (got : Option DataType)
  | index (got : Option DataType)
  /-- An operand of `DIV` or `MOD` that is no INTEGER. -/
  | whole (o : Operator) (got : Value)
deriving DecidableEq

def Mismatch.message : Mismatch → String
  | .stored expected got => clash expected.keyword (Value.typeName got)
  | .number got => clash "a number" (Value.typeName got)
  | .operand token got =>
      ticked token.display ++ " is " ++ Value.typeName got ++ ", but arithmetic needs a number"
  | .index got => clash "INTEGER index" (Value.typeName got)
  | .whole o got =>
      clash ("an INTEGER operand for " ++ showText o.symbol)
        (Value.typeName got.type? ++ " " ++ showText got.display)
where
  clash (expected got : String) : String :=
    "type mismatch: expected " ++ expected ++ ", got " ++ got

inductive Overflowing where
  | operation (o : Operator)
  | literal (text : Text)
deriving DecidableEq

def Overflowing.text : Overflowing → Text
  | .operation o => o.symbol
  | .literal t => t

inductive ExpressionFault where
  | unexpectedCharacter (c : Char)
  | unclosedIndex (name : Text)
  | emptyIndex (name : Text)
  | strayBracket
  | unmatchedBracket
  | unterminatedString
  | invalidNumber (text : Text)
  | unmatchedParen
  | unclosedParen
  | missingSummand
  | emptyExpression
deriving DecidableEq

def ExpressionFault.message : ExpressionFault → String
  | .unexpectedCharacter c => "unexpected character: " ++ showText (Text.quoted [c])
  | .unclosedIndex name => "unclosed `[` after " ++ ticked name
  | .emptyIndex name => ticked (name ++ ['[', ']']) ++ " needs an index"
  | .strayBracket => "`[` must follow an array name"
  | .unmatchedBracket => "unmatched `]`"
  | .unterminatedString => "unterminated string literal"
  | .invalidNumber text => "invalid number " ++ ticked text
  | .unmatchedParen => "unmatched `)`"
  | .unclosedParen => "unclosed `(`"
  | .missingSummand => "`+` is missing an operand"
  | .emptyExpression => "empty expression"

inductive OperandFault where
  | missing (o : Operator)
  | parenthesis
  | adjacent
  | none
  | binaryMinus
  | notValue (token : Token)
deriving DecidableEq

def OperandFault.message : OperandFault → String
  | .missing o => ticked o.symbol ++ " is missing an operand"
  | .parenthesis => "parenthesis in postfix queue"
  | .adjacent => "expected an operator between values"
  | .none => "empty expression"
  | .binaryMinus => "`-` used as a binary operator"
  | .notValue token => "expected a value, found " ++ ticked token.display

inductive StatementFault where
  | noStatement
  | missingExpression
  | noDeclaration
  | missingName
  | noBounds
  | unclosedBounds
  | boundsForm
  | boundNotInteger (text : Text)
  | missingOf
  | missingType
  | noConstant
  | constantNotLiteral
  | unclosedIndex
  | missingIndex
  | invalidTarget (name : Text)
  | nothingToOutput
deriving DecidableEq

def StatementFault.message : StatementFault → String
  | .noStatement => "expected DECLARE, CONSTANT, INPUT, OUTPUT or an assignment with `<-`"
  | .missingExpression => "`<-` needs an expression on its right"
  | .noDeclaration => "expected `<name> : <type>`"
  | .missingName => "missing variable name"
  | .noBounds => "expected `[lower:upper]` after ARRAY"
  | .unclosedBounds => "expected `]` to close the bounds"
  | .boundsForm => "array bounds must be written `[lower:upper]`"
  | .boundNotInteger text => "array bound " ++ ticked text ++ " is not an integer"
  | .missingOf => "expected `OF <type>` after the bounds"
  | .missingType => "missing type after `:`"
  | .noConstant => "expected `CONSTANT <name> = <value>`"
  | .constantNotLiteral => "a CONSTANT value must be a single literal"
  | .unclosedIndex => "expected `]` to close the index"
  | .missingIndex => "missing array index"
  | .invalidTarget name => ticked name ++ " is not a valid target"
  | .nothingToOutput => "OUTPUT needs an expression"

/-- Why INPUT found no value; `target` is the text of its target. -/
inductive InputFault where
  | exhausted (target : Text)
  | unreadable (line : Text) (type : DataType) (target : Text)
deriving DecidableEq

def InputFault.message : InputFault → String
  | .exhausted target => "no input left for " ++ ticked target
  | .unreadable line type target =>
      ticked line ++ " is not a valid " ++ type.keyword ++ " value for " ++ ticked target

inductive StreamFault where
  | notUtf8
  | full
deriving DecidableEq

def StreamFault.message : StreamFault → String
  | .notUtf8 => "stream did not contain valid UTF-8"
  | .full => "failed to write whole buffer"

/-- What is wrong. The kind of a failure and its message are read off it. -/
inductive Cause where
  | undeclared (name : Text) (similar : Option Text)
  | assignToConstant (name : Text)
  | constantRedeclared (name : Text)
  | duplicateName (name : Text)
  | invalidType (text : Text)
  | boundsReversed (lower upper : Int64)
  | arrayTooLong (length : Int)
  | arraysTooLong (total : Int)
  | invalidName (name : Text)
  | indexOutOfBounds (name : Text) (index lower upper : Int64)
  | notAnArray (name : Text)
  | arrayWithoutIndex (name : Text)
  | uninitialized (what : Unset)
  | typeMismatch (what : Mismatch)
  | divisionByZero
  | overflow (what : Overflowing)
  | malformedExpression (fault : ExpressionFault)
  | invalidExpression (fault : OperandFault)
  | malformedStatement (fault : StatementFault)
  | invalidInput (fault : InputFault)
  | io (fault : StreamFault)
deriving DecidableEq

/-- Largest number of elements of one array, `2 ^ 20`. -/
def maxArrayLength : Nat := 1048576

/-- Largest number of elements of all arrays together, `2 ^ 22`. -/
def maxTotalLength : Nat := 4194304

def suggestion : Option Text → String
  | some name => " (did you mean " ++ ticked name ++ "?)"
  | none => ""

namespace Cause

def kind : Cause → Kind
  | .undeclared .. => .undeclaredVariable
  | .assignToConstant _ => .assignToConstant
  | .constantRedeclared _ => .constantRedeclared
  | .duplicateName _ => .duplicateName
  | .invalidType _ => .invalidType
  | .boundsReversed .. | .arrayTooLong _ | .arraysTooLong _ => .invalidBounds
  | .invalidName _ => .invalidName
  | .indexOutOfBounds .. => .indexOutOfBounds
  | .notAnArray _ | .arrayWithoutIndex _ => .notAnArray
  | .uninitialized _ => .uninitializedValue
  | .typeMismatch _ => .typeMismatch
  | .divisionByZero => .divisionByZero
  | .overflow _ => .overflow
  | .malformedExpression _ => .malformedExpression
  | .invalidExpression _ => .invalidExpression
  | .malformedStatement _ => .malformedStatement
  | .invalidInput _ => .invalidInput
  | .io _ => .io

def message : Cause → String
  | .undeclared name similar => ticked name ++ " is not declared" ++ suggestion similar
  | .assignToConstant name => ticked name ++ " is a constant and cannot be assigned"
  | .constantRedeclared name => ticked name ++ " is already defined as a constant"
  | .duplicateName name => ticked name ++ " is a constant and cannot be redeclared"
  | .invalidType text =>
      ticked text ++
        " is not a valid data type; expected INTEGER, REAL, CHAR, STRING or BOOLEAN"
  | .boundsReversed lower upper =>
      "lower bound " ++ showInt64 lower ++ " is greater than upper bound " ++ showInt64 upper
  | .arrayTooLong length =>
      "array of " ++ showText (Integer.displayInt length) ++ " elements exceeds the limit of " ++
        toString maxArrayLength
  | .arraysTooLong total =>
      "arrays would hold " ++ showText (Integer.displayInt total) ++
        " elements in total; the limit is " ++ toString maxTotalLength
  | .invalidName name => ticked name ++ " is not a valid variable name"
  | .indexOutOfBounds name index lower upper =>
      "index " ++ showInt64 index ++ " is outside " ++
        ticked (name ++ '[' :: Integer.display lower ++ ':' :: Integer.display upper ++ [']'])
  | .notAnArray name => ticked name ++ " is not an array"
  | .arrayWithoutIndex name => ticked name ++ " is an array and needs an index"
  | .uninitialized what => what.describe ++ " is used before a value is assigned"
  | .typeMismatch what => what.message
  | .divisionByZero => "division by zero"
  | .overflow what => "arithmetic overflow in " ++ ticked what.text
  | .malformedExpression fault => fault.message
  | .invalidExpression fault => fault.message
  | .malformedStatement fault => fault.message
  | .invalidInput fault => fault.message
  | .io fault => "I/O error: " ++ fault.message

end Cause

/-- A cause, and the place it belongs to if one is known. -/
structure Failure where
  cause : Cause
  span : Option Span := none
deriving DecidableEq

namespace Failure

def kind (f : Failure) : Kind := f.cause.kind

def message (f : Failure) : String := f.cause.message

def withSpan (f : Failure) (s : Span) : Failure :=
  { f with span := some s }

/-- Puts the failure at a place unless it has one, which is narrower. -/
def orSpan (f : Failure) (s : Span) : Failure :=
  { f with span := some (f.span.getD s) }

/-- The failure seen from a text that begins `offset` bytes earlier. -/
def shift (f : Failure) (offset : Nat) : Failure :=
  { f with span := f.span.map (·.shift offset) }

end Failure

/-- A value, or the reason why there is none. -/
abbrev Result (α : Type) := Except Failure α

theorem bind_eq_ok {α β : Type} {r : Result α} {f : α → Result β} {b : β}
    (made : (r >>= f) = .ok b) : ∃ a, r = .ok a ∧ f a = .ok b := by
  cases r with
  | error e => cases made
  | ok a => exact ⟨a, rfl, made⟩

def fail {α : Type} (cause : Cause) : Result α :=
  .error { cause }

def failAt {α : Type} (span : Span) (cause : Cause) : Result α :=
  .error { cause, span := some span }

end Pseudocode
