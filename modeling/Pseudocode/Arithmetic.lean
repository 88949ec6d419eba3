import Pseudocode.Error

set_option autoImplicit false

namespace Pseudocode.Arithmetic

def exactly (o : Operator) (n : Int) : Result Value :=
  match Integer.ofInt? n with
  | some i => .ok (.integer i)
  | none => fail (.overflow (.operation o))

def finitely (o : Operator) (x : Float) : Result Value :=
  if x.isFinite then .ok (.real x) else fail (.overflow (.operation o))

def asReal (v : Value) : Result Float :=
  match v.toReal? with
  | some x => .ok x
  | none => fail (.typeMismatch (.number v.type?))

/-- An operand of `DIV` or `MOD`: an INTEGER, or a REAL that is a whole number of smaller magnitude
than `2 ^ 63`. -/
def asWhole (o : Operator) (v : Value) : Result Int :=
  match v with
  | .integer n => .ok n.toInt
  | .real x =>
      match Real.toInt? x with
      | some n => if n.natAbs < Nat.pow 2 63 then .ok n else fail (.typeMismatch (.whole o v))
      | none => fail (.typeMismatch (.whole o v))
  | _ => fail (.typeMismatch (.whole o v))

/-- Sum, difference or product: INTEGER if both operands are, else REAL. -/
def combineNumbers (o : Operator) (whole : Int → Int → Int) (real : Float → Float → Float)
    (left right : Value) : Result Value :=
  match left, right with
  | .integer a, .integer b => exactly o (whole a.toInt b.toInt)
  | _, _ => do
      let a ← asReal left
      let b ← asReal right
      finitely o (real a b)

def divide (left right : Value) : Result Value := do
  let divisor ← asReal right
  if divisor == 0.0 then fail .divisionByZero
  else
    let dividend ← asReal left
    finitely .div (dividend / divisor)

def divideWhole (o : Operator) (f : Int → Int → Int) (left right : Value) : Result Value := do
  let a ← asWhole o left
  let b ← asWhole o right
  if b = 0 then fail .divisionByZero else exactly o (f a b)

def requireNumber (v : Value) : Result Unit :=
  if v.isNumeric then .ok () else fail (.typeMismatch (.number v.type?))

def apply (o : Operator) (left right : Value) : Result Value := do
  requireNumber left
  requireNumber right
  match o with
  | .add => combineNumbers .add (· + ·) (· + ·) left right
  | .sub => combineNumbers .sub (· - ·) (· - ·) left right
  | .mul => combineNumbers .mul (· * ·) (· * ·) left right
  | .div => divide left right
  | .intDiv => divideWhole .intDiv Int.fdiv left right
  | .mod => divideWhole .mod Int.fmod left right
  | .neg => fail (.invalidExpression .binaryMinus)

def negate : Value → Result Value
  | .integer n => exactly .neg (-n.toInt)
  | .real x => .ok (.real (-x))
  | v => fail (.typeMismatch (.number v.type?))

/-- What `+` between two parts of an expression gives: the sum of two numbers, else both texts
joined. -/
def join (left right : Value) : Result Value :=
  if left.isNumeric && right.isNumeric then apply .add left right
  else .ok (.string (left.display ++ right.display))

/-- The value of a number as written; a point makes it a REAL. -/
def literal (text : Text) : Result Value :=
  if text.contains '.' then
    match Real.read? text with
    | some x => if x.isFinite then .ok (.real x) else fail (.overflow (.literal text))
    | none => fail (.malformedExpression (.invalidNumber text))
  else
    match Integer.read? text with
    | some n => .ok (.integer n)
    | none => fail (.overflow (.literal text))

end Pseudocode.Arithmetic
