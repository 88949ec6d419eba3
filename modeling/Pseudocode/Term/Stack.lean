import Pseudocode.Term.Basic
import Pseudocode.Arithmetic

set_option autoImplicit false

namespace Pseudocode.Term

/-- The stack, the latest value first. -/
abbrev Stack := List (Spanned Value)

def missing {α : Type} (o : Operator) (span : Span) : Result α :=
  failAt span (.invalidExpression (.missing o))

def place (whole : Span) (r : Result Value) : Result (Spanned Value) :=
  match r with
  | .ok v => .ok ⟨v, whole⟩
  | .error e => .error (e.orSpan whole)

/-- One term: an operand is pushed, an operator takes its operands off. -/
def step (stack : Stack) (t : Spanned Term) : Result Stack :=
  match t.node with
  | .operand v => .ok (⟨v, t.span⟩ :: stack)
  | .op o =>
      if o.isUnary then
        match stack with
        | x :: rest =>
            (place (t.span.merge x.span) (Arithmetic.negate x.node)).map (· :: rest)
        | [] => missing o t.span
      else
        match stack with
        | right :: left :: rest =>
            (place ((left.span.merge right.span).merge t.span)
              (Arithmetic.apply o left.node right.node)).map (· :: rest)
        | _ => missing o t.span
  | .lparen | .rparen => failAt t.span (.invalidExpression .parenthesis)

def result : Stack → Result Value
  | [] => fail (.invalidExpression .none)
  | [v] => .ok v.node
  | v :: _ :: _ => failAt v.span (.invalidExpression .adjacent)

def evaluate (queue : List (Spanned Term)) : Result Value := do
  result (← queue.foldlM step [])

end Pseudocode.Term
