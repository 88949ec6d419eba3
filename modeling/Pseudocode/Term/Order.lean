import Pseudocode.Term.Basic
import Pseudocode.Error

set_option autoImplicit false

namespace Pseudocode.Term

/-- Whether a held term goes before the binary operator `o`. -/
def goesBefore (o : Operator) (held : Spanned Term) : Bool :=
  match held.node with
  | .op p => decide (o.precedence ≤ p.precedence)
  | _ => false

def isOpening (t : Spanned Term) : Bool :=
  match t.node with
  | .lparen => true
  | _ => false

/-- Releases everything at the end; the innermost parenthesis still open is a fault. -/
def release : List (Spanned Term) → Result (List (Spanned Term))
  | [] => .ok []
  | t :: held =>
      if isOpening t then failAt t.span (.malformedExpression .unclosedParen)
      else (release held).map (t :: ·)

/-- Reorders the terms, where `held` are the ones held back, the latest first. -/
def reorder (held : List (Spanned Term)) : List (Spanned Term) → Result (List (Spanned Term))
  | [] => release held
  | t :: rest =>
      match t.node with
      | .operand _ => (reorder held rest).map (t :: ·)
      | .op o =>
          if o.isUnary then reorder (t :: held) rest
          else
            (reorder (t :: held.dropWhile (goesBefore o)) rest).map
              (held.takeWhile (goesBefore o) ++ ·)
      | .lparen => reorder (t :: held) rest
      | .rparen =>
          match held.dropWhile (!isOpening ·) with
          | [] => failAt t.span (.malformedExpression .unmatchedParen)
          | _ :: outer => (reorder outer rest).map (held.takeWhile (!isOpening ·) ++ ·)

def toPostfix (terms : List (Spanned Term)) : Result (List (Spanned Term)) :=
  reorder [] terms

end Pseudocode.Term
