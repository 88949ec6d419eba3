import Pseudocode.Expression

set_option autoImplicit false

namespace Pseudocode

namespace Infix

/-- What a token or a term is to the grammar. -/
inductive Symbol (β : Type) where
  | operand (b : β)
  | op (o : Operator)
  | lparen
  | rparen
deriving DecidableEq

/-- An operator tree. Every operand and operator keeps its place in the source, and an operator with
two subtrees is one that takes two operands. -/
inductive Tree (β : Type) where
  | operand (b : β) (place : Span)
  | negation (sign : Span) (t : Tree β)
  | binary (o : Operator) (two : o.isUnary = false) (sign : Span) (left right : Tree β)

def additive : List Operator := [.add, .sub]

def multiplicative : List Operator := [.mul, .div, .intDiv, .mod]

theorem isUnary_of_mem_additive {o : Operator} (member : o ∈ additive) : o.isUnary = false := by
  revert member
  cases o <;> decide

theorem isUnary_of_mem_multiplicative {o : Operator} (member : o ∈ multiplicative) :
    o.isUnary = false := by
  revert member
  cases o <;> decide

theorem mem_additive_or_multiplicative {o : Operator} (two : o.isUnary = false) :
    o ∈ additive ∨ o ∈ multiplicative := by
  revert two
  cases o <;> decide

/-- The four kinds of phrase, from the loosest to the tightest. -/
inductive Level where
  | sum
  | product
  | signed
  | primary
deriving DecidableEq

/-- `Derives level symbols t`: the symbols are a phrase of this level with operator tree `t`. Sums
and products lean to the left, signs nest to the right, and parentheses only choose the tree. -/
inductive Derives {β : Type} : Level → List (Spanned (Symbol β)) → Tree β → Prop where
  | product {symbols : List (Spanned (Symbol β))} {t : Tree β}
      (whole : Derives .product symbols t) : Derives .sum symbols t
  | add {left right : List (Spanned (Symbol β))} {l r : Tree β} {o : Operator} {sign : Span}
      (member : o ∈ additive) (first : Derives .sum left l) (second : Derives .product right r) :
      Derives .sum (left ++ ⟨.op o, sign⟩ :: right)
        (.binary o (isUnary_of_mem_additive member) sign l r)
  | signed {symbols : List (Spanned (Symbol β))} {t : Tree β}
      (whole : Derives .signed symbols t) : Derives .product symbols t
  | multiply {left right : List (Spanned (Symbol β))} {l r : Tree β} {o : Operator} {sign : Span}
      (member : o ∈ multiplicative) (first : Derives .product left l)
      (second : Derives .signed right r) :
      Derives .product (left ++ ⟨.op o, sign⟩ :: right)
        (.binary o (isUnary_of_mem_multiplicative member) sign l r)
  | primary {symbols : List (Spanned (Symbol β))} {t : Tree β}
      (whole : Derives .primary symbols t) : Derives .signed symbols t
  | negate {symbols : List (Spanned (Symbol β))} {t : Tree β} {sign : Span}
      (inner : Derives .signed symbols t) :
      Derives .signed (⟨.op .neg, sign⟩ :: symbols) (.negation sign t)
  | operand (b : β) (place : Span) : Derives .primary [⟨.operand b, place⟩] (.operand b place)
  | parens {symbols : List (Spanned (Symbol β))} {t : Tree β} {opening closing : Span}
      (inner : Derives .sum symbols t) :
      Derives .primary (⟨.lparen, opening⟩ :: (symbols ++ [⟨.rparen, closing⟩])) t

def Derivable {β : Type} (level : Level) (symbols : List (Spanned (Symbol β))) : Prop :=
  ∃ t, Derives level symbols t

namespace Tree

/-- The range of source that an operator tree was read from. -/
def span {β : Type} : Tree β → Span
  | .operand _ place => place
  | .negation sign t => sign.merge t.span
  | .binary _ _ sign left right => (left.span.merge right.span).merge sign

/-- The value of an operator tree: first the left operand, then the right one, then the operation.
A failing operation is reported at the range of its own tree. -/
def value : Tree Value → Result Value
  | .operand v _ => .ok v
  | .negation sign t => do
      let v ← t.value
      (Arithmetic.negate v).mapError (·.orSpan (sign.merge t.span))
  | .binary o _ sign left right => do
      let a ← left.value
      let b ← right.value
      (Arithmetic.apply o a b).mapError
        (·.orSpan ((left.span.merge right.span).merge sign))

/-- The operands and operators of a tree, every operator after its operands. -/
def postorder : Tree Value → List (Spanned Term)
  | .operand v place => [⟨.operand v, place⟩]
  | .negation sign t => t.postorder ++ [⟨.op .neg, sign⟩]
  | .binary o _ sign left right => left.postorder ++ right.postorder ++ [⟨.op o, sign⟩]

end Tree

def Symbol.term : Symbol Value → Term
  | .operand v => .operand v
  | .op o => .op o
  | .lparen => .lparen
  | .rparen => .rparen

end Infix

open Infix

def Term.symbol : Term → Symbol Value
  | .operand v => .operand v
  | .op o => .op o
  | .lparen => .lparen
  | .rparen => .rparen

def Token.symbol (t : Token) : Symbol Token :=
  match t with
  | .op o => .op o
  | .lparen => .lparen
  | .rparen => .rparen
  | _ => .operand t

@[simp] theorem Term.term_symbol (t : Term) : t.symbol.term = t := by
  cases t <;> rfl

def Term.symbols (terms : List (Spanned Term)) : List (Spanned (Symbol Value)) :=
  terms.map (Spanned.map Term.symbol)

def Token.symbols (tokens : List (Spanned Token)) : List (Spanned (Symbol Token)) :=
  tokens.map (Spanned.map Token.symbol)

end Pseudocode
