import Pseudocode.Store.Basic
import Pseudocode.Text.Outline
import Pseudocode.Token.Tokenize
import Pseudocode.Term.Order
import Pseudocode.Term.Stack

set_option autoImplicit false

namespace Pseudocode.Expression

open Text (bytes)

/-- One segment of an expression of `total` bytes; `part` begins at byte `start`. -/
def segment (total start : Nat) (part : Text) : Result (Spanned Text) :=
  let stop := start + bytes part
  let piece := Text.trimmed start part
  if piece.node.isEmpty then
    failAt (if stop < total then ⟨stop, stop + 1⟩ else ⟨start, stop⟩)
      (.malformedExpression .missingSummand)
  else .ok piece

def segments (t : Text) : Result (List (Spanned Text)) :=
  let total := bytes t
  (Text.splitOuter '+' t).mapM fun (start, part) => segment total start part

def requireSet (what : Unset) (span : Span) (v : Value) : Result Value :=
  if v.isSet then .ok v else failAt span (.uninitialized what)

/-- The value of an operand token; `visit` evaluates its index. -/
def operandWith (s : Store) (t : Spanned Token)
    (visit : ∀ index, t.node.index? = some index → Result Int64) : Result Value :=
  match node : t.node with
  | .number text => (Arithmetic.literal text).mapError (·.withSpan t.span)
  | .string content => .ok (.string content)
  | .char c => .ok (.char c)
  | .boolean b => .ok (.boolean b)
  | .ident name => do
      let v ← (s.getScalar name).mapError (·.withSpan t.span)
      requireSet (.scalar name) t.span v
  | .element name index => do
      let i ← visit index (by rw [node]; rfl)
      let v ← (s.getElement name i).mapError (·.withSpan t.span)
      requireSet (.element name i) t.span v
  | .op _ | .lparen | .rparen => failAt t.span (.invalidExpression (.notValue t.node))

/-- The term of a token in an arithmetic expression, where every operand is a number. -/
def termWith (s : Store) (t : Spanned Token)
    (visit : ∀ index, t.node.index? = some index → Result Int64) : Result Term :=
  match t.node with
  | .op o => .ok (.op o)
  | .lparen => .ok .lparen
  | .rparen => .ok .rparen
  | _ => do
      let v ← operandWith s t visit
      if v.isNumeric then return .operand v
      else failAt t.span (.typeMismatch (.operand t.node v.type?))

/-- What evaluates the indices among some tokens. -/
abbrev Visit (tokens : List (Spanned Token)) :=
  ∀ t ∈ tokens, ∀ index, t.node.index? = some index → Result Int64

def termsWith (s : Store) :
    (tokens : List (Spanned Token)) → Visit tokens → Result (List (Spanned Term))
  | [], _ => .ok []
  | t :: rest, visit => do
      let term ← termWith s t (visit t List.mem_cons_self)
      let terms ← termsWith s rest fun u member => visit u (List.mem_cons_of_mem t member)
      return ⟨term, t.span⟩ :: terms

def tokensValue (s : Store) (total : Nat) (tokens : List (Spanned Token)) (visit : Visit tokens) :
    Result Value :=
  match tokens with
  | [] => failAt ⟨0, total⟩ (.malformedExpression .emptyExpression)
  | [t] =>
      if t.node.isOperand then operandWith s t (visit t List.mem_cons_self)
      else do Term.evaluate (← Term.toPostfix (← termsWith s [t] visit))
  | t :: u :: rest => do Term.evaluate (← Term.toPostfix (← termsWith s (t :: u :: rest) visit))

/-- The value of an index as an array takes it. -/
def toIndex (span : Span) (r : Result Value) : Result Int64 :=
  match r with
  | .ok (.integer n) => .ok n
  | .ok v => failAt span (.typeMismatch (.index v.type?))
  | .error e => .error ((e.shift span.start).orSpan span)

/-- The value of a segment; spans of failures count from its first byte. -/
def segmentValue (s : Store) (t : Text) : Result Value :=
  match _ : tokenize t with
  | .error e => .error e
  | .ok tokens =>
      tokensValue s (bytes t) tokens fun _ _ index _ =>
        toIndex index.span (segmentValue s index.node)
termination_by t.length
decreasing_by exact Token.index_shorter (by assumption) (by assumption) (by assumption)

def indexValue (s : Store) (index : Spanned Text) : Result Int64 :=
  toIndex index.span (segmentValue s index.node)

def operandValue (s : Store) (t : Spanned Token) : Result Value :=
  operandWith s t fun index _ => indexValue s index

def terms (s : Store) (tokens : List (Spanned Token)) : Result (List (Spanned Term)) :=
  termsWith s tokens fun _ _ index _ => indexValue s index

/-- Evaluating a segment: its tokens, then their value with every index evaluated likewise. -/
theorem segmentValue_eq (s : Store) (t : Text) :
    segmentValue s t =
      (tokenize t >>= fun tokens =>
        tokensValue s (bytes t) tokens fun _ _ index _ => indexValue s index) := by
  rw [segmentValue]
  split
  · rename_i e made
    rw [made]
    rfl
  · rename_i tokens made
    rw [made]
    rfl

def segmentAt (s : Store) (piece : Spanned Text) : Result Value :=
  (segmentValue s piece.node).mapError fun e => (e.shift piece.span.start).orSpan piece.span

def joinSegment (s : Store) (sum : Value) (piece : Spanned Text) : Result Value := do
  let v ← segmentAt s piece
  (Arithmetic.join sum v).mapError (·.orSpan piece.span)

/-- The value of an expression. It is cut at every `+` outside quotes and brackets; each segment is
evaluated on its own, and the values are joined from left to right. -/
def evaluate (s : Store) (t : Text) : Result Value := do
  match ← segments t with
  | [] => fail (.malformedExpression .emptyExpression)
  | first :: rest =>
      let v ← segmentAt s first
      rest.foldlM (joinSegment s) v

def evaluateAt (s : Store) (piece : Spanned Text) : Result Value :=
  (evaluate s piece.node).mapError fun e => (e.shift piece.span.start).orSpan piece.span

end Pseudocode.Expression
