import Pseudocode.Arithmetic
import Pseudocode.Statement.Basic
import Pseudocode.Text.Outline
import Pseudocode.Token.Tokenize

set_option autoImplicit false

namespace Pseudocode

open Text (bytes trim trimmed afterWord? breakOuter splitOuter stripComment)

namespace Keyword

def declare : Text := "DECLARE".toList
def constant : Text := "CONSTANT".toList
def input : Text := "INPUT".toList
def output : Text := "OUTPUT".toList
def array : Text := "ARRAY".toList
def of : Text := "OF".toList
def arrow : Text := "<-".toList
def equals : Text := "=".toList

def opening : List Text := [declare, constant, input, output]

end Keyword

def failStatement {α : Type} (span : Span) (fault : StatementFault) : Result α :=
  failAt span (.malformedStatement fault)

namespace Bounds

def readBound (span : Span) (t : Text) : Result Int64 :=
  match Integer.read? (trim t) with
  | some n => .ok n
  | none => failStatement span (.boundNotInteger (trim t))

def readContent (span : Span) (content : Text) : Result Bounds :=
  match content.dropWhile (· != ':') with
  | [] => failStatement span .boundsForm
  | _ :: upper =>
      if upper.contains ':' then failStatement span .boundsForm
      else do
        let lower ← readBound span (content.takeWhile (· != ':'))
        let upper ← readBound span upper
        return ⟨lower, upper⟩

/-- `[lower:upper]` at the start of a text that begins at byte `base`, and the text after it. -/
def read (base : Nat) (t : Text) : Result (Spanned Bounds × Text) :=
  match Text.trimStart t with
  | '[' :: inner =>
      match inner.dropWhile (· != ']') with
      | [] => failStatement (trimmed base t).span .unclosedBounds
      | _ :: rest => do
          let content := inner.takeWhile (· != ']')
          let start := base + bytes (t.takeWhile Text.isBlank)
          let span : Span := ⟨start, start + 1 + bytes content + 1⟩
          let bounds ← readContent span content
          return (⟨bounds, span⟩, rest)
  | _ => failStatement (trimmed base t).span .noBounds

end Bounds

namespace Declaration

/-- One declared name; `stop` is where the list of names ends. -/
def readName (base stop : Nat) (part : Nat × Text) : Result (Spanned Text) :=
  let name := trimmed (base + part.1) part.2
  if name.node.isEmpty then failStatement ⟨base + part.1, stop⟩ .missingName else .ok name

def readType (t : Spanned Text) : Result (Spanned Text × Option (Spanned Bounds)) :=
  match afterWord? Keyword.array t.node with
  | none => .ok (t, none)
  | some after => do
      let (bounds, rest) ← Bounds.read (t.span.start + bytes Keyword.array) after
      let rest := trimmed bounds.span.stop rest
      match afterWord? Keyword.of rest.node with
      | none => failStatement (rest.span.merge bounds.span) .missingOf
      | some type => return (trimmed (rest.span.start + bytes Keyword.of) type, some bounds)

def read (base : Nat) (body : Text) : Result Declaration :=
  match body.dropWhile (· != ':') with
  | [] => failStatement (trimmed base body).span .noDeclaration
  | _ :: after => do
      let front := body.takeWhile (· != ':')
      let colon := base + bytes front
      let names ← (splitOuter ',' front).mapM (readName base colon)
      let (type, bounds) ← readType (trimmed (colon + 1) after)
      if type.node.isEmpty then failStatement type.span .missingType
      else return ⟨names, type, bounds⟩

end Declaration

namespace Statement

/-- The value of a literal, which is all that a CONSTANT may have. -/
def literalValue : List Token → Result Value
  | [.number n] => Arithmetic.literal n
  | [.op .neg, .number n] => Arithmetic.literal ('-' :: n)
  | [.string s] => .ok (.string s)
  | [.char c] => .ok (.char c)
  | [.boolean b] => .ok (.boolean b)
  | _ => fail (.malformedStatement .constantNotLiteral)

def readConstant (base : Nat) (body : Text) : Result (Spanned Text × Spanned Value) :=
  match breakOuter Keyword.equals body with
  | none => failStatement (trimmed base body).span .noConstant
  | some (front, rest) => do
      let name := trimmed base front
      let text := trimmed (base + bytes front + 1) (rest.drop 1)
      if name.node.isEmpty || text.node.isEmpty then
        failStatement ⟨base, base + bytes body⟩ .noConstant
      else
        let tokens ← (tokenize text.node).mapError (·.shift text.span.start)
        let value ← (literalValue (tokens.map (·.node))).mapError (·.orSpan text.span)
        return (name, ⟨value, text.span⟩)

end Statement

namespace Target

def checkName (span : Span) (name : Text) : Result Unit :=
  if Text.isIdentifier name then .ok () else failStatement span (.invalidTarget name)

/-- `name` or `name[index]` in a text that begins at byte `base`. -/
def read (base : Nat) (t : Text) : Result (Spanned Target) := do
  let whole := trimmed base t
  if whole.node.isEmpty then failStatement whole.span .missingName
  else
    match whole.node.dropWhile (· != '[') with
    | [] =>
        checkName whole.span whole.node
        return ⟨.variable whole.node, whole.span⟩
    | _ :: inner =>
        let front := whole.node.takeWhile (· != '[')
        let name := Text.trimEnd front
        if inner.getLast? != some ']' then failStatement whole.span .unclosedIndex
        else
          let index := trimmed (whole.span.start + bytes front + 1) inner.dropLast
          if index.node.isEmpty then failStatement whole.span .missingIndex
          else
            checkName whole.span name
            return ⟨.element name index, whole.span⟩

end Target

namespace Statement

def readOutputPart (base : Nat) (part : Nat × Text) : Result (Spanned Text) :=
  let start := base + part.1
  let expr := trimmed start part.2
  if expr.node.isEmpty then failStatement ⟨start, start + bytes part.2⟩ .nothingToOutput
  else .ok expr

/-- The statement in a text without blanks around it or comment after it. -/
def readCode (code : Spanned Text) : Result Statement :=
  let base := code.span.start
  if let some body := afterWord? Keyword.declare code.node then
    (Declaration.read (base + bytes Keyword.declare) body).map .declare
  else if let some body := afterWord? Keyword.constant code.node then
    (readConstant (base + bytes Keyword.constant) body).map fun (name, value) =>
      .constant name value
  else if let some body := afterWord? Keyword.input code.node then
    (Target.read (base + bytes Keyword.input) body).map .input
  else if let some body := afterWord? Keyword.output code.node then
    ((splitOuter ',' body).mapM (readOutputPart (base + bytes Keyword.output))).map .output
  else if let some (front, rest) := breakOuter Keyword.arrow code.node then
    let arrow := base + bytes front
    let expr := trimmed (arrow + 2) (rest.drop 2)
    if expr.node.isEmpty then failStatement ⟨arrow, arrow + 2⟩ .missingExpression
    else (Target.read base front).map fun target => .assign target expr
  else failStatement code.span .noStatement

/-- The statement of a line; a line that is blank or only a comment has none. -/
def ofLine (line : Text) : Result (Option (Spanned Statement)) :=
  let code := trimmed 0 (stripComment line)
  if code.node.isEmpty then .ok none
  else (readCode code).map fun s => some ⟨s, code.span⟩

/-- Whether a line is meant as a statement and not as an expression. -/
def isMeant (line : Text) : Bool :=
  let code := trim (stripComment line)
  Keyword.opening.any (fun word => (afterWord? word code).isSome) ||
    (breakOuter Keyword.arrow code).isSome

end Statement

end Pseudocode
