import Pseudocode.Expression
import Pseudocode.Statement.Reader

set_option autoImplicit false

namespace Pseudocode

open Text (bytes afterWord?)

/-- The store after a step, and whether the step succeeded. -/
abbrev Outcome := Store × Result Unit

namespace Store

/-- The outcome of a step that writes only if it succeeds. -/
def settle (s : Store) : Result Store → Outcome
  | .ok next => (next, .ok ())
  | .error e => (s, .error e)

end Store

namespace Declaration

/-- Where a failure to declare `name` is reported: at the part of the declaration it is about. -/
def blame (d : Declaration) (name : Spanned Text) (e : Failure) : Failure :=
  match e.kind, d.bounds with
  | .invalidType, _ => e.orSpan d.type.span
  | .invalidBounds, some bounds => e.orSpan bounds.span
  | _, _ => e.orSpan name.span

def declareName (d : Declaration) (s : Store) (name : Spanned Text) : Result Store :=
  let declared := match d.bounds with
    | some bounds => s.declareArray name.node d.type.node bounds.node.lower bounds.node.upper
    | none => s.declareScalar name.node d.type.node
  declared.mapError (d.blame name)

/-- Whether all arrays of the declaration fit; reversed bounds are reported later. -/
def checkCapacity (d : Declaration) (s : Store) : Result Unit :=
  match d.bounds with
  | some bounds =>
      let ⟨lower, upper⟩ := bounds.node
      if lower.toInt ≤ upper.toInt then
        (s.checkCapacity (d.names.map (·.node)) lower upper).mapError (·.withSpan bounds.span)
      else .ok ()
  | none => .ok ()

/-- What is checked before the first name is declared. -/
def check (d : Declaration) (s : Store) : Result Unit := do
  d.names.forM fun name => (s.checkDeclarable name.node).mapError (·.withSpan name.span)
  d.checkCapacity s

def declareNames (d : Declaration) (s : Store) : List (Spanned Text) → Outcome
  | [] => (s, .ok ())
  | name :: rest =>
      match d.declareName s name with
      | .ok next => declareNames d next rest
      | .error e => (s, .error e)

/-- Declares every name of the declaration. If it fails on the way, the names before the failing one
stay declared. -/
def apply (d : Declaration) (s : Store) : Outcome :=
  match d.check s with
  | .ok () => d.declareNames s d.names
  | .error e => (s, .error e)

end Declaration

inductive Slot where
  | scalar (name : Text)
  | element (name : Text) (index : Int64)
deriving DecidableEq

namespace Slot

/-- The place that a target names; its index is evaluated here. -/
def locate (s : Store) : Target → Result Slot
  | .variable name => .ok (.scalar name)
  | .element name index => (Expression.indexValue s index).map (.element name)

def type (s : Store) : Slot → Result DataType
  | .scalar name => s.scalarType name
  | .element name index => do
      let b ← s.getArray name
      let _ ← Store.position name b index
      return b.type

def write (s : Store) (value : Value) : Slot → Result Store
  | .scalar name => s.setScalar name value
  | .element name index => s.setElement name index value

end Slot

namespace Target

def write (s : Store) (target : Spanned Target) (value : Value) : Result Store := do
  let slot ← Slot.locate s target.node
  (slot.write s value).mapError (·.orSpan target.span)

def check (s : Store) (target : Spanned Target) : Result (Slot × DataType) := do
  let slot ← Slot.locate s target.node
  let type ← (slot.type s).mapError (·.orSpan target.span)
  return (slot, type)

def store (s : Store) (target : Spanned Target) (line : Text) : Result Store := do
  let (slot, type) ← check s target
  match type.ofInput? line with
  | none =>
      failAt target.span (.invalidInput (.unreadable line type target.node.display))
  | some value => (slot.write s value).mapError (·.orSpan target.span)

end Target

namespace Store

def define (s : Store) (name : Spanned Text) (value : Value) : Result Store :=
  (s.declareConstant name.node value).mapError (·.orSpan name.span)

/-- The declaration in a DECLARE given as text; the word DECLARE may be left out. -/
def readDeclaration (base : Nat) (text : Text) : Result Declaration :=
  match afterWord? Keyword.declare text with
  | some body => Declaration.read (base + bytes Keyword.declare) body
  | none => Declaration.read base text

def declare (s : Store) (spec : Text) : Outcome :=
  let text := Text.trimStart spec
  let base := bytes spec - bytes text
  match afterWord? Keyword.constant text with
  | some body =>
      s.settle do
        let (name, value) ← Statement.readConstant (base + bytes Keyword.constant) body
        s.define name value.node
  | none =>
      match readDeclaration base text with
      | .ok d => d.apply s
      | .error e => (s, .error e)

def assign (s : Store) (target expr : Text) : Result Store := do
  let target ← Target.read 0 target
  let value ← Expression.evaluate s expr
  Target.write s target value

def input (s : Store) (target line : Text) : Result Store := do
  let target ← Target.read 0 target
  Target.store s target line

end Store

end Pseudocode
