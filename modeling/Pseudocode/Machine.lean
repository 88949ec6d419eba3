import Pseudocode.Statement.Effect

set_option autoImplicit false

namespace Pseudocode

open Text (bytes)

/-- What a program has written, and how many bytes there is room for, if that is limited. -/
structure Output where
  written : List UInt8 := []
  capacity : Option Nat := none
deriving DecidableEq, Repr

namespace Output

/-- Writes as many of the bytes as there is room for. -/
def write (o : Output) (data : List UInt8) : Output × Result Unit :=
  match o.capacity with
  | none => ({ o with written := o.written ++ data }, .ok ())
  | some capacity =>
      let room := capacity - o.written.length
      ({ o with written := o.written ++ data.take room },
        if data.length ≤ room then .ok () else fail (.io .full))

def writeLine (o : Output) (t : Text) : Output × Result Unit :=
  o.write (Text.encode (t ++ ['\n']))

end Output

/-- The bytes of the next line with its line feed, and those after it. -/
def nextLine (input : List UInt8) : List UInt8 × List UInt8 :=
  match input.dropWhile (· != 10) with
  | [] => (input, [])
  | feed :: rest => (input.takeWhile (· != 10) ++ [feed], rest)

structure Machine where
  store : Store := {}
  input : List UInt8 := []
  output : Output := {}
deriving DecidableEq

namespace Machine

def withStore (m : Machine) (outcome : Outcome) : Machine × Result Unit :=
  ({ m with store := outcome.1 }, outcome.2)

/-- Reads a line into a target. The target is checked first, so that a bad one costs no input. -/
def readInto (m : Machine) (target : Spanned Target) : Machine × Result Unit :=
  match Target.check m.store target with
  | .error e => (m, .error e)
  | .ok _ =>
      let (line, rest) := nextLine m.input
      let after := { m with input := rest }
      if line.isEmpty then
        (after, failAt target.span (.invalidInput (.exhausted target.node.display)))
      else
        match Text.decode line with
        | none => (after, failAt target.span (.io .notUtf8))
        | some text =>
            after.withStore
              (m.store.settle (Target.store m.store target (Text.trimLineEnd text)))

def outputText (s : Store) (exprs : List (Spanned Text)) : Result Text := do
  let values ← exprs.mapM (Expression.evaluateAt s)
  return values.flatMap Value.display

def writeValues (m : Machine) (exprs : List (Spanned Text)) : Machine × Result Unit :=
  match outputText m.store exprs with
  | .error e => (m, .error e)
  | .ok text =>
      let (output, result) := m.output.writeLine text
      ({ m with output }, result)

def execute (m : Machine) : Statement → Machine × Result Unit
  | .declare d => m.withStore (d.apply m.store)
  | .constant name value => m.withStore (m.store.settle (m.store.define name value.node))
  | .assign target expr =>
      m.withStore <| m.store.settle do
        let value ← Expression.evaluateAt m.store expr
        Target.write m.store target value
  | .input target => m.readInto target
  | .output exprs => m.writeValues exprs

/-- Executes one line and says whether it held a statement. -/
def executeLine (m : Machine) (line : Text) : Machine × Result Bool :=
  match Statement.ofLine line with
  | .error e => (m, .error e)
  | .ok none => (m, .ok false)
  | .ok (some statement) =>
      let (next, result) := m.execute statement.node
      (next, result.map fun _ => true)

end Machine

/-- A line that failed, with its span in the whole source; lines count from one. -/
structure LineFailure where
  line : Nat
  failure : Failure
deriving DecidableEq

/-- What a run amounted to: its lines, how many of them held a statement that succeeded, how many
failed, and the failures themselves. -/
structure RunReport where
  lines : Nat := 0
  executed : Nat := 0
  failed : Nat := 0
  errors : List LineFailure := []
deriving DecidableEq

def RunReport.isSuccess (r : RunReport) : Bool := r.failed == 0

def sourceLines : Text → List Text
  | [] => []
  | c :: t =>
      if c = '\n' then ['\n'] :: sourceLines t
      else
        match sourceLines t with
        | [] => [[c]]
        | line :: rest => (c :: line) :: rest

namespace Machine

/-- Executes lines of which the first begins at byte `offset` of the source, after `report`. -/
def runLines (m : Machine) (offset : Nat) (report : RunReport) :
    List Text → Machine × RunReport
  | [] => (m, report)
  | line :: rest =>
      let (next, result) := m.executeLine (Text.trimLineEnd line)
      let number := report.lines + 1
      let report := match result with
        | .ok true => { report with lines := number, executed := report.executed + 1 }
        | .ok false => { report with lines := number }
        | .error e =>
            { report with
              lines := number
              failed := report.failed + 1
              errors := report.errors ++ [⟨number, e.shift offset⟩] }
      runLines next (offset + bytes line) report rest

def run (m : Machine) (source : Text) : Machine × RunReport :=
  m.runLines 0 {} (sourceLines source)

end Machine

end Pseudocode
