import Pseudocode.Report
import Pseudocode.Store.Dump
import Pseudocode.Text.Backspace

set_option autoImplicit false

namespace Pseudocode

structure Console where
  machine : Machine
  color : Bool
  errors : Text := []

namespace Console

def sourceName : Text := "<repl>".toList

def banner : Text :=
  "pseudo REPL v0.1.0\nType :help for help, :quit to exit.\n\n".toList

def goodbye : Text := "Goodbye!\n".toList

def help : Text :=
  ("REPL Commands:\n" ++
   "  :help, :h, :?   Show this help\n" ++
   "  :quit, :q       Exit the REPL\n" ++
   "  :vars, :v       Show every declared name as JSON\n" ++
   "  :reset          Forget every declaration\n" ++
   "  :clear          Clear the screen\n" ++
   "\n" ++
   "You can enter:\n" ++
   "  - Declarations: DECLARE n : INTEGER, CONSTANT PI = 3.14\n" ++
   "  - Arrays: DECLARE marks : ARRAY[1:5] OF REAL\n" ++
   "  - Assignments: n <- n + 1, marks[2] <- 7.5\n" ++
   "  - I/O: INPUT n, OUTPUT \"n = \" + n\n" ++
   "  - Expressions: (2 + 3) * 4, 7 DIV 2, \"Hi \" + name\n").toList

def clearScreen : Text := ['\x1b', '[', '2', 'J', '\x1b', '[', '1', ';', '1', 'H']

inductive Command where
  | quit
  | help
  | vars
  | reset
  | clear
  | unknown (text : Text)
deriving DecidableEq

def Command.ofText (t : Text) : Command :=
  if [":quit", ":q", ":exit"].contains (String.ofList t) then .quit
  else if [":help", ":h", ":?"].contains (String.ofList t) then .help
  else if [":vars", ":v"].contains (String.ofList t) then .vars
  else if t = ":reset".toList then .reset
  else if t = ":clear".toList then .clear
  else .unknown t

def print (c : Console) (t : Text) : Console :=
  { c with machine := { c.machine with output := (c.machine.output.write (Text.encode t)).1 } }

def report (c : Console) (source : Text) (e : Failure) : Console :=
  { c with
    errors := c.errors ++ Report.render c.color sourceName source (Report.ofFailure e) }

def obey (c : Console) : Command → Console
  | .quit => c
  | .help => c.print help
  | .vars => c.print (Dump.store c.machine.store ++ ['\n'])
  | .reset =>
      let cleared : Store := { policy := c.machine.store.policy }
      { c with machine := { c.machine with store := cleared } }.print "Store cleared.\n".toList
  | .clear => c.print clearScreen
  | .unknown t =>
      c.print ("Unknown command: ".toList ++ t ++ "\nType :help for help.\n".toList)

/-- Executes a statement, or prints the value of an expression. -/
def enter (c : Console) (line : Text) : Console :=
  if Statement.isMeant line then
    let (machine, result) := c.machine.executeLine line
    let next := { c with machine }
    match result with
    | .ok _ => next
    | .error e => next.report line e
  else
    match Expression.evaluate c.machine.store line with
    | .ok v => c.print (v.display ++ ['\n'])
    | .error e => c.report line e

theorem length_nextLine (input : List UInt8) (nonempty : input ≠ []) :
    (nextLine input).2.length < input.length := by
  have all := List.dropWhile_suffix (l := input) (· != 10)
  cases input with
  | nil => exact absurd rfl nonempty
  | cons b t =>
      unfold nextLine
      split
      · simp
      · rename_i feed rest same
        have := all.length_le
        rw [same] at this
        simp only [List.length_cons] at this ⊢
        omega

/-- What was meant by a line as it was typed. -/
def typedLine (t : Text) : Text :=
  Text.trim (Text.applyBackspaces (Text.dropLineEnd t))

/-- Reads and answers lines until the input ends or a command ends the session. Once INPUT has taken
a line it has taken all of the input over, so there are no more lines. -/
def loop (c : Console) : Console :=
  if _ : c.machine.input = [] then c.print goodbye
  else
    let next := nextLine c.machine.input
    let rest : Console := { c with machine := { c.machine with input := next.2 } }
    match Text.decode next.1 with
    | none =>
        let reason := "Error: " ++ StreamFault.notUtf8.message ++ "\n"
        { c with errors := c.errors ++ reason.toList }
    | some text =>
        let line := typedLine text
        match line with
        | [] => loop rest
        | ':' :: _ =>
            match Command.ofText line with
            | .quit => rest.print goodbye
            | command =>
                let after := rest.obey command
                loop { after with machine := { after.machine with input := next.2 } }
        | _ =>
            let after := rest.enter line
            if after.machine.input.length < next.2.length then after.print goodbye
            else loop { after with machine := { after.machine with input := next.2 } }
termination_by c.machine.input.length
decreasing_by all_goals exact length_nextLine _ (by assumption)

/-- A whole session on the given input. -/
def session (policy : Policy) (color : Bool) (input : List UInt8) : Console :=
  loop (print { machine := { store := { policy }, input }, color } banner)

end Console

end Pseudocode
