import Pseudocode.Console
import Pseudocode.Settings

set_option autoImplicit false

namespace Pseudocode.CommandLine

/-- Options that stand before or after the command. -/
structure Options where
  config : Option Text := none
  verbose : Bool := false
  noColor : Bool := false
  dumpState : Bool := false
  permissive : Bool := false
deriving DecidableEq

inductive Command where
  | run (file : Text)
  | repl
  | tokens (expr : Text)
  | eval (expr : Text)
deriving DecidableEq

inductive Request where
  | version
  | help
  | command (options : Options) (c : Command)
deriving DecidableEq

inductive Verb where
  | run
  | repl
  | tokens
  | eval
deriving DecidableEq

namespace Verb

def ofText? (t : Text) : Option Verb :=
  if t = "run".toList then some .run
  else if t = "repl".toList then some .repl
  else if t = "tokens".toList then some .tokens
  else if t = "eval".toList then some .eval
  else none

def complete? : Verb → List Text → Option Command
  | .run, [file] => if file.isEmpty then none else some (.run file)
  | .repl, [] => some .repl
  | .tokens, [expr] => some (.tokens expr)
  | .eval, [expr] => some (.eval expr)
  | _, _ => none

def takes (v : Verb) (operands : List Text) (operand : Text) : Bool :=
  match v with
  | .run => operands.isEmpty && !operand.isEmpty
  | .repl => false
  | .tokens | .eval => operands.isEmpty

def allowsDump : Verb → Bool
  | .run => true
  | _ => false

def allowsPermissive : Verb → Bool
  | .run | .repl => true
  | _ => false

end Verb

def isOption (t : Text) : Bool :=
  match t with
  | '-' :: _ :: _ => true
  | _ => false

def letters? : Text → Option Text
  | '-' :: c :: rest => if c = '-' then none else some (c :: rest)
  | _ => none

def inlineConfig? (t : Text) : Option Text :=
  let mark := "--config=".toList
  if mark.isPrefixOf t then some (t.drop mark.length) else none

def setConfig? (o : Options) (path : Text) : Option Options :=
  if o.config.isSome || path.isEmpty then none else some { o with config := some path }

/-- Sets an option that stands alone, once. -/
def setFlag? (o : Options) (verb : Option Verb) (t : Text) : Option Options :=
  if t = "--verbose".toList then if o.verbose then none else some { o with verbose := true }
  else if t = "--no-color".toList then
    if o.noColor then none else some { o with noColor := true }
  else if t = "--dump-state".toList then
    if o.dumpState || !verb.any Verb.allowsDump then none else some { o with dumpState := true }
  else if t = "--permissive".toList then
    if o.permissive || !verb.any Verb.allowsPermissive then none
    else some { o with permissive := true }
  else none

/-- What a cluster of one-letter options does: it sets options, asks for help or the version, or is
no such cluster. -/
inductive Cluster where
  | options (o : Options)
  | version
  | help
  | unknown

/-- Reads one-letter options from left to right; the version is known before a command only. -/
def readLetters (atTop : Bool) (o : Options) : Text → Cluster
  | [] => .options o
  | c :: rest =>
      if c = 'h' then .help
      else if c = 'V' && atTop then .version
      else if c = 'v' && !o.verbose then readLetters atTop { o with verbose := true } rest
      else .unknown

/-- Options after a command win over those before it. -/
def merge (before after : Options) : Options where
  config := after.config.or before.config
  verbose := before.verbose || after.verbose
  noColor := before.noColor || after.noColor
  dumpState := after.dumpState
  permissive := after.permissive

def readOperands (before : Options) (verb : Verb) (o : Options) (operands : List Text) :
    List Text → Option Request
  | [] => (verb.complete? operands).map (.command (merge before o))
  | arg :: rest =>
      if arg = "--".toList then
        (verb.complete? (operands ++ rest)).map (.command (merge before o))
      else if !isOption arg then
        if verb.takes operands arg then readOperands before verb o (operands ++ [arg]) rest
        else none
      else if arg = "--help".toList then some .help
      else if arg = "--config".toList then
        match rest with
        | path :: rest =>
            if isOption path then none
            else do readOperands before verb (← setConfig? o path) operands rest
        | [] => none
      else
        match inlineConfig? arg, letters? arg with
        | some path, _ => do readOperands before verb (← setConfig? o path) operands rest
        | none, some letters =>
            match readLetters false o letters with
            | .options o => readOperands before verb o operands rest
            | .help => some .help
            | .version | .unknown => none
        | none, none => do readOperands before verb (← setFlag? o (some verb) arg) operands rest

/-- Reads what follows the word `help`: nothing, or one command. -/
def readHelp : List Text → Option Request
  | [] => some .help
  | [topic] =>
      if topic = "help".toList || (Verb.ofText? topic).isSome then some .help else none
  | _ => none

def read (o : Options) : List Text → Option Request
  | [] => none
  | arg :: rest =>
      if !isOption arg then
        if arg = "help".toList then readHelp rest
        else do readOperands o (← Verb.ofText? arg) {} [] rest
      else if arg = "--".toList then none
      else if arg = "--help".toList then some .help
      else if arg = "--version".toList then some .version
      else if arg = "--config".toList then
        match rest with
        | path :: rest => if isOption path then none else do read (← setConfig? o path) rest
        | [] => none
      else
        match inlineConfig? arg, letters? arg with
        | some path, _ => do read (← setConfig? o path) rest
        | none, some letters =>
            match readLetters true o letters with
            | .options o => read o rest
            | .help => some .help
            | .version => some .version
            | .unknown => none
        | none, none => do read (← setFlag? o none arg) rest

structure Response where
  code : Nat := 0
  stdout : List UInt8 := []
  stderr : Text := []

inductive FileFault where
  | missing
  | directory
  /-- The path goes on below something that is no directory. -/
  | notDirectory
  | notUtf8
  | other (reason : Text)
deriving DecidableEq

namespace FileFault

def reason : FileFault → Text
  | .missing => "No such file or directory (os error 2)".toList
  | .directory => "Is a directory (os error 21)".toList
  | .notDirectory => "Not a directory (os error 20)".toList
  | .notUtf8 => StreamFault.notUtf8.message.toList
  | .other reason => reason

/-- Whether there is a file at the path all the same. -/
def isFile : FileFault → Bool
  | .missing | .directory | .notDirectory => false
  | .notUtf8 | .other _ => true

end FileFault

/-- The texts of files by path. -/
abbrev Files := Text → Except FileFault Text

def defaultConfig : Text := "pseudo.toml".toList

def readFile (files : Files) (path : Text) : Except Refusal Text :=
  (files path).mapError fun fault => .unreadable path fault.reason

def readSettings (path text : Text) : Except Refusal Settings :=
  match Settings.read? text with
  | some s => .ok s
  | none => .error (.config (path ++ ": not a list of settings".toList))

def loadSettings (files : Files) (path : Text) : Except Refusal Settings := do
  readSettings path (← readFile files path)

def isFile (files : Files) (path : Text) : Bool :=
  match files path with
  | .ok _ => true
  | .error fault => fault.isFile

/-- The settings that the options ask for: those of the named file, which must exist, or of the
default one if it does, changed by the options. -/
def settings (files : Files) (o : Options) : Except Refusal Settings := do
  let s ← match o.config with
    | some path => loadSettings files path
    | none => if isFile files defaultConfig then loadSettings files defaultConfig else .ok {}
  return { s with
    color := s.color && !o.noColor
    dumpState := s.dumpState || o.dumpState
    strictTypes := s.strictTypes && !o.permissive }

/-- A failure of one expression given on the command line. -/
def expressionFailure (s : Settings) (expr : Text) (e : Failure) : Response where
  code := 1
  stderr := Report.render s.color "<expr>".toList expr (Report.ofFailure e)

def describe : Token → Text
  | .number t => "Number(".toList ++ Text.quoted t ++ [')']
  | .ident n => "Identifier(".toList ++ Text.quoted n ++ [')']
  | .element n index =>
      "IndexedIdentifier \x7b name: ".toList ++ Text.quoted n ++
        ", index: Spanned \x7b node: ".toList ++ Text.quoted index.node ++
        ", span: Span \x7b start: ".toList ++ Nat.toDigits 10 index.span.start ++
        ", end: ".toList ++ Nat.toDigits 10 index.span.stop ++ " \x7d \x7d \x7d".toList
  | .op o => "Operator(".toList ++ (operatorName o).toList ++ [')']
  | .lparen => "LParen".toList
  | .rparen => "RParen".toList
  | .string s => "StringLiteral(".toList ++ Text.quoted s ++ [')']
  | .char c => "CharLiteral(".toList ++ Text.quotedChar c ++ [')']
  | .boolean b => "Boolean(".toList ++ (if b then "true" else "false").toList ++ [')']
where
  operatorName : Operator → String
    | .add => "Add"
    | .sub => "Sub"
    | .mul => "Mul"
    | .div => "Div"
    | .intDiv => "IntDiv"
    | .mod => "Mod"
    | .neg => "Neg"

def describeLine (t : Spanned Token) : Text :=
  describe t.node ++ " @ ".toList ++ t.span.display.toList ++ ['\n']

def runScript (files : Files) (stdin : List UInt8) (s : Settings) (path : Text) :
    Except Refusal Response := do
  s.checkScript path
  let source ← readFile files path
  let machine : Machine := { store := { policy := s.policy }, input := stdin }
  let (after, report) := machine.run source
  let dumped := if s.dumpState then Dump.store after.store ++ ['\n'] else []
  let reports := report.errors.map fun e =>
    Report.render s.color path source (Report.ofFailure e.failure)
  return {
    code := if report.isSuccess then 0 else 1
    stdout := after.output.written ++ Text.encode dumped
    stderr := reports.flatten }

def execute (files : Files) (stdin : List UInt8) (s : Settings) : Command → Except Refusal Response
  | .run file => runScript files stdin s file
  | .repl =>
      let console := Console.session s.policy s.color stdin
      .ok { stdout := console.machine.output.written, stderr := console.errors }
  | .tokens expr =>
      match tokenize expr with
      | .ok tokens => .ok { stdout := Text.encode (tokens.flatMap describeLine) }
      | .error e => .ok (expressionFailure s expr e)
  | .eval expr =>
      match Expression.evaluate { policy := s.policy } expr with
      | .ok v => .ok { stdout := Text.encode (v.display ++ ['\n']) }
      | .error e => .ok (expressionFailure s expr e)

def versionText : Text := "pseudo 0.1.0\n".toList

def usage : Text :=
  ("Usage: pseudo [--config <CONFIG>] [--verbose] [--no-color] <COMMAND>\n\n" ++
   "Commands:\n" ++
   "  run     Run a .pseudo script\n" ++
   "  repl    Start the interactive REPL\n" ++
   "  tokens  Tokenize an expression and dump tokens (debug)\n" ++
   "  eval    Evaluate one expression against an empty store\n").toList

/-- The whole program. -/
def answer (files : Files) (stdin : List UInt8) (args : List Text) : Response :=
  match read {} args with
  | none => { code := 2, stderr := usage }
  | some .version => { stdout := Text.encode versionText }
  | some .help => { stdout := Text.encode usage }
  | some (.command o c) =>
      match settings files o >>= fun s => execute files stdin s c with
      | .ok result => result
      | .error refusal =>
          { code := 1, stderr := "Error: ".toList ++ refusal.message ++ ['\n'] }

/-- The files that a program with these arguments may ask for. -/
def paths (args : List Text) : List Text :=
  match read {} args with
  | some (.command o (.run file)) => [o.config.getD defaultConfig, file]
  | some (.command o _) => [o.config.getD defaultConfig]
  | _ => []

end Pseudocode.CommandLine
