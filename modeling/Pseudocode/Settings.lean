import Pseudocode.Store.Basic

set_option autoImplicit false

namespace Pseudocode

inductive Refusal where
  | unreadable (path reason : Text)
  | invalidScript (message : Text)
  | config (message : Text)
  | evaluation (message : Text)
deriving DecidableEq

def Refusal.message : Refusal → Text
  | .unreadable path reason => "cannot read ".toList ++ '`' :: path ++ "`: ".toList ++ reason
  | .invalidScript message => "invalid script: ".toList ++ message
  | .config message => "config error: ".toList ++ message
  | .evaluation message => message

structure Settings where
  strictTypes : Bool := true
  requireExtension : Bool := true
  color : Bool := true
  dumpState : Bool := false
deriving DecidableEq, Repr

namespace Settings

def policy (s : Settings) : Policy :=
  if s.strictTypes then .strict else .permissive

def isGap (c : Char) : Bool := c == ' ' || c == '\t'

def skipGap (t : Text) : Text := t.dropWhile isGap

/-- Whether a comment or a quoted key may hold `c`: no control characters but the tab. -/
def isPlain (c : Char) : Bool :=
  c == '\t' || (decide (32 ≤ c.toNat) && c.toNat != 127)

/-- Whether the rest of a line has nothing more to say. -/
def isDone (t : Text) : Bool :=
  match skipGap t with
  | [] => true
  | '#' :: comment => comment.all isPlain
  | _ => false

def isBareKey (c : Char) : Bool := c.isAlphanum || c == '_' || c == '-'

def hexValue? (c : Char) : Option Nat :=
  if c.isDigit then some (c.toNat - '0'.toNat)
  else if 'a' ≤ c ∧ c ≤ 'f' then some (c.toNat - 'a'.toNat + 10)
  else if 'A' ≤ c ∧ c ≤ 'F' then some (c.toNat - 'A'.toNat + 10)
  else none

def scalar? (digits : Text) : Option Char := do
  let n ← digits.foldlM (fun n d => (hexValue? d).map (16 * n + ·)) 0
  if n.isValidChar then some (Char.ofNat n) else none

def simpleEscape? (c : Char) : Option Char :=
  match c with
  | 'b' => some '\x08'
  | 't' => some '\t'
  | 'n' => some '\n'
  | 'f' => some '\x0c'
  | 'r' => some '\r'
  | '"' => some '"'
  | '\\' => some '\\'
  | _ => none

/-- The rest of a key in double quotes, and what follows the closing one. -/
def quotedKey? : Text → Option (Text × Text)
  | '"' :: rest => some ([], rest)
  | '\\' :: 'u' :: a :: b :: c :: d :: rest => do
      let x ← scalar? [a, b, c, d]
      let (key, after) ← quotedKey? rest
      return (x :: key, after)
  | '\\' :: 'U' :: a :: b :: c :: d :: e :: f :: g :: h :: rest => do
      let x ← scalar? [a, b, c, d, e, f, g, h]
      let (key, after) ← quotedKey? rest
      return (x :: key, after)
  | '\\' :: c :: rest => do
      let x ← simpleEscape? c
      let (key, after) ← quotedKey? rest
      return (x :: key, after)
  | c :: rest =>
      if isPlain c then (quotedKey? rest).map fun (key, after) => (c :: key, after) else none
  | [] => none

def key? : Text → Option (Text × Text)
  | '"' :: t => quotedKey? t
  | '\'' :: t =>
      match t.dropWhile (· != '\'') with
      | [] => none
      | _ :: rest =>
          let key := t.takeWhile (· != '\'')
          if key.all isPlain then some (key, rest) else none
  | t =>
      let key := t.takeWhile isBareKey
      if key.isEmpty then none else some (key, t.dropWhile isBareKey)

def boolean? (t : Text) : Option (Bool × Text) :=
  let word := t.takeWhile Char.isAlphanum
  let rest := t.dropWhile Char.isAlphanum
  if word = "true".toList then some (true, rest)
  else if word = "false".toList then some (false, rest)
  else none

def assignment? (line : Text) : Option (Text × Bool) := do
  let (key, rest) ← key? (skipGap line)
  match skipGap rest with
  | '=' :: rest =>
      let (value, rest) ← boolean? (skipGap rest)
      if isDone rest then some (key, value) else none
  | _ => none

def set? (s : Settings) (key : Text) (value : Bool) : Option Settings :=
  if key = "strict_types".toList then some { s with strictTypes := value }
  else if key = "require_extension".toList then some { s with requireExtension := value }
  else if key = "color".toList then some { s with color := value }
  else if key = "dump_state".toList then some { s with dumpState := value }
  else none

/-- Reads lines after the keys in `seen`, each of which may be set once. -/
def readLines (s : Settings) (seen : List Text) : List Text → Option Settings
  | [] => some s
  | line :: rest =>
      if isDone line then readLines s seen rest
      else do
        let (key, value) ← assignment? line
        if seen.contains key then none
        else readLines (← s.set? key value) (key :: seen) rest

/-- The lines of a file. A line feed ends a line, with or without a carriage return before it. -/
def lines : Text → List Text
  | [] => [[]]
  | '\r' :: '\n' :: t => [] :: lines t
  | '\n' :: t => [] :: lines t
  | c :: t =>
      match lines t with
      | [] => [[c]]
      | line :: rest => (c :: line) :: rest

/-- The settings in the text of a file; a byte order mark at its start has no meaning. -/
def read? (t : Text) : Option Settings :=
  match t with
  | '\ufeff' :: t => readLines {} [] (lines t)
  | t => readLines {} [] (lines t)

/-- The last part of a path that names something in its directory. -/
def fileName? (path : Text) : Option Text :=
  let parts := (Text.splitOn '/' path).filter fun part => part != [] && part != ['.']
  parts.getLast?.filter (· != ['.', '.'])

/-- What follows the last dot of a file name, unless that dot is its first character. -/
def extension? (path : Text) : Option Text := do
  let name ← fileName? path
  match name.reverse.dropWhile (· != '.') with
  | [] | [_] => none
  | _ :: _ :: _ => some (name.reverse.takeWhile (· != '.')).reverse

def scriptExtension : Text := "pseudo".toList

def checkScript (s : Settings) (path : Text) : Except Refusal Unit :=
  if !s.requireExtension || extension? path == some scriptExtension then .ok ()
  else
    .error (.invalidScript
      ('`' :: path ++ "` must have a .".toList ++ scriptExtension ++ " extension".toList))

end Settings

end Pseudocode
