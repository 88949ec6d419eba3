import Pseudocode.Text.Basic

set_option autoImplicit false

namespace Pseudocode.Text

/-- Where a scan from the left stands: the quotation mark that is open, and the brackets opened
less those closed. -/
structure Outline where
  quote : Option Char := none
  depth : Int := 0
deriving DecidableEq, Repr

def isQuote (c : Char) : Bool := c == '"' || c == '\''

def isOpening (c : Char) : Bool := c == '(' || c == '['

def isClosing (c : Char) : Bool := c == ')' || c == ']'

namespace Outline

def step (o : Outline) (c : Char) : Outline :=
  match o.quote with
  | some q => if c = q then { o with quote := none } else o
  | none =>
      if isQuote c then { o with quote := some c }
      else if isOpening c then { o with depth := o.depth + 1 }
      else if isClosing c then { o with depth := o.depth - 1 }
      else o

/-- Whether `c`, read next, stands outside quotes; the marks themselves do not. -/
def sees (o : Outline) (c : Char) : Bool :=
  o.quote.isNone && !isQuote c

/-- Cuts before the first character outside quotes at which `here` holds of the bracket depth and
of the text from there on. -/
def breakAt (here : Int → Text → Bool) (o : Outline) : Text → Option (Text × Text)
  | [] => none
  | c :: t =>
      if o.sees c && here (o.step c).depth (c :: t) then some ([], c :: t)
      else (breakAt here (o.step c) t).map fun (before, rest) => (c :: before, rest)

def parts (sep : Char) (o : Outline) : Text → List Text
  | [] => [[]]
  | c :: t =>
      if o.sees c && c == sep && (o.step c).depth == 0 then [] :: parts sep (o.step c) t
      else
        match parts sep (o.step c) t with
        | [] => [[c]]
        | part :: rest => (c :: part) :: rest

end Outline

def breakOuter (mark t : Text) : Option (Text × Text) :=
  Outline.breakAt (fun depth rest => depth == 0 && mark.isPrefixOf rest) {} t

/-- Gives every part the byte offset at which it begins; separators take one byte. -/
def withOffsets (offset : Nat) : List Text → List (Nat × Text)
  | [] => []
  | part :: rest => (offset, part) :: withOffsets (offset + bytes part + 1) rest

/-- The parts between the `sep`s outside quotes and brackets, each with its byte offset. -/
def splitOuter (sep : Char) (t : Text) : List (Nat × Text) :=
  withOffsets 0 (Outline.parts sep {} t)

/-- The line without a trailing `//` comment; inside quotes `//` is text. -/
def stripComment (line : Text) : Text :=
  match Outline.breakAt (fun _ rest => ['/', '/'].isPrefixOf rest) {} line with
  | some (code, _) => code
  | none => line

end Pseudocode.Text
