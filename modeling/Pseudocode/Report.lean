import Pseudocode.Machine

set_option autoImplicit false

namespace Pseudocode.Report

structure Notice where
  title : Text
  message : Text
  span : Option Span

def ofFailure (e : Failure) : Notice :=
  ⟨e.kind.title.toList, e.message.toList, e.span⟩

inductive Color where
  | alarm
  | frame
  | margin
  | source

def Color.code : Color → Text
  | .alarm => "31".toList
  | .frame => "38;5;246".toList
  | .margin => "38;5;240".toList
  | .source => "38;5;249".toList

def paint (colors : Bool) (color : Color) (t : Text) : Text :=
  if colors then ['\x1b', '['] ++ color.code ++ 'm' :: t ++ ['\x1b', '[', '0', 'm'] else t

def endsLine (c : Char) : Bool :=
  ['\n', '\r', '\x0b', '\x0c', '\u0085', '\u2028', '\u2029'].contains c

/-- The lines of a source, each with what ends it; a carriage return and a line feed end one line
together. -/
def lines : Text → List Text
  | [] => []
  | '\r' :: '\n' :: t => ['\r', '\n'] :: lines t
  | c :: t =>
      if endsLine c then [c] :: lines t
      else
        match lines t with
        | [] => [[c]]
        | line :: rest => (c :: line) :: rest

/-- The line that an offset lies in: its number, where it begins, and its text. A line break belongs
to the line it ends, and the end of the source to the last line. -/
def lineAt (offset number start : Nat) : List Text → Nat × Nat × Text
  | [] => (number, start, [])
  | [line] => (number, start, line)
  | line :: next :: rest =>
      if offset < start + line.length then (number, start, line)
      else lineAt offset (number + 1) (start + line.length) (next :: rest)

/-- How many places a character takes in a column: a tab reaches to the next multiple of four. -/
def places (c : Char) (column : Nat) : Nat :=
  if c = '\t' then 4 - column % 4 else 1

structure Column where
  head : Text
  tail : Text

def Column.blank : Column := ⟨[' '], [' ']⟩

def Column.write (c : Column) (n : Nat) : Text :=
  c.head ++ (List.replicate (n - 1) c.tail).flatten

/-- A column of the row that underlines the columns from `first` up to `last`. -/
def markColumn (colors : Bool) (first last column : Nat) : Column :=
  let red (c : Char) := paint colors .alarm [c]
  if first = last then if column = first then ⟨red '│', red ' '⟩ else .blank
  else if column < first || last ≤ column then .blank
  else if column = (first + last) / 2 then ⟨red '┬', red '─'⟩
  else ⟨red '─', red '─'⟩

/-- A column of the row that leads from the middle of the mark to the message. -/
def arrowColumn (colors : Bool) (first last column : Nat) : Column :=
  let red (c : Char) := paint colors .alarm [c]
  let middle := (first + last) / 2
  if column < middle then .blank
  else if column = middle then ⟨red '╰', red '─'⟩
  else ⟨red '─', red '─'⟩

def row (column : Nat → Column) (above : Text) (n : Nat) : Text :=
  (List.range n).flatMap fun i => (column i).write ((above[i]?.map (places · i)).getD 1)

def spaces (n : Nat) : Text := List.replicate n ' '

def paintLine (colors : Bool) (first last : Nat) (line : Text) : Text :=
  line.zipIdx.flatMap fun (c, column) =>
    let color := if first ≤ column ∧ column < last then Color.alarm else .source
    let shown := if Text.isBlank c then ' ' else c
    (List.replicate (places c column) (paint colors color [shown])).flatten

def render (colors : Bool) (filename source : Text) (n : Notice) : Text :=
  let heading := paint colors .alarm "Error:".toList
  match n.span with
  | none => heading ++ ' ' :: n.title ++ ": ".toList ++ n.message ++ ['\n']
  | some span =>
      let stop := min span.stop (Text.bytes source)
      let start := min span.start stop
      let (number, lineStart, line) := lineAt start 1 0 (lines source)
      let first := start - lineStart
      let last := stop - lineStart
      let shown := Text.trimEnd line
      let label := Nat.toDigits 10 number
      let width := label.length
      let frame (t : Text) := paint colors .frame t
      let gutter := ' ' :: paint colors .margin (spaces (width + 1) ++ ['│'])
      heading ++ ' ' :: n.title ++ ['\n'] ++
      spaces (width + 2) ++ frame ['╭'] ++ frame ['─'] ++ frame ['['] ++ ' ' :: filename ++
        ':' :: label ++ ':' :: Nat.toDigits 10 (first + 1) ++ ' ' :: frame [']'] ++ ['\n'] ++
      spaces (width + 2) ++ frame ['│'] ++ ['\n'] ++
      ' ' :: frame (label ++ [' ', '│']) ++ ' ' :: paintLine colors first last shown ++ ['\n'] ++
      gutter ++ ' ' :: row (markColumn colors first last) shown (last + 2) ++ ['\n'] ++
      gutter ++ ' ' :: row (arrowColumn colors first last) shown (last + 2) ++ ' ' :: n.message ++
        ['\n'] ++
      frame (List.replicate (width + 2) '─' ++ ['╯']) ++ ['\n']

end Pseudocode.Report
