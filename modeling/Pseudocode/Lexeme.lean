import Pseudocode.Text.Identifier

set_option autoImplicit false

namespace Pseudocode

open Text (bytes bytes_cons isNameStart isNameChar)

inductive Lexeme where
  | intDiv
  | mod
  | yes
  | no
  | number (text : Text)
  | ident (name : Text)
  | string (content : Text)
  /-- A quotation mark with no second one after it; it takes the rest of the text. -/
  | openString (rest : Text)
  | char (c : Char)
  | plus
  | minus
  | star
  | slash
  | lparen
  | rparen
  | lbracket
  | rbracket
deriving DecidableEq, Repr

namespace Lexeme

def display : Lexeme → Text
  | .intDiv => ['D', 'I', 'V']
  | .mod => ['M', 'O', 'D']
  | .yes => ['T', 'R', 'U', 'E']
  | .no => ['F', 'A', 'L', 'S', 'E']
  | .number t => t
  | .ident n => n
  | .string s => '"' :: s ++ ['"']
  | .openString _ => ['"']
  | .char c => ['\'', c, '\'']
  | .plus => ['+']
  | .minus => ['-']
  | .star => ['*']
  | .slash => ['/']
  | .lparen => ['(']
  | .rparen => [')']
  | .lbracket => ['[']
  | .rbracket => [']']

/-- The source text of a lexeme. -/
def written : Lexeme → Text
  | .openString rest => '"' :: rest
  | l => l.display

/-- What may stand between lexemes. -/
def isGap (c : Char) : Bool := c == ' ' || c == '\t' || c == '\r' || c == '\n'

def ofWord (w : Text) : Lexeme :=
  if w = ['D', 'I', 'V'] then .intDiv
  else if w = ['M', 'O', 'D'] then .mod
  else if w = ['T', 'R', 'U', 'E'] then .yes
  else if w = ['F', 'A', 'L', 'S', 'E'] then .no
  else .ident w

/-- A number that begins with the digit `c`: digits, and a point only between two digits. -/
def readNumber (c : Char) (t : Text) : Lexeme × Text :=
  let whole := c :: t.takeWhile Char.isDigit
  let rest := t.dropWhile Char.isDigit
  match rest with
  | '.' :: d :: r =>
      if d.isDigit then
        (.number (whole ++ '.' :: d :: r.takeWhile Char.isDigit), r.dropWhile Char.isDigit)
      else (.number whole, rest)
  | _ => (.number whole, rest)

def readString (t : Text) : Lexeme × Text :=
  match t.dropWhile (· != '"') with
  | [] => (.openString t, [])
  | _ :: rest => (.string (t.takeWhile (· != '"')), rest)

/-- A character whose opening mark has been read: one character but `'`, and a closing mark. -/
def readChar : Text → Option (Lexeme × Text)
  | c :: '\'' :: rest => if c = '\'' then none else some (.char c, rest)
  | _ => none

def mark? (c : Char) : Option Lexeme :=
  match c with
  | '+' => some .plus
  | '-' => some .minus
  | '*' => some .star
  | '/' => some .slash
  | '(' => some .lparen
  | ')' => some .rparen
  | '[' => some .lbracket
  | ']' => some .rbracket
  | _ => none

def read (c : Char) (t : Text) : Option (Lexeme × Text) :=
  if c.isDigit then some (readNumber c t)
  else if isNameStart c then
    some (ofWord (c :: t.takeWhile isNameChar), t.dropWhile isNameChar)
  else if c = '"' then some (readString t)
  else if c = '\'' then readChar t
  else (mark? c).map fun l => (l, t)

theorem written_ofWord (w : Text) : (ofWord w).written = w := by
  unfold ofWord
  split
  · rename_i same
    exact same.symm
  · split
    · rename_i same
      exact same.symm
    · split
      · rename_i same
        exact same.symm
      · split
        · rename_i same
          exact same.symm
        · rfl

theorem written_readNumber (c : Char) (t : Text) :
    ∃ w, (readNumber c t).1.written = c :: w ∧ t = w ++ (readNumber c t).2 := by
  have all := List.takeWhile_append_dropWhile (p := Char.isDigit) (l := t)
  unfold readNumber
  dsimp only
  split
  · rename_i d r same
    split
    · refine ⟨t.takeWhile Char.isDigit ++ '.' :: d :: r.takeWhile Char.isDigit, rfl, ?_⟩
      rw [List.append_assoc, List.cons_append, List.cons_append,
        List.takeWhile_append_dropWhile, ← same, all]
    · exact ⟨_, rfl, all.symm⟩
  · exact ⟨_, rfl, all.symm⟩

theorem written_readString (t : Text) :
    ∃ w, (readString t).1.written = '"' :: w ∧ t = w ++ (readString t).2 := by
  have all := List.takeWhile_append_dropWhile (p := (· != '"')) (l := t)
  unfold readString
  split
  · exact ⟨t, rfl, (List.append_nil t).symm⟩
  · rename_i c rest same
    have mark := List.head?_dropWhile_not (· != '"') t
    rw [same] at all mark
    simp only [List.head?_cons, bne_eq_false_iff_eq] at mark
    subst mark
    refine ⟨t.takeWhile (· != '"') ++ ['"'], rfl, ?_⟩
    rw [List.append_assoc]
    exact all.symm

theorem written_mark {c : Char} {l : Lexeme} (found : mark? c = some l) : l.written = [c] := by
  unfold mark? at found
  split at found <;> cases found <;> rfl

/-- The lexeme begins with the character read, and what follows in the text is left. -/
theorem read_written {c : Char} {t : Text} {l : Lexeme} {rest : Text}
    (found : read c t = some (l, rest)) : ∃ w, l.written = c :: w ∧ t = w ++ rest := by
  unfold read at found
  split at found
  · have made := Option.some.inj found
    simpa only [made] using written_readNumber c t
  · split at found
    · cases found
      exact ⟨_, written_ofWord _, List.takeWhile_append_dropWhile.symm⟩
    · split at found
      · rename_i mark
        subst mark
        have made := Option.some.inj found
        simpa only [made] using written_readString t
      · split at found
        · rename_i mark
          subst mark
          unfold readChar at found
          split at found
          · split at found
            · cases found
            · cases found
              exact ⟨_, rfl, rfl⟩
          · cases found
        · simp only [Option.map_eq_some_iff, Prod.mk.injEq] at found
          obtain ⟨_, made, rfl, rfl⟩ := found
          exact ⟨[], written_mark made, rfl⟩

/-- What lexing a text gives: the lexemes in order, and the character it stopped at, if any. -/
structure Reading where
  lexemes : List (Spanned Lexeme)
  stuck : Option (Spanned Char)
deriving DecidableEq, Repr

def lexFrom (pos : Nat) (t : Text) : Reading :=
  match t with
  | [] => ⟨[], none⟩
  | c :: t =>
      if isGap c then lexFrom (pos + c.utf8Size) t
      else
        match _ : read c t with
        | none => ⟨[], some ⟨c, ⟨pos, pos + c.utf8Size⟩⟩⟩
        | some (l, rest) =>
            let stop := pos + bytes l.written
            let after := lexFrom stop rest
            ⟨⟨l, ⟨pos, stop⟩⟩ :: after.lexemes, after.stuck⟩
termination_by t.length
decreasing_by
  · simp
  · obtain ⟨_, _, rfl⟩ := read_written (by assumption)
    simp only [List.length_cons, List.length_append]
    omega

def lex (t : Text) : Reading :=
  lexFrom 0 t

theorem span_nonempty_of_mem_lexFrom (pos : Nat) (t : Text) (l : Spanned Lexeme)
    (member : l ∈ (lexFrom pos t).lexemes) : pos ≤ l.span.start ∧ l.span.start < l.span.stop := by
  fun_induction lexFrom pos t with
  | case1 => simp at member
  | case2 pos c t gap ih =>
      have := ih member
      omega
  | case3 => simp at member
  | case4 pos c t gap first rest found stop after ih =>
      obtain ⟨w, begins, _⟩ := read_written found
      have positive := c.utf8Size_pos
      simp only [List.mem_cons] at member
      rcases member with rfl | member
      · simp only [stop, begins, bytes_cons, Nat.le_refl, true_and]
        omega
      · have := ih member
        omega

end Lexeme

end Pseudocode
