import Pseudocode.Lexeme
import Pseudocode.Proofs.Text.Outline
import Pseudocode.Proofs.Text.Pieces

set_option autoImplicit false

namespace Pseudocode

namespace Lexeme

open Text (bytes isBlank isNameStart isNameChar isNameChar_of_isNameStart Outline)

def Proper : Lexeme → Prop
  | .number t => ∀ c ∈ t, c.isDigit = true ∨ c = '.'
  | .ident n => ∀ c ∈ n, isNameChar c = true
  | .string s | .openString s => '"' ∉ s
  | .char c => c ≠ '\''
  | _ => True

/-- Whether the lexeme is no string that lacks its closing mark. -/
def isClosed : Lexeme → Bool
  | .openString _ => false
  | _ => true

/-- What a lexeme adds to the number of open parentheses and brackets. -/
def weight : Lexeme → Int
  | .lparen | .lbracket => 1
  | .rparen | .rbracket => -1
  | _ => 0

theorem proper_readNumber {c : Char} (digit : c.isDigit = true) (t : Text) :
    (readNumber c t).1.Proper := by
  have row : ∀ s : Text, ∀ x ∈ s.takeWhile Char.isDigit, x.isDigit = true ∨ x = '.' :=
    fun s x member => .inl (List.mem_takeWhile_imp member)
  have whole : ∀ x ∈ c :: t.takeWhile Char.isDigit, x.isDigit = true ∨ x = '.' := by
    intro x member
    rcases List.mem_cons.mp member with rfl | member
    · exact .inl digit
    · exact row t x member
  unfold readNumber
  dsimp only
  split
  · rename_i d r _
    split
    · rename_i next
      intro x member
      rcases List.mem_append.mp member with front | back
      · exact whole x front
      · rcases List.mem_cons.mp back with rfl | back
        · exact .inr rfl
        · rcases List.mem_cons.mp back with rfl | back
          · exact .inl next
          · exact row r x back
    · exact whole
  · exact whole

theorem proper_ofWord {w : Text} (all : ∀ c ∈ w, isNameChar c = true) : (ofWord w).Proper := by
  unfold ofWord
  repeat' split
  all_goals first | exact trivial | exact all

theorem proper_readString (t : Text) : (readString t).1.Proper := by
  unfold readString
  split
  · rename_i none
    intro member
    have := List.dropWhile_eq_nil_iff.mp none _ member
    simp at this
  · exact Text.not_mem_takeWhile_ne '"' t

/-- What may be read, by the first character. -/
theorem read_cases {c : Char} {t : Text} {l : Lexeme} {rest : Text}
    (found : read c t = some (l, rest)) :
    (c.isDigit = true ∧ readNumber c t = (l, rest)) ∨
      (isNameStart c = true ∧ l = ofWord (c :: t.takeWhile isNameChar) ∧
        rest = t.dropWhile isNameChar) ∨
      (c = '"' ∧ readString t = (l, rest)) ∨
      (∃ x, c = '\'' ∧ x ≠ '\'' ∧ l = .char x ∧ t = x :: '\'' :: rest) ∨
      (mark? c = some l ∧ rest = t) := by
  unfold read at found
  split at found
  · rename_i digit
    exact .inl ⟨digit, Option.some.inj found⟩
  · split at found
    · rename_i first
      cases found
      exact .inr (.inl ⟨first, rfl, rfl⟩)
    · split at found
      · rename_i mark
        exact .inr (.inr (.inl ⟨mark, Option.some.inj found⟩))
      · split at found
        · rename_i mark
          unfold readChar at found
          split at found
          · rename_i x rest
            split at found
            · cases found
            · rename_i other
              cases found
              exact .inr (.inr (.inr (.inl ⟨x, mark, other, rfl, rfl⟩)))
          · cases found
        · simp only [Option.map_eq_some_iff, Prod.mk.injEq] at found
          obtain ⟨_, made, rfl, rfl⟩ := found
          exact .inr (.inr (.inr (.inr ⟨made, rfl⟩)))

theorem read_proper {c : Char} {t : Text} {l : Lexeme} {rest : Text}
    (found : read c t = some (l, rest)) : l.Proper := by
  obtain ⟨digit, made⟩ | ⟨first, rfl, _⟩ | ⟨_, made⟩ | ⟨x, _, other, rfl, _⟩ | ⟨mark, _⟩ :=
    read_cases found
  · simpa only [made] using proper_readNumber digit t
  · apply proper_ofWord
    intro x member
    rcases List.mem_cons.mp member with rfl | member
    · exact isNameChar_of_isNameStart first
    · exact List.mem_takeWhile_imp member
  · simpa only [made] using proper_readString t
  · exact other
  · unfold mark? at mark
    split at mark <;> cases mark <;> trivial

/-- No lexeme begins with a blank. -/
theorem isBlank_of_read {c : Char} {t : Text} {l : Lexeme} {rest : Text}
    (found : read c t = some (l, rest)) : isBlank c = false := by
  obtain ⟨digit, _⟩ | ⟨first, _⟩ | ⟨rfl, _⟩ | ⟨x, rfl, _⟩ | ⟨mark, _⟩ := read_cases found
  · exact Text.isBlank_eq_false_of_isDigit digit
  · exact Text.isBlank_eq_false_of_isNameChar (isNameChar_of_isNameStart first)
  · decide
  · decide
  · unfold mark? at mark
    split at mark <;> first | decide | cases mark

/-- A string without a closing mark takes the rest of the text. -/
theorem rest_of_open {c : Char} {t : Text} {l : Lexeme} {rest : Text}
    (found : read c t = some (l, rest)) (opened : l.isClosed = false) : rest = [] := by
  obtain ⟨_, made⟩ | ⟨_, rfl, _⟩ | ⟨_, made⟩ | ⟨x, _, _, rfl, _⟩ | ⟨mark, _⟩ := read_cases found
  · unfold readNumber at made
    dsimp only at made
    repeat' split at made
    all_goals
      cases made
      cases opened
  · unfold ofWord at opened
    repeat' split at opened
    all_goals cases opened
  · unfold readString at made
    split at made <;> cases made
    · rfl
    · cases opened
  · cases opened
  · unfold mark? at mark
    split at mark <;> cases mark <;> cases opened

/-- What a row of characters ends at may be cut off. -/
theorem row_truncate {p : Char → Bool} {t r z : Text} (ends : t.dropWhile p = r ++ z) :
    (t.takeWhile p ++ r).takeWhile p = t.takeWhile p ∧ (t.takeWhile p ++ r).dropWhile p = r := by
  have all : ∀ x ∈ t.takeWhile p, p x = true := fun x member => List.mem_takeWhile_imp member
  rw [List.takeWhile_append_of_pos all, List.dropWhile_append_of_pos all]
  cases r with
  | nil => exact ⟨List.append_nil _, rfl⟩
  | cons x r =>
      have stop := List.head?_dropWhile_not p t
      rw [ends] at stop
      change p x = false at stop
      have ended : ¬ p x = true := by rw [stop]; exact Bool.false_ne_true
      rw [List.takeWhile_cons_of_neg ended, List.dropWhile_cons_of_neg ended]
      exact ⟨List.append_nil _, rfl⟩

/-- A number is whole unless a point and a digit follow its first row of digits. -/
theorem readNumber_whole {c : Char} {t : Text}
    (pointless : ∀ d q, t.dropWhile Char.isDigit = '.' :: d :: q → d.isDigit = false) :
    readNumber c t = (.number (c :: t.takeWhile Char.isDigit), t.dropWhile Char.isDigit) := by
  unfold readNumber
  dsimp only
  split
  · rename_i d q same
    rw [if_neg (by rw [pointless d q same]; exact Bool.false_ne_true)]
  · rfl

theorem readNumber_point {c d : Char} {t q : Text}
    (point : t.dropWhile Char.isDigit = '.' :: d :: q) (digit : d.isDigit = true) :
    readNumber c t =
      (.number (c :: t.takeWhile Char.isDigit ++ '.' :: d :: q.takeWhile Char.isDigit),
        q.dropWhile Char.isDigit) := by
  unfold readNumber
  dsimp only
  rw [point]
  exact if_pos digit

theorem readNumber_truncate {c : Char} {w r z : Text} {l : Lexeme}
    (made : readNumber c (w ++ (r ++ z)) = (l, r ++ z)) (begins : l.written = c :: w) :
    readNumber c (w ++ r) = (l, r) := by
  generalize whole : w ++ (r ++ z) = t at made
  by_cases pointed : ∃ d q, t.dropWhile Char.isDigit = '.' :: d :: q ∧ d.isDigit = true
  · obtain ⟨d, q, point, digit⟩ := pointed
    rw [readNumber_point point digit, Prod.mk.injEq] at made
    obtain ⟨rfl, ends⟩ := made
    obtain rfl : t.takeWhile Char.isDigit ++ '.' :: d :: q.takeWhile Char.isDigit = w :=
      (List.cons.inj begins).2
    have later : q.takeWhile Char.isDigit ++ (r ++ z) = q := by
      rw [← ends, List.takeWhile_append_dropWhile]
    have cut : t.dropWhile Char.isDigit = '.' :: d :: (q.takeWhile Char.isDigit ++ r) ++ z := by
      rw [point, List.cons_append, List.cons_append, List.append_assoc, later]
    obtain ⟨front, back⟩ := row_truncate cut
    obtain ⟨front', back'⟩ := row_truncate ends
    rw [List.append_assoc, List.cons_append, List.cons_append, readNumber_point back digit, front,
      front', back']
  · have pointless : ∀ d q, t.dropWhile Char.isDigit = '.' :: d :: q → d.isDigit = false := by
      intro d q same
      cases digit : d.isDigit with
      | false => rfl
      | true => exact absurd ⟨d, q, same, digit⟩ pointed
    rw [readNumber_whole pointless, Prod.mk.injEq] at made
    obtain ⟨rfl, ends⟩ := made
    obtain rfl : t.takeWhile Char.isDigit = w := (List.cons.inj begins).2
    obtain ⟨front, back⟩ := row_truncate ends
    rw [readNumber_whole, front, back]
    intro d q same
    rw [back] at same
    exact pointless d (q ++ z) (by rw [ends, same]; rfl)

theorem readString_truncate {w r z : Text} {l : Lexeme}
    (made : readString (w ++ (r ++ z)) = (l, r ++ z)) (begins : l.written = '"' :: w) :
    readString (w ++ r) = (l, r) := by
  generalize whole : w ++ (r ++ z) = t at made
  unfold readString at made
  split at made
  · rename_i none
    rw [Prod.mk.injEq] at made
    obtain ⟨rfl, ends⟩ := made
    obtain rfl : t = w := (List.cons.inj begins).2
    obtain ⟨rfl, rfl⟩ := List.append_eq_nil_iff.mp ends.symm
    rw [List.append_nil, readString, none]
  · rename_i q rest found
    rw [Prod.mk.injEq] at made
    obtain ⟨rfl, rfl⟩ := made
    have mark := List.head?_dropWhile_not (· != '"') t
    rw [found] at mark
    simp only [List.head?_cons, bne_eq_false_iff_eq] at mark
    subst mark
    obtain rfl : t.takeWhile (· != '"') ++ ['"'] = w := (List.cons.inj begins).2
    have cut : t.dropWhile (· != '"') = '"' :: r ++ z := found
    obtain ⟨front, back⟩ := row_truncate cut
    rw [List.append_assoc, List.singleton_append, readString, back, front]

theorem read_of_isDigit {c : Char} (digit : c.isDigit = true) (t : Text) :
    read c t = some (readNumber c t) :=
  if_pos digit

theorem read_of_isNameStart {c : Char} (first : isNameStart c = true) (t : Text) :
    read c t = some (ofWord (c :: t.takeWhile isNameChar), t.dropWhile isNameChar) := by
  have letter : ¬ c.isDigit = true := by
    rw [Text.isDigit_eq_false_of_isNameStart first]
    exact Bool.false_ne_true
  rw [read, if_neg letter, if_pos first]

theorem read_quote (t : Text) : read '"' t = some (readString t) := rfl

theorem read_mark {c : Char} {l : Lexeme} (mark : mark? c = some l) (t : Text) :
    read c t = some (l, t) := by
  unfold mark? at mark
  split at mark <;> cases mark <;> rfl

/-- What follows a lexeme may be cut off anywhere. -/
theorem read_truncate {c : Char} {w r z : Text} {l : Lexeme}
    (found : read c (w ++ (r ++ z)) = some (l, r ++ z)) (begins : l.written = c :: w) :
    read c (w ++ r) = some (l, r) := by
  obtain ⟨digit, made⟩ | ⟨first, rfl, ends⟩ | ⟨rfl, made⟩ | ⟨x, rfl, other, rfl, same⟩ |
    ⟨mark, _⟩ := read_cases found
  · rw [read_of_isDigit digit, readNumber_truncate made begins]
  · rw [written_ofWord] at begins
    obtain ⟨front, back⟩ := row_truncate ends.symm
    rw [(List.cons.inj begins).2] at front back ⊢
    rw [read_of_isNameStart first, front, back]
  · rw [read_quote, readString_truncate made begins]
  · obtain rfl : [x, '\''] = w := (List.cons.inj begins).2
    exact if_neg other
  · obtain rfl : [] = w := (List.cons.inj ((written_mark mark).symm.trans begins)).2
    exact read_mark mark r

theorem plain_of_isDigit {c : Char} (digit : c.isDigit = true) : Outline.plain c = true :=
  Outline.plain_of_class digit (by decide)

theorem plain_of_isNameChar {c : Char} (inside : isNameChar c = true) : Outline.plain c = true :=
  Outline.plain_of_class inside (by decide)

/-- A whole lexeme moves the outline by its weight. -/
theorem run_written {l : Lexeme} (proper : l.Proper) (closed : l.isClosed = true) (d : Int) :
    Outline.run ⟨none, d⟩ l.written = ⟨none, d + l.weight⟩ := by
  have fixed : ∀ w : Text, (w.all Outline.plain = true) →
      Outline.run ⟨none, d⟩ w = ⟨none, d + 0⟩ := by
    intro w all
    rw [Int.add_zero]
    exact Outline.run_plain (List.all_eq_true.mp all) d
  cases l with
  | number t =>
      refine fixed t (List.all_eq_true.mpr fun c member => ?_)
      rcases proper c member with digit | rfl
      · exact plain_of_isDigit digit
      · rfl
  | ident n =>
      exact fixed n (List.all_eq_true.mpr fun c member => plain_of_isNameChar (proper c member))
  | string s =>
      rw [show d + weight (.string s) = d from Int.add_zero d]
      exact Outline.run_quoted rfl proper d
  | openString rest => cases closed
  | char c =>
      rw [show d + weight (.char c) = d from Int.add_zero d]
      have other : '\'' ∉ [c] := fun member => proper (List.mem_singleton.mp member).symm
      exact Outline.run_quoted rfl other d
  | lparen => rfl
  | rparen => rfl
  | lbracket => rfl
  | rbracket => rfl
  | intDiv => exact fixed _ rfl
  | mod => exact fixed _ rfl
  | yes => exact fixed _ rfl
  | no => exact fixed _ rfl
  | plus => exact fixed _ rfl
  | minus => exact fixed _ rfl
  | star => exact fixed _ rfl
  | slash => exact fixed _ rfl

/-- No lexeme is cut but a `+` outside brackets. -/
theorem passes_written {l : Lexeme} (proper : l.Proper) {d : Int} (inside : l = .plus → d ≠ 0) :
    (Outline.scan '+').Passes ⟨none, d⟩ l.written := by
  cases l with
  | number t =>
      apply Outline.passes_of_not_mem
      intro member
      rcases proper _ member with digit | same
      · cases digit
      · cases same
  | ident n =>
      apply Outline.passes_of_not_mem
      intro member
      cases proper _ member
  | string s => exact Outline.passes_quoted rfl proper d
  | openString rest =>
      rw [written, Scan.passes_cons_iff]
      exact ⟨rfl, Outline.passes_inside proper d⟩
  | char c =>
      have other : '\'' ∉ [c] := fun member => proper (List.mem_singleton.mp member).symm
      exact Outline.passes_quoted rfl other d
  | plus =>
      have away : (d == 0) = false := beq_eq_false_iff_ne.mpr (inside rfl)
      exact (Scan.passes_cons_iff _ _ _ _).mpr ⟨away, rfl⟩
  | intDiv => exact Outline.passes_of_not_mem (by decide) _
  | mod => exact Outline.passes_of_not_mem (by decide) _
  | yes => exact Outline.passes_of_not_mem (by decide) _
  | no => exact Outline.passes_of_not_mem (by decide) _
  | minus => exact Outline.passes_of_not_mem (by decide) _
  | star => exact Outline.passes_of_not_mem (by decide) _
  | slash => exact Outline.passes_of_not_mem (by decide) _
  | lparen => exact Outline.passes_of_not_mem (by decide) _
  | rparen => exact Outline.passes_of_not_mem (by decide) _
  | lbracket => exact Outline.passes_of_not_mem (by decide) _
  | rbracket => exact Outline.passes_of_not_mem (by decide) _

theorem exists_written_last {l : Lexeme} (proper : l.Proper) (closed : l.isClosed = true)
    {c : Char} {w : Text} (begins : l.written = c :: w) :
    ∃ front last, l.written = front ++ [last] ∧ isBlank last = false := by
  have ends : ∀ t : Text, t = c :: w → (∀ x ∈ t, isBlank x = false) →
      ∃ front last, t = front ++ [last] ∧ isBlank last = false := by
    rintro t rfl all
    exact ⟨_, _, (List.dropLast_concat_getLast (List.cons_ne_nil c w)).symm,
      all _ (List.getLast_mem _)⟩
  cases l with
  | number t =>
      refine ends t begins fun x member => ?_
      rcases proper x member with digit | rfl
      · exact Text.isBlank_eq_false_of_isDigit digit
      · decide
  | ident n =>
      exact ends n begins fun x member => Text.isBlank_eq_false_of_isNameChar (proper x member)
  | string s => exact ⟨'"' :: s, '"', rfl, by decide⟩
  | openString rest => cases closed
  | char x => exact ⟨['\'', x], '\'', rfl, by decide⟩
  | intDiv => exact ⟨['D', 'I'], 'V', rfl, by decide⟩
  | mod => exact ⟨['M', 'O'], 'D', rfl, by decide⟩
  | yes => exact ⟨['T', 'R', 'U'], 'E', rfl, by decide⟩
  | no => exact ⟨['F', 'A', 'L', 'S'], 'E', rfl, by decide⟩
  | plus => exact ⟨[], '+', rfl, by decide⟩
  | minus => exact ⟨[], '-', rfl, by decide⟩
  | star => exact ⟨[], '*', rfl, by decide⟩
  | slash => exact ⟨[], '/', rfl, by decide⟩
  | lparen => exact ⟨[], '(', rfl, by decide⟩
  | rparen => exact ⟨[], ')', rfl, by decide⟩
  | lbracket => exact ⟨[], '[', rfl, by decide⟩
  | rbracket => exact ⟨[], ']', rfl, by decide⟩

end Lexeme

end Pseudocode
