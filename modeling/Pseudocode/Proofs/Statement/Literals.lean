import Pseudocode.Proofs.Token.Grouped
import Pseudocode.Statement.Reader

set_option autoImplicit false

namespace Pseudocode

open Lexeme (Lexed)
open Text (bytes StartsSolid EndsSolid Outline)

namespace Integer

theorem isDigit_of_mem_toDigits {n : Nat} {c : Char} (member : c ∈ Nat.toDigits 10 n) :
    c.isDigit = true :=
  Nat.isDigit_of_mem_toDigits (by decide) (by decide) member

theorem ofDigits_toDigits (n : Nat) : ofDigits (Nat.toDigits 10 n) = n :=
  Nat.ofDigitChars_ten_toDigits

theorem digits?_toDigits (n : Nat) : digits? (Nat.toDigits 10 n) = some n := by
  have some : (Nat.toDigits 10 n).isEmpty = false := by
    rw [List.isEmpty_eq_false_iff]
    exact Nat.toDigits_ne_nil
  have all : (Nat.toDigits 10 n).all Char.isDigit = true :=
    List.all_eq_true.mpr fun c member => isDigit_of_mem_toDigits member
  rw [digits?, some, all, ofDigits_toDigits]
  rfl

theorem read?_minus (n : Nat) : read? ('-' :: Nat.toDigits 10 n) = ofInt? (-(n : Int)) := by
  rw [read?, digits?_toDigits]
  rfl

theorem read?_toDigits (n : Nat) : read? (Nat.toDigits 10 n) = ofInt? n := by
  unfold read?
  split
  · rename_i t same
    have sign : '-' ∈ Nat.toDigits 10 n := by rw [same]; exact List.mem_cons_self
    cases isDigit_of_mem_toDigits sign
  · rename_i t same
    have sign : '+' ∈ Nat.toDigits 10 n := by rw [same]; exact List.mem_cons_self
    cases isDigit_of_mem_toDigits sign
  · rw [digits?_toDigits]
    rfl

theorem display_cases (n : Int64) :
    ∃ k, display n = '-' :: Nat.toDigits 10 k ∨ display n = Nat.toDigits 10 k := by
  unfold display displayInt
  split
  · exact ⟨_, .inl rfl⟩
  · exact ⟨_, .inr rfl⟩

/-- Every INTEGER is read back from its decimal text, the least one too. -/
theorem read?_display (n : Int64) : read? (display n) = some n := by
  unfold display displayInt
  split
  · have value : -(n.toInt.natAbs : Int) = n.toInt := by omega
    rw [read?_minus, value, ofInt?_toInt]
  · have value : (n.toInt.natAbs : Int) = n.toInt := by omega
    rw [read?_toDigits, value, ofInt?_toInt]

/-- Digits and a sign, nothing else. -/
theorem mem_display {n : Int64} {c : Char} (member : c ∈ display n) :
    c.isDigit = true ∨ c = '-' := by
  obtain ⟨k, shape | shape⟩ := display_cases n
  · rw [shape] at member
    rcases List.mem_cons.mp member with sign | digit
    · exact .inr sign
    · exact .inl (isDigit_of_mem_toDigits digit)
  · rw [shape] at member
    exact .inl (isDigit_of_mem_toDigits member)

theorem not_mem_display {c : Char} (other : c.isDigit = false) (unsigned : c ≠ '-') (n : Int64) :
    c ∉ display n := by
  intro member
  rcases mem_display member with digit | sign
  · rw [other] at digit
    cases digit
  · exact unsigned sign

theorem display_ne_nil (n : Int64) : display n ≠ [] := by
  obtain ⟨k, shape | shape⟩ := display_cases n
  · rw [shape]
    exact List.cons_ne_nil _ _
  · rw [shape]
    exact Nat.toDigits_ne_nil

theorem isBlank_of_mem_display {n : Int64} {c : Char} (member : c ∈ display n) :
    Text.isBlank c = false := by
  rcases mem_display member with digit | rfl
  · exact Text.isBlank_eq_false_of_isDigit digit
  · decide

theorem plain_of_mem_display {n : Int64} {c : Char} (member : c ∈ display n) :
    Outline.plain c = true := by
  rcases mem_display member with digit | rfl
  · exact Lexeme.plain_of_isDigit digit
  · decide

end Integer

/-- The literal for a value. -/
def Value.literal : Value → Text
  | .char c => ['\'', c, '\'']
  | .string s => '"' :: s ++ ['"']
  | v => v.display

/-- The literal of the value can be read back: an INTEGER, a BOOLEAN, a CHAR but `'` or a STRING
without `"`. -/
def Value.Literal : Value → Prop
  | .integer _ | .boolean _ => True
  | .char c => c ≠ '\''
  | .string s => '"' ∉ s
  | .real _ | .unset => False

namespace Statement

theorem tokenize_eq_group {t : Text} {lexemes : List (Spanned Lexeme)} (lexed : Lexed 0 t lexemes) :
    tokenize t = Token.group t true lexemes := by
  rw [tokenize, lexed.lex_eq]

theorem lexed_single {c : Char} {w : Text} {l : Lexeme} (found : Lexeme.read c w = some (l, []))
    (begins : l.written = c :: w) (pos : Nat) :
    Lexed pos (c :: w) [⟨l, ⟨pos, pos + bytes l.written⟩⟩] := by
  have solid : Lexeme.isGap c = false := by
    rw [Bool.eq_false_iff]
    intro gap
    have blank := Lexeme.isBlank_of_isGap gap
    rw [Lexeme.isBlank_of_read found] at blank
    cases blank
  rw [← List.append_nil w] at found
  have lexed := Lexed.lexeme solid found begins (.nil (pos + bytes l.written))
  rwa [List.append_nil] at lexed

theorem lexed_digits {t : Text} (some : t ≠ []) (all : ∀ c ∈ t, c.isDigit = true) (pos : Nat) :
    Lexed pos t [⟨.number t, ⟨pos, pos + bytes t⟩⟩] := by
  cases t with
  | nil => exact absurd rfl some
  | cons c w =>
      obtain ⟨first, others⟩ := List.forall_mem_cons.mp all
      have taken : w.takeWhile Char.isDigit = w := List.takeWhile_eq_self_iff.mpr others
      have dropped : w.dropWhile Char.isDigit = [] := List.dropWhile_eq_nil_iff.mpr others
      have number : Lexeme.readNumber c w = (.number (c :: w), []) := by
        rw [Lexeme.readNumber_whole, taken, dropped]
        intro d q point
        rw [dropped] at point
        cases point
      exact lexed_single (by rw [Lexeme.read_of_isDigit first, number]) rfl pos

theorem literal_eq_integer {t : Text} {n : Int64} (whole : '.' ∉ t)
    (read : Integer.read? t = some n) : Arithmetic.literal t = .ok (.integer n) := by
  have pointless : ¬ t.contains '.' = true := by
    rw [List.contains_iff_mem]
    exact whole
  rw [Arithmetic.literal, if_neg pointless, read]

/-- The tokens of a literal stand for its value. -/
theorem literalValue_literal {v : Value} (literal : v.Literal) :
    ∃ tokens, tokenize v.literal = .ok tokens ∧
      literalValue (tokens.map (·.node)) = .ok v := by
  cases v with
  | integer n =>
      have whole : '.' ∉ Integer.display n := Integer.not_mem_display rfl (by decide) n
      have value := literal_eq_integer whole (Integer.read?_display n)
      change ∃ tokens, tokenize (Integer.display n) = .ok tokens ∧ _
      obtain ⟨k, shape | shape⟩ := Integer.display_cases n
      · rw [shape] at value ⊢
        have lexed : Lexed 0 ('-' :: Nat.toDigits 10 k)
            [⟨.minus, ⟨0, 1⟩⟩,
              ⟨.number (Nat.toDigits 10 k), ⟨1, 1 + bytes (Nat.toDigits 10 k)⟩⟩] :=
          .lexeme (w := []) rfl (Lexeme.read_mark rfl _) rfl
            (lexed_digits Nat.toDigits_ne_nil (fun _ => Integer.isDigit_of_mem_toDigits) 1)
        exact ⟨_, tokenize_eq_group lexed, value⟩
      · rw [shape] at value ⊢
        have lexed :=
          lexed_digits (t := Nat.toDigits 10 k) Nat.toDigits_ne_nil
            (fun _ => Integer.isDigit_of_mem_toDigits) 0
        exact ⟨_, tokenize_eq_group lexed, value⟩
  | real x => cases literal
  | char c =>
      have found : Lexeme.read '\'' [c, '\''] = some (.char c, []) := if_neg literal
      exact ⟨_, tokenize_eq_group (lexed_single found rfl 0), rfl⟩
  | string s =>
      have found : Lexeme.read '"' (s ++ ['"']) = some (.string s, []) := by
        rw [Lexeme.read_quote, Lexeme.readString, Text.dropWhile_ne_append literal,
          Text.takeWhile_ne_append literal]
      exact ⟨_, tokenize_eq_group (lexed_single found rfl 0), rfl⟩
  | boolean b =>
      cases b with
      | true => exact ⟨[⟨.boolean true, ⟨0, 4⟩⟩], by decide +kernel, rfl⟩
      | false => exact ⟨[⟨.boolean false, ⟨0, 5⟩⟩], by decide +kernel, rfl⟩
  | unset => cases literal

end Statement

end Pseudocode
