import Pseudocode.Proofs.Lexeme.Written

set_option autoImplicit false

namespace Pseudocode.Lexeme

open Text (bytes isNameStart isNameChar isIdentifier)

theorem ofWord_eq_ident_iff (w name : Text) :
    ofWord w = .ident name ↔ w = name ∧ w ∉ Text.reserved := by
  simp only [ofWord, Text.reserved, List.mem_cons, List.not_mem_nil, or_false]
  grind

theorem isIdentifier_cons_iff (c : Char) (w : Text) :
    isIdentifier (c :: w) = true ↔
      isNameStart c = true ∧ (∀ x ∈ w, isNameChar x = true) ∧ c :: w ∉ Text.reserved := by
  simp [isIdentifier, and_assoc]

theorem read_eq_ident {c : Char} {t name rest : Text}
    (found : read c t = some (.ident name, rest)) :
    isNameStart c = true ∧ ofWord (c :: t.takeWhile isNameChar) = .ident name := by
  obtain ⟨_, made⟩ | ⟨first, word, _⟩ | ⟨_, made⟩ | ⟨x, _, _, same, _⟩ | ⟨mark, _⟩ :=
    read_cases found
  · unfold readNumber at made
    dsimp only at made
    repeat' split at made
    all_goals cases made
  · exact ⟨first, word.symm⟩
  · unfold readString at made
    split at made <;> cases made
  · cases same
  · unfold mark? at mark
    split at mark <;> cases mark

/-- A word that may be declared is read as a name from its own text, and no other text is. -/
theorem legible_ident_iff (name : Text) : (ident name).Legible ↔ isIdentifier name = true := by
  constructor
  · rintro ⟨c, w, _, begins, found⟩
    obtain rfl : name = c :: w := begins
    obtain ⟨first, word⟩ := read_eq_ident found
    obtain ⟨same, free⟩ := (ofWord_eq_ident_iff _ _).mp word
    have row : ∀ x ∈ w, isNameChar x = true := by
      rw [← (List.cons.inj same).2]
      exact fun x member => List.mem_takeWhile_imp member
    rw [same] at free
    exact (isIdentifier_cons_iff c w).mpr ⟨first, row, free⟩
  · intro named
    cases name with
    | nil => cases named
    | cons c w =>
        obtain ⟨first, row, free⟩ := (isIdentifier_cons_iff c w).mp named
        have solid : isGap c = false := by
          refine eq_false_of_ne_true fun gap => ?_
          have blank := isBlank_of_isGap gap
          rw [Text.isBlank_eq_false_of_isNameChar (Text.isNameChar_of_isNameStart first)] at blank
          cases blank
        refine ⟨c, w, solid, rfl, ?_⟩
        rw [read_of_isNameStart first, List.takeWhile_eq_self_iff.mpr row,
          List.dropWhile_eq_nil_iff.mpr row, (ofWord_eq_ident_iff _ _).mpr ⟨rfl, free⟩]

def isQuoted : Lexeme → Bool
  | .string _ | .openString _ | .char _ => true
  | _ => false

/-- Where a name begins inside a lexeme, after a character of no name, the lexeme is quoted. -/
theorem isQuoted_of_break {l : Lexeme} (proper : l.Proper) {front back : Text} {x y : Char}
    (written : l.written = front ++ y :: x :: back) (apart : isNameChar y = false)
    (first : isNameStart x = true) : l.isQuoted = true := by
  have before : y ∈ l.written := by simp [written]
  have begins : x ∈ l.written := by simp [written]
  have long : 2 ≤ l.written.length := by
    simp only [written, List.length_append, List.length_cons]
    omega
  -- A word has no such character, a number no such name, and a mark is too short.
  have noWord (word : ∀ z ∈ l.written, isNameChar z = true) : l.isQuoted = true := by
    rw [word y before] at apart
    cases apart
  cases l with
  | string | openString | char => rfl
  | ident name => exact noWord proper
  | intDiv | mod | yes | no => exact noWord (List.all_eq_true.mp (by decide))
  | number t =>
      rcases proper x begins with digit | rfl
      · rw [Text.isDigit_eq_false_of_isNameStart first] at digit
        cases digit
      · cases first
  | plus | minus | star | slash | lparen | rparen | lbracket | rbracket =>
      simp [Lexeme.written, display] at long

theorem ends_of_isQuoted {c : Char} {t rest : Text} {l : Lexeme}
    (found : read c t = some (l, rest)) (quoted : l.isQuoted = true) :
    rest = [] ∨ ∃ front q, l.written = front ++ [q] ∧ isNameChar q = false := by
  cases l with
  | string s => exact .inr ⟨'"' :: s, '"', rfl, rfl⟩
  | openString s => exact .inl (rest_of_open found rfl)
  | char x => exact .inr ⟨['\'', x], '\'', rfl, rfl⟩
  | _ => cases quoted

theorem bytes_le_of_isQuoted {c : Char} {t rest front tail name after : Text} {l : Lexeme}
    (found : read c t = some (l, rest)) (quoted : l.isQuoted = true)
    (written : l.written = front ++ tail) (some : tail ≠ []) (same : tail ++ rest = name ++ after)
    (named : ∀ x ∈ name, isNameChar x = true) : bytes name ≤ bytes tail := by
  rcases List.append_eq_append_iff.mp same with ⟨a, name_eq, rest_eq⟩ | ⟨a, tail_eq, _⟩
  · rcases ends_of_isQuoted found quoted with rfl | ⟨body, q, ends, apart⟩
    · obtain ⟨rfl, _⟩ := List.append_eq_nil_iff.mp rest_eq.symm
      simp [name_eq]
    · have last : tail.getLast? = .some q := by
        have whole := congrArg List.getLast? (written.symm.trans ends)
        rwa [List.getLast?_append_of_ne_nil _ some, List.getLast?_concat] at whole
      have inside := named q (by simp [name_eq, List.mem_of_getLast? last])
      rw [apart] at inside
      cases inside
  · simp [tail_eq]

theorem read_of_isIdentifier {c : Char} {w after : Text} (named : isIdentifier (c :: w) = true)
    (right : ∀ x ∈ after.head?, isNameChar x = false) :
    read c (w ++ after) = some (.ident (c :: w), after) := by
  obtain ⟨first, row, free⟩ := (isIdentifier_cons_iff c w).mp named
  obtain ⟨front, back⟩ := row_append right w
  rw [read_of_isNameStart first, front, back, List.takeWhile_eq_self_iff.mpr row,
    List.dropWhile_eq_nil_iff.mpr row, (ofWord_eq_ident_iff _ _).mpr ⟨rfl, free⟩]
  rfl

/-- A name that stands between characters of no name, and not in quotes, is a lexeme. -/
theorem Lexed.mem_of_delimited {pos : Nat} {name before after : Text}
    {lexemes : List (Spanned Lexeme)} (lexed : Lexed pos (before ++ (name ++ after)) lexemes)
    (named : isIdentifier name = true) (left : ∀ c ∈ before.getLast?, isNameChar c = false)
    (right : ∀ c ∈ after.head?, isNameChar c = false)
    (unquoted : ∀ l ∈ lexemes, l.node.isQuoted = true →
      ¬ (l.span.start ≤ pos + bytes before ∧ pos + bytes before + bytes name ≤ l.span.stop)) :
    ⟨.ident name, ⟨pos + bytes before, pos + bytes before + bytes name⟩⟩ ∈ lexemes := by
  obtain ⟨x, n, rfl⟩ := List.exists_cons_of_ne_nil (Text.ne_nil_of_isIdentifier named)
  have first := ((isIdentifier_cons_iff x n).mp named).1
  have letters := List.all_eq_true.mp (Text.all_isNameChar_of_isIdentifier named)
  generalize whole : before ++ (x :: n ++ after) = t at lexed
  induction lexed generalizing before with
  | nil pos => simp at whole
  | @gap pos c t lexemes gap later ih =>
      cases before with
      | nil =>
          obtain rfl : x = c := (List.cons.inj whole).1
          have solid := Text.isBlank_eq_false_of_isNameChar (letters x List.mem_cons_self)
          rw [isBlank_of_isGap gap] at solid
          cases solid
      | cons y before =>
          obtain ⟨rfl, text⟩ := List.cons.inj whole
          have place : pos + bytes (y :: before) = pos + y.utf8Size + bytes before := by
            rw [Text.bytes_cons, Nat.add_assoc]
          rw [place] at unquoted ⊢
          refine ih (fun d last => left d ?_) unquoted text
          rw [List.getLast?_cons, last]
          rfl
  | @lexeme pos c w rest l lexemes solid found begins later ih =>
      have parts : before ++ (x :: n ++ after) = l.written ++ rest := by
        rw [whole, begins, List.cons_append]
      -- The name begins after this lexeme, at it or in it.
      obtain ⟨a, front, tail⟩ | ⟨a, written, some, tail⟩ := Text.append_eq_append_cases parts
      · have place : pos + bytes before = pos + bytes l.written + bytes a := by
          rw [front, Text.bytes_append, Nat.add_assoc]
        obtain ⟨_, later⟩ := List.forall_mem_cons.mp unquoted
        rw [place] at later ⊢
        refine List.mem_cons_of_mem _ (ih (fun d last => left d ?_) later tail.symm)
        rw [front, List.getLast?_append, last]
        rfl
      · rcases before.eq_nil_or_concat' with rfl | ⟨front, y, rfl⟩
        · obtain ⟨rfl, text⟩ := List.cons.inj whole
          have again : read x (n ++ after) = .some (.ident (x :: n), after) :=
            read_of_isIdentifier named right
          cases again.symm.trans ((congrArg (read x) text).trans found)
          exact List.mem_cons_self
        · obtain ⟨z, a, rfl⟩ := List.exists_cons_of_ne_nil some
          obtain rfl : z = x := (List.cons.inj tail).1
          have quoted : l.isQuoted = true :=
            isQuoted_of_break (read_proper found) (by rw [written, List.append_assoc]; rfl)
              (left y (by simp)) first
          have inside := bytes_le_of_isQuoted found quoted written some tail letters
          have outside := unquoted _ List.mem_cons_self quoted
          simp only [written, Text.bytes_append] at outside
          omega

/-- The words that may be declared are the words of expressions: a text is an identifier exactly if
it is read as one lexeme, the name that it is. In a text that can be read, an identifier between
characters that are no letters, digits or underscores is that lexeme at its place, unless it lies in
a string, closed or not, or in a character. -/
theorem identifiers_are_names (name : Text) :
    (isIdentifier name = true ↔ lex name = ⟨[⟨.ident name, ⟨0, bytes name⟩⟩], none⟩) ∧
    (isIdentifier name = true → ∀ before after : Text,
      (∀ c ∈ before.getLast?, isNameChar c = false) → (∀ c ∈ after.head?, isNameChar c = false) →
      (lex (before ++ (name ++ after))).stuck = none →
      (∀ l ∈ (lex (before ++ (name ++ after))).lexemes, l.node.isQuoted = true →
        ¬ (l.span.start ≤ bytes before ∧ bytes before + bytes name ≤ l.span.stop)) →
      ⟨.ident name, ⟨bytes before, bytes before + bytes name⟩⟩ ∈
        (lex (before ++ (name ++ after))).lexemes) := by
  refine ⟨⟨fun named => ?_, fun read => ?_⟩, ?_⟩
  · have lexed : Lexed 0 (name ++ []) [⟨.ident name, ⟨0, 0 + bytes name⟩⟩] :=
      .cons ((legible_ident_iff name).mpr named) rfl (breaks_of_gaps (List.forall_mem_nil _))
        (.nil _)
    rw [List.append_nil, Nat.zero_add] at lexed
    exact lexed.lex_eq
  · have lexed : Lexed 0 name [⟨.ident name, ⟨0, bytes name⟩⟩] := (lexed_iff 0 name _).mpr read
    exact (legible_ident_iff name).mp (lexed.legible _ List.mem_cons_self)
  · intro named before after left right whole unquoted
    rw [← Nat.zero_add (bytes before)] at unquoted ⊢
    exact (lexed_lex whole).mem_of_delimited named left right unquoted

/-- A name that begins with an operator's word, next to the same word in quotes. -/
theorem identifiers_are_names_quoted :
    let before := "\"DIV1\"*(".toList
    let name := "DIV1".toList
    let after := ")DIV'D'".toList
    isIdentifier name = true ∧ (∀ c ∈ before.getLast?, isNameChar c = false) ∧
      (∀ c ∈ after.head?, isNameChar c = false) ∧
      (lex (before ++ (name ++ after))).stuck = none ∧
      ⟨.ident name, ⟨8, 12⟩⟩ ∈ (lex (before ++ (name ++ after))).lexemes := by
  intro before name after
  have left : ∀ c ∈ before.getLast?, isNameChar c = false := by
    rintro _ ⟨rfl⟩
    decide
  have right : ∀ c ∈ after.head?, isNameChar c = false := by
    rintro _ ⟨rfl⟩
    decide
  have whole : (lex (before ++ (name ++ after))).stuck = none := by decide +kernel
  have unquoted : ∀ l ∈ (lex (before ++ (name ++ after))).lexemes, l.node.isQuoted = true →
      ¬ (l.span.start ≤ bytes before ∧ bytes before + bytes name ≤ l.span.stop) := by
    decide +kernel
  exact ⟨by decide, left, right, whole,
    (identifiers_are_names name).2 (by decide) before after left right whole unquoted⟩

end Pseudocode.Lexeme
