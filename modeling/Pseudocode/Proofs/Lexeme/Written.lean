import Pseudocode.Proofs.Lexeme.Lexed

set_option autoImplicit false

namespace Pseudocode.Lexeme

open Text (bytes encode slice isNameStart isNameChar)

/-- Lexemes that make up a text: they stand in it one after the other, each as it is displayed, and
every byte of the text that belongs to none is a space, a tab, a carriage return or a line feed.
Only a string that is not closed is not displayed as it is written; it is the last lexeme and goes
up to the end. -/
structure Covers (source : Text) (lexemes : List (Spanned Lexeme)) : Prop where
  ordered : lexemes.Pairwise fun a b => a.span.stop ≤ b.span.start
  nonempty : ∀ l ∈ lexemes, l.span.start < l.span.stop
  within : ∀ l ∈ lexemes, l.span.stop ≤ bytes source
  outside : ∀ n b, (encode source)[n]? = some b →
    (∀ l ∈ lexemes, ¬ (l.span.start ≤ n ∧ n < l.span.stop)) → b = 32 ∨ b = 9 ∨ b = 13 ∨ b = 10
  text : ∀ l ∈ lexemes, l.node.isClosed = true → slice source l.span = l.node.display
  unclosed : ∀ l ∈ lexemes, l.node.isClosed = false →
    lexemes.getLast? = some l ∧ l.span.stop = bytes source

theorem written_eq_display {l : Lexeme} (closed : l.isClosed = true) : l.written = l.display := by
  cases l <;> first | rfl | cases closed

theorem encode_of_isGap {c : Char} (gap : isGap c = true) :
    ∃ b, encode [c] = [b] ∧ (b = 32 ∨ b = 9 ∨ b = 13 ∨ b = 10) := by
  simp only [isGap, Bool.or_eq_true, beq_iff_eq] at gap
  rcases gap with ((rfl | rfl) | rfl) | rfl
  · exact ⟨32, rfl, .inl rfl⟩
  · exact ⟨9, rfl, .inr (.inl rfl)⟩
  · exact ⟨13, rfl, .inr (.inr (.inl rfl))⟩
  · exact ⟨10, rfl, .inr (.inr (.inr rfl))⟩

namespace Lexed

variable {pos : Nat} {t : Text} {lexemes : List (Spanned Lexeme)}

theorem outside (lexed : Lexed pos t lexemes) {n : Nat} {b : UInt8}
    (byte : (encode t)[n]? = some b)
    (free : ∀ l ∈ lexemes, ¬ (l.span.start ≤ pos + n ∧ pos + n < l.span.stop)) :
    b = 32 ∨ b = 9 ∨ b = 13 ∨ b = 10 := by
  induction lexed generalizing n with
  | nil pos => cases byte
  | @gap pos c t lexemes gap _ ih =>
      obtain ⟨first, single, kind⟩ := encode_of_isGap gap
      have size : c.utf8Size = 1 := by
        have length := Text.length_encode [c]
        rw [single] at length
        exact length.symm
      rw [← List.singleton_append, Text.encode_append, single, List.singleton_append] at byte
      cases n with
      | zero =>
          cases byte
          exact kind
      | succ n =>
          refine ih byte fun l member => ?_
          rw [size, Nat.add_assoc, Nat.add_comm 1]
          exact free l member
  | @lexeme pos c w rest l lexemes _ _ begins _ ih =>
      obtain ⟨here, later⟩ := List.forall_mem_cons.mp free
      have past : bytes l.written ≤ n := by
        dsimp only at here
        omega
      rw [← List.cons_append, ← begins, Text.encode_append,
        List.getElem?_append_right (by rw [Text.length_encode]; exact past),
        Text.length_encode] at byte
      refine ih byte fun x member => ?_
      have same : pos + bytes l.written + (n - bytes l.written) = pos + n := by omega
      rw [same]
      exact later x member

theorem unclosed (lexed : Lexed pos t lexemes) {l : Spanned Lexeme} (member : l ∈ lexemes)
    (opened : l.node.isClosed = false) :
    lexemes.getLast? = some l ∧ l.span.stop = pos + bytes t := by
  induction lexed with
  | nil pos => cases member
  | gap _ _ ih =>
      obtain ⟨last, stop⟩ := ih member
      exact ⟨last, by rw [stop, Text.bytes_cons, Nat.add_assoc]⟩
  | @lexeme pos c w rest first lexemes _ found begins later ih =>
      have size : bytes (c :: (w ++ rest)) = bytes first.written + bytes rest := by
        rw [begins, ← List.cons_append, Text.bytes_append]
      rcases List.mem_cons.mp member with rfl | member
      · obtain rfl := rest_of_open found opened
        rw [later.eq_nil]
        exact ⟨rfl, by rw [size]; rfl⟩
      · obtain ⟨last, stop⟩ := ih member
        refine ⟨?_, by rw [stop, size, Nat.add_assoc]⟩
        rw [List.getLast?_cons, last]
        rfl

theorem covers (lexed : Lexed 0 t lexemes) : Covers t lexemes := by
  have cut {l : Spanned Lexeme} (member : l ∈ lexemes) :
      ∃ u v, t = u ++ (l.node.written ++ v) ∧
        l.span = ⟨bytes u, bytes u + bytes l.node.written⟩ := by
    obtain ⟨front, back, rfl⟩ := List.append_of_mem member
    obtain ⟨u, v, same, place, _⟩ := lexed.cutAt
    rw [Nat.zero_add] at place
    exact ⟨u, v, same, place⟩
  refine ⟨lexed.pairwise_between.imp ?_, fun l member => ?_, fun l member => ?_, ?_,
    fun l member closed => ?_, fun l member opened => ?_⟩
  · rintro x y ⟨a, m, b, _, stop, start⟩
    omega
  · rw [lexed_iff] at lexed
    exact (span_nonempty_of_mem_lexFrom 0 t l (by rw [lexed]; exact member)).2
  · obtain ⟨u, v, rfl, place⟩ := cut member
    rw [place, Text.bytes_append, Text.bytes_append]
    dsimp only
    omega
  · intro n b byte free
    refine lexed.outside byte ?_
    rw [Nat.zero_add]
    exact free
  · obtain ⟨u, v, rfl, place⟩ := cut member
    rw [place, ← List.append_assoc, Text.slice_append, written_eq_display closed]
  · have last := lexed.unclosed member opened
    rw [Nat.zero_add] at last
    exact last

end Lexed

/-- What stands before the character that lexing stops at consists of the lexemes read so far. -/
theorem exists_lexed_of_stuck {pos : Nat} {t : Text} {c : Spanned Char}
    (stuck : (lexFrom pos t).stuck = some c) :
    ∃ front back, t = front ++ c.node :: back ∧ c.span.start = pos + bytes front ∧
      Lexed pos front (lexFrom pos t).lexemes := by
  fun_induction lexFrom pos t with
  | case1 => cases stuck
  | case2 pos x t gap ih =>
      obtain ⟨front, back, same, place, lexed⟩ := ih stuck
      refine ⟨x :: front, back, by rw [same]; rfl, ?_, .gap gap lexed⟩
      rw [place, Text.bytes_cons, Nat.add_assoc]
  | case3 pos x t =>
      cases stuck
      exact ⟨[], t, rfl, rfl, .nil pos⟩
  | case4 pos x t solid l rest found stop after ih =>
      obtain ⟨front, back, same, place, lexed⟩ := ih stuck
      obtain ⟨w, begins, rfl⟩ := read_written found
      have size : bytes (x :: (w ++ front)) = bytes l.written + bytes front := by
        rw [begins, ← List.cons_append, Text.bytes_append]
      refine ⟨x :: (w ++ front), back, ?_, ?_, ?_⟩
      · rw [same, List.cons_append, List.append_assoc]
      · rw [place, size, Nat.add_assoc]
      · rw [same] at found
        exact .lexeme (eq_false_of_ne_true solid) (read_truncate found begins) begins lexed

/-- A text that no lexeme before it goes on into. -/
def Breaks (t : Text) : Prop :=
  ∀ c ∈ t.head?, isNameChar c = false ∧ c ≠ '.'

theorem isDigit_of_breaks {c : Char} {t : Text} (breaks : Breaks (c :: t)) : c.isDigit = false := by
  have other := (breaks c rfl).1
  simp only [isNameChar, Char.isAlphanum, Bool.or_eq_false_iff] at other
  exact other.1.2

theorem breaks_of_gaps {t : Text} (all : ∀ c ∈ t, isGap c = true) : Breaks t := by
  intro c first
  have gap := all c (List.mem_of_mem_head? first)
  simp only [isGap, Bool.or_eq_true, beq_iff_eq] at gap
  rcases gap with ((rfl | rfl) | rfl) | rfl <;> decide

theorem Breaks.gaps {lead t : Text} (breaks : Breaks t) (all : ∀ c ∈ lead, isGap c = true) :
    Breaks (lead ++ t) := by
  cases lead with
  | nil => exact breaks
  | cons c lead =>
      have first : Breaks (c :: lead) := breaks_of_gaps all
      exact first

theorem row_append {p : Char → Bool} {v : Text} (ends : ∀ c ∈ v.head?, p c = false) (t : Text) :
    (t ++ v).takeWhile p = t.takeWhile p ∧ (t ++ v).dropWhile p = t.dropWhile p ++ v := by
  induction t with
  | nil =>
      cases v with
      | nil => exact ⟨rfl, rfl⟩
      | cons c v =>
          have stop : ¬ p c = true := by rw [ends c rfl]; exact Bool.false_ne_true
          exact ⟨List.takeWhile_cons_of_neg stop, List.dropWhile_cons_of_neg stop⟩
  | cons x t ih =>
      by_cases inside : p x = true
      · rw [List.cons_append, List.takeWhile_cons_of_pos inside, List.dropWhile_cons_of_pos inside,
          List.takeWhile_cons_of_pos inside, List.dropWhile_cons_of_pos inside, ih.1, ih.2]
        exact ⟨rfl, rfl⟩
      · rw [List.cons_append, List.takeWhile_cons_of_neg inside, List.dropWhile_cons_of_neg inside,
          List.takeWhile_cons_of_neg inside, List.dropWhile_cons_of_neg inside]
        exact ⟨rfl, rfl⟩

theorem readNumber_append {c : Char} {t v : Text} (breaks : Breaks v) :
    readNumber c (t ++ v) = ((readNumber c t).1, (readNumber c t).2 ++ v) := by
  have digits : ∀ x ∈ v.head?, x.isDigit = false := by
    intro x first
    cases v with
    | nil => cases first
    | cons y v =>
        cases first
        exact isDigit_of_breaks breaks
  obtain ⟨front, back⟩ := row_append digits t
  by_cases pointed : ∃ d q, t.dropWhile Char.isDigit = '.' :: d :: q ∧ d.isDigit = true
  · obtain ⟨d, q, point, digit⟩ := pointed
    have pointed : (t ++ v).dropWhile Char.isDigit = '.' :: d :: (q ++ v) := by
      rw [back, point]
      rfl
    obtain ⟨later, rest⟩ := row_append digits q
    rw [readNumber_point pointed digit, readNumber_point point digit, front, later, rest]
  · have pointless : ∀ d q, t.dropWhile Char.isDigit = '.' :: d :: q → d.isDigit = false := by
      intro d q same
      cases digit : d.isDigit with
      | false => rfl
      | true => exact absurd ⟨d, q, same, digit⟩ pointed
    rw [readNumber_whole pointless, readNumber_whole, front, back]
    intro d q same
    rw [back] at same
    -- A point at the end of `t` is followed by the first character of `v`, which is no digit.
    match split : t.dropWhile Char.isDigit with
    | [] =>
        rw [split, List.nil_append] at same
        subst same
        exact absurd rfl (breaks '.' rfl).2
    | [x] =>
        rw [split] at same
        cases same
        exact digits d rfl
    | x :: y :: later =>
        rw [split] at same
        cases same
        exact pointless _ _ split

theorem readString_append {t v : Text} (closed : (readString t).1.isClosed = true) :
    readString (t ++ v) = ((readString t).1, (readString t).2 ++ v) := by
  unfold readString at closed ⊢
  cases found : t.dropWhile (· != '"') with
  | nil =>
      rw [found] at closed
      cases closed
  | cons q rest =>
      have some : t.dropWhile (· != '"') ≠ [] := by
        rw [found]
        exact List.cons_ne_nil _ _
      rw [Text.dropWhile_append_of_found some, Text.takeWhile_append_of_found some, found]
      rfl

/-- A whole lexeme is read again where what follows breaks it off. -/
theorem read_append {c : Char} {t v rest : Text} {l : Lexeme}
    (found : read c t = some (l, rest)) (closed : l.isClosed = true) (breaks : Breaks v) :
    read c (t ++ v) = some (l, rest ++ v) := by
  obtain ⟨digit, made⟩ | ⟨first, rfl, rfl⟩ | ⟨rfl, made⟩ | ⟨x, rfl, other, rfl, rfl⟩ |
    ⟨mark, rfl⟩ := read_cases found
  · rw [read_of_isDigit digit, readNumber_append breaks, made]
  · obtain ⟨front, back⟩ := row_append (fun x first => (breaks x first).1) t
    rw [read_of_isNameStart first, front, back]
  · have whole : (readString t).1.isClosed = true := by
      rw [made]
      exact closed
    rw [read_quote, readString_append whole, made]
  · exact if_neg other
  · exact read_mark mark _

/-- A lexeme that is read from its own text. -/
def Legible (l : Lexeme) : Prop :=
  ∃ c w, isGap c = false ∧ l.written = c :: w ∧ read c w = some (l, [])

namespace Lexed

variable {pos : Nat} {t u v : Text} {lexemes us vs : List (Spanned Lexeme)}

theorem legible (lexed : Lexed pos t lexemes) : ∀ l ∈ lexemes, l.node.Legible := by
  induction lexed with
  | nil pos => exact List.forall_mem_nil _
  | gap _ _ ih => exact ih
  | @lexeme pos c w rest l lexemes solid found begins _ ih =>
      refine List.forall_mem_cons.mpr ⟨⟨c, w, solid, begins, ?_⟩, ih⟩
      have alone := read_truncate (r := []) (z := rest) found begins
      rw [List.append_nil] at alone
      exact alone

theorem gaps {lead : Text} (all : ∀ c ∈ lead, isGap c = true)
    (lexed : Lexed (pos + bytes lead) t lexemes) : Lexed pos (lead ++ t) lexemes := by
  induction lead generalizing pos with
  | nil => exact lexed
  | cons c lead ih =>
      obtain ⟨first, later⟩ := List.forall_mem_cons.mp all
      rw [Text.bytes_cons, ← Nat.add_assoc] at lexed
      exact .gap first (ih later lexed)

theorem of_gaps (all : ∀ c ∈ t, isGap c = true) (pos : Nat) : Lexed pos t [] := by
  have lexed : Lexed pos (t ++ []) [] := .gaps all (.nil _)
  rw [List.append_nil] at lexed
  exact lexed

/-- A mark needs nothing to break it off. -/
theorem mark {c : Char} {l : Lexeme} (solid : isGap c = false) (mark : mark? c = some l)
    (lexed : Lexed (pos + c.utf8Size) t lexemes) :
    Lexed pos (c :: t) (⟨l, ⟨pos, pos + c.utf8Size⟩⟩ :: lexemes) := by
  have size : bytes l.written = c.utf8Size := by
    rw [written_mark mark]
    rfl
  rw [← size] at lexed ⊢
  exact .lexeme (w := []) solid (read_mark mark t) (written_mark mark) lexed

theorem cons {l : Lexeme} (legible : l.Legible) (closed : l.isClosed = true) (breaks : Breaks t)
    (lexed : Lexed (pos + bytes l.written) t lexemes) :
    Lexed pos (l.written ++ t) (⟨l, ⟨pos, pos + bytes l.written⟩⟩ :: lexemes) := by
  obtain ⟨c, w, solid, begins, found⟩ := legible
  have again : read c (w ++ t) = some (l, t) := read_append found closed breaks
  have joined : l.written ++ t = c :: (w ++ t) := by rw [begins, List.cons_append]
  rw [joined]
  exact .lexeme solid again begins lexed

/-- Two texts of which the second breaks off what stands before it. -/
theorem append (first : Lexed pos u us) (closed : ∀ l ∈ us, l.node.isClosed = true)
    (breaks : Breaks v) (second : Lexed (pos + bytes u) v vs) :
    Lexed pos (u ++ v) (us ++ vs) := by
  induction first with
  | nil pos => exact second
  | gap gap _ ih =>
      rw [Text.bytes_cons, ← Nat.add_assoc] at second
      exact .gap gap (ih closed second)
  | @lexeme pos c w rest l us solid found begins _ ih =>
      obtain ⟨here, later⟩ := List.forall_mem_cons.mp closed
      have size : bytes (c :: (w ++ rest)) = bytes l.written + bytes rest := by
        rw [begins, ← List.cons_append, Text.bytes_append]
      rw [size, ← Nat.add_assoc] at second
      have again := read_append found here breaks
      rw [List.append_assoc] at again
      rw [List.cons_append, List.append_assoc]
      exact .lexeme solid again begins (ih later second)

theorem shift (lexed : Lexed pos t lexemes) (offset : Nat) :
    Lexed (pos + offset) t (lexemes.map (·.shift offset)) := by
  induction lexed with
  | nil pos => exact .nil _
  | gap gap _ ih =>
      rw [Nat.add_right_comm] at ih
      exact .gap gap ih
  | @lexeme pos c w rest l lexemes solid found begins _ ih =>
      have place : (⟨pos, pos + bytes l.written⟩ : Span).shift offset =
          ⟨pos + offset, pos + offset + bytes l.written⟩ := by
        rw [Span.shift, Nat.add_right_comm]
      rw [Nat.add_right_comm] at ih
      rw [List.map_cons, Spanned.shift, place]
      exact .lexeme solid found begins ih

/-- The same text at another place has the same lexemes. -/
theorem moved (lexed : Lexed pos t lexemes) (other : Nat) :
    ∃ again, Lexed other t again ∧ again.map Spanned.node = lexemes.map Spanned.node := by
  have again := (lexed.unshift (Nat.le_refl pos)).shift other
  rw [Nat.sub_self, Nat.zero_add] at again
  refine ⟨_, again, ?_⟩
  rw [List.map_map, List.map_map]
  rfl

end Lexed

end Pseudocode.Lexeme
