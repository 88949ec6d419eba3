import Pseudocode.Proofs.Lexeme.Written
import Pseudocode.Proofs.Token.Grouped

set_option autoImplicit false

namespace Pseudocode

open Text (bytes slice)
open Lexeme (Lexed Breaks Covers lex)

namespace Token

def bare : Token → Token
  | .element name index => .element name ⟨index.node, ⟨0, 0⟩⟩
  | t => t

def bareAll (tokens : List (Spanned Token)) : List Token :=
  tokens.map (·.node.bare)

/-- The texts of the tokens, with `lead` before the first and a space before every other one. -/
def spaced (lead : Text) : List (Spanned Token) → Text
  | [] => []
  | t :: rest => lead ++ (t.node.display ++ spaced [' '] rest)

theorem breaks_spaced (tokens : List (Spanned Token)) : Breaks (spaced [' '] tokens) := by
  cases tokens with
  | nil => nofun
  | cons t rest =>
      rintro c ⟨⟩
      decide

theorem spaced_eq_intercalate (tokens : List (Spanned Token)) :
    spaced [] tokens = [' '].intercalate (tokens.map (·.node.display)) := by
  induction tokens with
  | nil => rfl
  | cons t rest ih =>
      cases rest with
      | nil => simp [spaced]
      | cons u rest =>
          rw [List.map_cons] at ih
          rw [List.map_cons, List.map_cons, List.intercalate_cons_cons, ← ih]
          simp [spaced]

theorem display_of_ofLexeme {source : Text} {due : Bool} {l : Spanned Lexeme} {token : Token}
    (made : ofLexeme source due l = .ok token) : token.display = l.node.written := by
  obtain ⟨node, place⟩ := l
  cases node with
  | minus =>
      cases made
      cases due <;> rfl
  | _ => cases made <;> rfl

theorem ofLexeme_elsewhere {source : Text} {due : Bool} {l : Spanned Lexeme} {token : Token}
    (made : ofLexeme source due l = .ok token) (other : Text) (place : Span) :
    ofLexeme other due ⟨l.node, place⟩ = .ok token := by
  obtain ⟨node, place⟩ := l
  cases node <;> first | exact made | cases made

theorem encloses_congr {xs ys : List (Spanned Lexeme)}
    (same : xs.map Spanned.node = ys.map Spanned.node) (depth : Nat) :
    encloses depth xs = encloses depth ys := by
  induction xs generalizing ys depth with
  | nil =>
      cases ys with
      | nil => rfl
      | cons y ys => cases same
  | cons x xs ih =>
      cases ys with
      | nil => cases same
      | cons y ys =>
          obtain ⟨node, later⟩ := List.cons.inj same
          unfold encloses
          rw [node]
          split
          · exact ih later _
          · split
            · rfl
            · exact ih later _
          · exact ih later _

theorem lexed_element {name gap index t : Text} {inner lexemes : List (Spanned Lexeme)} {pos : Nat}
    (legible : (Lexeme.ident name).Legible) (between : ∀ c ∈ gap, Lexeme.isGap c = true)
    (closed : ∀ l ∈ inner, l.node.isClosed = true)
    (inside : Lexed (pos + bytes name + bytes gap + 1) index inner)
    (later : Lexed (pos + bytes name + bytes gap + 1 + bytes index + 1) t lexemes) :
    Lexed pos (name ++ (gap ++ '[' :: (index ++ ']' :: t)))
      (⟨.ident name, ⟨pos, pos + bytes name⟩⟩ ::
        ⟨.lbracket, ⟨pos + bytes name + bytes gap, pos + bytes name + bytes gap + 1⟩⟩ ::
          (inner ++ ⟨.rbracket, ⟨pos + bytes name + bytes gap + 1 + bytes index,
            pos + bytes name + bytes gap + 1 + bytes index + 1⟩⟩ :: lexemes)) := by
  have closing : Lexed _ (']' :: t) _ := .mark rfl rfl later
  have bracketed := inside.append closed (by rintro c ⟨⟩; decide) closing
  have opening : Lexed _ ('[' :: (index ++ ']' :: t)) _ := .mark rfl rfl bracketed
  have bracket : Breaks ('[' :: (index ++ ']' :: t)) := by
    rintro c ⟨⟩
    decide
  exact .cons legible rfl (Breaks.gaps bracket between) (.gaps between opening)

/-- Whether `t`, where it stands after `front`, is read as these tokens, places apart. -/
def Rereads (front t : Text) (due : Bool) (tokens : List (Spanned Token)) : Prop :=
  ∃ lexemes again, Lexed (bytes front) t lexemes ∧ Grouped (front ++ t) due lexemes again ∧
    bareAll again = bareAll tokens

namespace Rereads

variable {source front t : Text} {due : Bool} {tokens : List (Spanned Token)}

theorem gaps {lead : Text} (all : ∀ c ∈ lead, Lexeme.isGap c = true)
    (rereads : Rereads (front ++ lead) t due tokens) : Rereads front (lead ++ t) due tokens := by
  obtain ⟨lexemes, again, lexed, grouped, same⟩ := rereads
  rw [Text.bytes_append] at lexed
  rw [List.append_assoc] at grouped
  exact ⟨lexemes, again, lexed.gaps all, grouped, same⟩

theorem single {l : Spanned Lexeme} {token : Token} (made : ofLexeme source due l = .ok token)
    (legible : l.node.Legible) (breaks : Breaks t)
    (rereads : Rereads (front ++ l.node.written) t token.expectsOperand tokens) (place : Span) :
    Rereads front (l.node.written ++ t) due (⟨token, place⟩ :: tokens) := by
  obtain ⟨lexemes, again, lexed, grouped, same⟩ := rereads
  rw [Text.bytes_append] at lexed
  rw [List.append_assoc] at grouped
  exact ⟨_, _, .cons legible (isClosed_of_ofLexeme made) breaks lexed,
    .single (ofLexeme_elsewhere made _ _) grouped, congrArg (token.bare :: ·) same⟩

theorem element {name index : Text} (gap : Text) {pos : Nat} {inner : List (Spanned Lexeme)}
    (legible : (Lexeme.ident name).Legible) (apart : ∀ c ∈ gap, Lexeme.isGap c = true)
    (enclosed : encloses 0 inner = true) (closed : ∀ l ∈ inner, l.node.isClosed = true)
    (inside : Lexed pos index inner) (written : Text.trim index ≠ [])
    (rereads : Rereads (front ++ (name ++ (gap ++ '[' :: (index ++ [']'])))) t false tokens)
    (indexPlace place : Span) :
    Rereads front (name ++ (gap ++ '[' :: (index ++ ']' :: t))) due
      (⟨.element name ⟨index, indexPlace⟩, place⟩ :: tokens) := by
  obtain ⟨lexemes, again, lexed, grouped, same⟩ := rereads
  obtain ⟨moved, between, nodes⟩ := inside.moved (bytes front + bytes name + bytes gap + 1)
  have kept : ∀ l ∈ moved, l.node.isClosed = true := by
    intro l member
    have known : l.node ∈ inner.map Spanned.node := nodes ▸ List.mem_map_of_mem member
    obtain ⟨x, among, node⟩ := List.mem_map.mp known
    rw [← node]
    exact closed x among
  have later : Lexed (bytes front + bytes name + bytes gap + 1 + bytes index + 1) t lexemes := by
    simp only [Text.bytes_append, Text.bytes_cons, Text.bytes_nil, ← Nat.add_assoc] at lexed
    exact lexed
  have text : slice (front ++ (name ++ (gap ++ '[' :: (index ++ ']' :: t))))
      ⟨bytes front + bytes name + bytes gap + 1,
        bytes front + bytes name + bytes gap + 1 + bytes index⟩ = index := by
    have between := Text.slice_append (front ++ (name ++ (gap ++ ['[']))) index (']' :: t)
    simp only [Text.bytes_append, List.append_assoc, List.singleton_append,
      ← Nat.add_assoc] at between
    exact between
  have grouped : Grouped (front ++ (name ++ (gap ++ '[' :: (index ++ ']' :: t)))) false lexemes
      again := by
    simp only [List.append_assoc, List.cons_append, List.nil_append] at grouped
    exact grouped
  exact ⟨_, _, lexed_element legible apart kept between later,
    .element ((encloses_congr nodes 0).trans enclosed) kept between text written grouped,
    congrArg ((Token.element name ⟨index, ⟨0, 0⟩⟩) :: ·) same⟩

end Rereads

/-- Tokens that are written out with spaces are read again. -/
theorem Grouped.rereads {source : Text} {due : Bool} {lexemes : List (Spanned Lexeme)}
    {tokens : List (Spanned Token)} (grouped : Grouped source due lexemes tokens)
    (legible : ∀ l ∈ lexemes, l.node.Legible) (front : Text) {lead : Text}
    (gaps : ∀ c ∈ lead, Lexeme.isGap c = true) :
    Rereads front (spaced lead tokens) due tokens := by
  have space : ∀ c ∈ [' '], Lexeme.isGap c = true := List.forall_mem_singleton.mpr rfl
  induction grouped generalizing front lead with
  | nil due => exact ⟨[], [], .nil _, .nil due, rfl⟩
  | @element due name index place opening closing inner rest tokens enclosed closed inside _ written
      _ ih =>
      simp only [List.forall_mem_cons, List.forall_mem_append] at legible
      obtain ⟨named, _, _, _, others⟩ := legible
      rw [spaced, display, List.append_assoc, List.append_assoc, List.cons_append]
      exact .gaps gaps (.element [] named (List.forall_mem_nil _) enclosed closed inside written
        (ih others _ space) _ _)
  | @single due l token rest tokens made _ ih =>
      obtain ⟨here, others⟩ := List.forall_mem_cons.mp legible
      rw [spaced, display_of_ofLexeme made]
      exact .gaps gaps (.single made here (breaks_spaced tokens) (ih others _ space) _)

end Token

/-- Nothing of a source is lost. The lexemes of a source cover it; before the character that lexing
stops at stand the lexemes read so far; and the texts of its tokens, joined by spaces, are read as
the same tokens. -/
theorem reading_loses_nothing (source : Text) :
    ((lex source).stuck = none → Covers source (lex source).lexemes) ∧
    (∀ c, (lex source).stuck = some c → ∃ front back, source = front ++ c.node :: back ∧
      c.span.start = bytes front ∧ lex front = ⟨(lex source).lexemes, none⟩) ∧
    ∀ tokens, tokenize source = .ok tokens → ∃ again,
      tokenize ([' '].intercalate (tokens.map (·.node.display))) = .ok again ∧
        Token.bareAll again = Token.bareAll tokens := by
  refine ⟨fun whole => (Lexeme.lexed_lex whole).covers, fun c stuck => ?_, fun tokens read => ?_⟩
  · obtain ⟨front, back, same, place, lexed⟩ := Lexeme.exists_lexed_of_stuck stuck
    rw [Nat.zero_add] at place
    exact ⟨front, back, same, place, lexed.lex_eq⟩
  · obtain ⟨lexemes, lexed, grouped⟩ := exists_grouped_of_tokenize read
    have none : ∀ c ∈ ([] : Text), Lexeme.isGap c = true := List.forall_mem_nil _
    obtain ⟨found, again, relexed, regrouped, same⟩ := grouped.rereads lexed.legible [] none
    rw [← Token.spaced_eq_intercalate]
    exact ⟨again, tokenize_of_grouped relexed regrouped, same⟩

/-- In `a [-1]--2` the first sign after the index subtracts and the second one negates, and so they
do in `a[-1] - - 2`. In `x?"` lexing stops before a string that would not be closed. -/
theorem reading_loses_nothing_minus :
    (∃ again, tokenize "a[-1] - - 2".toList = .ok again ∧ Token.bareAll again =
      [.element ['a'] ⟨['-', '1'], ⟨0, 0⟩⟩, .op .sub, .op .neg, .number ['2']]) ∧
    (∃ front back, "x?\"".toList = front ++ '?' :: back ∧
      lex front = ⟨[⟨.ident ['x'], ⟨0, 1⟩⟩], none⟩) ∧
    Covers "\tx\"".toList [⟨.ident ['x'], ⟨1, 2⟩⟩, ⟨.openString [], ⟨2, 3⟩⟩] := by
  refine ⟨?_, ?_, ?_⟩
  · have read : tokenize "a [-1]--2".toList = .ok
        [⟨.element ['a'] ⟨['-', '1'], ⟨3, 5⟩⟩, ⟨0, 6⟩⟩, ⟨.op .sub, ⟨6, 7⟩⟩, ⟨.op .neg, ⟨7, 8⟩⟩,
          ⟨.number ['2'], ⟨8, 9⟩⟩] := by
      decide +kernel
    exact (reading_loses_nothing _).2.2 _ read
  · have lexed : lex "x?\"".toList = ⟨[⟨.ident ['x'], ⟨0, 1⟩⟩], some ⟨'?', ⟨1, 2⟩⟩⟩ := by
      decide +kernel
    obtain ⟨front, back, same, _, before⟩ :=
      (reading_loses_nothing "x?\"".toList).2.1 ⟨'?', ⟨1, 2⟩⟩ (by rw [lexed])
    rw [lexed] at before
    exact ⟨front, back, same, before⟩
  · have lexed : lex "\tx\"".toList =
        ⟨[⟨.ident ['x'], ⟨1, 2⟩⟩, ⟨.openString [], ⟨2, 3⟩⟩], none⟩ := by
      decide +kernel
    have covers := (reading_loses_nothing "\tx\"".toList).1 (by rw [lexed])
    rw [lexed] at covers
    exact covers

end Pseudocode
