import Pseudocode.Proofs.Places
import Pseudocode.Proofs.Token.Grouped

set_option autoImplicit false

namespace Pseudocode

open Text (bytes slice StandsAt)
open Lexeme (Lexed lexFrom lex)
open Failure (Pinned pinned_at)

namespace Lexeme

/-- The character that lexing stops at stands in the text. -/
theorem standsAt_of_stuck {pos : Nat} {t : Text} {c : Spanned Char}
    (stuck : (lexFrom pos t).stuck = some c) :
    ∃ start, StandsAt t start [c.node] ∧ c.span = ⟨pos + start, pos + start + bytes [c.node]⟩ := by
  fun_induction lexFrom pos t with
  | case1 => cases stuck
  | case2 pos x t gap ih =>
      obtain ⟨start, stands, place⟩ := ih stuck
      have whole : StandsAt (x :: t) x.utf8Size t := StandsAt.after [x] t
      refine ⟨x.utf8Size + start, whole.trans stands, ?_⟩
      rw [place, ← Nat.add_assoc]
  | case3 pos x t =>
      cases stuck
      exact ⟨0, ⟨[], t, rfl, rfl⟩, rfl⟩
  | case4 pos x t solid l rest found stop after ih =>
      obtain ⟨start, stands, place⟩ := ih stuck
      obtain ⟨w, begins, rfl⟩ := read_written found
      have whole : StandsAt (x :: (w ++ rest)) (bytes l.written) rest := by
        rw [begins]
        exact StandsAt.after (x :: w) rest
      refine ⟨bytes l.written + start, whole.trans stands, ?_⟩
      rw [place, ← Nat.add_assoc]

theorem Lexed.proper {pos : Nat} {t : Text} {lexemes : List (Spanned Lexeme)}
    (lexed : Lexed pos t lexemes) : ∀ l ∈ lexemes, l.node.Proper ∧ l.node.written ≠ [] := by
  induction lexed with
  | nil pos => exact List.forall_mem_nil _
  | gap _ _ ih => exact ih
  | lexeme _ found begins _ ih =>
      refine List.forall_mem_cons.mpr ⟨⟨read_proper found, ?_⟩, ih⟩
      rw [begins]
      exact List.cons_ne_nil _ _

end Lexeme

namespace Token

/-- A lexeme stands in the source as it is written. -/
theorem LexedIn.standsAt {source : Text} (front : List (Spanned Lexeme))
    {back : List (Spanned Lexeme)} {x : Spanned Lexeme}
    (lexed : LexedIn source (front ++ x :: back)) :
    StandsAt source x.span.start x.node.written ∧
      x.span.stop = x.span.start + bytes x.node.written := by
  obtain ⟨before, part, rfl, lexed⟩ := lexed
  obtain ⟨u, v, rfl, place, _⟩ := lexed.cutAt
  rw [place]
  refine ⟨⟨before ++ u, v, by simp, ?_⟩, rfl⟩
  rw [Text.bytes_append]

theorem LexedIn.within {source : Text} {lexemes : List (Spanned Lexeme)}
    (lexed : LexedIn source lexemes) : ∀ l ∈ lexemes, l.span.Within source := by
  intro l member
  obtain ⟨front, back, rfl⟩ := List.append_of_mem member
  obtain ⟨stands, size⟩ := lexed.standsAt
  have within := stands.within
  rw [← size] at within
  exact within

theorem LexedIn.isWord {source : Text} {lexemes : List (Spanned Lexeme)}
    (lexed : LexedIn source lexemes) {l : Spanned Lexeme} (member : l ∈ lexemes) {name : Text}
    (named : l.node.name? = some name) : name.IsWord ∧ l.node.written = name := by
  obtain ⟨_, _, _, lexed⟩ := lexed
  obtain ⟨proper, nonempty⟩ := lexed.proper l member
  obtain ⟨node, place⟩ := l
  cases node with
  | ident other =>
      cases named
      exact ⟨⟨nonempty, proper⟩, rfl⟩
  | _ => cases named

/-- A token at its place in the text. -/
structure PlacedIn (t : Text) (token : Spanned Token) : Prop where
  within : token.span.Within t
  opens : ∀ name, token.node.name? = some name → token.span.Opens t name
  index : ∀ index, token.node.index? = some index → index.StandsIn t

theorem placedIn_of_ofLexeme {source : Text} {due : Bool} {l : Spanned Lexeme} {token : Token}
    {rest : List (Spanned Lexeme)} (lexed : LexedIn source (l :: rest))
    (made : ofLexeme source due l = .ok token) : PlacedIn source ⟨token, l.span⟩ := by
  refine ⟨lexed.within l List.mem_cons_self, fun name has => ?_, fun index has => ?_⟩
  · rw [name?_of_ofLexeme made] at has
    obtain ⟨word, written⟩ := lexed.isWord List.mem_cons_self has
    obtain ⟨stands, size⟩ := LexedIn.standsAt [] lexed
    rw [written] at stands size
    exact ⟨word, stands, Nat.le_of_eq size.symm⟩
  · rw [index?_ofLexeme made] at has
    cases has

theorem placedIn_element {source name : Text} {place opening closing : Span}
    {inner rest : List (Spanned Lexeme)}
    (lexed : LexedIn source (⟨.ident name, place⟩ :: ⟨.lbracket, opening⟩ ::
      (inner ++ ⟨.rbracket, closing⟩ :: rest))) :
    PlacedIn source ⟨.element name ⟨slice source ⟨opening.stop, closing.start⟩,
      ⟨opening.stop, closing.start⟩⟩, place.merge closing⟩ := by
  obtain ⟨stands, size⟩ := LexedIn.standsAt [] lexed
  obtain ⟨word, _⟩ := lexed.isWord List.mem_cons_self rfl
  have adjacent : LexedIn source ([] ++ ⟨.ident name, place⟩ :: ([] ++ ⟨.lbracket, opening⟩ ::
      (inner ++ ⟨.rbracket, closing⟩ :: rest))) := lexed
  obtain ⟨_, gap, _, _, stop, start, _⟩ := LexedIn.cutBetween [] adjacent
  obtain ⟨before, index, after, same, stop', start', _⟩ :=
    LexedIn.cutBetween [⟨.ident name, place⟩] lexed
  have text := Text.slice_append before index after
  rw [List.append_assoc, ← same, ← start', ← stop'] at text
  have inside := lexed.within
  have opened := (inside ⟨.lbracket, opening⟩ (by simp)).ordered
  have closed := inside ⟨.rbracket, closing⟩ (by simp)
  have ordered := closed.ordered
  dsimp only at size stop start stop' start' opened ordered
  refine ⟨(inside _ List.mem_cons_self).merge closed, fun other has => ?_, fun other has => ?_⟩
  · cases has
    -- The name comes before the bracket that closes the index, so the token begins with it.
    have first : (place.merge closing).start = place.start := by
      show min place.start closing.start = place.start
      omega
    have last : place.stop ≤ (place.merge closing).stop := Nat.le_max_left _ _
    refine ⟨word, ?_, ?_⟩
    · rw [first]
      exact stands
    · rw [first]
      exact Nat.le_trans (Nat.le_of_eq size.symm) last
  · cases has
    refine ⟨?_, ?_⟩
    · show StandsAt source opening.stop (slice source ⟨opening.stop, closing.start⟩)
      rw [text]
      exact ⟨before, after, same, stop'⟩
    · show closing.start = opening.stop + bytes (slice source ⟨opening.stop, closing.start⟩)
      rw [text, start', stop']

theorem Grouped.placedIn {source : Text} {due : Bool} {lexemes : List (Spanned Lexeme)}
    {tokens : List (Spanned Token)} (grouped : Grouped source due lexemes tokens)
    (lexed : LexedIn source lexemes) : ∀ t ∈ tokens, PlacedIn source t := by
  induction grouped with
  | nil due => exact List.forall_mem_nil _
  | @element due name index place opening closing inner rest tokens _ _ _ text _ _ ih =>
      subst text
      refine List.forall_mem_cons.mpr ⟨placedIn_element lexed, ih ?_⟩
      exact LexedIn.after (⟨.ident name, place⟩ :: ⟨.lbracket, opening⟩ :: inner) lexed
  | single made _ ih =>
      exact List.forall_mem_cons.mpr ⟨placedIn_of_ofLexeme lexed made, ih (LexedIn.after [] lexed)⟩

theorem ofLexeme_pinned {source : Text} (due : Bool) {l : Spanned Lexeme}
    (within : l.span.Within source) :
    FailsAs (Pinned source) (ofLexeme source due l) := by
  unfold ofLexeme
  split
  case h_8 =>
    refine pinned_at ⟨?_, within.first, source, [], by simp, rfl⟩ rfl
    obtain ⟨front, back, rfl, start⟩ := within.first
    show l.span.start ≤ bytes (front ++ back)
    rw [start, Text.bytes_append]
    omega
  case h_16 => exact pinned_at within rfl
  case h_17 => exact pinned_at within rfl
  all_goals trivial

theorem close_pinned {source : Text} {i : OpenIndex} {closing : Span}
    (opened : i.opening.Within source) (closed : closing.Within source) :
    FailsAs (Pinned source) (i.close source closing) := by
  unfold OpenIndex.close
  dsimp only
  split
  · exact pinned_at (opened.merge closed) rfl
  · trivial

theorem group_pinned (source : Text) :
    (∀ (due : Bool) (lexemes : List (Spanned Lexeme)), (∀ l ∈ lexemes, l.span.Within source) →
      FailsAs (Pinned source) (group source due lexemes)) ∧
    (∀ (i : OpenIndex) (depth : Nat) (lexemes : List (Spanned Lexeme)),
      i.opening.Within source → (∀ l ∈ lexemes, l.span.Within source) →
        FailsAs (Pinned source) (groupIndex source i depth lexemes)) := by
  apply group.mutual_induct
    (fun due lexemes => (∀ l ∈ lexemes, l.span.Within source) →
      FailsAs (Pinned source) (group source due lexemes))
    (fun i depth lexemes => i.opening.Within source → (∀ l ∈ lexemes, l.span.Within source) →
      FailsAs (Pinned source) (groupIndex source i depth lexemes))
  · intro due _
    trivial
  · intro due name place opening rest ih all
    rw [group]
    simp only [List.forall_mem_cons] at all
    exact ih all.2.1 all.2.2
  · intro due l rest other ih all
    obtain ⟨first, later⟩ := List.forall_mem_cons.mp all
    rw [group]
    · apply (ofLexeme_pinned due first).bind
      intro token _
      exact (ih token later).bind fun _ _ => trivial
    · exact other
  · intro i depth opened _
    exact pinned_at opened rfl
  · intro i depth place rest ih opened all
    rw [groupIndex]
    exact ih opened (List.forall_mem_cons.mp all).2
  · intro i closing rest ih opened all
    obtain ⟨first, later⟩ := List.forall_mem_cons.mp all
    rw [groupIndex]
    apply (close_pinned opened first).bind
    intro token _
    exact (ih later).bind fun _ _ => trivial
  · intro i closing rest depth ih opened all
    rw [groupIndex]
    exact ih opened (List.forall_mem_cons.mp all).2
  · intro i depth l rest notOpen notClose ih opened all
    rw [groupIndex]
    · exact ih opened (List.forall_mem_cons.mp all).2
    · exact notOpen
    · exact notClose

end Token

/-- The tokens of a text stand in it, and so does what is wrong with it. -/
theorem tokenize_places (t : Text) :
    Ensures (fun tokens => ∀ u ∈ tokens, Token.PlacedIn t u) (Pinned t) (tokenize t) := by
  cases stuck : (lex t).stuck with
  | some c =>
      obtain ⟨start, stands, place⟩ := Lexeme.standsAt_of_stuck stuck
      have within := stands.within
      rw [tokenize, stuck]
      apply pinned_at
      · rw [place, Nat.zero_add]
        exact within
      · rfl
  | none =>
      have lexed : Token.LexedIn t (lex t).lexemes := ⟨[], t, rfl, Lexeme.lexed_lex stuck⟩
      cases read : tokenize t with
      | ok tokens =>
          rw [tokenize, stuck] at read
          exact (Token.grouped_of_group lexed read).placedIn lexed
      | error e =>
          rw [tokenize, stuck] at read
          exact ((Token.group_pinned t).1 true _ lexed.within).of_error read

end Pseudocode
