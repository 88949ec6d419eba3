import Pseudocode.Proofs.Expression.Padding
import Pseudocode.Proofs.Text.Clause

set_option autoImplicit false

namespace Pseudocode

open Text (bytes trim trimmed isBlank splitOuter Outline)
open Lexeme (Lexed Breaks)

namespace Lexeme

theorem Lexed.cons_cases {pos : Nat} {c : Char} {t : Text} {lexemes : List (Spanned Lexeme)}
    (lexed : Lexed pos (c :: t) lexemes) :
    (isGap c = true ∧ Lexed (pos + c.utf8Size) t lexemes) ∨
      ∃ l rest later, isGap c = false ∧ read c t = some (l, rest) ∧
        lexemes = ⟨l, ⟨pos, pos + bytes l.written⟩⟩ :: later ∧
        Lexed (pos + bytes l.written) rest later := by
  generalize whole : c :: t = text at lexed
  cases lexed with
  | nil => cases whole
  | gap gap later =>
      cases whole
      exact .inl ⟨gap, later⟩
  | lexeme solid found _ later =>
      cases whole
      exact .inr ⟨_, _, _, solid, found, rfl, later⟩

/-- Where the second text breaks off the first, the first has its own lexemes in the whole. -/
theorem Lexed.of_append {pos : Nat} {u v : Text} {us all : List (Spanned Lexeme)}
    (whole : Lexed pos (u ++ v) all) (first : Lexed pos u us)
    (closed : ∀ l ∈ us, l.node.isClosed = true) (breaks : Breaks v) :
    ∃ vs, all = us ++ vs ∧ Lexed (pos + bytes u) v vs := by
  induction first generalizing all with
  | nil pos => exact ⟨all, rfl, whole⟩
  | @gap pos c t us gap _ ih =>
      rcases whole.cons_cases with ⟨_, later⟩ | ⟨_, _, _, solid, _⟩
      · obtain ⟨vs, parts, second⟩ := ih later closed
        rw [Nat.add_assoc] at second
        exact ⟨vs, parts, second⟩
      · rw [gap] at solid
        cases solid
  | @lexeme pos c w rest l us solid found begins _ ih =>
      obtain ⟨here, others⟩ := List.forall_mem_cons.mp closed
      rcases whole.cons_cases with ⟨gap, _⟩ | ⟨_, _, later, _, again, rfl, second⟩
      · rw [solid] at gap
        cases gap
      · cases (read_append found here breaks).symm.trans again
        obtain ⟨vs, rfl, onward⟩ := ih second others
        have size : bytes (c :: (w ++ rest)) = bytes l.written + bytes rest := by
          rw [begins, ← List.cons_append, Text.bytes_append]
        rw [size, ← Nat.add_assoc]
        exact ⟨vs, rfl, onward⟩

theorem Lexed.exists_slash {pos : Nat} {t : Text} {lexemes : List (Spanned Lexeme)}
    (lexed : Lexed pos ('/' :: t) lexemes) :
    ∃ place next later, lexemes = ⟨.slash, place⟩ :: later ∧ Lexed next t later := by
  rcases lexed.cons_cases with ⟨gap, _⟩ | ⟨l, rest, later, _, found, rfl, onward⟩
  · cases gap
  · cases (read_mark (l := .slash) rfl t).symm.trans found
    exact ⟨_, _, later, rfl, onward⟩

theorem Lexed.exists_slashes {pos : Nat} {blanks t : Text} {lexemes : List (Spanned Lexeme)}
    (lexed : Lexed pos (blanks ++ '/' :: '/' :: t) lexemes)
    (blank : ∀ c ∈ blanks, isBlank c = true) :
    ∃ x y later, lexemes = ⟨.slash, x⟩ :: ⟨.slash, y⟩ :: later := by
  induction blanks generalizing pos with
  | nil =>
      obtain ⟨x, _, _, rfl, onward⟩ := lexed.exists_slash
      obtain ⟨y, _, later, rfl, _⟩ := onward.exists_slash
      exact ⟨x, y, later, rfl⟩
  | cons c blanks ih =>
      obtain ⟨first, others⟩ := List.forall_mem_cons.mp blank
      rcases lexed.cons_cases with ⟨_, later⟩ | ⟨_, _, _, _, found, _⟩
      · exact ih later others
      · rw [isBlank_of_read found] at first
        cases first

theorem breaks_of_blanks {blanks t : Text} (blank : ∀ c ∈ blanks, isBlank c = true)
    (breaks : Breaks t) : Breaks (blanks ++ t) := by
  cases blanks with
  | nil => exact breaks
  | cons c blanks =>
      rintro _ ⟨rfl⟩
      have first := blank c List.mem_cons_self
      constructor
      · refine eq_false_of_ne_true fun inside => ?_
        rw [Text.isBlank_eq_false_of_isNameChar inside] at first
        cases first
      · rintro rfl
        cases first

end Lexeme

namespace Token

/-- Lexemes that make tokens on their own make as many, operands for operands, where other lexemes
follow that do not begin with a bracket. -/
theorem exists_group_append {source other : Text} {due : Bool}
    {us vs : List (Spanned Lexeme)} {front tokens : List (Spanned Token)}
    (grouped : Grouped source due us front) (apart : ∀ l ∈ vs.head?, l.node ≠ .lbracket)
    (made : group other due (us ++ vs) = .ok tokens) :
    ∃ again later after, tokens = again ++ later ∧ group other after vs = .ok later ∧
      again.map (·.node.isOperand) = front.map (·.node.isOperand) := by
  induction grouped generalizing tokens with
  | nil due => exact ⟨[], tokens, due, rfl, made, rfl⟩
  | @element due name index place opening closing inner rest front enclosed _ _ _ _ _ ih =>
      rw [List.cons_append, List.cons_append, List.append_assoc, group, List.cons_append,
        groupIndex_append enclosed, groupIndex] at made
      obtain ⟨token, closes, made⟩ := bind_eq_ok made
      obtain ⟨later, grouped, made⟩ := bind_eq_ok made
      cases made
      obtain ⟨_, rfl⟩ := close_eq_ok closes
      obtain ⟨again, later, after, rfl, onward, same⟩ := ih grouped
      exact ⟨_ :: again, later, after, rfl, onward, congrArg (true :: ·) same⟩
  | @single due l token rest front first later ih =>
      rw [List.cons_append, group, ofLexeme_elsewhere first other l.span] at made
      · obtain ⟨_, ⟨⟩, made⟩ := bind_eq_ok made
        obtain ⟨more, grouped, made⟩ := bind_eq_ok made
        cases made
        obtain ⟨again, later, after, rfl, onward, same⟩ := ih grouped
        exact ⟨_ :: again, later, after, rfl, onward, by simp [same]⟩
      · rintro name place opening others rfl begins
        cases rest with
        | nil =>
            rw [List.nil_append] at begins
            exact apart ⟨.lbracket, opening⟩ (by rw [begins]; rfl) rfl
        | cons x rest =>
            obtain ⟨rfl, _⟩ := List.cons.inj begins
            exact not_grouped_lbracket later

theorem group_slash {source : Text} {due : Bool} {place : Span} {rest : List (Spanned Lexeme)}
    {tokens : List (Spanned Token)}
    (made : group source due (⟨.slash, place⟩ :: rest) = .ok tokens) :
    ∃ later, tokens = ⟨.op .div, place⟩ :: later ∧ group source true rest = .ok later := by
  rw [group] at made
  · obtain ⟨_, ⟨⟩, made⟩ := bind_eq_ok made
    obtain ⟨later, grouped, made⟩ := bind_eq_ok made
    cases made
    exact ⟨later, rfl, grouped⟩
  · rintro _ _ _ _ ⟨⟩

end Token

theorem tokenize_slashes {u blanks t : Text} {front tokens : List (Spanned Token)}
    (alone : tokenize u = .ok front) (blank : ∀ c ∈ blanks, isBlank c = true)
    (read : tokenize (u ++ (blanks ++ '/' :: '/' :: t)) = .ok tokens) :
    ∃ again x y later, tokens = again ++ ⟨.op .div, x⟩ :: ⟨.op .div, y⟩ :: later ∧
      again.map (·.node.isOperand) = front.map (·.node.isOperand) := by
  obtain ⟨us, first, grouped⟩ := exists_grouped_of_tokenize alone
  obtain ⟨all, whole, regrouped⟩ := exists_grouped_of_tokenize read
  have slash : Breaks ('/' :: '/' :: t) := by
    rintro _ ⟨rfl⟩
    decide
  obtain ⟨vs, rfl, second⟩ :=
    whole.of_append first grouped.closed (Lexeme.breaks_of_blanks blank slash)
  obtain ⟨x, y, more, rfl⟩ := second.exists_slashes blank
  have apart : ∀ l ∈ (⟨.slash, x⟩ :: ⟨.slash, y⟩ :: more : List (Spanned Lexeme)).head?,
      l.node ≠ .lbracket := by
    rintro _ ⟨rfl⟩
    nofun
  obtain ⟨again, _, _, rfl, made, same⟩ := Token.exists_group_append grouped apart regrouped.group
  obtain ⟨_, rfl, onward⟩ := Token.group_slash made
  obtain ⟨later, rfl, _⟩ := Token.group_slash onward
  exact ⟨again, x, y, later, rfl, same⟩

namespace Term

/-- The second division releases the first one, which finds at most one operand. -/
theorem evaluate_fails_of_slashes {front rest queue : List (Spanned Term)} {x y : Span}
    (few : front = [] ∨ ∃ v place, front = [⟨.operand v, place⟩])
    (ordered : toPostfix (front ++ ⟨.op .div, x⟩ :: ⟨.op .div, y⟩ :: rest) = .ok queue) :
    ∃ e, evaluate queue = .error e := by
  rcases few with rfl | ⟨v, place, rfl⟩
  · obtain ⟨_, held, rfl⟩ := map_eq_ok ordered
    obtain ⟨_, _, rfl⟩ := map_eq_ok held
    exact ⟨_, rfl⟩
  · obtain ⟨_, pushed, rfl⟩ := map_eq_ok ordered
    obtain ⟨_, held, rfl⟩ := map_eq_ok pushed
    obtain ⟨_, _, rfl⟩ := map_eq_ok held
    exact ⟨_, rfl⟩

end Term

namespace Expression

theorem terms_slashes {s : Store} {front rest : List (Spanned Token)} {x y : Span}
    (few : front = [] ∨ ∃ t, front = [t] ∧ t.node.isOperand = true) {given : List (Spanned Term)}
    (made : terms s (front ++ ⟨.op .div, x⟩ :: ⟨.op .div, y⟩ :: rest) = .ok given) :
    ∃ before after, given = before ++ ⟨.op .div, x⟩ :: ⟨.op .div, y⟩ :: after ∧
      (before = [] ∨ ∃ v place, before = [⟨.operand v, place⟩]) := by
  have slashes {given : List (Spanned Term)}
      (made : terms s (⟨.op .div, x⟩ :: ⟨.op .div, y⟩ :: rest) = .ok given) :
      ∃ after, given = ⟨.op .div, x⟩ :: ⟨.op .div, y⟩ :: after := by
    obtain ⟨_, ⟨⟩, made⟩ := bind_eq_ok made
    obtain ⟨_, later, made⟩ := bind_eq_ok made
    cases made
    obtain ⟨_, ⟨⟩, later⟩ := bind_eq_ok later
    obtain ⟨after, _, later⟩ := bind_eq_ok later
    cases later
    exact ⟨after, rfl⟩
  rcases few with rfl | ⟨t, rfl, operand⟩
  · obtain ⟨after, rfl⟩ := slashes made
    exact ⟨[], after, rfl, .inl rfl⟩
  · obtain ⟨term, first, made⟩ := bind_eq_ok made
    obtain ⟨later, second, made⟩ := bind_eq_ok made
    cases made
    obtain ⟨v, _, _, rfl⟩ := operand_of_termWith operand first
    obtain ⟨after, rfl⟩ := slashes second
    exact ⟨[⟨.operand v, t.span⟩], after, rfl, .inr ⟨v, t.span, rfl⟩⟩

/-- Nothing or one operand before two slashes has no value. -/
theorem segmentValue_fails_of_slashes {u blanks : Text} {tokens : List (Spanned Token)}
    (alone : tokenize u = .ok tokens)
    (few : tokens = [] ∨ ∃ t, tokens = [t] ∧ t.node.isOperand = true)
    (blank : ∀ c ∈ blanks, isBlank c = true) (rest : Text) (s : Store) :
    ∃ e, segmentValue s (u ++ (blanks ++ '/' :: '/' :: rest)) = .error e := by
  rw [segmentValue_eq]
  cases read : tokenize (u ++ (blanks ++ '/' :: '/' :: rest)) with
  | error e => exact ⟨e, rfl⟩
  | ok all =>
      obtain ⟨again, x, y, later, rfl, same⟩ := tokenize_slashes alone blank read
      have few : again = [] ∨ ∃ t, again = [t] ∧ t.node.isOperand = true := by
        rcases few with rfl | ⟨t, rfl, operand⟩
        · exact .inl (List.map_eq_nil_iff.mp same)
        · obtain ⟨u, rfl, kind⟩ := List.map_eq_singleton_iff.mp same
          exact .inr ⟨u, rfl, kind.trans operand⟩
      have arithmetic (total : Nat) :
          tokensValue s total (again ++ ⟨.op .div, x⟩ :: ⟨.op .div, y⟩ :: later)
              (fun _ _ index _ => indexValue s index) =
            (terms s (again ++ ⟨.op .div, x⟩ :: ⟨.op .div, y⟩ :: later) >>= fun given =>
              Term.toPostfix given >>= Term.evaluate) := by
        rcases few with rfl | ⟨t, rfl, _⟩ <;> rfl
      show ∃ e, tokensValue s _ _ _ = .error e
      rw [arithmetic]
      cases made : terms s (again ++ ⟨.op .div, x⟩ :: ⟨.op .div, y⟩ :: later) with
      | error e => exact ⟨e, rfl⟩
      | ok given =>
          obtain ⟨before, after, rfl, few⟩ := terms_slashes few made
          cases ordered : Term.toPostfix (before ++ ⟨.op .div, x⟩ :: ⟨.op .div, y⟩ :: after) with
          | error e => exact ⟨e, congrArg (· >>= Term.evaluate) ordered⟩
          | ok queue =>
              obtain ⟨e, failed⟩ := Term.evaluate_fails_of_slashes few ordered
              exact ⟨e, (congrArg (· >>= Term.evaluate) ordered).trans failed⟩

end Expression

theorem Text.exists_trim_slashes (t rest : Text) :
    ∃ blanks back, trim (t ++ '/' :: '/' :: rest) = trim t ++ (blanks ++ '/' :: '/' :: back) ∧
      ∀ c ∈ blanks, isBlank c = true := by
  have solid : ∀ c ∈ ('/' :: '/' :: rest).head?, isBlank c = false := by
    rintro _ ⟨rfl⟩
    decide
  obtain ⟨blanks, front, blank⟩ := exists_trimEnd_append (trimStart t)
  obtain ⟨after, whole, gone⟩ := exists_trimEnd_append (trimStart (t ++ '/' :: '/' :: rest))
  have start : trimStart (t ++ '/' :: '/' :: rest) = trimStart t ++ '/' :: '/' :: rest :=
    (Lexeme.row_append solid t).2
  have same : trimEnd (trimStart (t ++ '/' :: '/' :: rest)) ++ after =
      (trim t ++ blanks ++ ['/']) ++ '/' :: rest := by
    rw [← whole, start, front]
    simp [trim]
  obtain ⟨back, parts, _⟩ := exists_append_of_append_blanks same gone (by decide)
  refine ⟨blanks, back, ?_, blank⟩
  rw [trim, parts]
  simp

namespace Expression

theorem evaluate_fails_of_segment {s : Store} {t : Text} {part : Nat × Text}
    (member : part ∈ splitOuter '+' t) (failed : ∃ e, segmentValue s (trim part.2) = .error e) :
    ∃ e, evaluate s t = .error e := by
  cases cut : segments t with
  | error e => exact ⟨e, by rw [evaluate, cut]; rfl⟩
  | ok found =>
      have among : trimmed part.1 part.2 ∈ found := by
        rw [((segments_eq_ok_iff t found).mp cut).2]
        exact List.mem_map_of_mem member
      have stuck : ∃ e, segmentAt s (trimmed part.1 part.2) = .error e := by
        obtain ⟨e, failed⟩ := failed
        exact ⟨_, congrArg (Except.mapError _) failed⟩
      cases found with
      | nil => cases among
      | cons first rest =>
          rw [evaluate_eq_of_segments cut]
          cases valued : segmentAt s first with
          | error e => exact ⟨e, rfl⟩
          | ok v =>
              rcases List.mem_cons.mp among with rfl | later
              · obtain ⟨e, stuck⟩ := stuck
                rw [stuck] at valued
                cases valued
              · exact foldlM_joinSegment_fails later stuck v

/-- Where nothing or one operand stands before a comment since the last `+` that the text is cut
at, the line has no value. -/
theorem evaluate_fails_of_comment {code part : Text} {start : Nat}
    (last : (splitOuter '+' code).getLast? = some (start, part)) {tokens : List (Spanned Token)}
    (read : tokenize (trim part) = .ok tokens)
    (few : tokens = [] ∨ ∃ t, tokens = [t] ∧ t.node.isOperand = true) (s : Store) (after : Text) :
    ∃ e, evaluate s (code ++ '/' :: '/' :: after) = .error e := by
  obtain ⟨front, final, first, others, before, slashes, whole⟩ :=
    (Outline.scan '+').exists_cut_append {} code ('/' :: '/' :: after)
  obtain rfl : final = part := by
    have texts : (splitOuter '+' code).map Prod.snd = front ++ [final] := by
      rw [splitOuter, Text.map_snd_withOffsets, Outline.parts_eq_cut, before]
    have ends := congrArg List.getLast? texts
    rw [List.getLast?_map, last, List.getLast?_concat] at ends
    exact (Option.some.inj ends).symm
  obtain ⟨back, rfl⟩ : ∃ back, first = '/' :: '/' :: back := by
    have passes : (Outline.scan '+').Passes ((Outline.scan '+').run {} code) ['/', '/'] :=
      Outline.passes_of_not_mem (by decide) _
    have cut := (Outline.scan '+').cut_append_of_passes passes after
    obtain ⟨back, rest, later⟩ := (Outline.scan '+').exists_cut_eq_cons
      ((Outline.scan '+').run ((Outline.scan '+').run {} code) ['/', '/']) after
    rw [later] at cut
    exact ⟨back, (List.cons.inj (slashes.symm.trans cut)).1⟩
  obtain ⟨joined, member, text⟩ : ∃ joined ∈ splitOuter '+' (code ++ '/' :: '/' :: after),
      joined.2 = final ++ '/' :: '/' :: back := by
    rw [← List.mem_map, splitOuter, Text.map_snd_withOffsets, Outline.parts_eq_cut, whole]
    simp
  refine evaluate_fails_of_segment member ?_
  obtain ⟨blanks, rest, trims, blank⟩ := Text.exists_trim_slashes final back
  rw [text, trims]
  exact segmentValue_fails_of_slashes read few blank rest s

theorem evaluate_fails_of_blank {code : Text} (none : trim code = []) (s : Store) :
    (∃ e, evaluate s code = .error e) ∧
      ∀ after, ∃ e, evaluate s (code ++ '/' :: '/' :: after) = .error e := by
  have uncut : splitOuter '+' code = [(0, code)] := by
    have absent : '+' ∉ code := fun member => by cases Text.isBlank_of_trim_eq_nil none _ member
    have passes := Outline.passes_of_not_mem absent {}
    rw [splitOuter, Outline.parts_eq_cut, passes]
    rfl
  have read : tokenize (trim code) = .ok [] := by
    rw [none]
    decide +kernel
  constructor
  · have member : (0, code) ∈ splitOuter '+' code := by simp [uncut]
    refine evaluate_fails_of_segment member ?_
    rw [segmentValue_eq, read]
    exact ⟨_, rfl⟩
  · exact evaluate_fails_of_comment (by rw [uncut]; rfl) read (.inl rfl) s

end Expression

end Pseudocode
