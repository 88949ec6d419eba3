import Pseudocode.Proofs.Expression.Sums
import Pseudocode.Proofs.Token.Respaced

set_option autoImplicit false

namespace Pseudocode

/-- Lists that differ in their places only. -/
abbrev Alike {α : Type} (xs ys : List (Spanned α)) : Prop :=
  List.Forall₂ (fun x y => x.node = y.node) xs ys

namespace Term

variable {held held' given given' queue : List (Spanned Term)}

theorem takeWhile_alike {p : Spanned Term → Bool} (blind : ∀ x y, x.node = y.node → p x = p y)
    (alike : Alike held held') :
    Alike (held.takeWhile p) (held'.takeWhile p) ∧
      Alike (held.dropWhile p) (held'.dropWhile p) := by
  induction alike with
  | nil => exact ⟨.nil, .nil⟩
  | @cons x y xs ys same others ih =>
      have both := blind x y same
      by_cases goes : p x = true
      · have goes' : p y = true := both ▸ goes
        rw [List.takeWhile_cons_of_pos goes, List.dropWhile_cons_of_pos goes,
          List.takeWhile_cons_of_pos goes', List.dropWhile_cons_of_pos goes']
        exact ⟨.cons same ih.1, ih.2⟩
      · have goes' : ¬ p y = true := both ▸ goes
        rw [List.takeWhile_cons_of_neg goes, List.dropWhile_cons_of_neg goes,
          List.takeWhile_cons_of_neg goes', List.dropWhile_cons_of_neg goes']
        exact ⟨.nil, .cons same others⟩

theorem isOpening_alike {x y : Spanned Term} (same : x.node = y.node) :
    isOpening x = isOpening y := by
  rw [isOpening, isOpening, same]

theorem release_alike (alike : Alike held held') (made : release held = .ok queue) :
    ∃ again, release held' = .ok again ∧ Alike queue again := by
  induction alike generalizing queue with
  | nil =>
      cases made
      exact ⟨[], rfl, .nil⟩
  | @cons x y xs ys same _ ih =>
      rw [release] at made ⊢
      rw [← isOpening_alike same]
      split at made
      · cases made
      · rename_i other
        obtain ⟨later, released, rfl⟩ := map_eq_ok made
        obtain ⟨again, found, alike⟩ := ih released
        exact ⟨y :: again, by rw [if_neg other, found]; rfl, .cons same alike⟩

/-- Reordering treats terms alike wherever they stand. -/
theorem reorder_alike (terms : Alike given given') (kept : Alike held held')
    (made : reorder held given = .ok queue) :
    ∃ again, reorder held' given' = .ok again ∧ Alike queue again := by
  have prepended {front front' : List (Spanned Term)} (fronts : Alike front front')
      {r r' : Result (List (Spanned Term))}
      (inner : ∀ {later}, r = .ok later → ∃ again, r' = .ok again ∧ Alike later again)
      {queue : List (Spanned Term)} (made : r.map (front ++ ·) = .ok queue) :
      ∃ again, r'.map (front' ++ ·) = .ok again ∧ Alike queue again := by
    obtain ⟨later, released, rfl⟩ := map_eq_ok made
    obtain ⟨again, rfl, alike⟩ := inner released
    exact ⟨front' ++ again, rfl, List.rel_append fronts alike⟩
  induction terms generalizing held held' queue with
  | nil => exact release_alike kept made
  | @cons x y xs ys same _ ih =>
      have pushed {held held' : List (Spanned Term)} (kept : Alike held held') :
          Alike (x :: held) (y :: held') := .cons same kept
      rw [reorder] at made ⊢
      rw [← same]
      split at made
      · exact prepended (.cons same .nil) (ih kept) made
      · rename_i o _
        have blind : ∀ a b : Spanned Term, a.node = b.node → goesBefore o a = goesBefore o b :=
          fun a b equal => by rw [goesBefore, goesBefore, equal]
        obtain ⟨taken, left⟩ := takeWhile_alike blind kept
        split at made
        · rename_i unary
          rw [if_pos unary]
          exact ih (pushed kept) made
        · rename_i binary
          rw [if_neg binary]
          exact prepended taken (ih (pushed left)) made
      · exact ih (pushed kept) made
      · have blind : ∀ a b : Spanned Term, a.node = b.node → (!isOpening a) = !isOpening b :=
          fun a b equal => by rw [isOpening_alike equal]
        obtain ⟨taken, left⟩ := takeWhile_alike blind kept
        split at made
        · cases made
        · rename_i opening outer found
          rw [found] at left
          cases rest : held'.dropWhile (!isOpening ·) with
          | nil =>
              rw [rest] at left
              cases left
          | cons opening' outer' =>
              rw [rest] at left
              cases left with
              | cons _ inner => exact prepended taken (ih inner) made

theorem place_alike {whole whole' : Span} {r : Result Value} {x : Spanned Value}
    (made : place whole r = .ok x) : place whole' r = .ok ⟨x.node, whole'⟩ := by
  cases r with
  | error e => cases made
  | ok v =>
      cases made
      rfl

theorem step_alike {stack stack' next : Stack} {t t' : Spanned Term} (alike : Alike stack stack')
    (same : t.node = t'.node) (made : step stack t = .ok next) :
    ∃ again, step stack' t' = .ok again ∧ Alike next again := by
  unfold step at made ⊢
  rw [← same]
  split at made
  · cases made
    exact ⟨_, rfl, .cons rfl alike⟩
  · split at made
    · rename_i unary
      rw [if_pos unary]
      cases alike with
      | nil => cases made
      | cons node others =>
          obtain ⟨x, placed, rfl⟩ := map_eq_ok made
          dsimp only
          rw [← node, place_alike placed]
          exact ⟨_, rfl, .cons rfl others⟩
    · rename_i binary
      rw [if_neg binary]
      rcases alike with _ | ⟨node, _ | ⟨second, others⟩⟩
      · cases made
      · cases made
      · obtain ⟨x, placed, rfl⟩ := map_eq_ok made
        dsimp only
        rw [← node, ← second, place_alike placed]
        exact ⟨_, rfl, .cons rfl others⟩
  · cases made
  · cases made

theorem foldlM_step_alike {stack stack' final : Stack} (terms : Alike given given')
    (alike : Alike stack stack') (made : given.foldlM step stack = .ok final) :
    ∃ again, given'.foldlM step stack' = .ok again ∧ Alike final again := by
  induction terms generalizing stack stack' with
  | nil =>
      cases made
      exact ⟨stack', rfl, alike⟩
  | cons same _ ih =>
      rw [List.foldlM_cons] at made
      obtain ⟨next, stepped, made⟩ := bind_eq_ok made
      obtain ⟨after, stepped', alike⟩ := step_alike alike same stepped
      rw [List.foldlM_cons, stepped']
      exact ih alike made

theorem evaluate_alike {v : Value} (terms : Alike given given') (made : evaluate given = .ok v) :
    evaluate given' = .ok v := by
  obtain ⟨final, run, made⟩ := bind_eq_ok made
  obtain ⟨again, run', alike⟩ := foldlM_step_alike terms .nil run
  rw [evaluate, run']
  rcases alike with _ | ⟨node, _ | ⟨_, _⟩⟩
  · cases made
  · cases made
    exact congrArg Except.ok node.symm
  · cases made

end Term

open Lexeme (Lexed)
open Text (bytes slice StandsAt)

namespace Token

/-- Grouping the same lexemes of another text, which begins `offset` bytes earlier. -/
theorem Grouped.shift {source whole : Text} {due : Bool} {lexemes : List (Spanned Lexeme)}
    {tokens : List (Spanned Token)} {offset : Nat} (grouped : Grouped source due lexemes tokens)
    (lexed : LexedIn whole (lexemes.map (·.shift offset)))
    (agree : Agree whole source offset (lexemes.map (·.shift offset))) :
    ∃ again, Grouped whole due (lexemes.map (·.shift offset)) again ∧
      bareAll again = bareAll tokens := by
  induction grouped with
  | nil due => exact ⟨[], .nil due, rfl⟩
  | @element due name index place opening closing inner rest tokens enclosed _ _ text written _
      ih =>
      simp only [List.map_cons, List.map_append] at lexed agree ⊢
      have onward := LexedIn.after (_ :: _ :: inner.map (·.shift offset)) lexed
      have later := (List.pairwise_append.mp agree.tail.tail).2.1.tail
      obtain ⟨again, regrouped, same⟩ := ih onward later
      obtain ⟨inside, closed⟩ := LexedIn.between [_] lexed
      have between := (List.pairwise_cons.mp agree.tail).1
        (Spanned.shift ⟨.rbracket, closing⟩ offset) (List.mem_append_right _ List.mem_cons_self)
      simp only [Spanned.shift, Span.shift, Nat.add_sub_cancel, text] at between
      have nodes : (inner.map (·.shift offset)).map Spanned.node = inner.map Spanned.node := by
        rw [List.map_map]
        rfl
      have enclosed' : encloses 0 (inner.map (·.shift offset)) = true := by
        rw [encloses_congr nodes, enclosed]
      exact ⟨_, .element enclosed' closed (between ▸ inside) between.symm written regrouped,
        congrArg (Token.element name ⟨index, ⟨0, 0⟩⟩ :: ·) same⟩
  | @single due l token rest tokens made _ ih =>
      rw [List.map_cons] at lexed agree ⊢
      obtain ⟨again, regrouped, same⟩ := ih (LexedIn.after [] lexed) agree.tail
      exact ⟨_, .single (ofLexeme_elsewhere made whole _) regrouped,
        congrArg (token.bare :: ·) same⟩

end Token

/-- Gaps around a text move its tokens. -/
theorem tokenize_pad {front t back : Text} (before : ∀ c ∈ front, Lexeme.isGap c = true)
    (after : ∀ c ∈ back, Lexeme.isGap c = true) {tokens : List (Spanned Token)}
    (read : tokenize t = .ok tokens) :
    ∃ again, tokenize (front ++ (t ++ back)) = .ok again ∧
      Token.bareAll again = Token.bareAll tokens := by
  obtain ⟨lexemes, lexed, grouped⟩ := exists_grouped_of_tokenize read
  have shifted := lexed.shift (bytes front)
  have closed : ∀ l ∈ lexemes.map (·.shift (bytes front)), l.node.isClosed = true := by
    intro l member
    obtain ⟨x, among, rfl⟩ := List.mem_map.mp member
    exact grouped.closed x among
  have padded := shifted.append closed (Lexeme.breaks_of_gaps after) (.of_gaps after _)
  rw [List.append_nil] at padded
  have whole : Lexed 0 (front ++ (t ++ back)) _ := padded.gaps before
  have stands : StandsAt (front ++ (t ++ back)) (bytes front) t := ⟨front, back, rfl, rfl⟩
  rw [Nat.zero_add] at shifted
  have agree := Expression.agree_of_standsAt stands shifted
  obtain ⟨again, regrouped, same⟩ := grouped.shift ⟨[], _, rfl, whole⟩ agree
  exact ⟨again, tokenize_of_grouped whole regrouped, same⟩

namespace Expression

open Token (bareAll)

variable {s : Store} {tokens tokens' : List (Spanned Token)}

/-- The value of an operand does not depend on its place, nor on that of its index. -/
theorem unplaced_operandValue_bare (s : Store) (t : Spanned Token) :
    unplaced (operandValue s t) = unplaced (operandValue s ⟨t.node.bare, ⟨0, 0⟩⟩) := by
  obtain ⟨node, place⟩ := t
  cases node with
  | number text => exact unplaced_withSpan _ place _
  | ident name =>
      exact unplaced_bind (unplaced_withSpan _ place _) fun v => unplaced_requireSet _ place _ v
  | element name index =>
      exact unplaced_bind (unplaced_toIndex _ _ (segmentValue s index.node)) fun i =>
        unplaced_bind (unplaced_withSpan _ place _) fun v => unplaced_requireSet _ place _ v
  | _ => rfl

theorem operandValue_alike {t t' : Spanned Token} (same : t.node.bare = t'.node.bare) {v : Value}
    (made : operandValue s t = .ok v) : operandValue s t' = .ok v := by
  refine eq_ok_of_unplaced ?_ made
  rw [unplaced_operandValue_bare, same, ← unplaced_operandValue_bare]

theorem isOperand_bare (t : Token) : t.bare.isOperand = t.isOperand := by
  cases t <;> rfl

theorem eq_of_bare {t t' : Token} (same : t.bare = t'.bare) (other : t.isOperand = false) :
    t' = t := by
  cases t with
  | op | lparen | rparen => cases t' <;> first | exact same.symm | cases same
  | _ => cases other

theorem operand_of_termWith {t : Spanned Token} (operand : t.node.isOperand = true) {term : Term}
    (made : termWith s t (fun index _ => indexValue s index) = .ok term) :
    ∃ v, operandValue s t = .ok v ∧ v.isNumeric = true ∧ term = .operand v := by
  obtain ⟨node, place⟩ := t
  cases node with
  | op o => cases operand
  | lparen => cases operand
  | rparen => cases operand
  | _ =>
      obtain ⟨v, valued, made⟩ := bind_eq_ok made
      split at made
      · rename_i numeric
        cases made
        exact ⟨v, valued, numeric, rfl⟩
      · cases made

theorem termWith_alike {t t' : Spanned Token} (same : t.node.bare = t'.node.bare) {term : Term}
    (made : termWith s t (fun index _ => indexValue s index) = .ok term) :
    termWith s t' (fun index _ => indexValue s index) = .ok term := by
  cases operand : t.node.isOperand with
  | true =>
      have operand' : t'.node.isOperand = true := by
        rw [← isOperand_bare, ← same, isOperand_bare, operand]
      obtain ⟨v, valued, numeric, rfl⟩ := operand_of_termWith operand made
      exact termWith_eq_operand operand' (operandValue_alike same valued) numeric
  | false =>
      obtain ⟨node, place⟩ := t
      obtain ⟨node', place'⟩ := t'
      obtain rfl : node' = node := eq_of_bare same operand
      cases node' with
      | op | lparen | rparen => exact made
      | _ => cases operand

theorem terms_alike (same : bareAll tokens = bareAll tokens') {given : List (Spanned Term)}
    (made : terms s tokens = .ok given) :
    ∃ again, terms s tokens' = .ok again ∧ Alike given again := by
  induction tokens generalizing tokens' given with
  | nil =>
      cases made
      rw [List.map_eq_nil_iff.mp same.symm]
      exact ⟨[], rfl, .nil⟩
  | cons t rest ih =>
      cases tokens' with
      | nil => cases same
      | cons t' rest' =>
          obtain ⟨node, nodes⟩ := List.cons.inj same
          obtain ⟨term, first, made⟩ := bind_eq_ok made
          obtain ⟨others, later, made⟩ := bind_eq_ok made
          cases made
          obtain ⟨again, found, alike⟩ := ih nodes later
          refine ⟨⟨term, t'.span⟩ :: again, ?_, .cons rfl alike⟩
          change (termWith s t' (fun index _ => indexValue s index) >>= fun term =>
            terms s rest' >>= fun others => pure (⟨term, t'.span⟩ :: others)) = _
          rw [termWith_alike node first, found]
          rfl

theorem arithmetic_alike (same : bareAll tokens = bareAll tokens') {v : Value}
    (made : arithmetic s tokens = .ok v) : arithmetic s tokens' = .ok v := by
  obtain ⟨given, resolved, made⟩ := bind_eq_ok made
  obtain ⟨queue, ordered, made⟩ := bind_eq_ok made
  obtain ⟨given', resolved', alike⟩ := terms_alike same resolved
  obtain ⟨queue', ordered', queued⟩ := Term.reorder_alike alike .nil ordered
  rw [arithmetic, resolved']
  change (Term.reorder [] given' >>= Term.evaluate) = _
  rw [ordered']
  exact Term.evaluate_alike queued made

/-- The tokens of a segment have the same value at any places. -/
theorem tokensValue_alike (same : bareAll tokens = bareAll tokens') {total total' : Nat} {v : Value}
    (made : tokensValue s total tokens (fun _ _ index _ => indexValue s index) = .ok v) :
    tokensValue s total' tokens' (fun _ _ index _ => indexValue s index) = .ok v := by
  cases tokens with
  | nil => cases made
  | cons t rest =>
      cases tokens' with
      | nil => cases same
      | cons t' rest' =>
          obtain ⟨node, nodes⟩ := List.cons.inj same
          cases rest with
          | nil =>
              obtain rfl : rest' = [] := List.map_eq_nil_iff.mp nodes.symm
              have kind : t'.node.isOperand = t.node.isOperand := by
                rw [← isOperand_bare, ← isOperand_bare t.node]
                exact congrArg Token.isOperand node.symm
              rw [tokensValue] at made ⊢
              rw [kind]
              split at made
              · rename_i operand
                rw [if_pos operand]
                exact operandValue_alike node made
              · rename_i other
                rw [if_neg other]
                exact arithmetic_alike same made
          | cons u rest =>
              cases rest' with
              | nil => cases nodes
              | cons u' rest' => exact arithmetic_alike same made

/-- Gaps around a segment do not change its value. -/
theorem segmentValue_pad {front t back : Text} (before : ∀ c ∈ front, Lexeme.isGap c = true)
    (after : ∀ c ∈ back, Lexeme.isGap c = true) {v : Value} (made : segmentValue s t = .ok v) :
    segmentValue s (front ++ (t ++ back)) = .ok v := by
  rw [segmentValue_eq] at made ⊢
  obtain ⟨tokens, read, made⟩ := bind_eq_ok made
  obtain ⟨again, reread, same⟩ := tokenize_pad before after read
  rw [reread]
  exact tokensValue_alike same.symm made

end Expression

end Pseudocode
