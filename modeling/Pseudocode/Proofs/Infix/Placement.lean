import Mathlib.Data.List.TakeWhile
import Pseudocode.Proofs.Infix.Grammar

set_option autoImplicit false

namespace Pseudocode

namespace Infix

open Term (goesBefore isOpening release reorder toPostfix)

variable {β : Type}

/-- Whether every symbol stands where it may; `due` says that an operand is due. -/
def alternates : Bool → List (Spanned (Symbol β)) → Bool
  | due, [] => !due
  | due, s :: rest =>
      match s.node with
      | .operand _ => due && alternates false rest
      | .op o => (o.isUnary == due) && alternates true rest
      | .lparen => due && alternates true rest
      | .rparen => !due && alternates false rest

/-- Whether the parentheses are balanced after `depth` open ones. -/
def balanced : Nat → List (Spanned (Symbol β)) → Bool
  | depth, [] => depth == 0
  | depth, s :: rest =>
      match s.node with
      | .lparen => balanced (depth + 1) rest
      | .rparen =>
          match depth with
          | 0 => false
          | depth + 1 => balanced depth rest
      | _ => balanced depth rest

theorem Derives.alternates {level : Level} {symbols : List (Spanned (Symbol β))} {t : Tree β}
    (derived : Derives level symbols t) (rest : List (Spanned (Symbol β))) :
    alternates true (symbols ++ rest) = alternates false rest := by
  induction derived generalizing rest with
  | product _ ih => exact ih rest
  | add member _ _ first second =>
      rw [List.append_assoc, first, List.cons_append]
      simp only [Infix.alternates, isUnary_of_mem_additive member, second, beq_self_eq_true,
        Bool.true_and]
  | signed _ ih => exact ih rest
  | multiply member _ _ first second =>
      rw [List.append_assoc, first, List.cons_append]
      simp only [Infix.alternates, isUnary_of_mem_multiplicative member, second, beq_self_eq_true,
        Bool.true_and]
  | primary _ ih => exact ih rest
  | negate _ ih => exact ih rest
  | operand b place => rfl
  | parens _ ih =>
      rw [List.cons_append, List.append_assoc]
      simp only [Infix.alternates, ih, List.singleton_append, Bool.not_false, Bool.true_and]

theorem Derivable.extend {left right : List (Spanned (Symbol β))} {o : Operator} {sign : Span}
    (two : o.isUnary = false) (first : Derivable .sum left) (second : Derivable .signed right) :
    Derivable .sum (left ++ ⟨.op o, sign⟩ :: right) := by
  obtain ⟨l, first⟩ := first
  obtain ⟨r, second⟩ := second
  rcases mem_additive_or_multiplicative two with member | member
  · exact ⟨_, .add member first (.signed second)⟩
  · cases first with
    | product whole => exact ⟨_, .product (.multiply member whole second)⟩
    | add outer front last =>
        rw [List.append_assoc, List.cons_append]
        exact ⟨_, .add outer front (.multiply member last second)⟩

theorem Derivable.sum_of_signed {symbols : List (Spanned (Symbol β))}
    (given : Derivable .signed symbols) : Derivable .sum symbols := by
  obtain ⟨t, derived⟩ := given
  exact ⟨t, .product (.signed derived)⟩

theorem Derivable.signed_of_parens {symbols : List (Spanned (Symbol β))} {opening closing : Span}
    (inner : Derivable .sum symbols) :
    Derivable .signed (⟨.lparen, opening⟩ :: (symbols ++ [⟨.rparen, closing⟩])) := by
  obtain ⟨t, derived⟩ := inner
  exact ⟨t, .primary (.parens derived)⟩

/-- The symbols read so far end with a whole sum inside `depth` open parentheses. -/
def Complete : Nat → List (Spanned (Symbol β)) → Prop
  | 0, front => Derivable .sum front
  | depth + 1, front => ∃ outer opening inner,
      front = outer ++ ⟨.lparen, opening⟩ :: inner ∧ Derivable .sum inner ∧
        ∀ operand, Derivable .signed operand → Complete depth (outer ++ operand)

/-- The symbols read so far lack one operand inside `depth` open parentheses. -/
def Awaits (depth : Nat) (front : List (Spanned (Symbol β))) : Prop :=
  ∀ operand, Derivable .signed operand → Complete depth (front ++ operand)

/-- What has been read where an operand is due, or where one is done. -/
def Reached (due : Bool) (depth : Nat) (front : List (Spanned (Symbol β))) : Prop :=
  match due with
  | true => Awaits depth front
  | false => Complete depth front

theorem Awaits.operand {depth : Nat} {front : List (Spanned (Symbol β))}
    (awaits : Awaits depth front) (b : β) (place : Span) :
    Complete depth (front ++ [⟨.operand b, place⟩]) :=
  awaits _ ⟨_, .primary (.operand b place)⟩

theorem Awaits.sign {depth : Nat} {front : List (Spanned (Symbol β))} (awaits : Awaits depth front)
    (sign : Span) : Awaits depth (front ++ [⟨.op .neg, sign⟩]) := by
  intro operand given
  obtain ⟨t, derived⟩ := given
  rw [List.append_assoc, List.singleton_append]
  exact awaits _ ⟨_, .negate derived⟩

theorem Awaits.open {depth : Nat} {front : List (Spanned (Symbol β))} (awaits : Awaits depth front)
    (opening : Span) : Awaits (depth + 1) (front ++ [⟨.lparen, opening⟩]) := by
  intro operand given
  rw [List.append_assoc, List.singleton_append]
  exact ⟨front, opening, operand, rfl, given.sum_of_signed, awaits⟩

theorem Complete.operator {depth : Nat} {front : List (Spanned (Symbol β))} {o : Operator}
    (complete : Complete depth front) (two : o.isUnary = false) (sign : Span) :
    Awaits depth (front ++ [⟨.op o, sign⟩]) := by
  intro operand given
  rw [List.append_assoc, List.singleton_append]
  cases depth with
  | zero => exact Derivable.extend two complete given
  | succ depth =>
      obtain ⟨outer, opening, inner, rfl, sum, awaits⟩ := complete
      rw [List.append_assoc, List.cons_append]
      exact ⟨outer, opening, _, rfl, Derivable.extend two sum given, awaits⟩

theorem Complete.close {depth : Nat} {front : List (Spanned (Symbol β))}
    (complete : Complete (depth + 1) front) (closing : Span) :
    Complete depth (front ++ [⟨.rparen, closing⟩]) := by
  obtain ⟨outer, opening, inner, rfl, sum, awaits⟩ := complete
  rw [List.append_assoc, List.cons_append]
  exact awaits _ sum.signed_of_parens

/-- Symbols that alternate and balance the open parentheses complete the sum begun before them. -/
theorem derivable_of_reached (rest : List (Spanned (Symbol β))) :
    ∀ (due : Bool) (depth : Nat) (front : List (Spanned (Symbol β))),
      Reached due depth front → alternates due rest = true → balanced depth rest = true →
        Derivable .sum (front ++ rest) := by
  induction rest with
  | nil =>
      intro due depth front reached placed closed
      simp only [alternates, Bool.not_eq_eq_eq_not, Bool.not_true] at placed
      simp only [balanced, beq_iff_eq] at closed
      subst placed closed
      rw [List.append_nil]
      exact reached
  | cons s rest ih =>
      intro due depth front reached placed closed
      obtain ⟨node, place⟩ := s
      have onward : ∀ due depth, Reached due depth (front ++ [⟨node, place⟩]) →
          alternates due rest = true → balanced depth rest = true →
            Derivable .sum (front ++ ⟨node, place⟩ :: rest) := by
        intro due depth next placed closed
        have := ih due depth _ next placed closed
        rwa [List.append_assoc, List.singleton_append] at this
      cases node with
      | operand b =>
          simp only [alternates, Bool.and_eq_true] at placed
          obtain ⟨rfl, placed⟩ := placed
          exact onward false depth (Awaits.operand reached b place) placed closed
      | op o =>
          simp only [alternates, Bool.and_eq_true, beq_iff_eq] at placed
          obtain ⟨arity, placed⟩ := placed
          cases due with
          | true =>
              cases o <;> cases arity
              exact onward true depth (Awaits.sign reached place) placed closed
          | false => exact onward true depth (Complete.operator reached arity place) placed closed
      | lparen =>
          simp only [alternates, Bool.and_eq_true] at placed
          obtain ⟨rfl, placed⟩ := placed
          exact onward true (depth + 1) (Awaits.open reached place) placed closed
      | rparen =>
          simp only [alternates, Bool.and_eq_true, Bool.not_eq_eq_eq_not, Bool.not_true] at placed
          obtain ⟨rfl, placed⟩ := placed
          cases depth with
          | zero => cases closed
          | succ depth => exact onward false depth (Complete.close reached place) placed closed

theorem alternates_of_derivable {symbols : List (Spanned (Symbol β))}
    (given : Derivable .sum symbols) : alternates true symbols = true := by
  obtain ⟨t, derived⟩ := given
  have := derived.alternates []
  rwa [List.append_nil] at this

theorem not_derivable {symbols : List (Spanned (Symbol β))}
    (misplaced : alternates true symbols = false) : ¬ Derivable .sum symbols := by
  intro given
  rw [alternates_of_derivable given] at misplaced
  cases misplaced

/-- Balanced symbols are a sum exactly if they alternate. -/
theorem derivable_iff_alternates {symbols : List (Spanned (Symbol β))}
    (closed : balanced 0 symbols = true) :
    Derivable .sum symbols ↔ alternates true symbols = true := by
  constructor
  · exact alternates_of_derivable
  · intro placed
    have start : Reached true 0 ([] : List (Spanned (Symbol β))) :=
      fun operand given => given.sum_of_signed
    exact derivable_of_reached symbols true 0 [] start placed closed

theorem isOk_map {α γ : Type} (r : Result α) (f : α → γ) : (r.map f).isOk = r.isOk := by
  cases r <;> rfl

def openings (held : List (Spanned Term)) : Nat := held.countP isOpening

theorem openings_cons_op (o : Operator) (sign : Span) (held : List (Spanned Term)) :
    openings (⟨.op o, sign⟩ :: held) = openings held :=
  List.countP_cons_of_neg Bool.false_ne_true

theorem openings_cons_lparen (opening : Span) (held : List (Spanned Term)) :
    openings (⟨.lparen, opening⟩ :: held) = openings held + 1 :=
  List.countP_cons_of_pos rfl

theorem openings_dropWhile (o : Operator) (held : List (Spanned Term)) :
    openings (held.dropWhile (goesBefore o)) = openings held := by
  induction held with
  | nil => rfl
  | cons x rest ih =>
      obtain ⟨node, place⟩ := x
      by_cases goes : goesBefore o ⟨node, place⟩ = true
      · rw [List.dropWhile_cons_of_pos goes, ih]
        cases node with
        | op p => exact (openings_cons_op p place rest).symm
        | operand v => cases goes
        | lparen => cases goes
        | rparen => cases goes
      · rw [List.dropWhile_cons_of_neg goes]

theorem openings_eq_zero {held : List (Spanned Term)}
    (none : held.dropWhile (!isOpening ·) = []) : openings held = 0 := by
  apply List.countP_eq_zero.mpr
  intro x member
  have := List.dropWhile_eq_nil_iff.mp none x member
  simpa only [Bool.not_eq_eq_eq_not, Bool.not_true, Bool.not_eq_true] using this

/-- A closing parenthesis takes the latest open one away. -/
theorem openings_succ {held outer : List (Spanned Term)} {x : Spanned Term}
    (found : held.dropWhile (!isOpening ·) = x :: outer) : openings held = openings outer + 1 := by
  have parts := List.takeWhile_append_dropWhile (p := (!isOpening ·)) (l := held)
  have first : openings (held.takeWhile (!isOpening ·)) = 0 := by
    apply List.countP_eq_zero.mpr
    intro y member
    have := List.mem_takeWhile_imp member
    simpa only [Bool.not_eq_eq_eq_not, Bool.not_true, Bool.not_eq_true] using this
  have opening : isOpening x = true := by
    have := List.head?_dropWhile_not (!isOpening ·) held
    rw [found] at this
    simpa only [List.head?_cons, Bool.not_eq_eq_eq_not, Bool.not_false] using this
  calc
    openings held = openings (held.takeWhile (!isOpening ·)) + openings (x :: outer) := by
      rw [← found, openings, openings, openings, ← List.countP_append, parts]
    _ = openings outer + 1 := by
      rw [first, Nat.zero_add]
      exact List.countP_cons_of_pos opening

theorem isOk_release (held : List (Spanned Term)) :
    (release held).isOk = (openings held == 0) := by
  induction held with
  | nil => rfl
  | cons x rest ih =>
      by_cases opening : isOpening x = true
      · have counted : openings (x :: rest) = openings rest + 1 :=
          List.countP_cons_of_pos opening
        rw [release, if_pos opening, counted]
        rfl
      · have counted : openings (x :: rest) = openings rest := List.countP_cons_of_neg opening
        rw [release, if_neg opening, isOk_map, ih, counted]

/-- Reordering succeeds exactly if the parentheses are balanced. -/
theorem isOk_reorder (held given : List (Spanned Term)) :
    (reorder held given).isOk = balanced (openings held) (Term.symbols given) := by
  induction given generalizing held with
  | nil => exact isOk_release held
  | cons t rest ih =>
      obtain ⟨node, place⟩ := t
      cases node with
      | operand v => exact (isOk_map _ _).trans (ih held)
      | op o =>
          cases arity : o.isUnary with
          | true =>
              simp only [reorder, arity, ↓reduceIte, ih, openings_cons_op]
              rfl
          | false =>
              simp only [reorder, arity, Bool.false_eq_true, ↓reduceIte, isOk_map, ih,
                openings_cons_op, openings_dropWhile]
              rfl
      | lparen =>
          rw [reorder, ih, openings_cons_lparen]
          rfl
      | rparen =>
          simp only [reorder]
          split
          · rename_i none
            rw [openings_eq_zero none]
            rfl
          · rename_i x outer found
            rw [isOk_map, ih, openings_succ found]
            rfl

theorem termWith_symbol {s : Store} {t : Spanned Token}
    {visit : ∀ index, t.node.index? = some index → Result Int64} {term : Term}
    (made : Expression.termWith s t visit = .ok term) :
    (∃ v b, term = .operand v ∧ t.node.symbol = .operand b) ∨
      (∃ o, term = .op o ∧ t.node.symbol = .op o) ∨
      (term = .lparen ∧ t.node.symbol = .lparen) ∨ (term = .rparen ∧ t.node.symbol = .rparen) := by
  unfold Expression.termWith at made
  split at made
  · rename_i o node
    cases made
    exact .inr (.inl ⟨o, rfl, by rw [node]; rfl⟩)
  · rename_i node
    cases made
    exact .inr (.inr (.inl ⟨rfl, by rw [node]; rfl⟩))
  · rename_i node
    cases made
    exact .inr (.inr (.inr ⟨rfl, by rw [node]; rfl⟩))
  · rename_i notOp notOpening notClosing
    obtain ⟨v, _, made⟩ := bind_eq_ok made
    split at made
    · cases made
      refine .inl ⟨v, t.node, rfl, ?_⟩
      unfold Token.symbol
      split
      · rename_i o node
        exact absurd node (notOp o)
      · rename_i node
        exact absurd node notOpening
      · rename_i node
        exact absurd node notClosing
      · rfl
    · cases made

theorem balanced_termsWith {s : Store} (tokens : List (Spanned Token))
    (visit : Expression.Visit tokens) (given : List (Spanned Term))
    (made : Expression.termsWith s tokens visit = .ok given) (depth : Nat) :
    balanced depth (Term.symbols given) = balanced depth (Token.symbols tokens) := by
  induction tokens generalizing given depth with
  | nil =>
      cases made
      rfl
  | cons t rest ih =>
      obtain ⟨term, first, made⟩ := bind_eq_ok made
      obtain ⟨later, second, made⟩ := bind_eq_ok made
      cases made
      have onward := ih _ later second
      have token : Token.symbols (t :: rest) = ⟨t.node.symbol, t.span⟩ :: Token.symbols rest := rfl
      rw [token]
      obtain ⟨v, b, rfl, node⟩ | ⟨o, rfl, node⟩ | ⟨rfl, node⟩ | ⟨rfl, node⟩ :=
        termWith_symbol first
      · rw [node]
        exact onward depth
      · rw [node]
        exact onward depth
      · rw [node]
        exact onward (depth + 1)
      · rw [node]
        cases depth with
        | zero => rfl
        | succ depth => exact onward depth

theorem balanced_of_arithmetic {s : Store} {tokens : List (Spanned Token)} {v : Value}
    {visit : Expression.Visit tokens}
    (valued : (do Term.evaluate (← toPostfix (← Expression.termsWith s tokens visit))) = .ok v) :
    balanced 0 (Token.symbols tokens) = true := by
  obtain ⟨given, resolved, valued⟩ := bind_eq_ok valued
  obtain ⟨queue, reordered, _⟩ := bind_eq_ok valued
  have counted := isOk_reorder [] given
  rw [← toPostfix, reordered] at counted
  rw [← balanced_termsWith tokens visit given resolved 0]
  exact counted.symm

theorem symbol_of_isOperand {t : Token} (operand : t.isOperand = true) : t.symbol = .operand t := by
  cases t <;> first | rfl | cases operand

/-- The parentheses among the tokens of a segment that gets a value are balanced. -/
theorem balanced_of_tokensValue {s : Store} {total : Nat} {tokens : List (Spanned Token)}
    {visit : Expression.Visit tokens} {v : Value}
    (valued : Expression.tokensValue s total tokens visit = .ok v) :
    balanced 0 (Token.symbols tokens) = true := by
  unfold Expression.tokensValue at valued
  split at valued
  · cases valued
  · rename_i t visit
    by_cases operand : t.node.isOperand = true
    · have alone : Token.symbols [t] = [⟨.operand t.node, t.span⟩] := by
        rw [← symbol_of_isOperand operand]
        rfl
      rw [alone]
      rfl
    · rw [if_neg operand] at valued
      exact balanced_of_arithmetic valued
  · exact balanced_of_arithmetic valued

/-- Whatever text gets a value in whatever store, as arithmetic or as a segment: its tokens are a
phrase of the grammar exactly if they alternate. -/
theorem valued_tokens_derivable_iff {s : Store} {text : Text} {tokens : List (Spanned Token)}
    {v : Value} (read : tokenize text = .ok tokens)
    (valued : (do Term.evaluate (← toPostfix (← Expression.terms s tokens))) = .ok v ∨
      Expression.segmentValue s text = .ok v) :
    Derivable .sum (Token.symbols tokens) ↔ alternates true (Token.symbols tokens) = true := by
  apply derivable_iff_alternates
  rcases valued with arithmetic | segment
  · exact balanced_of_arithmetic arithmetic
  · rw [Expression.segmentValue_eq, read] at segment
    exact balanced_of_tokensValue segment

theorem valued_tokens_derivable_iff_signed_parens :
    Derivable .sum (Token.symbols
      [⟨.op .neg, ⟨0, 1⟩⟩, ⟨.lparen, ⟨1, 2⟩⟩, ⟨.number ['2'], ⟨2, 3⟩⟩, ⟨.op .add, ⟨4, 5⟩⟩,
        ⟨.number ['3'], ⟨6, 7⟩⟩, ⟨.rparen, ⟨7, 8⟩⟩]) := by
  have read : tokenize ['-', '(', '2', ' ', '+', ' ', '3', ')'] = .ok
      [⟨.op .neg, ⟨0, 1⟩⟩, ⟨.lparen, ⟨1, 2⟩⟩, ⟨.number ['2'], ⟨2, 3⟩⟩, ⟨.op .add, ⟨4, 5⟩⟩,
        ⟨.number ['3'], ⟨6, 7⟩⟩, ⟨.rparen, ⟨7, 8⟩⟩] := by decide +kernel
  have valued : Expression.segmentValue {} ['-', '(', '2', ' ', '+', ' ', '3', ')'] =
      .ok (.integer (-5)) := by decide +kernel
  exact (valued_tokens_derivable_iff read (.inr valued)).mpr (by decide)

/-- The text is read as these tokens and gets a value in the empty store, both ways, though the
tokens are no phrase. -/
def Misread (text : Text) (tokens : List (Spanned Token)) (v : Value) : Prop :=
  tokenize text = .ok tokens ∧
    (do Term.evaluate (← toPostfix (← Expression.terms {} tokens))) = .ok v ∧
    Expression.segmentValue {} text = .ok v ∧ ¬ Derivable .sum (Token.symbols tokens)

/-- An operator after both its operands, one before both, empty parentheses after an operand and an
operator alone in parentheses. -/
theorem valued_tokens_not_derivable :
    Misread ['2', ' ', '3', ' ', '*']
        [⟨.number ['2'], ⟨0, 1⟩⟩, ⟨.number ['3'], ⟨2, 3⟩⟩, ⟨.op .mul, ⟨4, 5⟩⟩] (.integer 6) ∧
      Misread ['*', ' ', '2', ' ', '3']
        [⟨.op .mul, ⟨0, 1⟩⟩, ⟨.number ['2'], ⟨2, 3⟩⟩, ⟨.number ['3'], ⟨4, 5⟩⟩] (.integer 6) ∧
      Misread ['2', ' ', '(', ')']
        [⟨.number ['2'], ⟨0, 1⟩⟩, ⟨.lparen, ⟨2, 3⟩⟩, ⟨.rparen, ⟨3, 4⟩⟩] (.integer 2) ∧
      Misread ['2', ' ', '3', ' ', '(', '*', ')']
        [⟨.number ['2'], ⟨0, 1⟩⟩, ⟨.number ['3'], ⟨2, 3⟩⟩, ⟨.lparen, ⟨4, 5⟩⟩, ⟨.op .mul, ⟨5, 6⟩⟩,
          ⟨.rparen, ⟨6, 7⟩⟩] (.integer 6) := by
  refine ⟨?_, ?_, ?_, ?_⟩
  · exact ⟨by decide +kernel, by decide +kernel, by decide +kernel, not_derivable (by decide)⟩
  · exact ⟨by decide +kernel, by decide +kernel, by decide +kernel, not_derivable (by decide)⟩
  · exact ⟨by decide +kernel, by decide +kernel, by decide +kernel, not_derivable (by decide)⟩
  · exact ⟨by decide +kernel, by decide +kernel, by decide +kernel, not_derivable (by decide)⟩

end Infix

end Pseudocode
