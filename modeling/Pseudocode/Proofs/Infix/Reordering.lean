import Pseudocode.Proofs.Infix.Grammar

set_option autoImplicit false

namespace Pseudocode

namespace Infix

open Term (goesBefore isOpening release reorder toPostfix step evaluate)

def terms (symbols : List (Spanned (Symbol Value))) : List (Spanned Term) :=
  symbols.map (Spanned.map Symbol.term)

theorem terms_append (left right : List (Spanned (Symbol Value))) :
    terms (left ++ right) = terms left ++ terms right :=
  List.map_append

@[simp] theorem terms_symbols (given : List (Spanned Term)) :
    terms (Term.symbols given) = given := by
  unfold terms Term.symbols
  rw [List.map_map]
  refine (List.map_congr_left fun t _ => ?_).trans (List.map_id given)
  obtain ⟨node, place⟩ := t
  simp only [Function.comp_apply, Spanned.map, Term.term_symbol, id_eq]

theorem map_append_map {α : Type} (r : Result (List α)) (first second : List α) :
    (r.map (second ++ ·)).map (first ++ ·) = r.map (first ++ second ++ ·) := by
  cases r with
  | error e => rfl
  | ok queue => exact congrArg Except.ok (List.append_assoc first second queue).symm

/-- How tightly every operator binds that a phrase of this level leaves held. -/
def Level.strength : Level → Nat
  | .sum => 1
  | .product => 2
  | .signed => 3
  | .primary => 4

/-- The operators that a phrase of this level may put between its own operands. -/
def Level.operators : Level → List Operator
  | .sum => additive ++ multiplicative
  | .product => multiplicative
  | .signed | .primary => []

/-- Operators left over from a phrase of this level. -/
def Pending (level : Level) (held : List (Spanned Term)) : Prop :=
  ∀ x ∈ held, ∃ o, x.node = .op o ∧ level.strength ≤ o.precedence

/-- The operators of a phrase of this level release nothing that was held before it. -/
def Guarded (level : Level) (held : List (Spanned Term)) : Prop :=
  ∀ o ∈ level.operators, ∀ x ∈ held.head?, goesBefore o x = false

theorem Pending.weaken {loose tight : Level} {held : List (Spanned Term)}
    (pending : Pending tight held) (looser : loose.strength ≤ tight.strength) :
    Pending loose held := by
  intro x member
  obtain ⟨o, node, bound⟩ := pending x member
  exact ⟨o, node, by omega⟩

theorem Pending.snoc {loose tight : Level} {held : List (Spanned Term)} {o : Operator} {sign : Span}
    (pending : Pending tight held) (looser : loose.strength ≤ tight.strength)
    (bound : loose.strength ≤ o.precedence) : Pending loose (held ++ [⟨.op o, sign⟩]) := by
  intro x member
  rcases List.mem_append.mp member with inside | last
  · exact pending.weaken looser x inside
  · rw [List.mem_singleton.mp last]
    exact ⟨o, rfl, bound⟩

theorem Pending.goesBefore {level : Level} {held : List (Spanned Term)} {o : Operator}
    (pending : Pending level held) (looser : o.precedence ≤ level.strength) :
    ∀ x ∈ held, goesBefore o x = true := by
  intro x member
  obtain ⟨p, node, bound⟩ := pending x member
  simp only [Term.goesBefore, node, decide_eq_true_eq]
  omega

theorem Pending.not_isOpening {level : Level} {held : List (Spanned Term)}
    (pending : Pending level held) : ∀ x ∈ held, isOpening x = false := by
  intro x member
  obtain ⟨o, node, _⟩ := pending x member
  simp only [isOpening, node]

theorem Guarded.weaken {loose tight : Level} {held : List (Spanned Term)}
    (guarded : Guarded loose held) (fewer : tight.operators ⊆ loose.operators) :
    Guarded tight held :=
  fun o member => guarded o (fewer member)

/-- A binary operator that is held guards the tighter phrase after it. -/
theorem Guarded.operator {level : Level} {o : Operator} {sign : Span} {held : List (Spanned Term)}
    (tighter : ∀ p ∈ level.operators, o.precedence < p.precedence) :
    Guarded level (⟨.op o, sign⟩ :: held) := by
  intro p member x latest
  cases latest
  have := tighter p member
  simp only [Term.goesBefore, decide_eq_false_iff_not]
  omega

theorem Guarded.opening {level : Level} {opening : Span} {held : List (Spanned Term)} :
    Guarded level (⟨.lparen, opening⟩ :: held) := by
  intro o _ x latest
  cases latest
  rfl

theorem Guarded.unoperated {level : Level} {held : List (Spanned Term)}
    (none : level.operators = []) : Guarded level held := by
  intro o member
  rw [none] at member
  cases member

theorem Guarded.takeWhile_eq_nil {level : Level} {held : List (Spanned Term)} {o : Operator}
    (guarded : Guarded level held) (member : o ∈ level.operators) :
    held.takeWhile (goesBefore o) = [] ∧ held.dropWhile (goesBefore o) = held := by
  cases held with
  | nil => exact ⟨rfl, rfl⟩
  | cons x rest =>
      have stays := guarded o member x rfl
      exact ⟨List.takeWhile_cons_of_neg (by rw [stays]; exact Bool.false_ne_true),
        List.dropWhile_cons_of_neg (by rw [stays]; exact Bool.false_ne_true)⟩

/-- A binary operator after a phrase releases exactly what the phrase left held. -/
theorem reorder_operator {level context : Level} {o : Operator} {sign : Span}
    {pending held : List (Spanned Term)} (rest : List (Spanned Term))
    (two : o.isUnary = false) (left : Pending level pending)
    (looser : o.precedence ≤ level.strength) (guarded : Guarded context held)
    (member : o ∈ context.operators) :
    reorder (pending ++ held) (⟨.op o, sign⟩ :: rest) =
      (reorder (⟨.op o, sign⟩ :: held) rest).map (pending ++ ·) := by
  have released := left.goesBefore looser
  obtain ⟨taken, dropped⟩ := guarded.takeWhile_eq_nil member
  have front : (pending ++ held).takeWhile (goesBefore o) = pending := by
    rw [List.takeWhile_append_of_pos released, taken, List.append_nil]
  have back : (pending ++ held).dropWhile (goesBefore o) = held := by
    rw [List.dropWhile_append_of_pos released, dropped]
  simp only [reorder, two, Bool.false_eq_true, ↓reduceIte, front, back]

theorem reorder_closing {level : Level} {opening closing : Span}
    {pending held : List (Spanned Term)} (rest : List (Spanned Term))
    (left : Pending level pending) :
    reorder (pending ++ ⟨.lparen, opening⟩ :: held) (⟨.rparen, closing⟩ :: rest) =
      (reorder held rest).map (pending ++ ·) := by
  have inside : ∀ x ∈ pending, (!isOpening x) = true := by
    intro x member
    rw [left.not_isOpening x member]
    rfl
  have front : (pending ++ ⟨.lparen, opening⟩ :: held).takeWhile (!isOpening ·) = pending := by
    rw [List.takeWhile_append_of_pos inside]
    exact List.append_nil pending
  have back : (pending ++ ⟨.lparen, opening⟩ :: held).dropWhile (!isOpening ·) =
      ⟨.lparen, opening⟩ :: held := by
    rw [List.dropWhile_append_of_pos inside]
    rfl
  simp only [reorder, front, back]

theorem release_pending {level : Level} {held : List (Spanned Term)}
    (pending : Pending level held) : release held = .ok held := by
  induction held with
  | nil => rfl
  | cons x rest ih =>
      have closed := pending.not_isOpening x List.mem_cons_self
      have later : Pending level rest := fun y member => pending y (List.mem_cons_of_mem x member)
      simp only [release, closed, Bool.false_eq_true, ↓reduceIte, ih later]
      rfl

/-- Reading the symbols with anything guarded held before them and anything after them: a first part
of the postorder is released, the other part is still held. -/
def ReadsAs (level : Level) (symbols : List (Spanned (Symbol Value))) (t : Tree Value) : Prop :=
  ∀ held rest, Guarded level held → ∃ out pending,
    out ++ pending = t.postorder ∧ Pending level pending ∧
      reorder held (terms symbols ++ rest) = (reorder (pending ++ held) rest).map (out ++ ·)

theorem ReadsAs.weaken {loose tight : Level} {symbols : List (Spanned (Symbol Value))}
    {t : Tree Value} (reads : ReadsAs tight symbols t) (fewer : tight.operators ⊆ loose.operators)
    (looser : loose.strength ≤ tight.strength) : ReadsAs loose symbols t := by
  intro held rest guarded
  obtain ⟨out, pending, whole, left, run⟩ := reads held rest (guarded.weaken fewer)
  exact ⟨out, pending, whole, left.weaken looser, run⟩

/-- Sums and products: what the left part leaves held is released by the operator, which then stays
held under what the right part leaves. -/
theorem ReadsAs.binary {loose tight : Level} {o : Operator} {sign : Span}
    {left right : List (Spanned (Symbol Value))} {l r : Tree Value} (two : o.isUnary = false)
    (member : o ∈ loose.operators) (bound : o.precedence = loose.strength)
    (tighter : ∀ p ∈ tight.operators, o.precedence < p.precedence)
    (looser : loose.strength ≤ tight.strength)
    (first : ReadsAs loose left l) (second : ReadsAs tight right r) :
    ReadsAs loose (left ++ ⟨.op o, sign⟩ :: right) (.binary o two sign l r) := by
  intro held rest guarded
  obtain ⟨out, pending, whole, kept, run⟩ :=
    first held (⟨.op o, sign⟩ :: (terms right ++ rest)) guarded
  obtain ⟨out', pending', whole', kept', run'⟩ :=
    second (⟨.op o, sign⟩ :: held) rest (Guarded.operator tighter)
  refine ⟨out ++ pending ++ out', pending' ++ [⟨.op o, sign⟩], ?_,
    kept'.snoc looser (Nat.le_of_eq bound.symm), ?_⟩
  · simp only [Tree.postorder, ← whole, ← whole', List.append_assoc]
  · have split : terms (left ++ ⟨.op o, sign⟩ :: right) ++ rest =
        terms left ++ ⟨.op o, sign⟩ :: (terms right ++ rest) := by
      rw [terms_append, List.append_assoc]
      rfl
    calc
      _ = reorder held (terms left ++ ⟨.op o, sign⟩ :: (terms right ++ rest)) := by rw [split]
      _ = (reorder (pending ++ held) (⟨.op o, sign⟩ :: (terms right ++ rest))).map (out ++ ·) :=
        run
      _ = (reorder (⟨.op o, sign⟩ :: held) (terms right ++ rest)).map (out ++ pending ++ ·) := by
        rw [reorder_operator _ two kept (Nat.le_of_eq bound) guarded member, map_append_map]
      _ = (reorder (pending' ++ ⟨.op o, sign⟩ :: held) rest).map (out ++ pending ++ out' ++ ·) := by
        rw [run', map_append_map]
      _ = _ := by rw [List.append_assoc pending' [_] held, List.singleton_append]

theorem ReadsAs.negate {symbols : List (Spanned (Symbol Value))} {t : Tree Value} {sign : Span}
    (inner : ReadsAs .signed symbols t) :
    ReadsAs .signed (⟨.op .neg, sign⟩ :: symbols) (.negation sign t) := by
  intro held rest _
  obtain ⟨out, pending, whole, kept, run⟩ :=
    inner (⟨.op .neg, sign⟩ :: held) rest (Guarded.unoperated rfl)
  refine ⟨out, pending ++ [⟨.op .neg, sign⟩], ?_, kept.snoc (Nat.le_refl _) (by decide), ?_⟩
  · rw [Tree.postorder, ← whole, List.append_assoc]
  · rw [List.append_assoc, List.singleton_append]
    exact run

theorem ReadsAs.operand (v : Value) (place : Span) :
    ReadsAs .primary [⟨.operand v, place⟩] (.operand v place) := by
  intro held rest _
  refine ⟨[⟨.operand v, place⟩], [], rfl, ?_, rfl⟩
  intro x member
  cases member

theorem ReadsAs.parens {symbols : List (Spanned (Symbol Value))} {t : Tree Value}
    {opening closing : Span} (inner : ReadsAs .sum symbols t) :
    ReadsAs .primary (⟨.lparen, opening⟩ :: (symbols ++ [⟨.rparen, closing⟩])) t := by
  intro held rest _
  obtain ⟨out, pending, whole, kept, run⟩ :=
    inner (⟨.lparen, opening⟩ :: held) (⟨.rparen, closing⟩ :: rest) Guarded.opening
  refine ⟨t.postorder, [], List.append_nil _, ?_, ?_⟩
  · intro x member
    cases member
  · have split : terms (⟨.lparen, opening⟩ :: (symbols ++ [⟨.rparen, closing⟩])) ++ rest =
        ⟨.lparen, opening⟩ :: (terms symbols ++ ⟨.rparen, closing⟩ :: rest) := by
      change ⟨.lparen, opening⟩ :: (terms (symbols ++ [⟨.rparen, closing⟩]) ++ rest) = _
      rw [terms_append, List.append_assoc]
      rfl
    calc
      _ = reorder (⟨.lparen, opening⟩ :: held) (terms symbols ++ ⟨.rparen, closing⟩ :: rest) := by
        rw [split]
        rfl
      _ = ((reorder held rest).map (pending ++ ·)).map (out ++ ·) := by
        rw [run, reorder_closing _ kept]
      _ = _ := by rw [map_append_map, whole, List.nil_append]

/-- The invariant of reordering: when a phrase has been read, the terms released so far and the
operators still held make up the postorder of its tree, and every operator still held binds at least
as tightly as the level of the phrase. -/
theorem reorder_phrase {level : Level} {symbols : List (Spanned (Symbol Value))} {t : Tree Value}
    (derived : Derives level symbols t) : ReadsAs level symbols t := by
  induction derived with
  | product _ ih => exact ih.weaken (by decide) (by decide)
  | add member _ _ first second =>
      have bound : ∀ o ∈ additive, o ∈ Level.sum.operators ∧ o.precedence = 1 ∧
          ∀ p ∈ Level.product.operators, o.precedence < p.precedence := by decide
      obtain ⟨inside, level, tighter⟩ := bound _ member
      exact .binary _ inside level tighter (by decide) first second
  | signed _ ih => exact ih.weaken (by decide) (by decide)
  | multiply member _ _ first second =>
      have bound : ∀ o ∈ multiplicative, o ∈ Level.product.operators ∧ o.precedence = 2 ∧
          ∀ p ∈ Level.signed.operators, o.precedence < p.precedence := by decide
      obtain ⟨inside, level, tighter⟩ := bound _ member
      exact .binary _ inside level tighter (by decide) first second
  | primary _ ih => exact ih.weaken (by decide) (by decide)
  | negate _ ih => exact ih.negate
  | operand v place => exact .operand v place
  | parens _ ih => exact ih.parens

theorem toPostfix_terms {symbols : List (Spanned (Symbol Value))} {t : Tree Value}
    (derived : Derives .sum symbols t) : toPostfix (terms symbols) = .ok t.postorder := by
  obtain ⟨out, pending, whole, kept, run⟩ := reorder_phrase derived [] [] (by
    intro o _ x latest
    cases latest)
  rw [List.append_nil, List.append_nil] at run
  rw [toPostfix, run, reorder, release_pending kept, ← whole]
  rfl

theorem step_negation (v : Value) (place sign : Span) (stack : Term.Stack) :
    step (⟨v, place⟩ :: stack) ⟨.op .neg, sign⟩ =
      ((Arithmetic.negate v).mapError (·.orSpan (sign.merge place))).map fun w =>
        ⟨w, sign.merge place⟩ :: stack := by
  change (Term.place (sign.merge place) (Arithmetic.negate v)).map (· :: stack) = _
  cases Arithmetic.negate v <;> rfl

theorem step_binary {o : Operator} (two : o.isUnary = false) (left right : Spanned Value)
    (sign : Span) (stack : Term.Stack) :
    step (right :: left :: stack) ⟨.op o, sign⟩ =
      ((Arithmetic.apply o left.node right.node).mapError
        (·.orSpan ((left.span.merge right.span).merge sign))).map fun w =>
          ⟨w, (left.span.merge right.span).merge sign⟩ :: stack := by
  simp only [step, two, Bool.false_eq_true, ↓reduceIte]
  cases Arithmetic.apply o left.node right.node <;> rfl

theorem foldlM_step_singleton (stack : Term.Stack) (t : Spanned Term) :
    [t].foldlM step stack = step stack t := by
  rw [List.foldlM_cons]
  exact bind_pure (step stack t)

/-- The machine computes a tree's value on top of whatever is on the stack. -/
theorem foldlM_step_postorder (t : Tree Value) (stack : Term.Stack) :
    t.postorder.foldlM step stack = t.value.map fun v => ⟨v, t.span⟩ :: stack := by
  induction t generalizing stack with
  | operand v place => rfl
  | negation sign t ih =>
      rw [Tree.postorder, List.foldlM_append, ih, Tree.value]
      cases t.value with
      | error e => rfl
      | ok v => exact (foldlM_step_singleton _ _).trans (step_negation v t.span sign stack)
  | binary o two sign left right first second =>
      rw [Tree.postorder, List.foldlM_append, List.foldlM_append, first, Tree.value]
      cases left.value with
      | error e => rfl
      | ok a =>
          change (right.postorder.foldlM step (⟨a, left.span⟩ :: stack) >>= _) = _
          rw [second]
          cases right.value with
          | error e => rfl
          | ok b =>
              exact (foldlM_step_singleton _ _).trans
                (step_binary two ⟨a, left.span⟩ ⟨b, right.span⟩ sign stack)

theorem evaluate_postorder (t : Tree Value) : evaluate t.postorder = t.value := by
  rw [evaluate, foldlM_step_postorder]
  cases t.value <;> rfl

/-- Every list of terms that the grammar derives is reordered, and the machine gives its value or
its failure: that of the operator tree, evaluated left operand, right operand, operation. -/
theorem pipeline_eq_tree_value {given : List (Spanned Term)} {t : Tree Value}
    (derived : Derives .sum (Term.symbols given) t) :
    ∃ queue, toPostfix given = .ok queue ∧ evaluate queue = t.value := by
  have reordered := toPostfix_terms derived
  rw [terms_symbols] at reordered
  exact ⟨t.postorder, reordered, evaluate_postorder t⟩

/-- `8 - 3 - -(2)`: the left difference is taken first, and the sign stays with the parentheses. -/
theorem pipeline_eq_tree_value_differences :
    let eight : Tree Value := .operand (.integer 8) ⟨0, 1⟩
    let three : Tree Value := .operand (.integer 3) ⟨4, 5⟩
    let two : Tree Value := .operand (.integer 2) ⟨10, 11⟩
    let given : List (Spanned Term) :=
      [⟨.operand (.integer 8), ⟨0, 1⟩⟩, ⟨.op .sub, ⟨2, 3⟩⟩, ⟨.operand (.integer 3), ⟨4, 5⟩⟩,
        ⟨.op .sub, ⟨6, 7⟩⟩, ⟨.op .neg, ⟨8, 9⟩⟩, ⟨.lparen, ⟨9, 10⟩⟩,
        ⟨.operand (.integer 2), ⟨10, 11⟩⟩, ⟨.rparen, ⟨11, 12⟩⟩]
    Derives .sum (Term.symbols given)
        (.binary .sub rfl ⟨6, 7⟩ (.binary .sub rfl ⟨2, 3⟩ eight three) (.negation ⟨8, 9⟩ two)) ∧
      ∃ queue, toPostfix given = .ok queue ∧ evaluate queue = .ok (.integer 7) := by
  intro eight three two given
  have operand : ∀ (v : Value) (place : Span),
      Derives .product [⟨.operand v, place⟩] (.operand v place) :=
    fun v place => .signed (.primary (.operand v place))
  have derived : Derives .sum (Term.symbols given)
      (.binary .sub rfl ⟨6, 7⟩ (.binary .sub rfl ⟨2, 3⟩ eight three) (.negation ⟨8, 9⟩ two)) :=
    .add (by decide) (.add (by decide) (.product (operand _ _)) (operand _ _))
      (.signed (.negate (.primary (.parens (.product (operand _ _))))))
  exact ⟨derived, pipeline_eq_tree_value derived⟩

end Infix

end Pseudocode
