import Mathlib.Data.List.Pairwise
import Mathlib.Data.List.TakeWhile
import Pseudocode.Proofs.Term.Order

set_option autoImplicit false

namespace Pseudocode.Term

def isClosing (t : Spanned Term) : Bool :=
  match t.node with
  | .rparen => true
  | _ => false

def isParenthesis (t : Spanned Term) : Bool :=
  isOpening t || isClosing t

def isOperand (t : Spanned Term) : Bool :=
  match t.node with
  | .operand _ => true
  | _ => false

def isOperator (t : Spanned Term) : Bool :=
  match t.node with
  | .op _ => true
  | _ => false

/-- No first part of the terms closes more parentheses than it opens. -/
def NeverOvercloses (given : List (Spanned Term)) : Prop :=
  ∀ n, (given.take n).countP isClosing ≤ (given.take n).countP isOpening

/-- Every parenthesis is closed, and none is closed before it is opened. -/
structure Balanced (given : List (Spanned Term)) : Prop where
  never : NeverOvercloses given
  all : given.countP isClosing = given.countP isOpening

theorem NeverOvercloses.append {first second : List (Spanned Term)} (one : NeverOvercloses first)
    (other : NeverOvercloses second) : NeverOvercloses (first ++ second) := by
  intro n
  have before := one n
  have after := other (n - first.length)
  simp only [List.take_append, List.countP_append]
  omega

theorem Balanced.append {first second : List (Spanned Term)} (one : Balanced first)
    (other : Balanced second) : Balanced (first ++ second) := by
  refine ⟨one.never.append other.never, ?_⟩
  simp only [List.countP_append, one.all, other.all]

theorem balanced_nil : Balanced [] :=
  ⟨fun n => by simp, rfl⟩

theorem isClosing_of_isOpening {t : Spanned Term} (opening : isOpening t = true) :
    isClosing t = false := by
  obtain ⟨node, place⟩ := t
  cases node <;> first | rfl | cases opening

theorem neverOvercloses_singleton {t : Spanned Term} (other : isClosing t = false) :
    NeverOvercloses [t] := by
  intro n
  cases n <;> simp [other]

theorem balanced_singleton {t : Spanned Term} (other : isParenthesis t = false) : Balanced [t] := by
  rw [isParenthesis, Bool.or_eq_false_iff] at other
  exact ⟨neverOvercloses_singleton other.2, by simp [other]⟩

/-- Balanced terms between two parentheses are balanced with them. -/
theorem Balanced.enclose {inner : List (Spanned Term)} {opening closing : Spanned Term}
    (balanced : Balanced inner) (opens : isOpening opening = true)
    (closes : isClosing closing = true) : Balanced (opening :: (inner ++ [closing])) := by
  have other := isClosing_of_isOpening opens
  have last : isOpening closing = false := by
    obtain ⟨node, place⟩ := closing
    cases node <;> first | rfl | cases closes
  constructor
  · intro n
    cases n with
    | zero => simp
    | succ n =>
        have inside := balanced.never n
        have one : ([closing].take (n - inner.length)).countP isClosing ≤ 1 :=
          List.countP_le_length.trans (List.length_take_le' _ _)
        simp only [List.take_succ_cons, List.countP_cons, opens, other, List.take_append,
          List.countP_append, if_true, Bool.false_eq_true, if_false]
        omega
  · have all := balanced.all
    simp only [List.countP_cons, List.countP_append, opens, other, closes, last, List.countP_nil,
      if_true, Bool.false_eq_true, if_false]
    omega

/-- `LeavesOpen seen opens`: the parentheses of `seen` that are left open, the latest first.
Everything after an open one is balanced up to the next open one. -/
inductive LeavesOpen : List (Spanned Term) → List (Spanned Term) → Prop where
  | none {seen : List (Spanned Term)} (balanced : Balanced seen) : LeavesOpen seen []
  | some {front back opens : List (Spanned Term)} {t : Spanned Term}
      (before : LeavesOpen front opens) (opening : isOpening t = true) (after : Balanced back) :
      LeavesOpen (front ++ t :: back) (t :: opens)

namespace LeavesOpen

variable {seen opens : List (Spanned Term)} {t : Spanned Term}

theorem append (leaves : LeavesOpen seen opens) {more : List (Spanned Term)}
    (balanced : Balanced more) : LeavesOpen (seen ++ more) opens := by
  cases leaves with
  | none before => exact .none (before.append balanced)
  | some before opening after =>
      rw [List.append_assoc, List.cons_append]
      exact .some before opening (after.append balanced)

theorem opened (leaves : LeavesOpen seen opens) (opening : isOpening t = true) :
    LeavesOpen (seen ++ [t]) (t :: opens) :=
  .some leaves opening balanced_nil

theorem close {closing : Spanned Term} (leaves : LeavesOpen seen (t :: opens))
    (closes : isClosing closing = true) : LeavesOpen (seen ++ [closing]) opens := by
  cases leaves with
  | some before opening after =>
      rw [List.append_assoc, List.cons_append]
      exact before.append (after.enclose opening closes)

theorem never (leaves : LeavesOpen seen opens) : NeverOvercloses seen := by
  induction leaves with
  | none balanced => exact balanced.never
  | @some front back opens t _ opening after ih =>
      have rest : NeverOvercloses ([t] ++ back) :=
        (neverOvercloses_singleton (isClosing_of_isOpening opening)).append after.never
      exact ih.append rest

end LeavesOpen

/-- What is wrong with the parentheses of the given terms: the first closing one that closes
nothing, or if there is none, the last opening one that is left open. -/
inductive Misplaced (given : List (Spanned Term)) : Failure → Prop where
  | unmatched {front back : List (Spanned Term)} {t : Spanned Term}
      (split : given = front ++ t :: back) (closing : isClosing t = true)
      (before : Balanced front) :
      Misplaced given ⟨.malformedExpression .unmatchedParen, some t.span⟩
  | unclosed {front back : List (Spanned Term)} {t : Spanned Term}
      (never : NeverOvercloses given) (split : given = front ++ t :: back)
      (opening : isOpening t = true) (after : Balanced back) :
      Misplaced given ⟨.malformedExpression .unclosedParen, some t.span⟩

theorem not_balanced_of_misplaced {given : List (Spanned Term)} {e : Failure}
    (misplaced : Misplaced given e) : ¬ Balanced given := by
  intro balanced
  cases misplaced with
  | @unmatched front back t split closing before =>
      have first := balanced.never (front.length + 1)
      have other : isOpening t = false := by
        obtain ⟨node, place⟩ := t
        cases node <;> first | rfl | cases closing
      have all := before.all
      rw [split, List.append_cons, List.take_left' (by simp)] at first
      simp only [List.countP_append, List.countP_singleton, closing, other, if_true,
        Bool.false_eq_true, if_false] at first
      omega
  | @unclosed front back t never split opening after =>
      have whole := balanced.all
      have first := never front.length
      have all := after.all
      rw [split, List.take_left] at first
      simp only [split, List.countP_append, List.countP_cons, opening,
        isClosing_of_isOpening opening, if_true, Bool.false_eq_true, if_false] at whole
      omega

theorem release_verdict (held : List (Spanned Term)) :
    Ensures (fun _ => held.filter isOpening = [])
      (fun e => ∃ t opens, held.filter isOpening = t :: opens ∧
        e = ⟨.malformedExpression .unclosedParen, some t.span⟩) (release held) := by
  induction held with
  | nil => rfl
  | cons t rest ih =>
      rw [release]
      by_cases opening : isOpening t = true
      · rw [if_pos opening]
        exact ⟨t, rest.filter isOpening, List.filter_cons_of_pos opening, rfl⟩
      · rw [if_neg opening, List.filter_cons_of_neg opening]
        exact ih.map fun _ _ none => none

theorem filter_isOpening_dropWhile (o : Operator) (held : List (Spanned Term)) :
    (held.dropWhile (goesBefore o)).filter isOpening = held.filter isOpening := by
  induction held with
  | nil => rfl
  | cons x rest ih =>
      by_cases goes : goesBefore o x = true
      · have other : ¬ isOpening x = true := by
          obtain ⟨node, place⟩ := x
          cases node <;> first | exact Bool.false_ne_true | cases goes
        rw [List.dropWhile_cons_of_pos goes, List.filter_cons_of_neg other, ih]
      · rw [List.dropWhile_cons_of_neg goes]

theorem filter_isOpening_eq (held : List (Spanned Term)) :
    held.filter isOpening = (held.dropWhile (!isOpening ·)).filter isOpening := by
  induction held with
  | nil => rfl
  | cons x rest ih =>
      by_cases opening : isOpening x = true
      · rw [List.dropWhile_cons_of_neg (by simp [opening])]
      · rw [List.dropWhile_cons_of_pos (by simp [opening]), List.filter_cons_of_neg opening, ih]

theorem isOpening_of_dropWhile {held outer : List (Spanned Term)} {x : Spanned Term}
    (found : held.dropWhile (!isOpening ·) = x :: outer) : isOpening x = true := by
  have := List.head?_dropWhile_not (!isOpening ·) held
  rw [found] at this
  simpa only [List.head?_cons, Bool.not_eq_eq_eq_not, Bool.not_false] using this

/-- Reordering succeeds if the parentheses are balanced and otherwise reports the one that is
misplaced. The terms held back remember the open ones among those read so far. -/
theorem reorder_verdict {held seen : List (Spanned Term)} (given : List (Spanned Term))
    (leaves : LeavesOpen seen (held.filter isOpening)) :
    Ensures (fun _ => Balanced (seen ++ given)) (Misplaced (seen ++ given))
      (reorder held given) := by
  induction given generalizing held seen with
  | nil =>
      rw [List.append_nil, reorder]
      refine (release_verdict held).mono ?_ ?_
      · intro _ _ none
        rw [none] at leaves
        cases leaves with
        | none balanced => exact balanced
      · rintro e ⟨t, opens, some, rfl⟩
        rw [some] at leaves
        have never := leaves.never
        cases leaves with
        | some before opening after => exact .unclosed never rfl opening after
  | cons t rest ih =>
      have onward {next : List (Spanned Term)}
          (leaves : LeavesOpen (seen ++ [t]) (next.filter isOpening)) :
          Ensures (fun _ => Balanced (seen ++ t :: rest)) (Misplaced (seen ++ t :: rest))
            (reorder next rest) := by
        rw [List.append_cons]
        exact ih leaves
      have through (other : isParenthesis t = false) :
          LeavesOpen (seen ++ [t]) (held.filter isOpening) :=
        leaves.append (balanced_singleton other)
      obtain ⟨node, place⟩ := t
      cases node with
      | operand v => exact (onward (through rfl)).map fun _ _ balanced => balanced
      | op o =>
          rw [reorder]
          dsimp only
          split
          · exact onward (through rfl)
          · refine (onward ?_).map fun _ _ balanced => balanced
            rw [List.filter_cons_of_neg Bool.false_ne_true, filter_isOpening_dropWhile]
            exact through rfl
      | lparen => exact onward (leaves.opened rfl)
      | rparen =>
          rw [filter_isOpening_eq] at leaves
          rw [reorder]
          dsimp only
          split
          · rename_i none
            rw [none] at leaves
            cases leaves with
            | none balanced => exact .unmatched rfl rfl balanced
          · rename_i x outer found
            rw [found, List.filter_cons_of_pos (isOpening_of_dropWhile found)] at leaves
            exact (onward (leaves.close rfl)).map fun _ _ balanced => balanced

theorem toPostfix_verdict (given : List (Spanned Term)) :
    Ensures (fun _ => Balanced given) (Misplaced given) (toPostfix given) := by
  have none : LeavesOpen [] (List.filter isOpening []) := .none balanced_nil
  exact reorder_verdict given none

/-- The queue, told by the terms and positions that it was made from: operands and operators and no
parentheses, the operands in their order, and no operator before an operand that it came after. -/
structure Orders (terms order : List (Spanned Term × Nat)) (queue : List (Spanned Term)) :
    Prop where
  queue_eq : order.map Prod.fst = queue
  perm : order.Perm (terms.filter fun x => !isParenthesis x.1)
  operands : order.filter (fun x => isOperand x.1) = terms.filter fun x => isOperand x.1
  after : order.Pairwise fun x y => isOperator x.1 = true → isOperand y.1 = true → x.2 < y.2

/-- What is held back: operators and opening parentheses that come before the rest. -/
structure HeldBefore (held rest : List (Spanned Term × Nat)) : Prop where
  kinds : ∀ x ∈ held, isOperator x.1 = true ∨ isOpening x.1 = true
  earlier : ∀ x ∈ held, ∀ y ∈ rest, x.2 < y.2

theorem isOperand_eq_false_of_isOperator {t : Spanned Term} (operator : isOperator t = true) :
    isOperand t = false := by
  obtain ⟨node, place⟩ := t
  cases node <;> first | rfl | cases operator

theorem isParenthesis_eq_false_of_isOperator {t : Spanned Term} (operator : isOperator t = true) :
    isParenthesis t = false := by
  obtain ⟨node, place⟩ := t
  cases node <;> first | rfl | cases operator

theorem filter_isParenthesis_eq_self {terms : List (Spanned Term × Nat)}
    (operators : ∀ x ∈ terms, isOperator x.1 = true) :
    terms.filter (fun x => !isParenthesis x.1) = terms := by
  rw [List.filter_eq_self]
  intro x member
  rw [isParenthesis_eq_false_of_isOperator (operators x member)]
  rfl

theorem filter_isOperand_eq_nil {terms : List (Spanned Term × Nat)}
    (others : ∀ x ∈ terms, isOperand x.1 = false) :
    terms.filter (fun x => isOperand x.1) = [] := by
  rw [List.filter_eq_nil_iff]
  intro x member
  rw [others x member]
  exact Bool.false_ne_true

theorem pairwise_of_others {terms : List (Spanned Term × Nat)}
    (others : ∀ x ∈ terms, isOperand x.1 = false) :
    terms.Pairwise fun x y => isOperator x.1 = true → isOperand y.1 = true → x.2 < y.2 := by
  apply List.pairwise_of_forall_mem_list
  intro x _ y member _ operand
  rw [others y member] at operand
  cases operand

namespace HeldBefore

variable {held rest : List (Spanned Term × Nat)} {t : Spanned Term × Nat}

theorem others (before : HeldBefore held rest) : ∀ x ∈ held, isOperand x.1 = false := by
  intro x member
  rcases before.kinds x member with operator | opening
  · exact isOperand_eq_false_of_isOperator operator
  · obtain ⟨⟨node, place⟩, n⟩ := x
    cases node <;> first | rfl | cases opening

theorem operators (before : HeldBefore held rest) (unopened : ∀ x ∈ held, isOpening x.1 = false) :
    ∀ x ∈ held, isOperator x.1 = true := by
  intro x member
  rcases before.kinds x member with operator | opening
  · exact operator
  · rw [unopened x member] at opening
    cases opening

theorem filter_append (before : HeldBefore held rest) :
    (held ++ rest).filter (fun x => isOperand x.1) = rest.filter fun x => isOperand x.1 := by
  rw [List.filter_append, filter_isOperand_eq_nil before.others, List.nil_append]

theorem tail (before : HeldBefore held (t :: rest)) : HeldBefore held rest :=
  ⟨before.kinds, fun x member y among => before.earlier x member y (List.mem_cons_of_mem t among)⟩

theorem mono {fewer : List (Spanned Term × Nat)} (before : HeldBefore held rest)
    (subset : ∀ x ∈ fewer, x ∈ held) : HeldBefore fewer rest :=
  ⟨fun x member => before.kinds x (subset x member),
    fun x member => before.earlier x (subset x member)⟩

theorem cons (before : HeldBefore held (t :: rest)) (first : ∀ y ∈ rest, t.2 < y.2)
    (kind : isOperator t.1 = true ∨ isOpening t.1 = true) : HeldBefore (t :: held) rest :=
  ⟨List.forall_mem_cons.mpr ⟨kind, before.kinds⟩,
    List.forall_mem_cons.mpr ⟨first, before.tail.earlier⟩⟩

end HeldBefore

namespace Orders

variable {held rest order : List (Spanned Term × Nat)} {queue : List (Spanned Term)}
  {t : Spanned Term × Nat}

/-- At the end everything that is held is released. -/
theorem released (before : HeldBefore held []) (unopened : ∀ x ∈ held, isOpening x.1 = false) :
    Orders held held (held.map Prod.fst) := by
  refine ⟨rfl, ?_, rfl, pairwise_of_others before.others⟩
  rw [filter_isParenthesis_eq_self (before.operators unopened)]

/-- An operand goes ahead of everything that is held back. -/
theorem operand (orders : Orders (held ++ rest) order queue) (before : HeldBefore held (t :: rest))
    (operand : isOperand t.1 = true) : Orders (held ++ t :: rest) (t :: order) (t.1 :: queue) := by
  have plain : isOperator t.1 = false ∧ isParenthesis t.1 = false := by
    obtain ⟨⟨node, place⟩, n⟩ := t
    cases node <;> first | exact ⟨rfl, rfl⟩ | cases operand
  refine ⟨by rw [List.map_cons, orders.queue_eq], ?_, ?_, ?_⟩
  · have moved : (t :: (held ++ rest)).Perm (held ++ t :: rest) := List.perm_middle.symm
    have filtered := moved.filter fun x => !isParenthesis x.1
    rw [List.filter_cons_of_pos (by simp [plain.2])] at filtered
    exact (orders.perm.cons t).trans filtered
  · rw [List.filter_cons, if_pos operand, orders.operands, before.tail.filter_append,
      before.filter_append, List.filter_cons, if_pos operand]
  · refine List.pairwise_cons.mpr ⟨fun y _ operator => ?_, orders.after⟩
    rw [plain.1] at operator
    cases operator

/-- Any other term releases operators, which come from before the rest. -/
theorem prepend {taken next : List (Spanned Term × Nat)}
    (orders : Orders (next ++ rest) order queue) (before : HeldBefore (taken ++ held) (t :: rest))
    (after : HeldBefore next rest) (other : isOperand t.1 = false)
    (operators : ∀ x ∈ taken, isOperator x.1 = true)
    (all : ((next ++ rest).filter fun x => !isParenthesis x.1).Perm
      ((held ++ t :: rest).filter fun x => !isParenthesis x.1)) :
    Orders (taken ++ held ++ t :: rest) (taken ++ order) (taken.map Prod.fst ++ queue) := by
  have others : ∀ x ∈ taken, isOperand x.1 = false :=
    fun x member => isOperand_eq_false_of_isOperator (operators x member)
  have operands : order.filter (fun x => isOperand x.1) = rest.filter fun x => isOperand x.1 := by
    rw [orders.operands, after.filter_append]
  refine ⟨by rw [List.map_append, orders.queue_eq], ?_, ?_, ?_⟩
  · rw [List.append_assoc, List.filter_append, filter_isParenthesis_eq_self operators]
    exact (orders.perm.trans all).append_left taken
  · rw [List.filter_append, filter_isOperand_eq_nil others, List.nil_append, operands,
      before.filter_append, List.filter_cons_of_neg (by simp [other])]
  · rw [List.pairwise_append]
    refine ⟨pairwise_of_others others, orders.after, ?_⟩
    intro x member y among _ operand
    have inside : y ∈ order.filter fun x => isOperand x.1 := List.mem_filter.mpr ⟨among, operand⟩
    rw [operands] at inside
    exact before.tail.earlier x (List.mem_append_left held member) y (List.mem_filter.mp inside).1

/-- A term that is held back and releases nothing. -/
theorem push (orders : Orders (t :: held ++ rest) order queue)
    (before : HeldBefore held (t :: rest)) (after : HeldBefore (t :: held) rest) :
    Orders (held ++ t :: rest) order queue := by
  have nothing : HeldBefore ([] ++ held) (t :: rest) := before
  exact orders.prepend nothing after (after.others t List.mem_cons_self) (List.forall_mem_nil _)
    (List.perm_middle.symm.filter _)

end Orders

theorem release_eq_ok {held queue : List (Spanned Term)} (made : release held = .ok queue) :
    queue = held ∧ ∀ t ∈ held, isOpening t = false := by
  induction held generalizing queue with
  | nil =>
      cases made
      exact ⟨rfl, List.forall_mem_nil _⟩
  | cons t rest ih =>
      rw [release] at made
      split at made
      · cases made
      · rename_i other
        obtain ⟨later, released, rfl⟩ := map_eq_ok made
        obtain ⟨rfl, none⟩ := ih released
        exact ⟨rfl, List.forall_mem_cons.mpr ⟨eq_false_of_ne_true other, none⟩⟩

theorem isOperator_of_goesBefore {o : Operator} {t : Spanned Term} (goes : goesBefore o t = true) :
    isOperator t = true := by
  obtain ⟨node, place⟩ := t
  cases node <;> first | rfl | cases goes

/-- What is released and what stays, with the positions. -/
theorem exists_held_split (p : Spanned Term → Bool) (held : List (Spanned Term × Nat)) :
    ∃ taken kept, held = taken ++ kept ∧ (∀ x ∈ taken, p x.1 = true) ∧
      (held.map Prod.fst).takeWhile p = taken.map Prod.fst ∧
      (held.map Prod.fst).dropWhile p = kept.map Prod.fst := by
  refine ⟨held.takeWhile (p ∘ Prod.fst), held.dropWhile (p ∘ Prod.fst),
    List.takeWhile_append_dropWhile.symm, ?_, List.takeWhile_map, List.dropWhile_map⟩
  intro x member
  exact (List.mem_takeWhile_imp member : (p ∘ Prod.fst) x = true)

/-- Terms with increasing positions are reordered as `Orders` says. -/
theorem exists_order {held given : List (Spanned Term × Nat)} {queue : List (Spanned Term)}
    (before : HeldBefore held given) (sorted : given.Pairwise fun x y => x.2 < y.2)
    (made : reorder (held.map Prod.fst) (given.map Prod.fst) = .ok queue) :
    ∃ order, Orders (held ++ given) order queue := by
  induction given generalizing held queue with
  | nil =>
      obtain ⟨rfl, unopened⟩ := release_eq_ok made
      rw [List.append_nil]
      exact ⟨held, .released before fun x member => unopened x.1 (List.mem_map_of_mem member)⟩
  | cons t rest ih =>
      obtain ⟨first, later⟩ := List.pairwise_cons.mp sorted
      obtain ⟨⟨node, place⟩, n⟩ := t
      cases node with
      | operand v =>
          obtain ⟨released, inner, rfl⟩ := map_eq_ok made
          obtain ⟨order, orders⟩ := ih before.tail later inner
          exact ⟨_, orders.operand before rfl⟩
      | op o =>
          rw [List.map_cons, reorder] at made
          dsimp only at made
          split at made
          · have after := before.cons first (.inl rfl)
            obtain ⟨order, orders⟩ := ih after later made
            exact ⟨_, orders.push before after⟩
          · obtain ⟨taken, kept, rfl, goes, front, back⟩ := exists_held_split (goesBefore o) held
            rw [front, back] at made
            obtain ⟨released, inner, rfl⟩ := map_eq_ok made
            have stays := before.mono fun x member => List.mem_append_right taken member
            have after := stays.cons first (.inl rfl)
            obtain ⟨order, orders⟩ := ih after later inner
            have operators x member := isOperator_of_goesBefore (goes x member)
            exact ⟨_, orders.prepend before after rfl operators (List.perm_middle.symm.filter _)⟩
      | lparen =>
          have after := before.cons first (.inr rfl)
          obtain ⟨order, orders⟩ := ih after later made
          exact ⟨_, orders.push before after⟩
      | rparen =>
          rw [List.map_cons, reorder] at made
          dsimp only at made
          obtain ⟨taken, kept, rfl, closed, front, back⟩ := exists_held_split (!isOpening ·) held
          have found := back
          rw [front, back] at made
          cases kept with
          | nil => cases made
          | cons opening outer =>
              obtain ⟨released, inner, rfl⟩ := map_eq_ok made
              have opens : isOpening opening.1 = true := isOpening_of_dropWhile found
              have stays := before.tail.mono fun x member =>
                List.mem_append_right taken (List.mem_cons_of_mem opening member)
              obtain ⟨order, orders⟩ := ih stays later inner
              have operators := (before.mono fun x => List.mem_append_left _).operators
                fun x member => Bool.not_eq_true' _ ▸ closed x member
              refine ⟨_, orders.prepend before stays rfl operators ?_⟩
              simp [isParenthesis, opens, isClosing]

/-- The terms of the queue are those given without the parentheses, the operands in the given order
and every operator after the operands that were given before it. -/
structure Reordered (given queue : List (Spanned Term)) : Prop where
  unparenthesized : ∀ t ∈ queue, isParenthesis t = false
  perm : queue.Perm (given.filter (!isParenthesis ·))
  operands : queue.filter isOperand = given.filter isOperand
  order : ∃ order, Orders given.zipIdx order queue

theorem reordered_of_toPostfix {given queue : List (Spanned Term)}
    (made : toPostfix given = .ok queue) : Reordered given queue := by
  have before : HeldBefore [] given.zipIdx := ⟨List.forall_mem_nil _, List.forall_mem_nil _⟩
  have sorted : given.zipIdx.Pairwise fun x y => x.2 < y.2 := by
    rw [← List.pairwise_map (f := Prod.snd) (R := (· < ·)), List.zipIdx_map_snd]
    exact List.pairwise_lt_range'
  obtain ⟨order, orders⟩ := exists_order before sorted (List.zipIdx_map_fst 0 given ▸ made)
  rw [List.nil_append] at orders
  have firsts (p : Spanned Term → Bool) :
      (given.zipIdx.filter (p ·.1)).map Prod.fst = given.filter p := by
    have whole := List.filter_map (p := p) (f := Prod.fst) (l := given.zipIdx)
    rw [List.zipIdx_map_fst] at whole
    exact whole.symm
  have perm : queue.Perm (given.filter (!isParenthesis ·)) := by
    rw [← orders.queue_eq, ← firsts]
    exact orders.perm.map _
  refine ⟨?_, perm, ?_, order, orders⟩
  · intro t member
    simpa using (List.mem_filter.mp (perm.subset member)).2
  · rw [← firsts, ← orders.operands, ← orders.queue_eq, List.filter_map]
    rfl

end Pseudocode.Term
