import Mathlib.Algebra.Ring.Int.Defs
import Mathlib.Data.List.Forall2
import Pseudocode.Proofs.Infix.Placement
import Pseudocode.Proofs.Result
import Pseudocode.Proofs.Scan

set_option autoImplicit false

namespace Pseudocode

namespace Infix

variable {β γ : Type}

def Symbol.weight : Symbol β → Int
  | .lparen => 1
  | .rparen => -1
  | _ => 0

def Symbol.isPlus : Symbol β → Bool
  | .op .add => true
  | _ => false

/-- The scan that cuts at a `+` outside parentheses. -/
def scan : Scan Int (Spanned (Symbol β)) :=
  .weighing (·.node.weight) (·.node.isPlus)

/-- The parentheses close, and never more than were opened. -/
abbrev Nests (d : Int) (symbols : List (Spanned (Symbol β))) : Prop :=
  Scan.Nests (·.node.weight) d symbols

theorem nests_of_balanced {depth : Nat} {symbols : List (Spanned (Symbol β))}
    (closed : balanced depth symbols = true) : Nests depth symbols := by
  induction symbols generalizing depth with
  | nil =>
      rw [beq_iff_eq.mp closed]
      rfl
  | cons s rest ih =>
      obtain ⟨node, place⟩ := s
      have above : (0 : Int) ≤ depth := by omega
      cases node with
      | operand b => exact .cons (Int.add_zero _) above (ih closed)
      | op o => exact .cons (Int.add_zero _) above (ih closed)
      | lparen => exact .cons (e := ((depth + 1 : Nat) : Int)) rfl (by omega) (ih closed)
      | rparen =>
          cases depth with
          | zero => cases closed
          | succ depth => exact .cons (Int.add_sub_cancel depth 1) (by omega) (ih closed)

theorem Derives.nests {level : Level} {symbols : List (Spanned (Symbol β))} {t : Tree β}
    (derived : Derives level symbols t) : Nests 0 symbols := by
  induction derived with
  | product _ ih => exact ih
  | add _ _ _ first second => exact first.append (.cons rfl (Int.le_refl 0) second) (Int.le_refl 0)
  | signed _ ih => exact ih
  | multiply _ _ _ first second =>
      exact first.append (.cons rfl (Int.le_refl 0) second) (Int.le_refl 0)
  | primary _ ih => exact ih
  | negate _ ih => exact .cons rfl (Int.le_refl 0) ih
  | operand b place => exact .cons rfl (Int.le_refl 0) rfl
  | @parens symbols _ opening closing _ ih =>
      have last : Nests 1 [(⟨.rparen, closing⟩ : Spanned (Symbol β))] :=
        .cons rfl (Int.le_refl 0) rfl
      exact .cons rfl Int.one_nonneg (ih.append last Int.one_nonneg)

theorem Derives.run {level : Level} {symbols : List (Spanned (Symbol β))} {t : Tree β}
    (derived : Derives level symbols t) (d : Int) : scan.run d symbols = d := by
  have closed := derived.nests.run (·.node.isPlus) d
  rwa [Int.zero_add] at closed

theorem passes_singleton {node : Symbol β} (other : node.isPlus = false) (place : Span) (d : Int) :
    scan.Passes d [⟨node, place⟩] := by
  refine (Scan.passes_cons_iff _ _ _ _).mpr ⟨Scan.weighing_passes fun plus => ?_, rfl⟩
  rw [other] at plus
  cases plus

theorem isPlus_of_mem_multiplicative {o : Operator} (member : o ∈ multiplicative) :
    (Symbol.op o : Symbol β).isPlus = false := by
  revert member
  cases o <;> first | exact fun _ => rfl | exact fun member => absurd member (by decide)

/-- A phrase that is no sum is not cut. -/
theorem Derives.passes {level : Level} {symbols : List (Spanned (Symbol β))} {t : Tree β}
    (derived : Derives level symbols t) (tight : level ≠ .sum) : scan.Passes 0 symbols := by
  induction derived with
  | product => exact absurd rfl tight
  | add => exact absurd rfl tight
  | signed _ ih => exact ih (by decide)
  | @multiply left right l r o sign member first _ before after =>
      have operator := passes_singleton (isPlus_of_mem_multiplicative (β := β) member) sign 0
      refine (Scan.passes_append_iff _ _ _ _).mpr ⟨before (by decide), ?_⟩
      rw [first.run]
      exact (Scan.passes_append_iff _ _ [_] right).mpr ⟨operator, after (by decide)⟩
  | primary _ ih => exact ih (by decide)
  | @negate symbols t sign _ ih =>
      exact (Scan.passes_append_iff _ _ [_] symbols).mpr ⟨passes_singleton rfl sign 0, ih tight⟩
  | operand b place => exact passes_singleton rfl place 0
  | @parens symbols t opening closing inner _ =>
      have within : scan.Passes 1 symbols := inner.nests.passes _ (Int.le_refl 0) Int.one_pos
      refine (Scan.passes_append_iff _ _ [_] _).mpr ⟨passes_singleton rfl opening 0, ?_⟩
      refine (Scan.passes_append_iff _ _ symbols _).mpr ⟨within, passes_singleton rfl closing _⟩

theorem cut_append_plus {left : List (Spanned (Symbol β))} (reached : scan.run 0 left = 0)
    (sign : Span) (right : List (Spanned (Symbol β))) :
    scan.cut 0 (left ++ ⟨.op .add, sign⟩ :: right) = scan.cut 0 left ++ scan.cut 0 right := by
  rw [Scan.cut_append_cons, reached]
  · rfl
  · rw [reached]
    rfl

/-- `Regroups t trees`: the tree of a sum, and the trees of its summands after it was cut at `+`. -/
inductive Regroups : Tree β → List (Tree β) → Prop where
  | whole (t : Tree β) : Regroups t [t]
  | add {l r : Tree β} {trees : List (Tree β)} {two : Operator.add.isUnary = false} {sign : Span}
      (first : Regroups l trees) : Regroups (.binary .add two sign l r) (trees ++ [r])
  | sub {l r last : Tree β} {front : List (Tree β)} {two : Operator.sub.isUnary = false}
      {sign : Span} (first : Regroups l (front ++ [last])) :
      Regroups (.binary .sub two sign l r) (front ++ [.binary .sub two sign last r])

theorem Regroups.ne_nil {t : Tree β} {trees : List (Tree β)} (regroups : Regroups t trees) :
    trees ≠ [] := by
  cases regroups <;> simp

theorem exists_of_forall₂_concat {α δ : Type} {related : α → δ → Prop} {front : List α} {last : α}
    {others : List δ} (all : List.Forall₂ related (front ++ [last]) others) :
    ∃ first final, others = first ++ [final] ∧ List.Forall₂ related front first ∧
      related last final := by
  induction front generalizing others with
  | nil =>
      cases all with
      | cons one none =>
          cases none
          exact ⟨[], _, rfl, .nil, one⟩
  | cons x front ih =>
      cases all with
      | cons one rest =>
          obtain ⟨first, final, rfl, before, after⟩ := ih rest
          exact ⟨_ :: first, final, rfl, .cons one before, after⟩

/-- The phrases between the cuts of a sum are sums whose trees regroup its tree. -/
theorem Derives.regroups {symbols : List (Spanned (Symbol β))} {t : Tree β}
    (derived : Derives .sum symbols t) :
    ∃ trees, Regroups t trees ∧ List.Forall₂ (Derives .sum) (scan.cut 0 symbols) trees := by
  generalize atSum : Level.sum = level at derived
  induction derived with
  | @product symbols t whole _ =>
      rw [whole.passes (by decide)]
      exact ⟨[t], .whole t, .cons (.product whole) .nil⟩
  | @add left right l r o sign member first second ih _ =>
      obtain ⟨trees, regroups, phrases⟩ := ih rfl
      have reached := first.run 0
      have uncut : scan.cut 0 right = [right] := second.passes (by decide)
      simp only [additive, List.mem_cons, List.not_mem_nil, or_false] at member
      rcases member with rfl | rfl
      · rw [cut_append_plus reached, uncut]
        exact ⟨trees ++ [r], .add regroups, List.rel_append phrases (.cons (.product second) .nil)⟩
      · have passes : scan.Passes (scan.run 0 left) (⟨.op .sub, sign⟩ :: right) := by
          rw [reached]
          exact (Scan.passes_append_iff _ _ [_] right).mpr ⟨passes_singleton rfl sign 0, uncut⟩
        obtain ⟨front, last, before, after⟩ := scan.cut_append_last left passes
        rw [before] at phrases
        obtain ⟨trees, tree, rfl, firsts, final⟩ := exists_of_forall₂_concat phrases
        rw [after]
        exact ⟨trees ++ [.binary .sub rfl sign tree r], .sub regroups,
          List.rel_append firsts (.cons (.add (by decide) final second) .nil)⟩
  | _ => cases atSum

/-- All operands are INTEGERs and no operator is `/`. -/
def Tree.Whole : Tree Value → Prop
  | .operand v _ => ∃ n, v = .integer n
  | .negation _ t => t.Whole
  | .binary o _ _ left right => o ≠ .div ∧ left.Whole ∧ right.Whole

theorem exists_integer_of_exactly {o : Operator} {n : Int} {v : Value}
    (made : Arithmetic.exactly o n = .ok v) : ∃ i, v = .integer i := by
  unfold Arithmetic.exactly at made
  split at made
  · rename_i i _
    exact ⟨i, (Except.ok.inj made).symm⟩
  · cases made

/-- An operation on INTEGERs other than `/` gives an INTEGER if anything. -/
theorem exists_integer_of_apply {o : Operator} (whole : o ≠ .div) {a b : Int64} {v : Value}
    (made : Arithmetic.apply o (.integer a) (.integer b) = .ok v) : ∃ i, v = .integer i := by
  have divided : ∀ (o : Operator) (f : Int → Int → Int),
      Arithmetic.divideWhole o f (.integer a) (.integer b) = .ok v → ∃ i, v = .integer i := by
    intro o f made
    change (if b.toInt = 0 then fail .divisionByZero else
      Arithmetic.exactly o (f a.toInt b.toInt)) = .ok v at made
    split at made
    · cases made
    · exact exists_integer_of_exactly made
  cases o with
  | add => exact exists_integer_of_exactly made
  | sub => exact exists_integer_of_exactly made
  | mul => exact exists_integer_of_exactly made
  | div => exact absurd rfl whole
  | intDiv => exact divided _ _ made
  | mod => exact divided _ _ made
  | neg => cases made

theorem Tree.Whole.exists_integer {t : Tree Value} (whole : t.Whole) {v : Value}
    (valued : t.value = .ok v) : ∃ i, v = .integer i := by
  induction t generalizing v with
  | operand w place =>
      cases valued
      exact whole
  | negation sign t ih =>
      obtain ⟨w, inner, valued⟩ := bind_eq_ok valued
      obtain ⟨i, rfl⟩ := ih whole inner
      exact exists_integer_of_exactly (mapError_eq_ok valued)
  | binary o two sign left right first second =>
      obtain ⟨a, before, valued⟩ := bind_eq_ok valued
      obtain ⟨b, after, valued⟩ := bind_eq_ok valued
      obtain ⟨i, rfl⟩ := first whole.2.1 before
      obtain ⟨j, rfl⟩ := second whole.2.2 after
      exact exists_integer_of_apply whole.1 (mapError_eq_ok valued)

/-- The result is the whole number `n`, or an overflow. -/
def Yields (r : Result Value) (n : Int) : Prop :=
  (∃ i : Int64, r = .ok (.integer i) ∧ i.toInt = n) ∨ ∃ e, r = .error e ∧ e.kind = .overflow

theorem yields_exactly (o : Operator) (n : Int) : Yields (Arithmetic.exactly o n) n := by
  unfold Arithmetic.exactly
  split
  · rename_i i found
    exact .inl ⟨i, rfl, (Integer.ofInt?_eq_some_iff n i).mp found⟩
  · exact .inr ⟨_, rfl, rfl⟩

theorem Yields.eq_integer {r : Result Value} {n : Int} (yields : Yields r n) {v : Value}
    (made : r = .ok v) : ∃ i : Int64, v = .integer i ∧ i.toInt = n := by
  rcases yields with ⟨i, same, value⟩ | ⟨e, failed, _⟩
  · rw [same, Except.ok.injEq] at made
    exact ⟨i, made.symm, value⟩
  · rw [failed] at made
    cases made

theorem Yields.kind_eq {r : Result Value} {n : Int} (yields : Yields r n) {e : Failure}
    (failed : r = .error e) : e.kind = .overflow := by
  rcases yields with ⟨i, same, _⟩ | ⟨e', same, overflow⟩
  · rw [same] at failed
    cases failed
  · rw [same, Except.error.injEq] at failed
    rw [← failed]
    exact overflow

theorem Yields.of_unplaced {r s : Result Value} {n : Int} (yields : Yields r n)
    (same : unplaced r = unplaced s) : Yields s n := by
  rcases yields with ⟨i, made, exact_value⟩ | ⟨e, rfl, overflow⟩
  · exact .inl ⟨i, eq_ok_of_unplaced same made, exact_value⟩
  · cases s with
    | error e' =>
        have cause : e.cause = e'.cause := Except.error.inj same
        exact .inr ⟨e', rfl, by rw [Failure.kind, ← cause]; exact overflow⟩
    | ok v => cases same

theorem Yields.bind {r : Result Value} {f : Value → Result Value} {m n : Int} (first : Yields r m)
    (second : ∀ i : Int64, i.toInt = m → Yields (f (.integer i)) n) : Yields (r >>= f) n := by
  rcases first with ⟨i, rfl, value⟩ | ⟨e, rfl, overflow⟩
  · exact second i value
  · exact .inr ⟨e, rfl, overflow⟩

/-- A sum or difference whose right part has a value. -/
theorem Yields.binary {o : Operator} {two : o.isUnary = false} {sign : Span} {l r : Tree Value}
    (op : Int → Int → Int) {m : Int} {j : Int64}
    (applies : ∀ a b : Int64,
      Arithmetic.apply o (.integer a) (.integer b) = Arithmetic.exactly o (op a.toInt b.toInt))
    (left : Yields l.value m) (right : r.value = .ok (.integer j)) :
    Yields (Tree.binary o two sign l r).value (op m j.toInt) := by
  refine left.bind fun i value => ?_
  rw [right]
  refine (yields_exactly o (op m j.toInt)).of_unplaced ?_
  rw [← value, ← applies]
  change _ = unplaced ((Arithmetic.apply o (.integer i) (.integer j)).mapError
    (·.orSpan ((l.span.merge r.span).merge sign)))
  rw [unplaced_mapError]
  exact fun _ => rfl

theorem Tree.fails_of_left {o : Operator} {two : o.isUnary = false} {sign : Span} {l : Tree Value}
    (r : Tree Value) (failed : ∃ e, l.value = .error e) :
    ∃ e, (Tree.binary o two sign l r).value = .error e := by
  obtain ⟨e, failed⟩ := failed
  exact ⟨e, by rw [Tree.value, failed]; rfl⟩

theorem Tree.fails_of_right {o : Operator} {two : o.isUnary = false} {sign : Span} {r : Tree Value}
    (l : Tree Value) (failed : ∃ e, r.value = .error e) :
    ∃ e, (Tree.binary o two sign l r).value = .error e := by
  obtain ⟨e, failed⟩ := failed
  cases first : l.value with
  | error e' => exact ⟨e', by rw [Tree.value, first]; rfl⟩
  | ok v => exact ⟨e, by rw [Tree.value, first, failed]; rfl⟩

/-- Summands with exact values add up to the value of the sum; where a summand fails for another
reason, the sum fails too. -/
theorem Regroups.yields {t : Tree Value} {trees : List (Tree Value)} (regroups : Regroups t trees)
    (whole : t.Whole) :
    (∃ ns, List.Forall₂ (fun tree n => Yields tree.value n) trees ns ∧ Yields t.value ns.sum) ∨
      (∃ tree ∈ trees, ∃ e, tree.value = .error e) ∧ ∃ e, t.value = .error e := by
  induction regroups with
  | whole t =>
      cases valued : t.value with
      | error e => exact .inr ⟨⟨t, List.mem_singleton_self t, e, valued⟩, e, rfl⟩
      | ok v =>
          obtain ⟨i, rfl⟩ := whole.exists_integer valued
          refine .inl ⟨[i.toInt], .cons (.inl ⟨i, valued, rfl⟩) .nil, .inl ⟨i, rfl, ?_⟩⟩
          simp
  | @add l r trees two sign _ ih =>
      rcases ih whole.2.1 with ⟨ns, summands, sum⟩ | ⟨⟨tree, member, failed⟩, lost⟩
      · cases valued : r.value with
        | error e =>
            exact .inr ⟨⟨r, List.mem_append_right _ (List.mem_singleton_self r), e, valued⟩,
              Tree.fails_of_right l ⟨e, valued⟩⟩
        | ok v =>
            obtain ⟨j, rfl⟩ := whole.2.2.exists_integer valued
            refine .inl ⟨ns ++ [j.toInt],
              List.rel_append summands (.cons (.inl ⟨j, valued, rfl⟩) .nil), ?_⟩
            rw [List.sum_append, List.sum_singleton]
            exact sum.binary (· + ·) (fun _ _ => rfl) valued
      · exact .inr ⟨⟨tree, List.mem_append_left _ member, failed⟩, Tree.fails_of_left r lost⟩
  | @sub l r last front two sign _ ih =>
      rcases ih whole.2.1 with ⟨ns, summands, sum⟩ | ⟨⟨tree, member, failed⟩, lost⟩
      · cases valued : r.value with
        | error e =>
            exact .inr ⟨⟨_, List.mem_append_right _ (List.mem_singleton_self _),
              Tree.fails_of_right last ⟨e, valued⟩⟩,
              Tree.fails_of_right l ⟨e, valued⟩⟩
        | ok v =>
            obtain ⟨j, rfl⟩ := whole.2.2.exists_integer valued
            obtain ⟨ns, n, rfl, firsts, final⟩ := exists_of_forall₂_concat summands
            -- What is subtracted from the sum is subtracted from its last summand.
            have difference : Yields (Tree.binary .sub two sign last r).value (n - j.toInt) :=
              final.binary (· - ·) (fun _ _ => rfl) valued
            refine .inl ⟨ns ++ [n - j.toInt], List.rel_append firsts (.cons difference .nil), ?_⟩
            have total : (ns ++ [n - j.toInt]).sum = (ns ++ [n]).sum - j.toInt := by
              simp only [List.sum_append, List.sum_singleton]
              omega
            rw [total]
            exact sum.binary (· - ·) (fun _ _ => rfl) valued
      · rcases List.mem_append.mp member with before | final
        · exact .inr ⟨⟨tree, List.mem_append_left _ before, failed⟩, Tree.fails_of_left r lost⟩
        · rw [List.mem_singleton.mp final] at failed
          exact .inr ⟨⟨_, List.mem_append_right _ (List.mem_singleton_self _),
            Tree.fails_of_left r failed⟩, Tree.fails_of_left r lost⟩

end Infix

end Pseudocode
