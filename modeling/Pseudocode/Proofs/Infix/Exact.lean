import Pseudocode.Proofs.Infix.Mapped
import Pseudocode.Proofs.Infix.Reordering
import Pseudocode.Proofs.Integer.Division

set_option autoImplicit false

namespace Pseudocode

open Integer (InRange)

/-- What an operator computes on unbounded integers. The last two are never asked: `/` gives no
whole number, and a sign has one operand. -/
def Operator.onIntegers : Operator → Int → Int → Int
  | .add, a, b => a + b
  | .sub, a, b => a - b
  | .mul, a, b => a * b
  | .intDiv, a, b => a.fdiv b
  | .mod, a, b => a.fmod b
  | .div, _, _ => 0
  | .neg, _, _ => 0

/-- `DIV` and `MOD`, which have no result for a divisor that is zero. -/
def Operator.dividesWhole : Operator → Bool
  | .intDiv | .mod => true
  | _ => false

namespace Arithmetic

theorem exactly_of_inRange (o : Operator) {n : Int} (inside : InRange n) :
    ∃ i : Int64, exactly o n = .ok (.integer i) ∧ i.toInt = n := by
  obtain ⟨i, value⟩ := (Integer.inRange_iff n).mp inside
  refine ⟨i, ?_, value⟩
  rw [exactly, (Integer.ofInt?_eq_some_iff n i).mpr value]

theorem exactly_of_not_inRange (o : Operator) {n : Int} (outside : ¬ InRange n) :
    exactly o n = fail (.overflow (.operation o)) := by
  rw [exactly, (Integer.ofInt?_eq_none_iff n).mpr outside]

theorem apply_integers {o : Operator} (two : o.isUnary = false) (whole : o ≠ .div) (a b : Int64) :
    apply o (.integer a) (.integer b) =
      if o.dividesWhole ∧ b.toInt = 0 then fail .divisionByZero
      else exactly o (o.onIntegers a.toInt b.toInt) := by
  cases o with
  | div => exact absurd rfl whole
  | neg => cases two
  | intDiv | mod =>
      simp only [Operator.dividesWhole, true_and]
      rfl
  | add | sub | mul =>
      simp only [Operator.dividesWhole, Bool.false_eq_true, false_and, ↓reduceIte]
      rfl

/-- `DIV` on INTEGERs is what 64 bits make of it. -/
theorem apply_intDiv (a : Int64) {b : Int64} (divisible : b ≠ 0) :
    apply .intDiv (.integer a) (.integer b) =
      match Integer.floorDiv? a b with
      | some q => .ok (.integer q)
      | none => fail (.overflow (.operation .intDiv)) := by
  rw [apply_integers rfl (by decide), if_neg fun zero => Integer.toInt_ne_zero divisible zero.2,
    Integer.floorDiv?_eq a divisible]
  rfl

theorem apply_mod (a : Int64) {b : Int64} (divisible : b ≠ 0) :
    apply .mod (.integer a) (.integer b) = .ok (.integer (Integer.floorMod a b)) := by
  rw [apply_integers rfl (by decide), if_neg fun zero => Integer.toInt_ne_zero divisible zero.2]
  simp only [Operator.onIntegers, ← Integer.toInt_floorMod a divisible, exactly,
    Integer.ofInt?_toInt]

end Arithmetic

namespace Infix

open Arithmetic

namespace Tree

def subtrees {β : Type} : Tree β → List (Tree β)
  | .operand b place => [.operand b place]
  | .negation sign t => t.subtrees ++ [.negation sign t]
  | .binary o two sign left right =>
      left.subtrees ++ right.subtrees ++ [.binary o two sign left right]

def exact : Tree Value → Int
  | .operand (.integer n) _ => n.toInt
  | .operand _ _ => 0
  | .negation _ t => -t.exact
  | .binary o _ _ left right => o.onIntegers left.exact right.exact

def divisor? : Tree Value → Option Int
  | .binary o _ _ _ right => if o.dividesWhole then some right.exact else none
  | _ => none

/-- The operation at the root can be carried out: its exact value is in range, and it does not
divide by zero. -/
def Fits (t : Tree Value) : Prop :=
  InRange t.exact ∧ t.divisor? ≠ some 0

instance (t : Tree Value) : Decidable t.Fits :=
  inferInstanceAs (Decidable (_ ∧ _))

def firstUnfit (t : Tree Value) : Option (Tree Value) :=
  t.subtrees.find? fun u => !decide u.Fits

def failure (t : Tree Value) : Kind :=
  if t.divisor? = some 0 then .divisionByZero else .overflow

/-- The value of a tree has been decided by the operation of `u`, which cannot be carried out. -/
def FailsAt (t u : Tree Value) : Prop :=
  ∃ e, t.value = .error e ∧ e.kind = u.failure ∧ e.span = some u.span

def IsExact (t : Tree Value) : Prop :=
  ∃ i : Int64, t.value = .ok (.integer i) ∧ i.toInt = t.exact

/-- The operation at the root decides the value. -/
structure Settled (t : Tree Value) : Prop where
  exact_of_fits : t.Fits → t.IsExact
  fails_of_unfit : ¬ t.Fits → t.FailsAt t

theorem settled_of_exactly {t : Tree Value} {o : Operator} (undivided : t.divisor? ≠ some 0)
    (computed : t.value = (exactly o t.exact).mapError (·.orSpan t.span)) : t.Settled := by
  constructor
  · intro fits
    obtain ⟨i, made, value⟩ := exactly_of_inRange o fits.1
    rw [made] at computed
    exact ⟨i, computed, value⟩
  · intro unfit
    have outside : ¬ InRange t.exact := fun inside => unfit ⟨inside, undivided⟩
    rw [exactly_of_not_inRange o outside] at computed
    refine ⟨_, computed, ?_, rfl⟩
    rw [failure, if_neg undivided]
    rfl

theorem settled_negation {sign : Span} {t : Tree Value} (inner : t.IsExact) :
    (negation sign t).Settled := by
  obtain ⟨i, made, value⟩ := inner
  refine settled_of_exactly (o := .neg) (by simp [divisor?]) ?_
  rw [Tree.value, made, exact, ← value]
  rfl

theorem settled_binary {o : Operator} {two : o.isUnary = false} {sign : Span}
    {left right : Tree Value} (whole : o ≠ .div) (first : left.IsExact) (second : right.IsExact) :
    (binary o two sign left right).Settled := by
  obtain ⟨i, before, value⟩ := first
  obtain ⟨j, after, value'⟩ := second
  have computed : (binary o two sign left right).value =
      (apply o (.integer i) (.integer j)).mapError
        (·.orSpan (binary o two sign left right).span) := by
    rw [Tree.value, before, after]
    rfl
  rw [apply_integers two whole, value, value'] at computed
  by_cases zero : o.dividesWhole ∧ right.exact = 0
  · have divided : (binary o two sign left right).divisor? = some 0 := by
      simp only [divisor?, zero, if_true]
    rw [if_pos zero] at computed
    refine ⟨fun fits => absurd divided fits.2, fun _ => ⟨_, computed, ?_, rfl⟩⟩
    rw [failure, if_pos divided]
    rfl
  · rw [if_neg zero] at computed
    refine settled_of_exactly ?_ computed
    intro divided
    simp only [divisor?, Option.ite_none_right_eq_some, Option.some.injEq] at divided
    exact zero divided

theorem firstUnfit_eq_none_iff (t : Tree Value) :
    t.firstUnfit = none ↔ ∀ u ∈ t.subtrees, u.Fits := by
  simp [firstUnfit]

theorem isExact_of_fits {t : Tree Value} (whole : t.Whole) (fits : ∀ u ∈ t.subtrees, u.Fits) :
    t.IsExact := by
  induction t with
  | operand v place =>
      obtain ⟨n, rfl⟩ := whole
      exact ⟨n, rfl, rfl⟩
  | negation sign t ih =>
      simp only [subtrees, List.forall_mem_append, List.forall_mem_singleton] at fits
      exact (settled_negation (ih whole fits.1)).exact_of_fits fits.2
  | binary o two sign left right first second =>
      simp only [subtrees, List.forall_mem_append, List.forall_mem_singleton] at fits
      obtain ⟨⟨before, after⟩, root⟩ := fits
      exact (settled_binary whole.1 (first whole.2.1 before)
        (second whole.2.2 after)).exact_of_fits root

theorem FailsAt.negation {sign : Span} {t u : Tree Value} (fails : t.FailsAt u) :
    (Tree.negation sign t).FailsAt u := by
  obtain ⟨e, failed, about⟩ := fails
  refine ⟨e, ?_, about⟩
  rw [Tree.value, failed]
  rfl

theorem FailsAt.left {o : Operator} {two : o.isUnary = false} {sign : Span} {l r u : Tree Value}
    (fails : l.FailsAt u) : (Tree.binary o two sign l r).FailsAt u := by
  obtain ⟨e, failed, about⟩ := fails
  refine ⟨e, ?_, about⟩
  rw [Tree.value, failed]
  rfl

theorem FailsAt.right {o : Operator} {two : o.isUnary = false} {sign : Span} {l r u : Tree Value}
    (first : l.IsExact) (fails : r.FailsAt u) : (Tree.binary o two sign l r).FailsAt u := by
  obtain ⟨i, made, _⟩ := first
  obtain ⟨e, failed, about⟩ := fails
  refine ⟨e, ?_, about⟩
  rw [Tree.value, made, failed]
  rfl

/-- The first operation in postorder that cannot be carried out is the one that fails. -/
theorem failsAt_firstUnfit {t u : Tree Value} (whole : t.Whole) (found : t.firstUnfit = some u) :
    t.FailsAt u := by
  have at_root {w : Tree Value} (settled : w.Settled)
      (last : [w].find? (fun v => !decide v.Fits) = some u) : w.FailsAt u := by
    simp only [List.find?_singleton, Option.ite_none_right_eq_some, Option.some.injEq] at last
    obtain ⟨unfit, rfl⟩ := last
    exact settled.fails_of_unfit (by simpa using unfit)
  induction t with
  | operand v place =>
      obtain ⟨n, rfl⟩ := whole
      have fits : (Tree.operand (.integer n) place).Fits :=
        ⟨Integer.inRange_toInt n, by simp [divisor?]⟩
      simp [firstUnfit, subtrees, fits] at found
  | negation sign t ih =>
      rw [firstUnfit, subtrees, List.find?_append, Option.or_eq_some_iff] at found
      rcases found with inside | ⟨none, last⟩
      · exact (ih whole inside).negation
      · have inner : t.IsExact := isExact_of_fits whole ((firstUnfit_eq_none_iff t).mp none)
        exact at_root (settled_negation inner) last
  | binary o two sign left right first second =>
      rw [firstUnfit, subtrees, List.append_assoc, List.find?_append, List.find?_append,
        Option.or_eq_some_iff, Option.or_eq_some_iff] at found
      rcases found with inside | ⟨none, later⟩
      · exact (first whole.2.1 inside).left
      · have before := isExact_of_fits whole.2.1 ((firstUnfit_eq_none_iff left).mp none)
        rcases later with inside | ⟨none, last⟩
        · exact (second whole.2.2 inside).right before
        · have after := isExact_of_fits whole.2.2 ((firstUnfit_eq_none_iff right).mp none)
          exact at_root (settled_binary whole.1 before after) last

end Tree

open Term (toPostfix evaluate)

/-- INTEGER arithmetic is exact or refused. The stack machine finds a whole number exactly if every
operation of the expression can be carried out, and then it is the exact value; otherwise the first
operation in postorder that cannot be carried out fails, for its divisor or for its size. `DIV` and
`MOD` go to the floor, and no step that 64 bits take to compute them wraps around. -/
theorem integer_arithmetic_exact {given : List (Spanned Term)} {t : Tree Value}
    (derived : Derives .sum (Term.symbols given) t) (whole : ∀ x ∈ given, x.node.symbol.Whole) :
    (∃ queue, toPostfix given = .ok queue ∧
      (∀ r : Int64, evaluate queue = .ok (.integer r) ↔
        (∀ u ∈ t.subtrees, u.Fits) ∧ r.toInt = t.exact) ∧
      (∀ u, t.firstUnfit = some u →
        ∃ e, evaluate queue = .error e ∧ e.kind = u.failure ∧ e.span = some u.span) ∧
      (t.firstUnfit = none ↔ ∀ u ∈ t.subtrees, u.Fits)) ∧
    (∀ a b : Int, b ≠ 0 → a = b * a.fdiv b + a.fmod b ∧ (a.fmod b).natAbs < b.natAbs ∧
      (a.fmod b = 0 ∨ (a.fmod b).sign = b.sign)) ∧
    (∀ a b : Int64, b ≠ 0 → Integer.DivisionExact a b ∧
      apply .mod (.integer a) (.integer b) = .ok (.integer (Integer.floorMod a b)) ∧
      apply .intDiv (.integer a) (.integer b) =
        match Integer.floorDiv? a b with
        | some q => .ok (.integer q)
        | none => fail (.overflow (.operation .intDiv))) ∧
    apply .intDiv (.integer Int64.minValue) (.integer (-1)) =
      fail (.overflow (.operation .intDiv)) ∧
    apply .mod (.integer Int64.minValue) (.integer (-1)) = .ok (.integer 0) := by
  have reordered := toPostfix_terms derived
  rw [terms_symbols] at reordered
  have integers : t.Whole := by
    refine derived.whole fun s member => ?_
    obtain ⟨x, among, rfl⟩ := List.mem_map.mp member
    exact whole x among
  refine ⟨⟨t.postorder, reordered, ?_, ?_, t.firstUnfit_eq_none_iff⟩,
    fun a b divisible => Integer.fdiv_fmod_law a divisible,
    fun a b divisible => ⟨Integer.divisionExact divisible, apply_mod a divisible,
      apply_intDiv a divisible⟩, by decide, by decide⟩
  · intro r
    rw [evaluate_postorder]
    constructor
    · intro made
      cases found : t.firstUnfit with
      | some u =>
          obtain ⟨e, failed, _⟩ := Tree.failsAt_firstUnfit integers found
          rw [failed] at made
          cases made
      | none =>
          have fits := t.firstUnfit_eq_none_iff.mp found
          obtain ⟨i, value, exact_value⟩ := Tree.isExact_of_fits integers fits
          rw [value, Except.ok.injEq, Value.integer.injEq] at made
          exact ⟨fits, made ▸ exact_value⟩
    · rintro ⟨fits, same⟩
      obtain ⟨i, value, exact_value⟩ := Tree.isExact_of_fits integers fits
      rw [value, Int64.toInt_inj.mp (same.trans exact_value.symm)]
  · intro u found
    rw [evaluate_postorder]
    exact Tree.failsAt_firstUnfit integers found

/-- `(0 - 9223372036854775807 - 1) DIV -1` divides the least INTEGER by `-1`: every operation can be
carried out but the last. -/
theorem integer_arithmetic_exact_least_negated :
    let least : Tree Value :=
      .binary .sub rfl ⟨25, 26⟩
        (.binary .sub rfl ⟨3, 4⟩ (.operand (.integer 0) ⟨1, 2⟩)
          (.operand (.integer Int64.maxValue) ⟨5, 24⟩))
        (.operand (.integer 1) ⟨27, 28⟩)
    let t : Tree Value :=
      .binary .intDiv rfl ⟨30, 33⟩ least (.negation ⟨34, 35⟩ (.operand (.integer 1) ⟨35, 36⟩))
    let given : List (Spanned Term) :=
      [⟨.lparen, ⟨0, 1⟩⟩, ⟨.operand (.integer 0), ⟨1, 2⟩⟩, ⟨.op .sub, ⟨3, 4⟩⟩,
        ⟨.operand (.integer Int64.maxValue), ⟨5, 24⟩⟩, ⟨.op .sub, ⟨25, 26⟩⟩,
        ⟨.operand (.integer 1), ⟨27, 28⟩⟩, ⟨.rparen, ⟨28, 29⟩⟩, ⟨.op .intDiv, ⟨30, 33⟩⟩,
        ⟨.op .neg, ⟨34, 35⟩⟩, ⟨.operand (.integer 1), ⟨35, 36⟩⟩]
    Derives .sum (Term.symbols given) t ∧ (∀ x ∈ given, x.node.symbol.Whole) ∧
      t.firstUnfit = some t ∧
      ∃ queue, toPostfix given = .ok queue ∧
        ∃ e, evaluate queue = .error e ∧ e.kind = .overflow := by
  intro least t given
  have operand (v : Value) (place : Span) :
      Derives .signed [⟨.operand v, place⟩] (.operand v place) := .primary (.operand v place)
  have subtraction : Derives .sum (Term.symbols (given.drop 1 |>.take 5)) least :=
    .add (by decide) (.add (by decide) (.product (.signed (operand _ _))) (.signed (operand _ _)))
      (.signed (operand _ _))
  have derived : Derives .sum (Term.symbols given) t :=
    .product (.multiply (by decide) (.signed (.primary (.parens subtraction)))
      (.negate (operand _ _)))
  have whole : ∀ x ∈ given, x.node.symbol.Whole := by
    simp [given, Term.symbol, Symbol.Whole]
  have last : t.firstUnfit = some t := by rfl
  obtain ⟨⟨queue, reordered, _, fails, _⟩, _⟩ := integer_arithmetic_exact derived whole
  obtain ⟨e, failed, kind, _⟩ := fails t last
  exact ⟨derived, whole, last, queue, reordered, e, failed, kind⟩

end Infix

end Pseudocode
