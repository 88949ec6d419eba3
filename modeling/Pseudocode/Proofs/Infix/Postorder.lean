import Pseudocode.Proofs.Infix.Exact

set_option autoImplicit false

namespace Pseudocode

def Operator.arity (o : Operator) : Nat :=
  if o.isUnary then 1 else 2

namespace Infix

open Term (step evaluate result)

/-- The trees after one more term, the latest first: an operand is a tree of its own, an operator
takes the latest trees for its operands. -/
def grow (trees : List (Tree Value)) (t : Spanned Term) : Option (List (Tree Value)) :=
  match t.node with
  | .operand v => some (.operand v t.span :: trees)
  | .op o =>
      if two : o.isUnary = false then
        match trees with
        | right :: left :: rest => some (.binary o two t.span left right :: rest)
        | _ => none
      else
        match trees with
        | x :: rest => some (.negation t.span x :: rest)
        | [] => none
  | .lparen | .rparen => none

def postorders (trees : List (Tree Value)) : List (Spanned Term) :=
  trees.flatMap Tree.postorder

theorem postorders_append (first second : List (Tree Value)) :
    postorders (first ++ second) = postorders first ++ postorders second :=
  List.flatMap_append

theorem postorders_singleton (t : Tree Value) : postorders [t] = t.postorder :=
  List.flatMap_singleton _ _

theorem grow_negation (t : Tree Value) (sign : Span) (trees : List (Tree Value)) :
    grow (t :: trees) ⟨.op .neg, sign⟩ = some (.negation sign t :: trees) := rfl

theorem grow_binary {o : Operator} (two : o.isUnary = false) (sign : Span)
    (left right : Tree Value) (trees : List (Tree Value)) :
    grow (right :: left :: trees) ⟨.op o, sign⟩ =
      some (.binary o two sign left right :: trees) := by
  simp only [grow, two, dite_true]

theorem foldlM_grow_postorder (t : Tree Value) (trees : List (Tree Value)) :
    t.postorder.foldlM grow trees = some (t :: trees) := by
  induction t generalizing trees with
  | operand v place => rfl
  | negation sign t ih =>
      rw [Tree.postorder, List.foldlM_append, ih]
      exact grow_negation t sign trees
  | binary o two sign left right first second =>
      rw [Tree.postorder, List.foldlM_append, List.foldlM_append, first]
      change (right.postorder.foldlM grow (left :: trees) >>= _) = _
      rw [second]
      change (grow (right :: left :: trees) ⟨.op o, sign⟩ >>= fun _ => _) = _
      rw [grow_binary two]
      rfl

theorem postorder_injective {t u : Tree Value} (same : t.postorder = u.postorder) : t = u := by
  have first := foldlM_grow_postorder t []
  rw [same, foldlM_grow_postorder u []] at first
  exact (List.cons.inj (Option.some.inj first)).1.symm

/-- Nothing is lost: the trees after a term have the postorder of those before it and the term. -/
theorem postorders_of_grow {trees next : List (Tree Value)} {t : Spanned Term}
    (made : grow trees t = some next) :
    postorders next.reverse = postorders trees.reverse ++ [t] := by
  obtain ⟨node, place⟩ := t
  cases node with
  | operand v =>
      cases made
      rw [List.reverse_cons, postorders_append, postorders_singleton]
      rfl
  | op o =>
      simp only [grow] at made
      split at made
      · rcases trees with _ | ⟨right, _ | ⟨left, rest⟩⟩
        · cases made
        · cases made
        · cases made
          simp only [List.reverse_cons, postorders_append, postorders_singleton, Tree.postorder,
            List.append_assoc]
      · rename_i unary
        have sign : o = .neg := by
          cases o <;> first | rfl | exact absurd rfl unary
        subst sign
        rcases trees with _ | ⟨x, rest⟩
        · cases made
        · cases made
          simp only [List.reverse_cons, postorders_append, postorders_singleton, Tree.postorder,
            List.append_assoc]
  | lparen => cases made
  | rparen => cases made

/-- A term that cannot follow `count` whole trees: a parenthesis, or an operator that takes more
operands than there are. -/
def Misfits (count : Nat) : Term → Prop
  | .operand _ => False
  | .op o => count < o.arity
  | .lparen | .rparen => True

/-- Why whole trees and the terms after them are no expression: nothing comes after them though they
are not one, or the next term does not fit. -/
def Defective (trees : List (Tree Value)) : List (Spanned Term) → Prop
  | [] => trees.length ≠ 1
  | t :: _ => Misfits trees.length t.node

theorem misfits_of_grow {trees : List (Tree Value)} {t : Spanned Term}
    (stopped : grow trees t = none) : Misfits trees.length t.node := by
  obtain ⟨node, place⟩ := t
  cases node with
  | operand v => cases stopped
  | op o =>
      simp only [grow] at stopped
      split at stopped
      · rename_i two
        have arity : o.arity = 2 := by rw [Operator.arity, two]; rfl
        rcases trees with _ | ⟨right, _ | ⟨left, rest⟩⟩
        · simp [Misfits, arity]
        · simp [Misfits, arity]
        · cases stopped
      · rename_i unary
        have arity : o.arity = 1 := by
          rw [Operator.arity, if_pos (by simpa using unary)]
        rcases trees with _ | ⟨x, rest⟩
        · simp [Misfits, arity]
        · cases stopped
  | lparen => trivial
  | rparen => trivial

/-- A queue is read as whole trees, up to its end or to a term that does not fit. -/
theorem exists_reading (trees : List (Tree Value)) (queue : List (Spanned Term)) :
    ∃ read rest, postorders trees.reverse ++ queue = postorders read ++ rest ∧
      ∀ t more, rest = t :: more → Misfits read.length t.node := by
  induction queue generalizing trees with
  | nil => exact ⟨trees.reverse, [], rfl, fun t more none => nomatch none⟩
  | cons t queue ih =>
      cases made : grow trees t with
      | none =>
          refine ⟨trees.reverse, t :: queue, rfl, ?_⟩
          rintro _ _ ⟨⟩
          rw [List.length_reverse]
          exact misfits_of_grow made
      | some next =>
          obtain ⟨read, rest, same, misfits⟩ := ih next
          refine ⟨read, rest, ?_, misfits⟩
          rw [← same, postorders_of_grow made, List.append_assoc]
          rfl

theorem exists_defective {queue : List (Spanned Term)}
    (other : ∀ t : Tree Value, t.postorder ≠ queue) :
    ∃ trees rest, queue = postorders trees ++ rest ∧ Defective trees rest := by
  obtain ⟨trees, rest, same, misfits⟩ := exists_reading [] queue
  refine ⟨trees, rest, same, ?_⟩
  cases rest with
  | nil =>
      intro one
      obtain ⟨t, rfl⟩ := List.length_eq_one_iff.mp one
      rw [List.append_nil, postorders_singleton] at same
      exact other t same.symm
  | cons t more => exact misfits t more rfl

namespace Tree

def Valued (t : Tree Value) : Prop :=
  ∃ v, t.value = .ok v

inductive RootFails : Tree Value → Failure → Prop where
  | negation {sign : Span} {t : Tree Value} {v : Value} {e : Failure} (operand : t.value = .ok v)
      (failed : (Arithmetic.negate v).mapError (·.orSpan (sign.merge t.span)) = .error e) :
      RootFails (.negation sign t) e
  | binary {o : Operator} {two : o.isUnary = false} {sign : Span} {left right : Tree Value}
      {a b : Value} {e : Failure} (first : left.value = .ok a) (second : right.value = .ok b)
      (failed : (Arithmetic.apply o a b).mapError
        (·.orSpan ((left.span.merge right.span).merge sign)) = .error e) :
      RootFails (.binary o two sign left right) e

end Tree

/-- Among operations in the order in which they are carried out, the first that fails: all before it
have values, and it fails on the values of its operands. -/
def FailsFirst (operations : List (Tree Value)) (e : Failure) : Prop :=
  ∃ before u after, operations = before ++ u :: after ∧ (∀ w ∈ before, w.Valued) ∧ u.RootFails e

theorem FailsFirst.append {first : List (Tree Value)} {e : Failure} (fails : FailsFirst first e)
    (second : List (Tree Value)) : FailsFirst (first ++ second) e := by
  obtain ⟨before, u, after, rfl, valued, root⟩ := fails
  exact ⟨before, u, after ++ second, by simp, valued, root⟩

theorem FailsFirst.prepend {second : List (Tree Value)} {e : Failure} (fails : FailsFirst second e)
    {first : List (Tree Value)} (valued : ∀ w ∈ first, w.Valued) :
    FailsFirst (first ++ second) e := by
  obtain ⟨before, u, after, rfl, others, root⟩ := fails
  exact ⟨first ++ before, u, after, by simp, List.forall_mem_append.mpr ⟨valued, others⟩, root⟩

theorem failsFirst_root {t : Tree Value} {e : Failure} (root : t.RootFails e) : FailsFirst [t] e :=
  ⟨[], t, [], rfl, List.forall_mem_nil _, root⟩

theorem valued_of_subtrees {t : Tree Value} (valued : t.Valued) : ∀ u ∈ t.subtrees, u.Valued := by
  induction t with
  | operand v place => exact List.forall_mem_singleton.mpr valued
  | negation sign t ih =>
      obtain ⟨v, made⟩ := valued
      obtain ⟨w, inner, _⟩ := bind_eq_ok made
      exact List.forall_mem_append.mpr ⟨ih ⟨w, inner⟩, List.forall_mem_singleton.mpr ⟨v, made⟩⟩
  | binary o two sign left right first second =>
      obtain ⟨v, made⟩ := valued
      obtain ⟨a, before, later⟩ := bind_eq_ok made
      obtain ⟨b, after, _⟩ := bind_eq_ok later
      simp only [Tree.subtrees, List.forall_mem_append, List.forall_mem_singleton]
      exact ⟨⟨first ⟨a, before⟩, second ⟨b, after⟩⟩, v, made⟩

/-- A tree fails as the first failing operation in its postorder does. -/
theorem failsFirst_of_value {t : Tree Value} {e : Failure} (failed : t.value = .error e) :
    FailsFirst t.subtrees e := by
  induction t with
  | operand v place => cases failed
  | negation sign t ih =>
      rw [Tree.value] at failed
      cases inner : t.value with
      | error e' =>
          rw [inner] at failed
          cases failed
          exact (ih inner).append _
      | ok v =>
          rw [inner] at failed
          exact (failsFirst_root (.negation inner failed)).prepend (valued_of_subtrees ⟨v, inner⟩)
  | binary o two sign left right first second =>
      rw [Tree.value] at failed
      rw [Tree.subtrees, List.append_assoc]
      cases before : left.value with
      | error e' =>
          rw [before] at failed
          cases failed
          exact (first before).append _
      | ok a =>
          rw [before] at failed
          refine FailsFirst.prepend ?_ (valued_of_subtrees ⟨a, before⟩)
          cases after : right.value with
          | error e' =>
              rw [after] at failed
              cases failed
              exact (second after).append _
          | ok b =>
              rw [after] at failed
              exact (failsFirst_root (.binary before after failed)).prepend
                (valued_of_subtrees ⟨b, after⟩)

/-- The machine evaluates trees that stand one after the other, up to the first failing
operation. -/
theorem foldlM_step_postorders (trees : List (Tree Value)) (stack : Term.Stack) :
    Ensures (fun final => (∀ t ∈ trees, t.Valued) ∧ final.length = trees.length + stack.length)
      (FailsFirst (trees.flatMap Tree.subtrees)) ((postorders trees).foldlM step stack) := by
  induction trees generalizing stack with
  | nil => exact ⟨List.forall_mem_nil _, (Nat.zero_add _).symm⟩
  | cons t trees ih =>
      rw [postorders, List.flatMap_cons, List.flatMap_cons, List.foldlM_append,
        foldlM_step_postorder]
      cases value : t.value with
      | error e => exact (failsFirst_of_value value).append _
      | ok v =>
          refine (ih (⟨v, t.span⟩ :: stack)).mono ?_ ?_
          · rintro final _ ⟨valued, size⟩
            refine ⟨List.forall_mem_cons.mpr ⟨⟨v, value⟩, valued⟩, ?_⟩
            rw [size, List.length_cons, List.length_cons]
            omega
          · exact fun e fails => fails.prepend (valued_of_subtrees ⟨v, value⟩)

theorem step_of_misfits {stack : Term.Stack} {t : Spanned Term}
    (misfits : Misfits stack.length t.node) :
    ∃ e, step stack t = .error e ∧ e.kind = .invalidExpression := by
  obtain ⟨node, place⟩ := t
  cases node with
  | operand v => cases misfits
  | op o =>
      simp only [step]
      cases unary : o.isUnary with
      | true =>
          have arity : o.arity = 1 := by rw [Operator.arity, unary]; rfl
          rcases stack with _ | ⟨x, rest⟩
          · exact ⟨_, rfl, rfl⟩
          · simp [Misfits, arity] at misfits
      | false =>
          have arity : o.arity = 2 := by rw [Operator.arity, unary]; rfl
          rcases stack with _ | ⟨right, _ | ⟨left, rest⟩⟩
          · exact ⟨_, rfl, rfl⟩
          · exact ⟨_, rfl, rfl⟩
          · simp only [Misfits, arity, List.length_cons] at misfits
            omega
  | lparen => exact ⟨_, rfl, rfl⟩
  | rparen => exact ⟨_, rfl, rfl⟩

theorem result_of_length {stack : Term.Stack} (several : stack.length ≠ 1) :
    ∃ e, result stack = .error e ∧ e.kind = .invalidExpression := by
  rcases stack with _ | ⟨x, _ | ⟨y, rest⟩⟩
  · exact ⟨_, rfl, rfl⟩
  · exact absurd rfl several
  · exact ⟨_, rfl, rfl⟩

/-- A queue with a defect fails: with the first failing operation before the defect, else with the
defect itself. -/
theorem evaluate_defective {trees : List (Tree Value)} {rest : List (Spanned Term)}
    (defective : Defective trees rest) :
    ∃ e, evaluate (postorders trees ++ rest) = .error e ∧
      (FailsFirst (trees.flatMap Tree.subtrees) e ∨
        (∀ t ∈ trees, t.Valued) ∧ e.kind = .invalidExpression) := by
  have run := foldlM_step_postorders trees []
  rw [evaluate, List.foldlM_append]
  cases reached : (postorders trees).foldlM step [] with
  | error e => exact ⟨e, rfl, .inl (run.of_error reached)⟩
  | ok stack =>
      obtain ⟨valued, size⟩ := run.of_ok reached
      rw [List.length_nil, Nat.add_zero] at size
      cases rest with
      | nil =>
          have several : stack.length ≠ 1 := by
            rw [size]
            exact defective
          obtain ⟨e, failed, kind⟩ := result_of_length several
          exact ⟨e, failed, .inr ⟨valued, kind⟩⟩
      | cons t rest =>
          have misfits : Misfits stack.length t.node := by
            rw [size]
            exact defective
          obtain ⟨e, failed, kind⟩ := step_of_misfits misfits
          refine ⟨e, ?_, .inr ⟨valued, kind⟩⟩
          change ((t :: rest).foldlM step stack >>= result) = _
          rw [List.foldlM_cons, failed]
          rfl

/-- The machine accepts complete expressions in evaluation order and nothing else. A queue with a
value is the postorder of exactly one operator tree, whose value it is. The postorder of a tree has
the value of the tree, or fails as its first failing operation does. Any other queue consists of
whole trees and a defect; it fails as the first failing operation before the defect does, and if
there is none, for the defect. -/
theorem evaluate_accepts_postorders (queue : List (Spanned Term)) :
    (∀ v, evaluate queue = .ok v → (∃! t : Tree Value, t.postorder = queue) ∧
      ∀ t : Tree Value, t.postorder = queue → t.value = .ok v) ∧
    (∀ t : Tree Value, t.postorder = queue → evaluate queue = t.value ∧
      ∀ e, t.value = .error e → FailsFirst t.subtrees e) ∧
    ((∀ t : Tree Value, t.postorder ≠ queue) →
      ∃ trees rest e, queue = postorders trees ++ rest ∧ Defective trees rest ∧
        evaluate queue = .error e ∧
        (FailsFirst (trees.flatMap Tree.subtrees) e ∨
          (∀ t ∈ trees, t.Valued) ∧ e.kind = .invalidExpression)) := by
  have refused (other : ∀ t : Tree Value, t.postorder ≠ queue) :
      ∃ trees rest e, queue = postorders trees ++ rest ∧ Defective trees rest ∧
        evaluate queue = .error e ∧
        (FailsFirst (trees.flatMap Tree.subtrees) e ∨
          (∀ t ∈ trees, t.Valued) ∧ e.kind = .invalidExpression) := by
    obtain ⟨trees, rest, rfl, defective⟩ := exists_defective other
    obtain ⟨e, failed, why⟩ := evaluate_defective defective
    exact ⟨trees, rest, e, rfl, defective, failed, why⟩
  refine ⟨fun v made => ?_, ?_, refused⟩
  · by_cases complete : ∃ t : Tree Value, t.postorder = queue
    · obtain ⟨t, rfl⟩ := complete
      refine ⟨⟨t, rfl, fun u same => postorder_injective same⟩, fun u same => ?_⟩
      rw [← evaluate_postorder, same, made]
    · obtain ⟨_, _, e, _, _, failed, _⟩ := refused fun t same => complete ⟨t, same⟩
      rw [failed] at made
      cases made
  · rintro t rfl
    exact ⟨evaluate_postorder t, fun e failed => failsFirst_of_value failed⟩

/-- In `6 0 DIV +` the plus lacks an operand, but the division before it has failed already. -/
theorem evaluate_accepts_postorders_divided :
    let queue : List (Spanned Term) :=
      [⟨.operand (.integer 6), ⟨0, 1⟩⟩, ⟨.operand (.integer 0), ⟨2, 3⟩⟩, ⟨.op .intDiv, ⟨4, 7⟩⟩,
        ⟨.op .add, ⟨8, 9⟩⟩]
    (∀ t : Tree Value, t.postorder ≠ queue) ∧
      ∃ trees rest e, queue = postorders trees ++ rest ∧ Defective trees rest ∧
        FailsFirst (trees.flatMap Tree.subtrees) e ∧ e.kind = .divisionByZero := by
  intro queue
  have other : ∀ t : Tree Value, t.postorder ≠ queue := by
    intro t same
    have read := foldlM_grow_postorder t []
    rw [same] at read
    cases read
  have divided : evaluate queue = .error ⟨.divisionByZero, some ⟨0, 7⟩⟩ := by decide +kernel
  obtain ⟨trees, rest, e, same, defective, failed, why⟩ :=
    (evaluate_accepts_postorders queue).2.2 other
  cases divided.symm.trans failed
  refine ⟨other, trees, rest, ⟨.divisionByZero, some ⟨0, 7⟩⟩, same, defective, ?_, rfl⟩
  rcases why with fails | ⟨_, kind⟩
  · exact fails
  · cases kind

end Infix

end Pseudocode
