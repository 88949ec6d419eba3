import Pseudocode.Expression
import Pseudocode.Proofs.Term.Types

set_option autoImplicit false

namespace Pseudocode

/-- A property of values that every operation keeps. -/
structure Arithmetic.Keeps (P : Value → Prop) : Prop where
  negate : ∀ {v w : Value}, P v → Arithmetic.negate v = .ok w → P w
  apply : ∀ {o : Operator} {left right v : Value}, P left → P right →
    Arithmetic.apply o left right = .ok v → P v
  join : ∀ {left right v : Value}, P left → P right → Arithmetic.join left right = .ok v → P v

variable {P : Value → Prop}

namespace Term

def OperandHas (P : Value → Prop) (t : Spanned Term) : Prop :=
  ∀ v, t.node = .operand v → P v

/-- One step keeps the property of all values on the stack. -/
theorem step_keeps (keeps : Arithmetic.Keeps P) {stack next : Stack} {t : Spanned Term}
    (has : OperandHas P t) (all : ∀ x ∈ stack, P x.node) (made : step stack t = .ok next) :
    ∀ x ∈ next, P x.node := by
  obtain ⟨node, place⟩ := t
  cases node with
  | operand v =>
      cases made
      exact List.forall_mem_cons.mpr ⟨has v rfl, all⟩
  | op o =>
      rw [step] at made
      dsimp only at made
      split at made
      · cases stack with
        | nil => cases made
        | cons x rest =>
            obtain ⟨first, others⟩ := List.forall_mem_cons.mp all
            obtain ⟨y, placed, rfl⟩ := map_eq_ok made
            exact List.forall_mem_cons.mpr ⟨keeps.negate first (exists_of_place placed), others⟩
      · rcases stack with _ | ⟨right, _ | ⟨left, rest⟩⟩
        · cases made
        · cases made
        · obtain ⟨first, others⟩ := List.forall_mem_cons.mp all
          obtain ⟨second, others⟩ := List.forall_mem_cons.mp others
          obtain ⟨y, placed, rfl⟩ := map_eq_ok made
          exact List.forall_mem_cons.mpr ⟨keeps.apply second first (exists_of_place placed), others⟩
  | lparen => cases made
  | rparen => cases made

theorem evaluate_keeps (keeps : Arithmetic.Keeps P) {queue : List (Spanned Term)} {v : Value}
    (has : ∀ t ∈ queue, OperandHas P t) (made : evaluate queue = .ok v) : P v := by
  obtain ⟨final, run, made⟩ := bind_eq_ok made
  have kept : ∀ x ∈ final, P x.node :=
    keeps_of_foldlM_eq_ok (List.forall_mem_nil _)
      (fun _ all t member _ stepped => step_keeps keeps (has t member) all stepped) run
  match final with
  | [] => cases made
  | [x] =>
      cases made
      exact kept x List.mem_cons_self
  | _ :: _ :: _ => cases made

end Term

namespace Expression

variable {s : Store}

def OperandsHave (s : Store) (P : Value → Prop) : Prop :=
  ∀ (t : Spanned Token) (visit : ∀ index, t.node.index? = some index → Result Int64) (v : Value),
    operandWith s t visit = .ok v → P v

theorem termsWith_has (operands : OperandsHave s P) {tokens : List (Spanned Token)}
    {visit : Visit tokens} {given : List (Spanned Term)}
    (made : termsWith s tokens visit = .ok given) : ∀ t ∈ given, Term.OperandHas P t := by
  induction tokens generalizing given with
  | nil =>
      cases made
      exact List.forall_mem_nil _
  | cons t rest ih =>
      obtain ⟨term, first, made⟩ := bind_eq_ok made
      obtain ⟨later, second, made⟩ := bind_eq_ok made
      cases made
      refine List.forall_mem_cons.mpr ⟨?_, ih second⟩
      intro v operand
      change term = .operand v at operand
      subst operand
      unfold termWith at first
      split at first
      · cases first
      · cases first
      · cases first
      · obtain ⟨w, valued, first⟩ := bind_eq_ok first
        split at first
        · cases first
          exact operands t _ v valued
        · cases first

theorem arithmetic_keeps (keeps : Arithmetic.Keeps P) (operands : OperandsHave s P)
    {tokens : List (Spanned Token)} {visit : Visit tokens} {v : Value}
    (made : (do Term.evaluate (← Term.toPostfix (← termsWith s tokens visit))) = .ok v) : P v := by
  obtain ⟨given, resolved, made⟩ := bind_eq_ok made
  obtain ⟨queue, reordered, made⟩ := bind_eq_ok made
  have has := Term.reorder_ensures (List.forall_mem_nil _) (termsWith_has operands resolved)
  exact Term.evaluate_keeps keeps (has.of_ok reordered) made

theorem segmentValue_keeps (keeps : Arithmetic.Keeps P) (operands : OperandsHave s P) {t : Text}
    {v : Value} (made : segmentValue s t = .ok v) : P v := by
  rw [segmentValue_eq] at made
  obtain ⟨tokens, _, made⟩ := bind_eq_ok made
  match tokens with
  | [] => cases made
  | [t] =>
      rw [tokensValue] at made
      split at made
      · exact operands t _ v made
      · exact arithmetic_keeps keeps operands made
  | t :: u :: rest => exact arithmetic_keeps keeps operands made

/-- What every operand has and every operation keeps, the value of an expression has. -/
theorem evaluate_keeps (keeps : Arithmetic.Keeps P) (operands : OperandsHave s P) {t : Text}
    {v : Value} (made : evaluate s t = .ok v) : P v := by
  have segment {piece : Spanned Text} {w : Value} (valued : segmentAt s piece = .ok w) : P w :=
    segmentValue_keeps keeps operands (mapError_eq_ok valued)
  obtain ⟨found, _, made⟩ := bind_eq_ok made
  match found with
  | [] => cases made
  | first :: rest =>
      obtain ⟨w, valued, made⟩ := bind_eq_ok made
      refine keeps_of_foldlM_eq_ok (segment valued) (fun sum has piece _ next joined => ?_) made
      obtain ⟨u, valued, joined⟩ := bind_eq_ok joined
      exact keeps.join has (segment valued) (mapError_eq_ok joined)

end Expression

end Pseudocode
