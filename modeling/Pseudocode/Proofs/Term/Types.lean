import Pseudocode.Proofs.Infix.Summands
import Pseudocode.Proofs.Term.Order

set_option autoImplicit false

namespace Pseudocode

def DataType.isNumber (type : Option DataType) : Bool :=
  type == some .integer || type == some .real

theorem Value.isNumeric_eq_isNumber (v : Value) : v.isNumeric = DataType.isNumber v.type? := by
  cases v <;> rfl

theorem Value.isSet_iff (v : Value) : v.isSet = true ↔ v.type? ≠ none := by
  cases v <;> simp [isSet, type?]

/-- The type of what an operator makes of two operands of these types. -/
def Operator.resultType : Operator → Option DataType → Option DataType → Option DataType
  | .div, _, _ => some .real
  | .intDiv, _, _ | .mod, _, _ => some .integer
  | .neg, _, _ => none
  | .add, left, right | .sub, left, right | .mul, left, right =>
      if left = some .integer ∧ right = some .integer then some .integer else some .real

theorem Operator.resultType_ne_none {o : Operator} (two : o.isUnary = false)
    (left right : Option DataType) : o.resultType left right ≠ none := by
  cases o with
  | neg => cases two
  | div | intDiv | mod => simp [resultType]
  | add | sub | mul =>
      simp only [resultType]
      split <;> simp

namespace Arithmetic

theorem type?_of_exactly {o : Operator} {n : Int} {v : Value} (made : exactly o n = .ok v) :
    v.type? = some .integer := by
  obtain ⟨i, rfl⟩ := Infix.exists_integer_of_exactly made
  rfl

theorem type?_of_finitely {o : Operator} {x : Float} {v : Value} (made : finitely o x = .ok v) :
    v.type? = some .real := by
  unfold finitely at made
  split at made
  · cases made
    rfl
  · cases made

theorem type?_of_combineNumbers {o : Operator} {whole : Int → Int → Int}
    {real : Float → Float → Float} {left right v : Value}
    (made : combineNumbers o whole real left right = .ok v) :
    v.type? = if left.type? = some .integer ∧ right.type? = some .integer then some .integer
      else some .real := by
  unfold combineNumbers at made
  split at made
  · rw [if_pos ⟨rfl, rfl⟩]
    exact type?_of_exactly made
  · rename_i other
    have mixed : ¬ (left.type? = some .integer ∧ right.type? = some .integer) := by
      intro both
      cases left <;> cases right <;> simp [Value.type?] at both
      exact other _ _ rfl rfl
    rw [if_neg mixed]
    obtain ⟨a, _, made⟩ := bind_eq_ok made
    obtain ⟨b, _, made⟩ := bind_eq_ok made
    exact type?_of_finitely made

theorem type?_of_divide {left right v : Value} (made : divide left right = .ok v) :
    v.type? = some .real := by
  obtain ⟨divisor, _, made⟩ := bind_eq_ok made
  split at made
  · cases made
  · obtain ⟨dividend, _, made⟩ := bind_eq_ok made
    exact type?_of_finitely made

theorem type?_of_divideWhole {o : Operator} {f : Int → Int → Int} {left right v : Value}
    (made : divideWhole o f left right = .ok v) : v.type? = some .integer := by
  obtain ⟨a, _, made⟩ := bind_eq_ok made
  obtain ⟨b, _, made⟩ := bind_eq_ok made
  split at made
  · cases made
  · exact type?_of_exactly made

/-- The type of a result follows from the types of the operands. -/
theorem type?_of_apply {o : Operator} {left right v : Value} (made : apply o left right = .ok v) :
    v.type? = o.resultType left.type? right.type? := by
  obtain ⟨_, _, made⟩ := bind_eq_ok made
  obtain ⟨_, _, made⟩ := bind_eq_ok made
  cases o with
  | add => exact type?_of_combineNumbers made
  | sub => exact type?_of_combineNumbers made
  | mul => exact type?_of_combineNumbers made
  | div => exact type?_of_divide made
  | intDiv => exact type?_of_divideWhole made
  | mod => exact type?_of_divideWhole made
  | neg => cases made

theorem isUnary_of_apply {o : Operator} {left right v : Value} (made : apply o left right = .ok v) :
    o.isUnary = false := by
  cases o with
  | neg =>
      obtain ⟨_, _, made⟩ := bind_eq_ok made
      obtain ⟨_, _, made⟩ := bind_eq_ok made
      cases made
  | _ => rfl

theorem type?_of_negate {v w : Value} (made : negate v = .ok w) : w.type? = v.type? := by
  cases v with
  | integer n => exact type?_of_exactly made
  | real x =>
      cases made
      rfl
  | _ => cases made

/-- The type of two joined segments of these types. -/
def joinType (left right : Option DataType) : Option DataType :=
  if DataType.isNumber left && DataType.isNumber right then Operator.add.resultType left right
  else some .string

theorem type?_of_join {left right v : Value} (made : join left right = .ok v) :
    v.type? = joinType left.type? right.type? := by
  unfold join at made
  rw [left.isNumeric_eq_isNumber, right.isNumeric_eq_isNumber] at made
  unfold joinType
  split at made
  · rename_i both
    rw [if_pos both]
    exact type?_of_apply made
  · rename_i other
    rw [if_neg other]
    cases made
    rfl

theorem joinType_ne_none (left right : Option DataType) : joinType left right ≠ none := by
  unfold joinType
  split
  · exact Operator.resultType_ne_none rfl left right
  · simp

/-- A sum with a summand that is no number is text, whatever is added later. -/
theorem foldl_joinType_eq_string {types : List (Option DataType)} {sum : Option DataType}
    (text : sum = some .string ∨
      types ≠ [] ∧ ∃ type ∈ sum :: types, DataType.isNumber type = false) :
    types.foldl joinType sum = some .string := by
  induction types generalizing sum with
  | nil =>
      rcases text with text | ⟨some, _⟩
      · exact text
      · exact absurd rfl some
  | cons first rest ih =>
      have joined (other : DataType.isNumber sum = false ∨ DataType.isNumber first = false) :
          joinType sum first = some .string := by
        rcases other with other | other <;> simp [joinType, other]
      apply ih
      rcases text with rfl | ⟨_, type, member, other⟩
      · exact .inl (joined (.inl rfl))
      · rcases List.mem_cons.mp member with rfl | member
        · exact .inl (joined (.inl other))
        · rcases List.mem_cons.mp member with rfl | member
          · exact .inl (joined (.inr other))
          · exact .inr ⟨List.ne_nil_of_mem member, type, List.mem_cons_of_mem _ member, other⟩

end Arithmetic

namespace Term

/-- What a term does to the types of the values on the stack. -/
def typeStep (types : List (Option DataType)) (t : Term) : List (Option DataType) :=
  match t, types with
  | .operand v, types => v.type? :: types
  | .op o, right :: left :: rest =>
      if o.isUnary then right :: left :: rest else o.resultType left right :: rest
  | _, types => types

def typeOf (queue : List (Spanned Term)) : Option DataType :=
  (queue.foldl (fun types t => typeStep types t.node) []).head?.join

/-- The types of the values on a stack. -/
def Stack.types (stack : Stack) : List (Option DataType) :=
  stack.map (·.node.type?)

theorem exists_of_place {whole : Span} {r : Result Value} {x : Spanned Value}
    (made : place whole r = .ok x) : r = .ok x.node := by
  cases r with
  | error e => cases made
  | ok v =>
      cases made
      rfl

/-- One step on values is one step on their types. -/
theorem types_of_step {stack next : Stack} {t : Spanned Term} (made : step stack t = .ok next) :
    next.types = typeStep stack.types t.node := by
  obtain ⟨node, sign⟩ := t
  cases node with
  | operand v =>
      cases made
      rfl
  | op o =>
      rw [step] at made
      dsimp only at made
      by_cases unary : o.isUnary = true
      · rw [if_pos unary] at made
        cases stack with
        | nil => cases made
        | cons x rest =>
            obtain ⟨y, placed, made⟩ := map_eq_ok made
            subst made
            have kept := Arithmetic.type?_of_negate (exists_of_place placed)
            have same : Stack.types (y :: rest) = Stack.types (x :: rest) :=
              congrArg (· :: Stack.types rest) kept
            rw [same]
            cases rest with
            | nil => rfl
            | cons below others => exact (if_pos unary).symm
      · rw [if_neg unary] at made
        cases stack with
        | nil => cases made
        | cons right below =>
            cases below with
            | nil => cases made
            | cons left rest =>
                obtain ⟨y, placed, made⟩ := map_eq_ok made
                subst made
                have typed := Arithmetic.type?_of_apply (exists_of_place placed)
                have new : Stack.types (y :: rest) =
                    o.resultType left.node.type? right.node.type? :: Stack.types rest :=
                  congrArg (· :: Stack.types rest) typed
                rw [new]
                exact (if_neg unary).symm
  | lparen => cases made
  | rparen => cases made

theorem types_of_foldlM {queue : List (Spanned Term)} {stack final : Stack}
    (made : queue.foldlM step stack = .ok final) :
    final.types = queue.foldl (fun types t => typeStep types t.node) stack.types := by
  induction queue generalizing stack with
  | nil =>
      cases made
      rfl
  | cons t rest ih =>
      rw [List.foldlM_cons] at made
      obtain ⟨next, first, made⟩ := bind_eq_ok made
      rw [ih made, types_of_step first]
      rfl

theorem type?_of_evaluate {queue : List (Spanned Term)} {v : Value}
    (made : evaluate queue = .ok v) : v.type? = typeOf queue := by
  obtain ⟨final, run, made⟩ := bind_eq_ok made
  have types := types_of_foldlM run
  match final with
  | [] => cases made
  | [x] =>
      cases made
      rw [typeOf]
      exact congrArg (·.head?.join) types
  | _ :: _ :: _ => cases made

/-- Operands of the same types give a result of the same type. -/
theorem typeOf_map_exchange {f : Value → Value} (keeps : ∀ v, (f v).type? = v.type?)
    (queue : List (Spanned Term)) : typeOf (queue.map (exchange f)) = typeOf queue := by
  have same (types : List (Option DataType)) (t : Spanned Term) :
      typeStep types (exchange f t).node = typeStep types t.node := by
    obtain ⟨node, place⟩ := t
    cases node with
    | operand v => exact congrArg (· :: types) (keeps v)
    | _ => rfl
  unfold typeOf
  rw [List.foldl_map]
  simp only [same]

end Term

end Pseudocode
