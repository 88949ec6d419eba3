import Pseudocode.Proofs.Expression.Preserved
import Pseudocode.Proofs.Expression.Sums
import Pseudocode.Proofs.Machine.Reachable

set_option autoImplicit false

namespace Pseudocode

/-- The kind of an entry and the type of what it holds. -/
inductive Entry.Shape where
  | scalar (type : DataType)
  | constant (type : Option DataType)
  | array (type : DataType)
deriving DecidableEq

namespace Entry

def shape : Entry → Shape
  | .scalar type _ => .scalar type
  | .constant v => .constant v.type?
  | .array b => .array b.type

def Shape.held : Shape → Option DataType
  | .scalar type | .array type => some type
  | .constant type => type

end Entry

namespace Store

/-- The type of the values that a name stands for. -/
def held (s : Store) (name : Text) : Option DataType :=
  ((s.find? name).map (·.shape.held)).join

/-- Two stores that declare the same names with the same kinds and types. -/
def SameShapes (s s' : Store) : Prop :=
  ∀ name, (s.find? name).map Entry.shape = (s'.find? name).map Entry.shape

theorem SameShapes.held {s s' : Store} (same : s.SameShapes s') : s.held = s'.held := by
  funext name
  have here := congrArg (fun found => (found.map Entry.Shape.held).join) (same name)
  simp only [Option.map_map] at here
  exact here

theorem held_of_find? {s : Store} {name : Text} {e : Entry} (found : s.find? name = some e) :
    s.held name = e.shape.held := by
  rw [held, found]
  rfl

variable {s : Store} {name : Text} {v : Value}

/-- A value read from a variable or constant has the type of the name. -/
theorem Valid.type?_of_getScalar (valid : s.Valid) (strict : s.policy = .strict)
    (made : s.getScalar name = .ok v) (set : v.isSet = true) : v.type? = s.held name := by
  obtain ⟨e, found, made⟩ := bind_eq_ok made
  rw [get_eq_ok_iff] at found
  rw [held_of_find? found]
  have typed := valid.typed strict name e found
  cases e with
  | scalar type w =>
      cases made
      exact typed type rfl v List.mem_cons_self set
  | constant w =>
      cases made
      rfl
  | array b => cases made

/-- A value read from an array has the type of the array, whatever the index. -/
theorem Valid.type?_of_getElement (valid : s.Valid) (strict : s.policy = .strict) {index : Int64}
    (made : s.getElement name index = .ok v) (set : v.isSet = true) : v.type? = s.held name := by
  obtain ⟨b, i, found, _, element⟩ := valid.getElement made
  rw [held_of_find? found]
  have member := Array.mem_of_getElem? element
  exact valid.typed strict name _ found b.type rfl v (Array.mem_toList_iff.mpr member) set

end Store

def Value.sample : Option DataType → Value
  | some .integer => .integer 0
  | some .real => .real 0
  | some .char => .char ' '
  | some .string => .string []
  | some .boolean => .boolean true
  | none => .unset

theorem Value.type?_sample (type : Option DataType) : (sample type).type? = type := by
  match type with
  | some type => cases type <;> rfl
  | none => rfl

namespace Expression

variable {s : Store}

/-- The type of an operand, where `held` tells the types of names. -/
def operandType (held : Text → Option DataType) : Token → Option DataType
  | .number text => if text.contains '.' then some .real else some .integer
  | .string _ => some .string
  | .char _ => some .char
  | .boolean _ => some .boolean
  | .ident name | .element name _ => held name
  | .op _ | .lparen | .rparen => none

/-- The terms of tokens, with some operand of the right type for each. -/
def sampleTerms (held : Text → Option DataType) (tokens : List (Spanned Token)) :
    List (Spanned Term) :=
  tokens.map (Spanned.map (termOf fun t => .sample (operandType held t)))

def arithmeticType (held : Text → Option DataType) (tokens : List (Spanned Token)) :
    Option DataType :=
  match Term.toPostfix (sampleTerms held tokens) with
  | .ok queue => Term.typeOf queue
  | .error _ => none

def tokensType (held : Text → Option DataType) : List (Spanned Token) → Option DataType
  | [t] => if t.node.isOperand then operandType held t.node else arithmeticType held [t]
  | tokens => arithmeticType held tokens

def segmentType (held : Text → Option DataType) (t : Text) : Option DataType :=
  match tokenize t with
  | .ok tokens => tokensType held tokens
  | .error _ => none

/-- The type of segments that are joined from left to right. -/
def joinedType : List (Option DataType) → Option DataType
  | [] => none
  | first :: rest => rest.foldl Arithmetic.joinType first

def typeIn (held : Text → Option DataType) (t : Text) : Option DataType :=
  match segments t with
  | .ok found => joinedType (found.map fun piece => segmentType held piece.node)
  | .error _ => none

theorem type?_of_literal {text : Text} {v : Value} (made : Arithmetic.literal text = .ok v) :
    v.type? = if text.contains '.' then some .real else some .integer := by
  unfold Arithmetic.literal at made
  by_cases point : text.contains '.' = true
  · rw [if_pos point] at made ⊢
    split at made
    · split at made
      · cases made
        rfl
      · cases made
    · cases made
  · rw [if_neg point] at made ⊢
    split at made
    · cases made
      rfl
    · cases made

theorem requireSet_eq_ok {what : Unset} {span : Span} {v w : Value}
    (made : requireSet what span v = .ok w) : v = w ∧ w.isSet = true := by
  unfold requireSet at made
  split at made
  · rename_i set
    cases made
    exact ⟨rfl, set⟩
  · cases made

theorem type?_of_operandWith (valid : s.Valid) (strict : s.policy = .strict) {t : Spanned Token}
    {visit : ∀ index, t.node.index? = some index → Result Int64} {v : Value}
    (made : operandWith s t visit = .ok v) : v.type? = operandType s.held t.node := by
  obtain ⟨node, place⟩ := t
  cases node with
  | number text => exact type?_of_literal (mapError_eq_ok made)
  | ident name =>
      obtain ⟨w, read, made⟩ := bind_eq_ok made
      obtain ⟨rfl, set⟩ := requireSet_eq_ok made
      exact valid.type?_of_getScalar strict (mapError_eq_ok read) set
  | element name index =>
      obtain ⟨i, _, made⟩ := bind_eq_ok made
      obtain ⟨w, read, made⟩ := bind_eq_ok made
      obtain ⟨rfl, set⟩ := requireSet_eq_ok made
      exact valid.type?_of_getElement strict (mapError_eq_ok read) set
  | _ =>
      cases made
      try rfl

/-- The terms of tokens have operands of the types that the tokens tell. -/
theorem map_exchange_termsWith (valid : s.Valid) (strict : s.policy = .strict)
    {tokens : List (Spanned Token)} {visit : Visit tokens} {given : List (Spanned Term)}
    (made : termsWith s tokens visit = .ok given) :
    given.map (Term.exchange fun v => .sample v.type?) = sampleTerms s.held tokens := by
  induction tokens generalizing given with
  | nil =>
      cases made
      rfl
  | cons t rest ih =>
      obtain ⟨term, first, made⟩ := bind_eq_ok made
      obtain ⟨later, second, made⟩ := bind_eq_ok made
      cases made
      have here : term.mapOperand (fun v => .sample v.type?) =
          termOf (fun t => .sample (operandType s.held t)) t.node := by
        have typed (v : Value) (valued : operandWith s t (visit t List.mem_cons_self) = .ok v) :=
          type?_of_operandWith valid strict valued
        obtain ⟨node, place⟩ := t
        cases node with
        | op o =>
            cases first
            rfl
        | lparen =>
            cases first
            rfl
        | rparen =>
            cases first
            rfl
        | _ =>
            obtain ⟨v, valued, first⟩ := bind_eq_ok first
            split at first
            · cases first
              rw [Term.mapOperand, typed v valued]
              rfl
            · cases first
      rw [List.map_cons, ih second, Term.exchange, Spanned.map]
      dsimp only
      rw [here]
      rfl

theorem type?_of_arithmetic (valid : s.Valid) (strict : s.policy = .strict)
    {tokens : List (Spanned Token)} {visit : Visit tokens} {v : Value}
    (made : (do Term.evaluate (← Term.toPostfix (← termsWith s tokens visit))) = .ok v) :
    v.type? = arithmeticType s.held tokens := by
  obtain ⟨given, resolved, made⟩ := bind_eq_ok made
  obtain ⟨queue, reordered, made⟩ := bind_eq_ok made
  -- Samples are reordered as the values are, and the stack machine types both alike.
  have sampled := Term.reorder_map_exchange (fun v => .sample v.type?) [] given
  rw [map_exchange_termsWith valid strict resolved, ← Term.toPostfix, reordered] at sampled
  have onSamples : Term.toPostfix (sampleTerms s.held tokens) = .ok _ := sampled
  rw [arithmeticType, onSamples, Term.type?_of_evaluate made]
  exact (Term.typeOf_map_exchange (fun v => Value.type?_sample v.type?) queue).symm

theorem type?_of_segmentValue (valid : s.Valid) (strict : s.policy = .strict) {t : Text} {v : Value}
    (made : segmentValue s t = .ok v) : v.type? = segmentType s.held t := by
  rw [segmentValue_eq] at made
  obtain ⟨tokens, read, made⟩ := bind_eq_ok made
  rw [segmentType, read]
  match tokens with
  | [] => cases made
  | [t] =>
      rw [tokensValue] at made
      dsimp only [tokensType]
      by_cases operand : t.node.isOperand = true
      · rw [if_pos operand] at made ⊢
        exact type?_of_operandWith valid strict made
      · rw [if_neg operand] at made ⊢
        exact type?_of_arithmetic valid strict made
  | t :: u :: rest => exact type?_of_arithmetic valid strict made

theorem type?_of_segmentAt (valid : s.Valid) (strict : s.policy = .strict) {piece : Spanned Text}
    {v : Value} (made : segmentAt s piece = .ok v) : v.type? = segmentType s.held piece.node :=
  type?_of_segmentValue valid strict (mapError_eq_ok made)

theorem type?_of_foldlM_joinSegment (valid : s.Valid) (strict : s.policy = .strict)
    {pieces : List (Spanned Text)} {sum v : Value}
    (made : pieces.foldlM (joinSegment s) sum = .ok v) :
    v.type? = (pieces.map fun piece => segmentType s.held piece.node).foldl Arithmetic.joinType
      sum.type? := by
  induction pieces generalizing sum with
  | nil =>
      cases made
      rfl
  | cons piece rest ih =>
      rw [List.foldlM_cons] at made
      obtain ⟨next, joined, made⟩ := bind_eq_ok made
      obtain ⟨w, valued, joined⟩ := bind_eq_ok joined
      rw [ih made, Arithmetic.type?_of_join (mapError_eq_ok joined),
        type?_of_segmentAt valid strict valued]
      rfl

/-- The value of an expression has the type that its text and the declarations tell. -/
theorem type?_of_evaluate (valid : s.Valid) (strict : s.policy = .strict) {t : Text} {v : Value}
    (made : evaluate s t = .ok v) : v.type? = typeIn s.held t := by
  obtain ⟨found, cut, made⟩ := bind_eq_ok made
  rw [typeIn, cut]
  match found with
  | [] => cases made
  | first :: rest =>
      obtain ⟨w, valued, made⟩ := bind_eq_ok made
      rw [type?_of_foldlM_joinSegment valid strict made, type?_of_segmentAt valid strict valued]
      rfl

theorem type?_ne_none_of_operandWith {t : Spanned Token}
    {visit : ∀ index, t.node.index? = some index → Result Int64} {v : Value}
    (made : operandWith s t visit = .ok v) : v.type? ≠ none := by
  obtain ⟨node, place⟩ := t
  cases node with
  | number text =>
      rw [type?_of_literal (mapError_eq_ok made)]
      split <;> simp
  | ident name =>
      obtain ⟨w, _, made⟩ := bind_eq_ok made
      exact (v.isSet_iff).mp (requireSet_eq_ok made).2
  | element name index =>
      obtain ⟨i, _, made⟩ := bind_eq_ok made
      obtain ⟨w, _, made⟩ := bind_eq_ok made
      exact (v.isSet_iff).mp (requireSet_eq_ok made).2
  | _ =>
      cases made
      try simp [Value.type?]

theorem keeps_type?_ne_none : Arithmetic.Keeps fun v => v.type? ≠ none where
  negate typed made := by
    rw [Arithmetic.type?_of_negate made]
    exact typed
  apply {o} _ _ _ _ _ made := by
    rw [Arithmetic.type?_of_apply made]
    exact o.resultType_ne_none (Arithmetic.isUnary_of_apply made) _ _
  join _ _ made := by
    rw [Arithmetic.type?_of_join made]
    exact Arithmetic.joinType_ne_none _ _

theorem type?_ne_none_of_evaluate {t : Text} {v : Value} (made : evaluate s t = .ok v) :
    v.type? ≠ none :=
  evaluate_keeps keeps_type?_ne_none (fun _ _ _ => type?_ne_none_of_operandWith) made

theorem type?_of_evaluate_eq_string (valid : s.Valid) (strict : s.policy = .strict) {t : Text}
    {found : List (Spanned Text)} {v u : Value} {piece : Spanned Text}
    (cut : segments t = .ok found) (several : 2 ≤ found.length) (made : evaluate s t = .ok v)
    (member : piece ∈ found) (valued : segmentAt s piece = .ok u) (other : u.isNumeric = false) :
    v.type? = some .string := by
  rw [type?_of_evaluate valid strict made, typeIn, cut]
  -- The segment that is no number is told from its type, so the types alone give a text.
  rw [u.isNumeric_eq_isNumber, type?_of_segmentAt valid strict valued] at other
  have listed : segmentType s.held piece.node ∈
      found.map fun piece => segmentType s.held piece.node := List.mem_map_of_mem member
  show joinedType (found.map fun piece => segmentType s.held piece.node) = some .string
  match found, several, listed with
  | first :: second :: rest, _, listed =>
      exact Arithmetic.foldl_joinType_eq_string (.inr ⟨by simp, _, listed, other⟩)

/-- Types do not depend on values. In two strict stores that declare the same names with the same
kinds and types, an expression that has a value in both has values of one type. `/` gives a REAL,
`DIV` and `MOD` give an INTEGER, `+`, `-` and `*` give an INTEGER if and only if both operands are
INTEGERs, and a sum with a segment that is no number is a STRING. -/
theorem evaluate_type_fixed {s s' : Store} (reached : s.Reachable) (reached' : s'.Reachable)
    (strict : s.policy = .strict) (strict' : s'.policy = .strict) (same : s.SameShapes s') :
    (∀ t v w, evaluate s t = .ok v → evaluate s' t = .ok w →
      ∃ type, v.type? = some type ∧ w.type? = some type) ∧
    (∀ left right v, Arithmetic.apply .div left right = .ok v → v.type? = some .real) ∧
    (∀ o ∈ [Operator.intDiv, .mod], ∀ left right v,
      Arithmetic.apply o left right = .ok v → v.type? = some .integer) ∧
    (∀ o ∈ [Operator.add, .sub, .mul], ∀ left right v, Arithmetic.apply o left right = .ok v →
      (v.type? = some .integer ↔ left.type? = some .integer ∧ right.type? = some .integer)) ∧
    (∀ t found v, segments t = .ok found → 2 ≤ found.length → evaluate s t = .ok v →
      (∃ piece ∈ found, ∃ u, segmentAt s piece = .ok u ∧ u.isNumeric = false) →
        v.type? = some .string) := by
  refine ⟨?_, ?_, ?_, ?_, ?_⟩
  · intro t v w made made'
    have here := type?_of_evaluate reached.valid strict made
    have there := type?_of_evaluate reached'.valid strict' made'
    obtain ⟨type, typed⟩ := Option.ne_none_iff_exists'.mp (type?_ne_none_of_evaluate made)
    exact ⟨type, typed, by rw [there, ← same.held, ← here, typed]⟩
  · intro left right v made
    exact Arithmetic.type?_of_apply made
  · intro o member left right v made
    rw [Arithmetic.type?_of_apply made]
    simp only [List.mem_cons, List.not_mem_nil, or_false] at member
    rcases member with rfl | rfl <;> rfl
  · intro o member left right v made
    have typed : v.type? = if left.type? = some .integer ∧ right.type? = some .integer
        then some .integer else some .real := by
      rw [Arithmetic.type?_of_apply made]
      simp only [List.mem_cons, List.not_mem_nil, or_false] at member
      rcases member with rfl | rfl | rfl <;> rfl
    rw [typed]
    split <;> simp_all
  · intro t found v cut several made text
    obtain ⟨piece, member, u, valued, other⟩ := text
    exact type?_of_evaluate_eq_string reached.valid strict cut several made member valued other

/-- `n MOD 4 + 1` is an INTEGER whether `n` is 7 or 2. -/
theorem evaluate_type_fixed_remainders :
    let s (n : Int64) : Store := { entries := [("n".toList, .scalar .integer (.integer n))] }
    ∃ v w, evaluate (s 7) "n MOD 4 + 1".toList = .ok v ∧
      evaluate (s 2) "n MOD 4 + 1".toList = .ok w ∧ v ≠ w ∧
        ∃ type, v.type? = some type ∧ w.type? = some type := by
  intro s
  have reached (n : Int64) : (s n).Reachable :=
    ⟨.strict, [], none, [.declareScalar "n".toList "INTEGER".toList,
      .setScalar "n".toList (.integer n)], rfl⟩
  have same : (s 7).SameShapes (s 2) := by
    intro name
    simp only [s, Store.find?, Store.findEntry]
    split <;> rfl
  have seven : evaluate (s 7) "n MOD 4 + 1".toList = .ok (.integer 4) := by decide +kernel
  have two : evaluate (s 2) "n MOD 4 + 1".toList = .ok (.integer 3) := by decide +kernel
  have typed := (evaluate_type_fixed (reached 7) (reached 2) rfl rfl same).1 _ _ _ seven two
  exact ⟨_, _, seven, two, by decide, typed⟩

end Expression

end Pseudocode
