import Pseudocode.Proofs.Expression.Segments
import Pseudocode.Proofs.Infix.Reordering
import Pseudocode.Proofs.Integer.Division
import Pseudocode.Proofs.Real.Finite
import Pseudocode.Proofs.Token.Grouped
import Pseudocode.Proofs.Token.Places
import Pseudocode.Statement.Effect

set_option autoImplicit false

namespace Pseudocode

open Text (bytes trim trimmed splitOuter breakOuter Outline)
open Lexeme (Lexed)
open Token (Grouped)

def Text.Unsigned (t : Text) : Prop :=
  '-' ∉ t ∧ '+' ∉ t

theorem Integer.read?_unsigned {t : Text} (unsigned : t.Unsigned) :
    read? t = (digits? t).bind fun n => ofInt? n := by
  unfold read?
  split
  · exact absurd List.mem_cons_self unsigned.1
  · exact absurd List.mem_cons_self unsigned.2
  · rfl

theorem Real.read?_unsigned {t : Text} (unsigned : t.Unsigned) : read? t = magnitude? t := by
  unfold read?
  split
  · exact absurd List.mem_cons_self unsigned.1
  · exact absurd List.mem_cons_self unsigned.2
  · rfl

namespace Arithmetic

theorem literal_whole {t : Text} (whole : '.' ∉ t) :
    literal t =
      (Integer.read? t).elim (fail (.overflow (.literal t))) fun n => .ok (.integer n) := by
  have pointless : ¬ t.contains '.' = true := by simpa using whole
  rw [literal, if_neg pointless]
  cases Integer.read? t <;> rfl

theorem literal_point {t : Text} (point : '.' ∈ t) :
    literal t =
      (Real.read? t).elim (fail (.malformedExpression (.invalidNumber t))) fun x =>
        if x.isFinite then .ok (.real x) else fail (.overflow (.literal t)) := by
  have pointed : t.contains '.' = true := by simpa using point
  rw [literal, if_pos pointed]
  cases Real.read? t <;> rfl

/-- What digits stand for is never the least INTEGER. -/
theorem literal_ne_least {t : Text} (unsigned : t.Unsigned) :
    literal t ≠ .ok (.integer Int64.minValue) := by
  by_cases point : '.' ∈ t
  · rw [literal_point point]
    cases Real.read? t with
    | none => simp [fail]
    | some x => by_cases finite : x.isFinite = true <;> simp [finite, fail]
  · rw [literal_whole point, Integer.read?_unsigned unsigned]
    cases Integer.digits? t with
    | none => simp [fail]
    | some k =>
        cases found : Integer.ofInt? k with
        | none => simp [found, fail]
        | some i =>
            have value := (Integer.ofInt?_eq_some_iff _ _).mp found
            have least := Int64.toInt_minValue
            simp only [Option.bind_some, found, Option.elim_some, ne_eq, Except.ok.injEq,
              Value.integer.injEq]
            rintro rfl
            omega

theorem literal_minus_point {t : Text} {v : Value} (unsigned : t.Unsigned) (point : '.' ∈ t)
    (made : literal ('-' :: t) = .ok v) : ∃ x, literal t = .ok (.real x) ∧ v = .real (-x) := by
  rw [literal_point (List.mem_cons_of_mem _ point), Real.read?] at made
  rw [literal_point point, Real.read?_unsigned unsigned]
  cases found : Real.magnitude? t with
  | none => simp [found, fail] at made
  | some x =>
      simp only [found, Option.map_some, Option.elim_some, Real.isFinite_neg_eq] at made ⊢
      by_cases finite : x.isFinite = true
      · rw [if_pos finite] at made ⊢
        exact ⟨x, rfl, (Except.ok.inj made).symm⟩
      · rw [if_neg finite] at made
        cases made

theorem literal_minus_whole {t : Text} {v : Value} (unsigned : t.Unsigned) (whole : '.' ∉ t)
    (made : literal ('-' :: t) = .ok v) :
    ∃ (k : Nat) (i : Int64), v = .integer i ∧ i.toInt = -k ∧
      literal t =
        (Integer.ofInt? k).elim (fail (.overflow (.literal t))) fun n => .ok (.integer n) := by
  rw [literal_whole (by simpa using whole), Integer.read?] at made
  rw [literal_whole whole, Integer.read?_unsigned unsigned]
  cases digits : Integer.digits? t with
  | none => simp [digits, fail] at made
  | some k =>
      cases found : Integer.ofInt? (-(k : Int)) with
      | none => simp [digits, found, fail] at made
      | some i =>
          simp only [digits, Option.bind_some, found, Option.elim_some, Except.ok.injEq] at made
          exact ⟨k, i, made.symm, (Integer.ofInt?_eq_some_iff _ _).mp found, rfl⟩

/-- A sign before the digits negates what they stand for, unless that is out of range. -/
theorem literal_minus {t : Text} {v : Value} (unsigned : t.Unsigned)
    (made : literal ('-' :: t) = .ok v) :
    (v ≠ .integer Int64.minValue ∧
      ∃ w, literal t = .ok w ∧ w.isNumeric = true ∧ negate w = .ok v) ∨
    (v = .integer Int64.minValue ∧ literal t = fail (.overflow (.literal t))) := by
  by_cases point : '.' ∈ t
  · obtain ⟨x, read, rfl⟩ := literal_minus_point unsigned point made
    exact .inl ⟨by simp, .real x, read, rfl, rfl⟩
  · obtain ⟨k, i, rfl, value, read⟩ := literal_minus_whole unsigned point made
    have least := Int64.toInt_minValue
    have inside := Integer.inRange_toInt i
    rw [read, ne_eq, Value.integer.injEq, ← Int64.toInt_inj]
    cases found : Integer.ofInt? k with
    | none =>
        -- The digits are out of range and their negative is not: they stand for `2 ^ 63`.
        have outside := (Integer.ofInt?_eq_none_iff k).mp found
        unfold Integer.InRange at inside outside
        exact .inr ⟨by omega, rfl⟩
    | some j =>
        have digits := (Integer.ofInt?_eq_some_iff _ _).mp found
        have bound := Integer.inRange_toInt j
        unfold Integer.InRange at bound
        refine .inl ⟨by omega, .integer j, rfl, rfl, ?_⟩
        rw [negate, exactly, digits, ← value, Integer.ofInt?_toInt]

end Arithmetic

/-- Without array elements, every lexeme makes a token of its own. -/
theorem Token.Grouped.forall₂ {source : Text} {due : Bool} {lexemes : List (Spanned Lexeme)}
    {tokens : List (Spanned Token)} (grouped : Grouped source due lexemes tokens)
    (plain : ∀ t ∈ tokens, t.node.index? = none) :
    List.Forall₂ (fun l t => ∃ due, Token.ofLexeme source due l = .ok t.node) lexemes tokens := by
  induction grouped with
  | nil due => exact .nil
  | element _ _ _ _ _ _ => cases plain _ List.mem_cons_self
  | single made _ ih =>
      exact .cons ⟨_, made⟩ (ih fun t member => plain t (List.mem_cons_of_mem _ member))

namespace Expression

theorem splitOuter_of_tokenize {t : Text} {tokens : List (Spanned Token)}
    (read : tokenize t = .ok tokens)
    (plain : ∀ u ∈ tokens, u.node.index? = none ∧ u.node ≠ .op .add) :
    splitOuter '+' t = [(0, t)] := by
  obtain ⟨lexemes, lexed, grouped⟩ := exists_grouped_of_tokenize read
  have pairs := grouped.forall₂ fun u member => (plain u member).1
  have passes : Lexeme.scan.Passes 0 lexemes := by
    rw [Scan.passes_iff]
    rintro front x back rfl
    obtain ⟨u, among, due, made⟩ :=
      exists_related pairs (List.mem_append_right front List.mem_cons_self)
    apply Scan.weighing_passes
    intro plus
    rw [Token.ofLexeme, beq_iff_eq.mp plus] at made
    exact absurd (Except.ok.inj made).symm (plain u among).2
  rw [splitOuter, lexed.parts_of_passes passes]
  rfl

theorem unsigned_of_tokenize {t : Text} {tokens : List (Spanned Token)}
    (read : tokenize t = .ok tokens) (plain : ∀ u ∈ tokens, u.node.index? = none)
    {u : Spanned Token} (member : u ∈ tokens) {n : Text} (number : u.node = .number n) :
    n.Unsigned := by
  obtain ⟨lexemes, lexed, grouped⟩ := exists_grouped_of_tokenize read
  obtain ⟨l, among, due, made⟩ := exists_related (grouped.forall₂ plain).flip member
  have node : l.node = .number n := by
    rw [number] at made
    unfold Token.ofLexeme at made
    split at made <;> cases made
    assumption
  have proper := (lexed.proper l among).1
  rw [node] at proper
  constructor <;> intro sign <;> rcases proper _ sign with digit | point <;> contradiction

theorem evaluate_of_tokenize {t : Text} (some : t ≠ []) (tight : trim t = t)
    {tokens : List (Spanned Token)} (read : tokenize t = .ok tokens)
    (plain : ∀ u ∈ tokens, u.node.index? = none ∧ u.node ≠ .op .add) (s : Store) :
    evaluate s t =
      (tokensValue s (bytes t) tokens fun _ _ index _ => indexValue s index).mapError fun e =>
        (e.shift (trimmed 0 t).span.start).orSpan (trimmed 0 t).span := by
  have pieces : segments t = .ok [trimmed 0 t] :=
    segments_of_uncut (splitOuter_of_tokenize read plain) (tight.symm ▸ some)
  have node : (trimmed 0 t).node = t := tight
  rw [evaluate, pieces]
  show (segmentAt s (trimmed 0 t) >>= pure) = _
  rw [bind_pure, segmentAt, node, segmentValue_eq, read]
  rfl

theorem evaluate_of_operand {t : Text} (some : t ≠ []) (tight : trim t = t) {u : Spanned Token}
    (read : tokenize t = .ok [u]) (operand : u.node.isOperand = true)
    (unindexed : u.node.index? = none) {s : Store} {v : Value}
    (value : operandWith s u (fun index _ => indexValue s index) = .ok v) :
    evaluate s t = .ok v := by
  -- An operator is no operand, so there is nothing to cut at.
  have unsummed : u.node ≠ .op .add := by
    intro add
    rw [add] at operand
    cases operand
  rw [evaluate_of_tokenize some tight read (by simpa using ⟨unindexed, unsummed⟩), tokensValue,
    if_pos operand, value]
  rfl

theorem tokensValue_minus {n : Text} {w v : Value} (read : Arithmetic.literal n = .ok w)
    (number : w.isNumeric = true) (negated : Arithmetic.negate w = .ok v) (s : Store) (total : Nat)
    (sign place : Span) (visit : Visit [⟨.op .neg, sign⟩, ⟨.number n, place⟩]) :
    tokensValue s total [⟨.op .neg, sign⟩, ⟨.number n, place⟩] visit = .ok v := by
  let t : Infix.Tree Value := .negation sign (.operand w place)
  have term : termWith s ⟨.number n, place⟩ (visit _ (by simp)) = .ok (.operand w) := by
    simp only [termWith, operandWith, read]
    exact if_pos number
  have terms : termsWith s [⟨.op .neg, sign⟩, ⟨.number n, place⟩] visit =
      .ok [⟨.op .neg, sign⟩, ⟨.operand w, place⟩] := by
    simp only [termsWith, term]
    rfl
  rw [tokensValue, terms]
  show Term.evaluate t.postorder = .ok v
  rw [Infix.evaluate_postorder]
  show (Arithmetic.negate w).mapError _ = .ok v
  rw [negated]
  rfl

theorem tokensValue_minus_error {n : Text} {e : Failure} (failed : Arithmetic.literal n = .error e)
    (s : Store) (total : Nat) (sign place : Span)
    (visit : Visit [⟨.op .neg, sign⟩, ⟨.number n, place⟩]) :
    tokensValue s total [⟨.op .neg, sign⟩, ⟨.number n, place⟩] visit =
      .error (e.withSpan place) := by
  simp only [tokensValue, termsWith, termWith, operandWith, failed]
  rfl

end Expression

namespace Statement

open Expression

/-- The literal is one token, which has this value in every store; only a number can be an
INTEGER. -/
structure IsOperand (t : Spanned Token) (v : Value) : Prop where
  operand : t.node.isOperand = true
  unindexed : t.node.index? = none
  value : ∀ s visit, operandWith s t visit = .ok v
  number : ∀ i, v = .integer i → ∃ n, t.node = .number n ∧ Arithmetic.literal n = .ok v

/-- A literal is a single operand, or a sign and a number. -/
theorem literalValue_cases {tokens : List (Spanned Token)} {v : Value}
    (made : literalValue (tokens.map (·.node)) = .ok v) :
    (∃ t, tokens = [t] ∧ IsOperand t v) ∨
      ∃ n sign place, tokens = [⟨.op .neg, sign⟩, ⟨.number n, place⟩] ∧
        Arithmetic.literal ('-' :: n) = .ok v := by
  have single {x : Token} (shape : tokens.map (·.node) = [x])
      (isOperand : ∀ place, IsOperand ⟨x, place⟩ v) : ∃ t, tokens = [t] ∧ IsOperand t v := by
    obtain ⟨t, rfl, rfl⟩ := List.map_eq_singleton_iff.mp shape
    exact ⟨t, rfl, isOperand t.span⟩
  unfold literalValue at made
  split at made
  · rename_i n shape
    refine .inl (single shape fun place => ⟨rfl, rfl, fun s visit => ?_, fun i _ => ⟨n, rfl, made⟩⟩)
    show (Arithmetic.literal n).mapError _ = .ok v
    rw [made]
    rfl
  · rename_i n shape
    simp only [List.map_eq_cons_iff, List.map_eq_nil_iff] at shape
    obtain ⟨⟨_, sign⟩, _, rfl, rfl, ⟨_, place⟩, _, rfl, rfl, rfl⟩ := shape
    exact .inr ⟨n, sign, place, rfl, made⟩
  · rename_i shape
    cases made
    exact .inl (single shape fun place => ⟨rfl, rfl, fun _ _ => rfl, fun i other => by cases other⟩)
  · rename_i shape
    cases made
    exact .inl (single shape fun place => ⟨rfl, rfl, fun _ _ => rfl, fun i other => by cases other⟩)
  · rename_i shape
    cases made
    exact .inl (single shape fun place => ⟨rfl, rfl, fun _ _ => rfl, fun i other => by cases other⟩)
  · cases made

def valueText (body : Text) : Text :=
  match breakOuter Keyword.equals body with
  | some (_, rest) => trim (rest.drop 1)
  | none => []

theorem readConstant_eq_ok {base : Nat} {body : Text} {name : Spanned Text} {value : Spanned Value}
    (made : readConstant base body = .ok (name, value)) :
    valueText body ≠ [] ∧ trim (valueText body) = valueText body ∧
      ∃ tokens, tokenize (valueText body) = .ok tokens ∧
        literalValue (tokens.map (·.node)) = .ok value.node := by
  unfold readConstant at made
  unfold valueText
  split at made
  · cases made
  · rename_i front rest found
    dsimp only at made
    split at made
    · cases made
    · rename_i full
      obtain ⟨tokens, read, made⟩ := bind_eq_ok made
      obtain ⟨v, literal, made⟩ := bind_eq_ok made
      cases made
      simp only [Bool.or_eq_true, List.isEmpty_iff, not_or] at full
      simp only [found]
      exact ⟨full.2, Text.trim_trim _, tokens, mapError_eq_ok read, mapError_eq_ok literal⟩

/-- What an expression makes of a literal: the same value, unless it is the least INTEGER. -/
inductive Evaluated (s : Store) (t : Text) (v : Value) : Prop where
  | same (other : v ≠ .integer Int64.minValue) (made : evaluate s t = .ok v)
  | overflow (least : v = .integer Int64.minValue) (e : Failure)
      (failed : evaluate s t = .error e) (kind : e.kind = .overflow)

theorem evaluated_of_operand {t : Text} (some : t ≠ []) (tight : trim t = t) {u : Spanned Token}
    (read : tokenize t = .ok [u]) {v : Value} (literal : IsOperand u v) (s : Store) :
    Evaluated s t v := by
  obtain ⟨operand, unindexed, value, number⟩ := literal
  refine .same ?_ (evaluate_of_operand some tight read operand unindexed (value s _))
  rintro rfl
  obtain ⟨n, same, digits⟩ := number _ rfl
  exact Arithmetic.literal_ne_least
    (unsigned_of_tokenize read (by simpa using unindexed) List.mem_cons_self same) digits

theorem evaluated_of_minus {t : Text} (some : t ≠ []) (tight : trim t = t) {n : Text}
    {sign place : Span} (read : tokenize t = .ok [⟨.op .neg, sign⟩, ⟨.number n, place⟩]) {v : Value}
    (literal : Arithmetic.literal ('-' :: n) = .ok v) (s : Store) : Evaluated s t v := by
  have unsigned : n.Unsigned := by
    refine unsigned_of_tokenize read ?_ (u := ⟨.number n, place⟩) (by simp) rfl
    simp [Token.index?]
  have evaluated := evaluate_of_tokenize some tight read (by simp [Token.index?]) s
  rcases Arithmetic.literal_minus unsigned literal with ⟨other, w, digits, numeric, negated⟩ |
    ⟨least, failed⟩
  · rw [tokensValue_minus digits numeric negated] at evaluated
    exact .same other evaluated
  · rw [tokensValue_minus_error failed] at evaluated
    exact .overflow least _ evaluated rfl

theorem evaluated_of_readConstant {base : Nat} {body : Text} {name : Spanned Text}
    {value : Spanned Value} (read : readConstant base body = .ok (name, value)) (s : Store) :
    Evaluated s (valueText body) value.node := by
  obtain ⟨some, tight, tokens, made, literal⟩ := readConstant_eq_ok read
  rcases literalValue_cases literal with ⟨u, rfl, operand⟩ | ⟨n, sign, place, rfl, minus⟩
  · exact evaluated_of_operand some tight made operand s
  · exact evaluated_of_minus some tight made minus s

/-- A CONSTANT and an expression give the same text the same value in every store, and an assignment
writes that value, unless it is the least INTEGER: then the expression overflows. -/
theorem constant_agrees_with_expression {base : Nat} {body : Text} {name : Spanned Text}
    {value : Spanned Value} (read : readConstant base body = .ok (name, value)) (s : Store) :
    (evaluate s (valueText body) = .ok value.node ↔ value.node ≠ .integer Int64.minValue) ∧
    (value.node ≠ .integer Int64.minValue → ∀ target,
      s.assign target (valueText body) =
        (Target.read 0 target >>= fun target => Target.write s target value.node)) ∧
    (value.node = .integer Int64.minValue →
      ∃ e, evaluate s (valueText body) = .error e ∧ e.kind = .overflow) := by
  cases evaluated_of_readConstant read s with
  | same other same =>
      refine ⟨iff_of_true same other, fun _ target => ?_, fun least => absurd least other⟩
      rw [Store.assign, same]
      rfl
  | overflow least e failed kind =>
      refine ⟨iff_of_false (by simp [failed]) (not_not_intro least),
        fun other => absurd least other, fun _ => ⟨e, failed, kind⟩⟩

/-- The least INTEGER but one, with blanks between its sign and its digits. -/
theorem constant_agrees_with_expression_next_to_least :
    let body := " c = - 9223372036854775807".toList
    readConstant 8 body =
        .ok (⟨"c".toList, ⟨9, 10⟩⟩, ⟨.integer (-9223372036854775807), ⟨13, 34⟩⟩) ∧
      valueText body = "- 9223372036854775807".toList ∧
      evaluate {} "- 9223372036854775807".toList = .ok (.integer (-9223372036854775807)) := by
  intro body
  have read : readConstant 8 body =
      .ok (⟨"c".toList, ⟨9, 10⟩⟩, ⟨.integer (-9223372036854775807), ⟨13, 34⟩⟩) := by
    decide +kernel
  exact ⟨read, by decide +kernel, (constant_agrees_with_expression read {}).1.mpr (by decide)⟩

/-- The least INTEGER is the value of a CONSTANT but of no expression that is its literal. -/
theorem least_constant_overflows :
    let body := " c = -9223372036854775808".toList
    readConstant 8 body = .ok (⟨"c".toList, ⟨9, 10⟩⟩, ⟨.integer Int64.minValue, ⟨13, 33⟩⟩) ∧
      valueText body = "-9223372036854775808".toList ∧
      ∃ e, evaluate {} "-9223372036854775808".toList = .error e ∧ e.kind = .overflow := by
  intro body
  have read : readConstant 8 body =
      .ok (⟨"c".toList, ⟨9, 10⟩⟩, ⟨.integer Int64.minValue, ⟨13, 33⟩⟩) := by
    decide +kernel
  refine ⟨read, by decide +kernel, ?_⟩
  cases evaluated_of_readConstant read {} with
  | same other _ => exact absurd rfl other
  | overflow _ e failed kind => exact ⟨e, failed, kind⟩

end Statement

end Pseudocode
