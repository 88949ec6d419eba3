import Pseudocode.Proofs.Term.Reordered
import Pseudocode.Expression

set_option autoImplicit false

namespace Pseudocode

/-- A failure for another reason than a parenthesis that reached the stack machine. -/
def Failure.Unparenthesized (e : Failure) : Prop :=
  e.cause ≠ .invalidExpression .parenthesis

open Failure (Unparenthesized)

namespace Arithmetic

theorem exactly_unparenthesized (o : Operator) (n : Int) :
    FailsAs Unparenthesized (exactly o n) := by
  unfold exactly
  split
  · trivial
  · nofun

theorem finitely_unparenthesized (o : Operator) (x : Float) :
    FailsAs Unparenthesized (finitely o x) := by
  unfold finitely
  split
  · trivial
  · nofun

theorem asReal_unparenthesized (v : Value) : FailsAs Unparenthesized (asReal v) := by
  unfold asReal
  split
  · trivial
  · nofun

theorem asWhole_unparenthesized (o : Operator) (v : Value) :
    FailsAs Unparenthesized (asWhole o v) := by
  unfold asWhole
  split
  · trivial
  · split
    · split
      · trivial
      · nofun
    · nofun
  · nofun

theorem requireNumber_unparenthesized (v : Value) : FailsAs Unparenthesized (requireNumber v) := by
  unfold requireNumber
  split
  · trivial
  · nofun

theorem combineNumbers_unparenthesized (o : Operator) (whole : Int → Int → Int)
    (real : Float → Float → Float) (left right : Value) :
    FailsAs Unparenthesized (combineNumbers o whole real left right) := by
  unfold combineNumbers
  split
  · exact exactly_unparenthesized o _
  · apply (asReal_unparenthesized left).bind
    intro a _
    apply (asReal_unparenthesized right).bind
    intro b _
    exact finitely_unparenthesized o _

theorem divide_unparenthesized (left right : Value) :
    FailsAs Unparenthesized (divide left right) := by
  apply (asReal_unparenthesized right).bind
  intro divisor _
  split
  · nofun
  · apply (asReal_unparenthesized left).bind
    intro dividend _
    exact finitely_unparenthesized .div _

theorem divideWhole_unparenthesized (o : Operator) (f : Int → Int → Int) (left right : Value) :
    FailsAs Unparenthesized (divideWhole o f left right) := by
  apply (asWhole_unparenthesized o left).bind
  intro a _
  apply (asWhole_unparenthesized o right).bind
  intro b _
  split
  · nofun
  · exact exactly_unparenthesized o _

theorem apply_unparenthesized (o : Operator) (left right : Value) :
    FailsAs Unparenthesized (apply o left right) := by
  apply (requireNumber_unparenthesized left).bind
  intro _ _
  apply (requireNumber_unparenthesized right).bind
  intro _ _
  cases o with
  | add | sub | mul => exact combineNumbers_unparenthesized _ _ _ left right
  | div => exact divide_unparenthesized left right
  | intDiv | mod => exact divideWhole_unparenthesized _ _ left right
  | neg => nofun

theorem negate_unparenthesized (v : Value) : FailsAs Unparenthesized (negate v) := by
  cases v with
  | integer n => exact exactly_unparenthesized .neg _
  | real x => trivial
  | _ => nofun

theorem join_unparenthesized (left right : Value) :
    FailsAs Unparenthesized (join left right) := by
  unfold join
  split
  · exact apply_unparenthesized .add left right
  · trivial

/-- A number as written is too large, or no number at all. -/
theorem literal_fails_as (text : Text) :
    FailsAs (fun e => e.kind = .overflow ∨ e.kind = .malformedExpression) (literal text) := by
  unfold literal
  split
  · split
    · split
      · trivial
      · exact .inl rfl
    · exact .inr rfl
  · split
    · trivial
    · exact .inl rfl

theorem literal_unparenthesized (text : Text) : FailsAs Unparenthesized (literal text) := by
  refine (literal_fails_as text).weaken fun e kinds same => ?_
  rw [Failure.kind, same] at kinds
  rcases kinds with kind | kind <;> cases kind

end Arithmetic

namespace Store

variable (s : Store) (name : Text)

theorem get_unparenthesized : FailsAs Unparenthesized (s.get name) := by
  unfold get
  split
  · trivial
  · nofun

theorem getScalar_unparenthesized : FailsAs Unparenthesized (s.getScalar name) := by
  apply (s.get_unparenthesized name).bind
  intro e _
  cases e with
  | array b => nofun
  | _ => trivial

theorem getElement_unparenthesized (index : Int64) :
    FailsAs Unparenthesized (s.getElement name index) := by
  have array : FailsAs Unparenthesized (s.getArray name) := by
    apply (s.get_unparenthesized name).bind
    intro e _
    cases e with
    | array b => trivial
    | _ => nofun
  apply array.bind
  intro b _
  have position : FailsAs Unparenthesized (position name b index) := by
    unfold Store.position
    split
    · trivial
    · nofun
  exact position.bind fun _ _ => trivial

end Store

/-- A failure to read an expression at all. -/
def Failure.Malformed (e : Failure) : Prop :=
  e.kind = .malformedExpression

open Failure (Malformed)

namespace Token

theorem ofLexeme_malformed (source : Text) (due : Bool) (l : Spanned Lexeme) :
    FailsAs Malformed (ofLexeme source due l) := by
  unfold ofLexeme
  split <;> trivial

theorem group_malformed (source : Text) :
    (∀ due lexemes, FailsAs Malformed (group source due lexemes)) ∧
    (∀ i depth lexemes, FailsAs Malformed (groupIndex source i depth lexemes)) := by
  apply group.mutual_induct
    (fun due lexemes => FailsAs Malformed (group source due lexemes))
    (fun i depth lexemes => FailsAs Malformed (groupIndex source i depth lexemes))
  · intro due
    trivial
  · intro due name place opening rest ih
    rw [group]
    exact ih
  · intro due l rest other ih
    rw [group]
    · apply (ofLexeme_malformed source due l).bind
      intro token _
      exact (ih token).bind fun _ _ => trivial
    · exact other
  · intro i depth
    rfl
  · intro i depth place rest ih
    rw [groupIndex]
    exact ih
  · intro i closing rest ih
    rw [groupIndex]
    have closed : FailsAs Malformed (i.close source closing) := by
      unfold OpenIndex.close
      dsimp only
      split
      · rfl
      · trivial
    apply closed.bind
    intro token _
    exact ih.bind fun _ _ => trivial
  · intro i closing rest depth ih
    rw [groupIndex]
    exact ih
  · intro i depth l rest notOpen notClose ih
    rw [groupIndex]
    · exact ih
    · exact notOpen
    · exact notClose

end Token

theorem tokenize_malformed (t : Text) : FailsAs Malformed (tokenize t) := by
  unfold tokenize
  dsimp only
  split
  · rfl
  · exact (Token.group_malformed t).1 true _

theorem tokenize_unparenthesized (t : Text) : FailsAs Unparenthesized (tokenize t) := by
  refine (tokenize_malformed t).weaken fun e malformed same => ?_
  rw [Failure.Malformed, Failure.kind, same] at malformed
  cases malformed

namespace Term

theorem place_unparenthesized {whole : Span} {r : Result Value}
    (fails : FailsAs Unparenthesized r) : FailsAs Unparenthesized (place whole r) := by
  cases r with
  | ok v => trivial
  | error e => exact fails

/-- Only a parenthesis makes the machine report one. -/
theorem step_unparenthesized (stack : Stack) {t : Spanned Term} (other : isParenthesis t = false) :
    FailsAs Unparenthesized (step stack t) := by
  obtain ⟨node, span⟩ := t
  cases node with
  | operand v => trivial
  | op o =>
      rw [step]
      dsimp only
      split
      · split
        · exact (place_unparenthesized (Arithmetic.negate_unparenthesized _)).map
        · nofun
      · split
        · exact (place_unparenthesized (Arithmetic.apply_unparenthesized _ _ _)).map
        · nofun
  | lparen => cases other
  | rparen => cases other

theorem evaluate_unparenthesized {queue : List (Spanned Term)}
    (others : ∀ t ∈ queue, isParenthesis t = false) :
    FailsAs Unparenthesized (evaluate queue) := by
  have ran : FailsAs Unparenthesized (queue.foldlM step []) := by
    apply Ensures.foldlM trivial
    intro stack _ t member
    exact step_unparenthesized stack (others t member)
  apply ran.bind
  intro final _
  match final with
  | [] => nofun
  | [_] => trivial
  | _ :: _ :: _ => nofun

/-- What reordering lets through has a value or fails for another reason. -/
theorem reordered_unparenthesized (given : List (Spanned Term)) :
    FailsAs Unparenthesized (toPostfix given >>= evaluate) := by
  have refused : FailsAs Unparenthesized (toPostfix given) := by
    refine (toPostfix_verdict given).fails.weaken ?_
    intro e misplaced
    cases misplaced with
    | unmatched => nofun
    | unclosed => nofun
  apply refused.bind
  intro queue made
  exact evaluate_unparenthesized (reordered_of_toPostfix made).unparenthesized

end Term

namespace Expression

variable (s : Store)

theorem requireSet_unparenthesized (what : Unset) (span : Span) (v : Value) :
    FailsAs Unparenthesized (requireSet what span v) := by
  unfold requireSet
  split
  · trivial
  · nofun

variable {s}

theorem operandWith_unparenthesized {t : Spanned Token}
    {visit : ∀ index, t.node.index? = some index → Result Int64}
    (visits : ∀ index has, FailsAs Unparenthesized (visit index has)) :
    FailsAs Unparenthesized (operandWith s t visit) := by
  have placed {α : Type} {r : Result α} (fails : FailsAs Unparenthesized r) :
      FailsAs Unparenthesized (r.mapError (·.withSpan t.span)) :=
    fails.mapError fun _ other => other
  obtain ⟨node, span⟩ := t
  cases node with
  | number text => exact placed (Arithmetic.literal_unparenthesized text)
  | ident name =>
      apply FailsAs.bind (placed (s.getScalar_unparenthesized name))
      intro v _
      exact requireSet_unparenthesized _ _ v
  | element name index =>
      apply FailsAs.bind (visits index rfl)
      intro i _
      apply FailsAs.bind (placed (s.getElement_unparenthesized name i))
      intro v _
      exact requireSet_unparenthesized _ _ v
  | op _ | lparen | rparen => nofun
  | _ => trivial

theorem termWith_unparenthesized {t : Spanned Token}
    {visit : ∀ index, t.node.index? = some index → Result Int64}
    (visits : ∀ index has, FailsAs Unparenthesized (visit index has)) :
    FailsAs Unparenthesized (termWith s t visit) := by
  unfold termWith
  split
  · trivial
  · trivial
  · trivial
  · apply (operandWith_unparenthesized visits).bind
    intro v _
    split
    · trivial
    · nofun

theorem termsWith_unparenthesized {tokens : List (Spanned Token)} {visit : Visit tokens}
    (visits : ∀ t member index has, FailsAs Unparenthesized (visit t member index has)) :
    FailsAs Unparenthesized (termsWith s tokens visit) := by
  induction tokens with
  | nil => trivial
  | cons t rest ih =>
      apply FailsAs.bind (termWith_unparenthesized (visits t List.mem_cons_self))
      intro term _
      apply FailsAs.bind (ih fun u member => visits u (List.mem_cons_of_mem t member))
      intro terms _
      trivial

theorem tokensValue_unparenthesized (total : Nat) {tokens : List (Spanned Token)}
    {visit : Visit tokens}
    (visits : ∀ t member index has, FailsAs Unparenthesized (visit t member index has)) :
    FailsAs Unparenthesized (tokensValue s total tokens visit) := by
  have arithmetic : FailsAs Unparenthesized
      (do Term.evaluate (← Term.toPostfix (← termsWith s tokens visit))) :=
    (termsWith_unparenthesized visits).bind fun given _ => Term.reordered_unparenthesized given
  match tokens with
  | [] => nofun
  | [t] =>
      rw [tokensValue]
      split
      · exact operandWith_unparenthesized (visits t List.mem_cons_self)
      · exact arithmetic
  | _ :: _ :: _ => exact arithmetic

theorem segmentValue_unparenthesized (s : Store) (t : Text) :
    FailsAs Unparenthesized (segmentValue s t) := by
  rw [segmentValue_eq]
  apply (tokenize_unparenthesized t).bind
  intro tokens read
  apply tokensValue_unparenthesized
  intro u member index has
  have shorter := Token.index_shorter read member has
  have inner := segmentValue_unparenthesized s index.node
  unfold indexValue toIndex
  split
  · trivial
  · nofun
  · rename_i e failed
    have other : e.Unparenthesized := inner.of_error failed
    exact other
termination_by t.length

theorem segmentAt_unparenthesized (piece : Spanned Text) :
    FailsAs Unparenthesized (segmentAt s piece) :=
  (segmentValue_unparenthesized s piece.node).mapError fun _ other => other

theorem segment_unparenthesized (total start : Nat) (part : Text) :
    FailsAs Unparenthesized (segment total start part) := by
  unfold segment
  dsimp only
  split
  · nofun
  · trivial

theorem evaluate_unparenthesized (s : Store) (t : Text) :
    FailsAs Unparenthesized (evaluate s t) := by
  have cut : FailsAs Unparenthesized (segments t) :=
    (Ensures.mapM fun part _ => segment_unparenthesized (Text.bytes t) part.1 part.2).fails
  apply cut.bind
  intro found _
  match found with
  | [] => nofun
  | first :: rest =>
      apply (segmentAt_unparenthesized first).bind
      intro v _
      apply Ensures.foldlM trivial
      intro sum _ piece _
      apply (segmentAt_unparenthesized piece).bind
      intro w _
      exact (Arithmetic.join_unparenthesized sum w).mapError fun _ other => other

end Expression

/-- Terms are put in evaluation order exactly if their parentheses are balanced. Then operands and
operators come out as `Reordered` says, and otherwise the parenthesis that is misplaced is reported.
So no expression fails for a parenthesis that reached the stack machine. -/
theorem toPostfix_reorders_balanced (given : List (Spanned Term)) :
    ((∃ queue, Term.toPostfix given = .ok queue) ↔ Term.Balanced given) ∧
    (∀ queue, Term.toPostfix given = .ok queue → Term.Reordered given queue) ∧
    (∀ e, Term.toPostfix given = .error e → Term.Misplaced given e) ∧
    ∀ s t e, Expression.evaluate s t = .error e → e.cause ≠ .invalidExpression .parenthesis := by
  refine ⟨⟨?_, fun balanced => ?_⟩, fun _ => Term.reordered_of_toPostfix,
    fun _ => (Term.toPostfix_verdict given).of_error,
    fun s t _ => (Expression.evaluate_unparenthesized s t).of_error⟩
  · rintro ⟨queue, made⟩
    exact (Term.toPostfix_verdict given).of_ok made
  · cases made : Term.toPostfix given with
    | ok queue => exact ⟨queue, rfl⟩
    | error e =>
        have misplaced := (Term.toPostfix_verdict given).of_error made
        exact absurd balanced (Term.not_balanced_of_misplaced misplaced)

/-- In `2 * (3 - 1)` the product comes last; in `2)(` the parenthesis that closes nothing is
reported, though another one is left open. -/
theorem toPostfix_reorders_balanced_product :
    let given : List (Spanned Term) :=
      [⟨.operand (.integer 2), ⟨0, 1⟩⟩, ⟨.op .mul, ⟨2, 3⟩⟩, ⟨.lparen, ⟨4, 5⟩⟩,
        ⟨.operand (.integer 3), ⟨5, 6⟩⟩, ⟨.op .sub, ⟨7, 8⟩⟩, ⟨.operand (.integer 1), ⟨9, 10⟩⟩,
        ⟨.rparen, ⟨10, 11⟩⟩]
    let other : List (Spanned Term) :=
      [⟨.operand (.integer 2), ⟨0, 1⟩⟩, ⟨.rparen, ⟨1, 2⟩⟩, ⟨.lparen, ⟨2, 3⟩⟩]
    Term.Balanced given ∧ Term.Reordered given
      [⟨.operand (.integer 2), ⟨0, 1⟩⟩, ⟨.operand (.integer 3), ⟨5, 6⟩⟩,
        ⟨.operand (.integer 1), ⟨9, 10⟩⟩, ⟨.op .sub, ⟨7, 8⟩⟩, ⟨.op .mul, ⟨2, 3⟩⟩] ∧
    Term.Misplaced other ⟨.malformedExpression .unmatchedParen, some ⟨1, 2⟩⟩ := by
  intro given other
  obtain ⟨balanced, reordered, _⟩ := toPostfix_reorders_balanced given
  obtain ⟨_, _, misplaced, _⟩ := toPostfix_reorders_balanced other
  exact ⟨balanced.mp ⟨_, rfl⟩, reordered _ rfl, misplaced _ rfl⟩

end Pseudocode
