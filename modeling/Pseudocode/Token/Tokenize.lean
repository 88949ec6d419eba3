import Pseudocode.Error
import Pseudocode.Lexeme

set_option autoImplicit false

namespace Pseudocode

open Text (slice)

namespace Token

def expectsOperand : Token → Bool
  | .op _ | .lparen => true
  | _ => false

def ofLexeme (source : Text) (operandDue : Bool) (l : Spanned Lexeme) : Result Token :=
  match l.node with
  | .intDiv => .ok (.op .intDiv)
  | .mod => .ok (.op .mod)
  | .yes => .ok (.boolean true)
  | .no => .ok (.boolean false)
  | .number t => .ok (.number t)
  | .ident n => .ok (.ident n)
  | .string s => .ok (.string s)
  | .openString _ =>
      failAt ⟨l.span.start, Text.bytes source⟩ (.malformedExpression .unterminatedString)
  | .char c => .ok (.char c)
  | .plus => .ok (.op .add)
  | .minus => .ok (.op (if operandDue then .neg else .sub))
  | .star => .ok (.op .mul)
  | .slash => .ok (.op .div)
  | .lparen => .ok .lparen
  | .rparen => .ok .rparen
  | .lbracket => failAt l.span (.malformedExpression .strayBracket)
  | .rbracket => failAt l.span (.malformedExpression .unmatchedBracket)

structure OpenIndex where
  name : Text
  nameSpan : Span
  opening : Span

def OpenIndex.close (source : Text) (i : OpenIndex) (closing : Span) : Result (Spanned Token) :=
  let span : Span := ⟨i.opening.stop, closing.start⟩
  let text := slice source span
  if (Text.trim text).isEmpty then
    failAt (i.opening.merge closing) (.malformedExpression (.emptyIndex i.name))
  else .ok ⟨.element i.name ⟨text, span⟩, i.nameSpan.merge closing⟩

mutual

/-- Groups lexemes into tokens; `operandDue` says whether a minus sign here is a negation. -/
def group (source : Text) (operandDue : Bool) :
    List (Spanned Lexeme) → Result (List (Spanned Token))
  | [] => .ok []
  | ⟨.ident name, nameSpan⟩ :: ⟨.lbracket, opening⟩ :: rest =>
      groupIndex source ⟨name, nameSpan, opening⟩ 0 rest
  | l :: rest => do
      let token ← ofLexeme source operandDue l
      let tokens ← group source token.expectsOperand rest
      return ⟨token, l.span⟩ :: tokens

/-- Looks for the bracket that closes an index; `depth` counts the brackets opened inside it. -/
def groupIndex (source : Text) (i : OpenIndex) (depth : Nat) :
    List (Spanned Lexeme) → Result (List (Spanned Token))
  | [] => failAt i.opening (.malformedExpression (.unclosedIndex i.name))
  | ⟨.lbracket, _⟩ :: rest => groupIndex source i (depth + 1) rest
  | ⟨.rbracket, closing⟩ :: rest =>
      match depth with
      | 0 => do
          let token ← i.close source closing
          let tokens ← group source false rest
          return token :: tokens
      | depth + 1 => groupIndex source i depth rest
  | _ :: rest => groupIndex source i depth rest

end

end Token

def tokenize (source : Text) : Result (List (Spanned Token)) :=
  let reading := Lexeme.lex source
  match reading.stuck with
  | some c => failAt c.span (.malformedExpression (.unexpectedCharacter c.node))
  | none => Token.group source true reading.lexemes

namespace Token

/-- Every index among the tokens is a slice of the source after its first byte. -/
def IndicesInside (source : Text) (tokens : List (Spanned Token)) : Prop :=
  ∀ t ∈ tokens, ∀ index, t.node.index? = some index →
    index.node = slice source index.span ∧ 0 < index.span.start

theorem index?_ofLexeme {source : Text} {due : Bool} {l : Spanned Lexeme} {t : Token}
    (made : ofLexeme source due l = .ok t) : t.index? = none := by
  unfold ofLexeme failAt at made
  split at made <;> cases made <;> rfl

theorem OpenIndex.close_inside {source : Text} {i : OpenIndex} {closing : Span}
    {t : Spanned Token} (made : i.close source closing = .ok t) (positive : 0 < i.opening.stop)
    (index : Spanned Text) (has : t.node.index? = some index) :
    index.node = slice source index.span ∧ 0 < index.span.start := by
  unfold OpenIndex.close failAt at made
  dsimp only at made
  split at made
  · cases made
  · cases made
    cases has
    exact ⟨rfl, positive⟩

theorem IndicesInside.cons {source : Text} {t : Spanned Token} {tokens : List (Spanned Token)}
    (first : ∀ index, t.node.index? = some index →
      index.node = slice source index.span ∧ 0 < index.span.start)
    (others : IndicesInside source tokens) : IndicesInside source (t :: tokens) := by
  intro u member
  rcases List.mem_cons.mp member with rfl | member
  · exact first
  · exact others u member

def AllPositive (lexemes : List (Spanned Lexeme)) : Prop :=
  ∀ l ∈ lexemes, 0 < l.span.stop

theorem AllPositive.tail {l : Spanned Lexeme} {rest : List (Spanned Lexeme)}
    (all : AllPositive (l :: rest)) : AllPositive rest :=
  fun m member => all m (List.mem_cons_of_mem _ member)

theorem group_indicesInside (source : Text) :
    (∀ (due : Bool) (lexemes : List (Spanned Lexeme)) (tokens : List (Spanned Token)),
      AllPositive lexemes → group source due lexemes = .ok tokens → IndicesInside source tokens) ∧
    (∀ (i : OpenIndex) (depth : Nat) (lexemes : List (Spanned Lexeme))
      (tokens : List (Spanned Token)), 0 < i.opening.stop → AllPositive lexemes →
        groupIndex source i depth lexemes = .ok tokens → IndicesInside source tokens) := by
  apply group.mutual_induct
    (fun due lexemes => ∀ tokens, AllPositive lexemes →
      group source due lexemes = .ok tokens → IndicesInside source tokens)
    (fun i depth lexemes => ∀ tokens, 0 < i.opening.stop → AllPositive lexemes →
      groupIndex source i depth lexemes = .ok tokens → IndicesInside source tokens)
  · intro due tokens positive made
    cases made
    intro t member
    cases member
  · intro due name nameSpan opening rest ih tokens positive made
    rw [group] at made
    exact ih tokens (positive ⟨.lbracket, opening⟩ (by simp)) positive.tail.tail made
  · intro due l rest other ih tokens positive made
    rw [group] at made
    · obtain ⟨token, first, made⟩ := bind_eq_ok made
      obtain ⟨later, second, made⟩ := bind_eq_ok made
      cases made
      refine .cons (fun index has => ?_) (ih token later positive.tail second)
      rw [index?_ofLexeme first] at has
      cases has
    · exact other
  · intro i depth tokens _ _ made
    cases made
  · intro i depth span rest ih tokens opened positive made
    rw [groupIndex] at made
    exact ih tokens opened positive.tail made
  · intro i closing rest ih tokens opened positive made
    rw [groupIndex] at made
    obtain ⟨token, first, made⟩ := bind_eq_ok made
    obtain ⟨later, second, made⟩ := bind_eq_ok made
    cases made
    exact .cons (OpenIndex.close_inside first opened) (ih later positive.tail second)
  · intro i closing rest depth ih tokens opened positive made
    rw [groupIndex] at made
    exact ih tokens opened positive.tail made
  · intro i depth head rest notOpen notClose ih tokens opened positive made
    rw [groupIndex] at made
    · exact ih tokens opened positive.tail made
    · exact notOpen
    · exact notClose

/-- An index is shorter than the expression that it stands in. -/
theorem index_shorter {source : Text} {tokens : List (Spanned Token)}
    (made : tokenize source = .ok tokens) {t : Spanned Token} (member : t ∈ tokens)
    {index : Spanned Text} (has : t.node.index? = some index) :
    index.node.length < source.length := by
  cases source with
  | nil =>
      simp only [tokenize, Lexeme.lex, Lexeme.lexFrom, group] at made
      cases made
      cases member
  | cons c rest =>
      unfold tokenize at made
      dsimp only at made
      split at made
      · cases made
      · have positive : AllPositive (Lexeme.lex (c :: rest)).lexemes := by
          intro l inside
          have := Lexeme.span_nonempty_of_mem_lexFrom 0 _ l inside
          omega
        obtain ⟨same, later⟩ := (group_indicesInside _).1 _ _ _ positive made t member index has
        rw [same]
        exact Text.length_slice_lt _ _ later (by simp)

end Token

end Pseudocode
