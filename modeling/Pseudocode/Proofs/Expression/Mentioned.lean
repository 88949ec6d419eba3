import Pseudocode.Proofs.Result
import Pseudocode.Proofs.Token.Grouped

set_option autoImplicit false

namespace Pseudocode

open Lexeme (Lexed lex)

namespace Failure

/-- The failure without the name that is suggested for an unknown one. -/
def unhinted (e : Failure) : Failure :=
  match e.cause with
  | .undeclared name _ => { e with cause := .undeclared name none }
  | _ => e

/-- Failures of one kind at one place, whose messages differ at most in the suggestion for an
unknown name. -/
structure SameButHint (e f : Failure) : Prop where
  kind : e.kind = f.kind
  span : e.span = f.span
  message : e.message = f.message ∨ e.kind = .undeclaredVariable ∧
    ∃ front a b, e.message = front ++ suggestion a ∧ f.message = front ++ suggestion b

theorem span_unhinted (e : Failure) : e.unhinted.span = e.span := by
  unfold unhinted
  split <;> rfl

theorem unhinted_cases (e : Failure) :
    e.unhinted.cause = e.cause ∨ ∃ name similar, e.cause = .undeclared name similar ∧
      e.unhinted.cause = .undeclared name none := by
  unfold unhinted
  split
  · rename_i name similar same
    exact .inr ⟨name, similar, same, rfl⟩
  · exact .inl rfl

theorem kind_unhinted (e : Failure) : e.unhinted.kind = e.kind := by
  rcases e.unhinted_cases with same | ⟨name, similar, cause, made⟩
  · simp only [kind, same]
  · simp only [kind, cause, made, Cause.kind]

theorem message_unhinted (e : Failure) :
    e.message = e.unhinted.message ∨ e.kind = .undeclaredVariable ∧
      ∃ similar, e.message = e.unhinted.message ++ suggestion similar := by
  rcases e.unhinted_cases with same | ⟨name, similar, cause, made⟩
  · simp only [message, same, true_or]
  · right
    refine ⟨by simp only [kind, cause, Cause.kind], similar, ?_⟩
    have plain : Cause.message (.undeclared name none) = ticked name ++ " is not declared" :=
      String.append_empty
    show Cause.message e.cause = Cause.message e.unhinted.cause ++ suggestion similar
    rw [cause, made, plain]
    rfl

theorem sameButHint_of_unhinted {e f : Failure} (same : e.unhinted = f.unhinted) :
    e.SameButHint f := by
  have kinds : e.kind = f.kind := by rw [← e.kind_unhinted, same, f.kind_unhinted]
  refine ⟨kinds, by rw [← e.span_unhinted, same, f.span_unhinted], ?_⟩
  have here := e.message_unhinted
  have there := f.message_unhinted
  rw [same] at here
  have plain : f.unhinted.message = f.unhinted.message ++ suggestion none :=
    String.append_empty.symm
  rcases here with here | ⟨kind, a, here⟩
  · rcases there with there | ⟨kind, b, there⟩
    · exact .inl (here.trans there.symm)
    · exact .inr ⟨kinds.trans kind, _, none, b, here.trans plain, there⟩
  · rcases there with there | ⟨_, b, there⟩
    · exact .inr ⟨kind, _, a, none, here, there.trans plain⟩
    · exact .inr ⟨kind, _, a, b, here, there⟩

end Failure

/-- A result whose failure does not suggest a name. -/
def unhinted {α : Type} (r : Result α) : Result α :=
  r.mapError Failure.unhinted

theorem unhinted_mapError {α : Type} {f : Failure → Failure}
    (commutes : ∀ e : Failure, (f e).unhinted = f e.unhinted) {r s : Result α}
    (same : unhinted r = unhinted s) : unhinted (r.mapError f) = unhinted (s.mapError f) := by
  have moved (r : Result α) : unhinted (r.mapError f) = (unhinted r).mapError f := by
    cases r with
    | error e => exact congrArg Except.error (commutes e)
    | ok a => rfl
  rw [moved, moved, same]

theorem Failure.unhinted_withSpan (e : Failure) (span : Span) :
    (e.withSpan span).unhinted = e.unhinted.withSpan span := by
  obtain ⟨cause, place⟩ := e
  cases cause <;> rfl

theorem Failure.unhinted_shift_orSpan (e : Failure) (offset : Nat) (span : Span) :
    ((e.shift offset).orSpan span).unhinted = (e.unhinted.shift offset).orSpan span := by
  obtain ⟨cause, place⟩ := e
  cases cause <;> rfl

namespace Lexeme

/-- The names among lexemes. -/
def names (lexemes : List (Spanned Lexeme)) : List Text :=
  lexemes.filterMap (·.node.name?)

theorem names_map_shift (lexemes : List (Spanned Lexeme)) (offset : Nat) :
    names (lexemes.map (·.shift offset)) = names lexemes := by
  simp only [names, List.filterMap_map]
  rfl

def namesIn (t : Text) : List Text :=
  if (lex t).stuck.isNone then names (lex t).lexemes else []

theorem Lexed.namesIn_eq {pos : Nat} {t : Text} {lexemes : List (Spanned Lexeme)}
    (lexed : Lexed pos t lexemes) : namesIn t = names lexemes := by
  obtain ⟨whole, moved⟩ := lexed.map_shift_lex
  rw [← moved, names_map_shift, namesIn, whole]
  rfl

end Lexeme

open Lexeme (names namesIn)

namespace Token

/-- Every name that a token or its index mentions is among the lexemes. -/
def Mentions (mentioned : List Text) (t : Token) : Prop :=
  (∀ name, t.name? = some name → name ∈ mentioned) ∧
    ∀ index, t.index? = some index → namesIn index.node ⊆ mentioned

theorem Mentions.mono {few many : List Text} (subset : few ⊆ many) {t : Token}
    (mentions : Mentions few t) : Mentions many t :=
  ⟨fun name has => subset (mentions.1 name has),
    fun index has => List.Subset.trans (mentions.2 index has) subset⟩

theorem Grouped.mentions {source : Text} {due : Bool} {lexemes : List (Spanned Lexeme)}
    {tokens : List (Spanned Token)} (grouped : Grouped source due lexemes tokens) :
    ∀ t ∈ tokens, Mentions (names lexemes) t.node := by
  induction grouped with
  | nil due => exact List.forall_mem_nil _
  | @element due name index place opening closing inner rest tokens _ _ inside _ _ _ ih =>
      have all : names (⟨.ident name, place⟩ :: ⟨.lbracket, opening⟩ ::
          (inner ++ ⟨.rbracket, closing⟩ :: rest)) = name :: (names inner ++ names rest) := by
        simp [names, Lexeme.name?]
      rw [all]
      refine List.forall_mem_cons.mpr ⟨⟨?_, ?_⟩, fun t member => (ih t member).mono (by simp)⟩
      · intro other same
        cases same
        exact List.mem_cons_self
      · intro other same
        cases same
        -- Lexed on its own, the index has the lexemes between the brackets.
        rw [inside.namesIn_eq]
        simp
  | @single due l token rest tokens made _ ih =>
      have all : names (l :: rest) = l.node.name?.toList ++ names rest := by
        cases named : l.node.name? <;> simp [names, named]
      rw [all]
      refine List.forall_mem_cons.mpr ⟨⟨?_, ?_⟩, fun t member => (ih t member).mono (by simp)⟩
      · intro name has
        rw [name?_of_ofLexeme made] at has
        simp [has]
      · intro index has
        rw [index?_ofLexeme made] at has
        cases has

/-- What tokens mention, their text mentions. -/
theorem mentions_of_tokenize {t : Text} {tokens : List (Spanned Token)}
    (read : tokenize t = .ok tokens) : ∀ u ∈ tokens, Mentions (namesIn t) u.node := by
  obtain ⟨lexemes, lexed, grouped⟩ := exists_grouped_of_tokenize read
  rw [lexed.namesIn_eq]
  exact grouped.mentions

end Token

/-- Two stores in which these names stand for the same. -/
def Store.AgreeOn (listed : List Text) (s s' : Store) : Prop :=
  ∀ name ∈ listed, s.find? name = s'.find? name

namespace Store

variable {s s' : Store} {name : Text}

theorem unhinted_get (same : s.find? name = s'.find? name) :
    unhinted (s.get name) = unhinted (s'.get name) := by
  unfold get
  rw [same]
  cases s'.find? name <;> rfl

theorem unhinted_getScalar (same : s.find? name = s'.find? name) :
    unhinted (s.getScalar name) = unhinted (s'.getScalar name) :=
  mapError_bind_congr (unhinted_get same) fun _ _ => rfl

theorem unhinted_getElement (same : s.find? name = s'.find? name) (index : Int64) :
    unhinted (s.getElement name index) = unhinted (s'.getElement name index) := by
  apply mapError_bind_congr
  · exact mapError_bind_congr (unhinted_get same) fun _ _ => rfl
  · intro b _
    rfl

end Store

namespace Expression

variable {s s' : Store}

theorem unhinted_operandWith {t : Spanned Token}
    {visit visit' : ∀ index, t.node.index? = some index → Result Int64}
    (agree : ∀ name, t.node.name? = some name → s.find? name = s'.find? name)
    (visits : ∀ index has, unhinted (visit index has) = unhinted (visit' index has)) :
    unhinted (operandWith s t visit) = unhinted (operandWith s' t visit') := by
  obtain ⟨node, place⟩ := t
  have placed {α : Type} {r r' : Result α} (same : unhinted r = unhinted r') :
      unhinted (r.mapError (·.withSpan place)) = unhinted (r'.mapError (·.withSpan place)) :=
    unhinted_mapError (fun e => e.unhinted_withSpan place) same
  cases node with
  | ident name =>
      apply mapError_bind_congr
      · exact placed (Store.unhinted_getScalar (agree name rfl))
      · intro v _
        rfl
  | element name index =>
      apply mapError_bind_congr (visits index rfl)
      intro i _
      apply mapError_bind_congr
      · exact placed (Store.unhinted_getElement (agree name rfl) i)
      · intro v _
        rfl
  | _ => rfl

theorem unhinted_termWith {t : Spanned Token}
    {visit visit' : ∀ index, t.node.index? = some index → Result Int64}
    (agree : ∀ name, t.node.name? = some name → s.find? name = s'.find? name)
    (visits : ∀ index has, unhinted (visit index has) = unhinted (visit' index has)) :
    unhinted (termWith s t visit) = unhinted (termWith s' t visit') := by
  have same := unhinted_operandWith agree visits
  obtain ⟨node, place⟩ := t
  cases node with
  | op o => rfl
  | lparen => rfl
  | rparen => rfl
  | _ => exact mapError_bind_congr same fun _ _ => rfl

/-- What evaluates the indices of the tokens tells the same in both stores. -/
def Visit.Alike {tokens : List (Spanned Token)} (visit visit' : Visit tokens) : Prop :=
  ∀ t member index has, unhinted (visit t member index has) = unhinted (visit' t member index has)

theorem unhinted_termsWith {tokens : List (Spanned Token)} {visit visit' : Visit tokens}
    (agree : ∀ t ∈ tokens, ∀ name, t.node.name? = some name → s.find? name = s'.find? name)
    (visits : visit.Alike visit') :
    unhinted (termsWith s tokens visit) = unhinted (termsWith s' tokens visit') := by
  induction tokens with
  | nil => rfl
  | cons t rest ih =>
      apply mapError_bind_congr
      · exact unhinted_termWith (agree t List.mem_cons_self) (visits t List.mem_cons_self)
      · intro term _
        apply mapError_bind_congr
        · exact ih (fun u member => agree u (List.mem_cons_of_mem t member))
            fun u member => visits u (List.mem_cons_of_mem t member)
        · intro terms _
          rfl

theorem unhinted_tokensValue {total : Nat} {tokens : List (Spanned Token)}
    {visit visit' : Visit tokens}
    (agree : ∀ t ∈ tokens, ∀ name, t.node.name? = some name → s.find? name = s'.find? name)
    (visits : visit.Alike visit') :
    unhinted (tokensValue s total tokens visit) =
      unhinted (tokensValue s' total tokens visit') := by
  have arithmetic := mapError_bind_congr (unhinted_termsWith agree visits)
    (f := fun terms => do Term.evaluate (← Term.toPostfix terms)) fun _ _ => rfl
  match tokens with
  | [] => rfl
  | [t] =>
      rw [tokensValue, tokensValue]
      by_cases operand : t.node.isOperand = true
      · rw [if_pos operand, if_pos operand]
        exact unhinted_operandWith (agree t List.mem_cons_self) (visits t List.mem_cons_self)
      · rw [if_neg operand, if_neg operand]
        exact arithmetic
  | _ :: _ :: _ => exact arithmetic

theorem unhinted_toIndex {r r' : Result Value} (same : unhinted r = unhinted r') (span : Span) :
    unhinted (toIndex span r) = unhinted (toIndex span r') := by
  -- A failure is only moved, and a value is looked at without the store.
  have form (r : Result Value) : toIndex span r =
      (r.mapError (fun e => (e.shift span.start).orSpan span) >>= fun v =>
        toIndex span (.ok v)) := by
    cases r <;> rfl
  rw [form, form]
  apply mapError_bind_congr
  · exact unhinted_mapError (fun e => e.unhinted_shift_orSpan span.start span) same
  · intro v _
    rfl

/-- A segment reads only the names that it mentions. The recursion is into the indices, which
mention no others. -/
theorem unhinted_segmentValue (t : Text) (agree : Store.AgreeOn (namesIn t) s s') :
    unhinted (segmentValue s t) = unhinted (segmentValue s' t) := by
  rw [segmentValue_eq, segmentValue_eq]
  apply mapError_bind_congr rfl
  intro tokens read
  have mentions := Token.mentions_of_tokenize read
  apply unhinted_tokensValue
  · intro u member name has
    exact agree name ((mentions u member).1 name has)
  · intro u member index has
    have shorter := Token.index_shorter read member has
    have inner : Store.AgreeOn (namesIn index.node) s s' :=
      fun name among => agree name ((mentions u member).2 index has among)
    exact unhinted_toIndex (unhinted_segmentValue index.node inner) index.span
termination_by t.length

theorem unhinted_segmentAt {piece : Spanned Text}
    (agree : Store.AgreeOn (namesIn piece.node) s s') :
    unhinted (segmentAt s piece) = unhinted (segmentAt s' piece) :=
  unhinted_mapError (fun e => e.unhinted_shift_orSpan piece.span.start piece.span)
    (unhinted_segmentValue piece.node agree)

theorem unhinted_foldlM_joinSegment {pieces : List (Spanned Text)}
    (agree : ∀ piece ∈ pieces, Store.AgreeOn (namesIn piece.node) s s') (sum : Value) :
    unhinted (pieces.foldlM (joinSegment s) sum) =
      unhinted (pieces.foldlM (joinSegment s') sum) := by
  induction pieces generalizing sum with
  | nil => rfl
  | cons piece rest ih =>
      rw [List.foldlM_cons, List.foldlM_cons]
      apply mapError_bind_congr
      · have first := unhinted_segmentAt (agree piece List.mem_cons_self)
        exact mapError_bind_congr first fun _ _ => rfl
      · intro v _
        exact ih (fun other member => agree other (List.mem_cons_of_mem piece member)) v

/-- The names that an expression mentions: those among the lexemes of its segments. -/
def mentioned (t : Text) : List Text :=
  match segments t with
  | .ok found => found.flatMap fun piece => namesIn piece.node
  | .error _ => []

theorem unhinted_evaluate {t : Text} (agree : Store.AgreeOn (mentioned t) s s') :
    unhinted (evaluate s t) = unhinted (evaluate s' t) := by
  apply mapError_bind_congr rfl
  intro found made
  have each : ∀ piece ∈ found, Store.AgreeOn (namesIn piece.node) s s' := by
    intro piece member name among
    apply agree
    simp only [mentioned, made, List.mem_flatMap]
    exact ⟨piece, member, among⟩
  cases found with
  | nil => rfl
  | cons first rest =>
      apply mapError_bind_congr (unhinted_segmentAt (each first List.mem_cons_self))
      intro v _
      exact unhinted_foldlM_joinSegment
        (fun piece member => each piece (List.mem_cons_of_mem first member)) v

/-- Stores that agree on the names that an expression mentions give it the same value, or the same
failure at the same place but for the name that is suggested for an unknown one. -/
theorem evaluate_reads_mentioned {t : Text} (agree : Store.AgreeOn (mentioned t) s s') :
    (∃ v, evaluate s t = .ok v ∧ evaluate s' t = .ok v) ∨
      ∃ e f, evaluate s t = .error e ∧ evaluate s' t = .error f ∧ e.SameButHint f := by
  have same := unhinted_evaluate agree
  cases here : evaluate s t with
  | ok v =>
      cases there : evaluate s' t with
      | ok w =>
          rw [here, there] at same
          cases same
          exact .inl ⟨v, rfl, rfl⟩
      | error f =>
          rw [here, there] at same
          cases same
  | error e =>
      cases there : evaluate s' t with
      | ok w =>
          rw [here, there] at same
          cases same
      | error f =>
          rw [here, there] at same
          exact .inr ⟨e, f, rfl, rfl, Failure.sameButHint_of_unhinted (Except.error.inj same)⟩

/-- `1 + b[totl]` fails alike at `totl` in a store that has `total`, which it suggests, and in an
empty one. -/
theorem evaluate_reads_mentioned_misspelt :
    ∃ e f, evaluate { entries := [("total".toList, .constant (.integer 3))] }
        "1 + b[totl]".toList = .error e ∧ evaluate {} "1 + b[totl]".toList = .error f ∧
      e ≠ f ∧ e.SameButHint f := by
  have here : evaluate { entries := [("total".toList, .constant (.integer 3))] }
      "1 + b[totl]".toList =
        .error ⟨.undeclared "totl".toList (some "total".toList), some ⟨6, 10⟩⟩ := by decide +kernel
  have there : evaluate {} "1 + b[totl]".toList =
      .error ⟨.undeclared "totl".toList none, some ⟨6, 10⟩⟩ := by decide +kernel
  have listed : mentioned "1 + b[totl]".toList = ["b".toList, "totl".toList] := by decide +kernel
  have agree : Store.AgreeOn (mentioned "1 + b[totl]".toList)
      { entries := [("total".toList, .constant (.integer 3))] } {} := by
    unfold Store.AgreeOn
    rw [listed]
    decide +kernel
  rcases evaluate_reads_mentioned agree with ⟨v, made, _⟩ | ⟨e, f, failed, failed', same⟩
  · rw [here] at made
    cases made
  · refine ⟨e, f, failed, failed', ?_, same⟩
    rw [here] at failed
    rw [there] at failed'
    cases failed
    cases failed'
    decide

end Expression

end Pseudocode
