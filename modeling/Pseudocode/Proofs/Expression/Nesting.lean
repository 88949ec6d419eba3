import Mathlib.Logic.Function.Iterate
import Pseudocode.Expression
import Pseudocode.Proofs.Token.Places

set_option autoImplicit false

namespace Pseudocode

open Text (bytes slice)
open Lexeme (lex Lexed)

namespace Lexeme

def openBrackets (lexemes : List (Spanned Lexeme)) : Int :=
  (lexemes.countP (·.node == .lbracket) : Int) - lexemes.countP (·.node == .rbracket)

theorem openBrackets_cons (l : Spanned Lexeme) (rest : List (Spanned Lexeme)) :
    openBrackets (l :: rest) = openBrackets [l] + openBrackets rest := by
  simp only [openBrackets, List.countP_cons, List.countP_nil]
  omega

/-- After `depth` open brackets, no bracket is closed that was not opened. -/
def StaysOpen (depth : Int) (lexemes : List (Spanned Lexeme)) : Prop :=
  ∀ front, front <+: lexemes → 0 ≤ depth + openBrackets front

theorem StaysOpen.nonneg {depth : Int} {lexemes : List (Spanned Lexeme)}
    (stays : StaysOpen depth lexemes) : 0 ≤ depth := by
  simpa [openBrackets] using stays [] List.nil_prefix

theorem staysOpen_nil {depth : Int} (above : 0 ≤ depth) : StaysOpen depth [] := by
  intro front initial
  rw [List.prefix_nil.mp initial]
  simpa [openBrackets] using above

theorem staysOpen_cons_iff {depth : Int} {l : Spanned Lexeme} {rest : List (Spanned Lexeme)} :
    StaysOpen depth (l :: rest) ↔ 0 ≤ depth ∧ StaysOpen (depth + openBrackets [l]) rest := by
  constructor
  · intro stays
    refine ⟨stays.nonneg, fun front initial => ?_⟩
    rw [Int.add_assoc, ← openBrackets_cons]
    exact stays (l :: front) (List.cons_prefix_cons.mpr ⟨rfl, initial⟩)
  · rintro ⟨above, later⟩ front initial
    rcases List.prefix_cons_iff.mp initial with rfl | ⟨others, rfl, among⟩
    · simpa [openBrackets] using above
    · rw [openBrackets_cons, ← Int.add_assoc]
      exact later others among

/-- The brackets stay open to the end, or up to the first bracket that closes one more. -/
theorem staysOpen_or_exists_closing {depth : Int} (above : 0 ≤ depth)
    (lexemes : List (Spanned Lexeme)) :
    StaysOpen depth lexemes ∨ ∃ inner closing rest,
      lexemes = inner ++ ⟨.rbracket, closing⟩ :: rest ∧ StaysOpen depth inner ∧
        depth + openBrackets inner = 0 := by
  induction lexemes generalizing depth with
  | nil => exact .inl (staysOpen_nil above)
  | cons l rest ih =>
      by_cases next : 0 ≤ depth + openBrackets [l]
      · rcases ih next with stays | ⟨inner, closing, after, rfl, stays, level⟩
        · exact .inl (staysOpen_cons_iff.mpr ⟨above, stays⟩)
        · refine .inr ⟨l :: inner, closing, after, rfl, staysOpen_cons_iff.mpr ⟨above, stays⟩, ?_⟩
          rw [openBrackets_cons, ← Int.add_assoc]
          exact level
      · obtain ⟨node, place⟩ := l
        cases node with
        | rbracket =>
            have single : openBrackets [⟨.rbracket, place⟩] = -1 := rfl
            have level : depth + openBrackets [] = 0 := by
              simp only [openBrackets, List.countP_nil]
              omega
            exact .inr ⟨[], place, rest, rfl, staysOpen_nil above, level⟩
        | lbracket =>
            have single : openBrackets [⟨.lbracket, place⟩] = 1 := rfl
            omega
        | _ => simp [openBrackets, above] at next

/-- Every bracket is closed, and none before it was opened. -/
structure Balanced (lexemes : List (Spanned Lexeme)) : Prop where
  staysOpen : StaysOpen 0 lexemes
  level : openBrackets lexemes = 0

end Lexeme

open Lexeme (openBrackets openBrackets_cons StaysOpen staysOpen_cons_iff Balanced)

namespace Token

theorem staysOpen_of_encloses {depth : Nat} {lexemes : List (Spanned Lexeme)}
    (enclosed : encloses depth lexemes = true) :
    StaysOpen depth lexemes ∧ depth + openBrackets lexemes = 0 := by
  induction lexemes generalizing depth with
  | nil =>
      have level : depth = 0 := beq_iff_eq.mp enclosed
      subst level
      exact ⟨Lexeme.staysOpen_nil (Int.le_refl 0), rfl⟩
  | cons l rest ih =>
      have step : ∀ next : Nat, (next : Int) = depth + openBrackets [l] →
          encloses next rest = true →
          StaysOpen depth (l :: rest) ∧ depth + openBrackets (l :: rest) = 0 := by
        intro next counted within
        obtain ⟨stays, level⟩ := ih within
        rw [counted] at stays level
        rw [openBrackets_cons, ← Int.add_assoc]
        exact ⟨staysOpen_cons_iff.mpr ⟨Int.natCast_nonneg depth, stays⟩, level⟩
      obtain ⟨node, place⟩ := l
      cases node with
      | lbracket => exact step (depth + 1) rfl enclosed
      | rbracket =>
          cases depth with
          | zero => cases enclosed
          | succ depth => exact step depth (by simp [openBrackets]) enclosed
      | _ => exact step depth (by simp [openBrackets]) enclosed

theorem balanced_of_encloses {lexemes : List (Spanned Lexeme)}
    (enclosed : encloses 0 lexemes = true) : Balanced lexemes := by
  obtain ⟨stays, level⟩ := staysOpen_of_encloses enclosed
  exact ⟨stays, by simpa using level⟩

/-- The search for the bracket that closes an index counts the brackets that are open. -/
theorem groupIndex_cons (source : Text) (i : OpenIndex) {depth next : Nat} {l : Spanned Lexeme}
    (counted : (next : Int) = depth + openBrackets [l]) (rest : List (Spanned Lexeme)) :
    groupIndex source i depth (l :: rest) = groupIndex source i next rest := by
  obtain ⟨node, place⟩ := l
  cases node with
  | lbracket =>
      have single : openBrackets [⟨.lbracket, place⟩] = 1 := rfl
      obtain rfl : next = depth + 1 := by omega
      rfl
  | rbracket =>
      have single : openBrackets [⟨.rbracket, place⟩] = -1 := rfl
      obtain rfl : depth = next + 1 := by omega
      rfl
  | _ =>
      obtain rfl : next = depth := by simpa [openBrackets] using counted
      rfl

theorem groupIndex_passes (source : Text) (i : OpenIndex) {depth : Nat}
    {front : List (Spanned Lexeme)} (stays : StaysOpen depth front)
    (back : List (Spanned Lexeme)) :
    groupIndex source i depth (front ++ back) =
      groupIndex source i (depth + openBrackets front).toNat back := by
  induction front generalizing depth with
  | nil => simp [openBrackets]
  | cons l rest ih =>
      have later := (staysOpen_cons_iff.mp stays).2
      have counted := Int.toNat_of_nonneg later.nonneg
      rw [← counted] at later
      rw [List.cons_append, groupIndex_cons source i counted, ih later, counted,
        openBrackets_cons l rest, Int.add_assoc]

/-- Before each lexeme and after the last a bracket is open, if the one that opened the index
counts. -/
def OpenIndex.OpenOver (i : OpenIndex) (lexemes : List (Spanned Lexeme)) : Prop :=
  ∀ front, front <+: lexemes → 0 < openBrackets (⟨.lbracket, i.opening⟩ :: front)

theorem OpenIndex.openBrackets_cons (i : OpenIndex) (lexemes : List (Spanned Lexeme)) :
    openBrackets (⟨.lbracket, i.opening⟩ :: lexemes) = 1 + openBrackets lexemes :=
  Lexeme.openBrackets_cons _ _

theorem OpenIndex.openOver_iff (i : OpenIndex) (lexemes : List (Spanned Lexeme)) :
    i.OpenOver lexemes ↔ StaysOpen 0 lexemes := by
  simp only [OpenOver, StaysOpen, i.openBrackets_cons]
  constructor <;> intro opened front initial <;> have above := opened front initial <;> omega

theorem OpenIndex.groupIndex_openOver (source : Text) (i : OpenIndex)
    {front : List (Spanned Lexeme)} (opened : i.OpenOver front) (back : List (Spanned Lexeme)) :
    groupIndex source i 0 (front ++ back) =
      groupIndex source i (openBrackets (⟨.lbracket, i.opening⟩ :: front) - 1).toNat back := by
  have counted : openBrackets (⟨.lbracket, i.opening⟩ :: front) - 1 = 0 + openBrackets front := by
    rw [i.openBrackets_cons]
    omega
  rw [counted]
  exact groupIndex_passes source i ((i.openOver_iff front).mp opened) back

/-- The search ends at the bracket that closes the index, or with the last lexeme. -/
theorem OpenIndex.groupIndex_cases (source : Text) (i : OpenIndex)
    (lexemes : List (Spanned Lexeme)) :
    (∃ inner closing rest, lexemes = inner ++ ⟨.rbracket, closing⟩ :: rest ∧
      Balanced inner ∧ i.OpenOver inner ∧ groupIndex source i 0 lexemes = do
        let token ← i.close source closing
        let tokens ← group source false rest
        return token :: tokens) ∨
    (i.OpenOver lexemes ∧ groupIndex source i 0 lexemes =
      failAt i.opening (.malformedExpression (.unclosedIndex i.name))) := by
  rcases Lexeme.staysOpen_or_exists_closing (Int.le_refl 0) lexemes with
    stays | ⟨inner, closing, rest, rfl, stays, level⟩
  · have passes := groupIndex_passes source i stays []
    rw [List.append_nil] at passes
    exact .inr ⟨(i.openOver_iff lexemes).mpr stays, passes⟩
  · rw [Int.zero_add] at level
    have passes := groupIndex_passes source i stays (⟨.rbracket, closing⟩ :: rest)
    rw [level] at passes
    refine .inl ⟨inner, closing, rest, rfl, ⟨stays, level⟩, (i.openOver_iff inner).mpr stays, ?_⟩
    refine passes.trans ?_
    change groupIndex source i 0 _ = _
    rw [groupIndex]

structure Enclosed (source : Text) (index : Spanned Text) : Prop where
  standsIn : index.StandsIn source
  shorter : bytes index.node + 3 ≤ bytes source
  whole : (lex index.node).stuck = none
  balanced : Balanced (lex index.node).lexemes

theorem bytes_index_add_le {source name : Text} {place opening closing : Span}
    {inner rest : List (Spanned Lexeme)}
    (lexed : LexedIn source (⟨.ident name, place⟩ :: ⟨.lbracket, opening⟩ ::
      (inner ++ ⟨.rbracket, closing⟩ :: rest)))
    {index : Spanned Text} (standsIn : index.StandsIn source)
    (between : index.span = ⟨opening.stop, closing.start⟩) :
    bytes index.node + 3 ≤ bytes source := by
  have adjacent : LexedIn source ([] ++ ⟨.ident name, place⟩ :: ([] ++ ⟨.lbracket, opening⟩ ::
      (inner ++ ⟨.rbracket, closing⟩ :: rest))) := lexed
  obtain ⟨_, gap, _, _, stop, start, _⟩ := LexedIn.cutBetween [] adjacent
  obtain ⟨_, named⟩ := LexedIn.standsAt [] lexed
  obtain ⟨_, opened⟩ := LexedIn.standsAt [⟨.ident name, place⟩] lexed
  obtain ⟨closes, _⟩ :=
    LexedIn.standsAt (⟨.ident name, place⟩ :: ⟨.lbracket, opening⟩ :: inner) lexed
  have last := closes.stop_le
  have bracket : bytes (Lexeme.written .lbracket) = 1 ∧ bytes (Lexeme.written .rbracket) = 1 :=
    ⟨rfl, rfl⟩
  have word : 0 < bytes name := by
    have nonempty := List.length_pos_iff.mpr (lexed.isWord List.mem_cons_self rfl).1.nonempty
    have length := Text.length_le_bytes name
    omega
  have size := standsIn.size
  have written : Lexeme.written (.ident name) = name := rfl
  rw [between] at size
  simp only [written, bracket] at stop start named opened last size
  omega

theorem enclosed_element {source name : Text} {place opening closing : Span}
    {inner rest : List (Spanned Lexeme)}
    (lexed : LexedIn source (⟨.ident name, place⟩ :: ⟨.lbracket, opening⟩ ::
      (inner ++ ⟨.rbracket, closing⟩ :: rest)))
    (enclosed : encloses 0 inner = true) :
    let span : Span := ⟨opening.stop, closing.start⟩
    Enclosed source ⟨slice source span, span⟩ := by
  have standsIn := (placedIn_element lexed).index _ rfl
  obtain ⟨inside, _⟩ := LexedIn.between [⟨.ident name, place⟩] lexed
  have alone := inside.unshift (Nat.le_refl opening.stop)
  rw [Nat.sub_self] at alone
  have read := alone.lex_eq
  rw [← encloses_map_unshift opening.stop] at enclosed
  refine ⟨standsIn, bytes_index_add_le lexed standsIn rfl, ?_, ?_⟩
  · rw [read]
  · rw [read]
    exact balanced_of_encloses enclosed

theorem Grouped.enclosed {source : Text} {due : Bool} {lexemes : List (Spanned Lexeme)}
    {tokens : List (Spanned Token)} (grouped : Grouped source due lexemes tokens)
    (lexed : LexedIn source lexemes) :
    ∀ t ∈ tokens, ∀ index, t.node.index? = some index → Enclosed source index := by
  induction grouped with
  | nil due => exact List.forall_mem_nil _
  | @element due name index place opening closing inner rest tokens enclosed _ _ text _ _ ih =>
      subst text
      refine List.forall_mem_cons.mpr ⟨fun index has => ?_, ih ?_⟩
      · cases has
        exact enclosed_element lexed enclosed
      · exact LexedIn.after (⟨.ident name, place⟩ :: ⟨.lbracket, opening⟩ :: inner) lexed
  | single made _ ih =>
      refine List.forall_mem_cons.mpr ⟨fun index has => ?_, ih (LexedIn.after [] lexed)⟩
      rw [index?_ofLexeme made] at has
      cases has

end Token

open Token (Enclosed)

theorem enclosed_of_tokenize {t : Text} {tokens : List (Spanned Token)}
    (read : tokenize t = .ok tokens) :
    ∀ token ∈ tokens, ∀ index, token.node.index? = some index → Enclosed t index := by
  obtain ⟨lexemes, lexed, grouped⟩ := exists_grouped_of_tokenize read
  exact grouped.enclosed ⟨[], t, rfl, lexed⟩

namespace Expression

/-- The text of an index among the tokens of another text. -/
def IsIndexOf (inner outer : Text) : Prop :=
  ∃ tokens, tokenize outer = .ok tokens ∧ ∃ token ∈ tokens, ∃ index,
    token.node.index? = some index ∧ index.node = inner

theorem IsIndexOf.bytes_add_le {inner outer : Text} (nested : IsIndexOf inner outer) :
    bytes inner + 3 ≤ bytes outer := by
  obtain ⟨tokens, read, token, member, index, has, rfl⟩ := nested
  exact (enclosed_of_tokenize read token member index has).shorter

theorem wellFounded_isIndexOf : WellFounded IsIndexOf := by
  refine Subrelation.wf (fun {inner outer} nested => ?_) (InvImage.wf bytes Nat.lt_wfRel.wf)
  have size := nested.bytes_add_le
  show bytes inner < bytes outer
  omega

/-- One level of evaluation: the value of a text, where `inner` evaluates the texts of its
indices. -/
def layer (s : Store) (inner : Text → Result Value) (t : Text) : Result Value :=
  tokenize t >>= fun tokens =>
    tokensValue s (bytes t) tokens fun _ _ index _ => toIndex index.span (inner index.node)

theorem layer_congr (s : Store) {t : Text} {f g : Text → Result Value}
    (same : ∀ inner, IsIndexOf inner t → f inner = g inner) : layer s f t = layer s g t := by
  unfold layer
  cases read : tokenize t with
  | error e => rfl
  | ok tokens =>
      have visits : (fun u member index has => toIndex index.span (f index.node) : Visit tokens) =
          fun u member index has => toIndex index.span (g index.node) := by
        funext u member index has
        rw [same index.node ⟨tokens, read, u, member, index, has, rfl⟩]
      exact congrArg (tokensValue s (bytes t) tokens) visits

/-- A text of fewer than `3 * n` bytes is evaluated in `n` levels, whatever stands below them. -/
theorem iterate_layer (s : Store) (f : Text → Result Value) (n : Nat) (t : Text)
    (short : bytes t < 3 * n) : (layer s)^[n] f t = segmentValue s t := by
  induction n generalizing t with
  | zero => omega
  | succ n ih =>
      rw [Function.iterate_succ_apply', segmentValue_eq]
      refine layer_congr s fun inner nested => ih inner ?_
      have size := nested.bytes_add_le
      omega

/-- An index is the piece of its text at its range and at least three bytes shorter, and its own
brackets balance. So evaluation, which goes from a text to its indices, is well founded, and its
depth is bounded by a third of the length. The search for a closing bracket counts the brackets that
are open, the one of the index apart, and it never counts below zero: it passes lexemes only while
the bracket of the index is open, up to the one that closes it or to the end. -/
theorem nested_indices_end :
    (∀ t tokens, tokenize t = .ok tokens → ∀ token ∈ tokens, ∀ index,
      token.node.index? = some index →
        index.StandsIn t ∧ slice t index.span = index.node ∧ bytes index.node + 3 ≤ bytes t ∧
          (lex index.node).stuck = none ∧ Balanced (lex index.node).lexemes) ∧
    WellFounded IsIndexOf ∧
    (∀ s f n t, bytes t < 3 * n → (layer s)^[n] f t = segmentValue s t) ∧
    ∀ source (i : Token.OpenIndex),
      (∀ front back, i.OpenOver front → Token.groupIndex source i 0 (front ++ back) =
        Token.groupIndex source i (openBrackets (⟨.lbracket, i.opening⟩ :: front) - 1).toNat back) ∧
      ∀ lexemes,
        (∃ inner closing rest, lexemes = inner ++ ⟨.rbracket, closing⟩ :: rest ∧
          Balanced inner ∧ i.OpenOver inner ∧ Token.groupIndex source i 0 lexemes = do
            let token ← i.close source closing
            let tokens ← Token.group source false rest
            return token :: tokens) ∨
        (i.OpenOver lexemes ∧ Token.groupIndex source i 0 lexemes =
          failAt i.opening (.malformedExpression (.unclosedIndex i.name))) := by
  refine ⟨fun t tokens read token member index has => ?_, wellFounded_isIndexOf, iterate_layer,
    fun source i => ⟨fun front back opened => i.groupIndex_openOver source opened back,
      i.groupIndex_cases source⟩⟩
  obtain ⟨standsIn, shorter, whole, balanced⟩ := enclosed_of_tokenize read token member index has
  exact ⟨standsIn, standsIn.slice_eq, shorter, whole, balanced⟩

/-- Two levels of indices: the inner text is three bytes shorter and balanced, three levels suffice
for the outer one, and the search counts one bracket after the second that is opened. -/
theorem nested_indices_end_twice :
    let t := "a[b[2]]".toList
    let index : Spanned Text := ⟨"b[2]".toList, ⟨2, 6⟩⟩
    let i : Token.OpenIndex := ⟨['a'], ⟨0, 1⟩, ⟨1, 2⟩⟩
    let front : List (Spanned Lexeme) := [⟨.ident ['b'], ⟨2, 3⟩⟩, ⟨.lbracket, ⟨3, 4⟩⟩]
    tokenize t = .ok [⟨.element ['a'] index, ⟨0, 7⟩⟩] ∧ slice t index.span = index.node ∧
      bytes index.node + 3 ≤ bytes t ∧ Balanced (lex index.node).lexemes ∧
      (∀ s f, (layer s)^[3] f t = segmentValue s t) ∧
      ∀ back, Token.groupIndex t i 0 (front ++ back) = Token.groupIndex t i 1 back := by
  intro t index i front
  have read : tokenize t = .ok [⟨.element ['a'] index, ⟨0, 7⟩⟩] := by decide +kernel
  have opened : i.OpenOver front := by
    rw [i.openOver_iff, staysOpen_cons_iff, staysOpen_cons_iff]
    exact ⟨by decide, by decide, Lexeme.staysOpen_nil (by decide)⟩
  obtain ⟨enclosed, _, levels, search⟩ := nested_indices_end
  obtain ⟨_, text, shorter, _, balanced⟩ := enclosed t _ read _ List.mem_cons_self index rfl
  exact ⟨read, text, shorter, balanced, fun s f => levels s f 3 t (by decide),
    fun back => (search t i).1 front back opened⟩

end Expression

end Pseudocode
