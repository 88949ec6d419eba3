import Pseudocode.Proofs.Store.Failures
import Pseudocode.Proofs.Term.Order
import Pseudocode.Proofs.Token.Places
import Pseudocode.Expression

set_option autoImplicit false

namespace Pseudocode

open Text (bytes StandsAt splitOuter)
open Failure (Located Pinned Plain About pinned_at)

namespace Arithmetic

theorem exactly_fails (o : Operator) (n : Int) : FailsAs Plain (exactly o n) := by
  unfold exactly
  split
  · trivial
  · exact ⟨rfl, rfl⟩

theorem finitely_fails (o : Operator) (x : Float) : FailsAs Plain (finitely o x) := by
  unfold finitely
  split
  · trivial
  · exact ⟨rfl, rfl⟩

theorem asReal_fails (v : Value) : FailsAs Plain (asReal v) := by
  unfold asReal
  split
  · trivial
  · exact ⟨rfl, rfl⟩

theorem asWhole_fails (o : Operator) (v : Value) : FailsAs Plain (asWhole o v) := by
  unfold asWhole
  split
  · trivial
  · split
    · split
      · trivial
      · exact ⟨rfl, rfl⟩
    · exact ⟨rfl, rfl⟩
  · exact ⟨rfl, rfl⟩

theorem requireNumber_fails (v : Value) : FailsAs Plain (requireNumber v) := by
  unfold requireNumber
  split
  · trivial
  · exact ⟨rfl, rfl⟩

theorem combineNumbers_fails (o : Operator) (whole : Int → Int → Int)
    (real : Float → Float → Float) (left right : Value) :
    FailsAs Plain (combineNumbers o whole real left right) := by
  unfold combineNumbers
  split
  · exact exactly_fails o _
  · apply (asReal_fails left).bind
    intro a _
    apply (asReal_fails right).bind
    intro b _
    exact finitely_fails o _

theorem divide_fails (left right : Value) : FailsAs Plain (divide left right) := by
  apply (asReal_fails right).bind
  intro divisor _
  split
  · exact ⟨rfl, rfl⟩
  · apply (asReal_fails left).bind
    intro dividend _
    exact finitely_fails .div _

theorem divideWhole_fails (o : Operator) (f : Int → Int → Int) (left right : Value) :
    FailsAs Plain (divideWhole o f left right) := by
  apply (asWhole_fails o left).bind
  intro a _
  apply (asWhole_fails o right).bind
  intro b _
  split
  · exact ⟨rfl, rfl⟩
  · exact exactly_fails o _

theorem apply_fails (o : Operator) (left right : Value) : FailsAs Plain (apply o left right) := by
  apply (requireNumber_fails left).bind
  intro _ _
  apply (requireNumber_fails right).bind
  intro _ _
  cases o with
  | add | sub | mul => exact combineNumbers_fails _ _ _ left right
  | div => exact divide_fails left right
  | intDiv | mod => exact divideWhole_fails _ _ left right
  | neg => exact ⟨rfl, rfl⟩

theorem negate_fails (v : Value) : FailsAs Plain (negate v) := by
  cases v with
  | integer n => exact exactly_fails .neg _
  | real x => trivial
  | _ => exact ⟨rfl, rfl⟩

theorem join_fails (left right : Value) : FailsAs Plain (join left right) := by
  unfold join
  split
  · exact apply_fails .add left right
  · trivial

theorem literal_ensures (text : Text) :
    Ensures (fun v => v.isSet = true) Plain (literal text) := by
  unfold literal
  split
  · split
    · split
      · rfl
      · exact ⟨rfl, rfl⟩
    · exact ⟨rfl, rfl⟩
  · split
    · rfl
    · exact ⟨rfl, rfl⟩

end Arithmetic

namespace Term

variable {t : Text}

/-- Every value on the stack was computed from a range of the text. -/
def Stack.Within (t : Text) (stack : Stack) : Prop :=
  ∀ x ∈ stack, x.span.Within t

theorem place_pinned {whole : Span} (within : whole.Within t) {r : Result Value}
    (fails : FailsAs Plain r) :
    Ensures (fun x : Spanned Value => x.span.Within t) (Pinned t) (place whole r) := by
  cases r with
  | ok v => exact within
  | error e => exact (Plain.located fails).orSpan within

/-- An operation covers its operands and its operator, so it stays in the text. -/
theorem step_places {stack : Stack} {term : Spanned Term} (all : stack.Within t)
    (within : term.span.Within t) :
    Ensures (fun next : Stack => next.Within t) (Pinned t) (step stack term) := by
  unfold step
  split
  · exact List.forall_mem_cons.mpr ⟨within, all⟩
  · split
    · split
      · rename_i x rest
        obtain ⟨top, below⟩ := List.forall_mem_cons.mp all
        apply (place_pinned (within.merge top) (Arithmetic.negate_fails x.node)).map
        intro y _ made
        exact List.forall_mem_cons.mpr ⟨made, below⟩
      · exact pinned_at within rfl
    · split
      · rename_i right left rest
        obtain ⟨top, below⟩ := List.forall_mem_cons.mp all
        obtain ⟨second, below⟩ := List.forall_mem_cons.mp below
        apply (place_pinned ((second.merge top).merge within)
          (Arithmetic.apply_fails _ left.node right.node)).map
        intro y _ made
        exact List.forall_mem_cons.mpr ⟨made, below⟩
      · exact pinned_at within rfl
  · exact pinned_at within rfl
  · exact pinned_at within rfl

theorem evaluate_located {queue : List (Spanned Term)} (all : ∀ u ∈ queue, u.span.Within t) :
    FailsAs (Located t) (evaluate queue) := by
  have ran : Ensures (fun final : Stack => final.Within t) (Located t) (queue.foldlM step []) := by
    apply Ensures.foldlM
    · exact List.forall_mem_nil _
    · intro stack given u member
      exact (step_places given (all u member)).mono (fun _ _ kept => kept) fun _ => Pinned.toLocated
  apply ran.bind
  intro final _ given
  match final with
  | [] => exact Plain.located ⟨rfl, rfl⟩
  | [_] => trivial
  | x :: _ :: _ => exact (pinned_at (given x List.mem_cons_self) rfl).toLocated

theorem toPostfix_places {given : List (Spanned Term)} (all : ∀ u ∈ given, u.span.Within t) :
    Ensures (fun queue => ∀ u ∈ queue, u.span.Within t) (Located t) (toPostfix given) := by
  apply (reorder_ensures (List.forall_mem_nil _) all).mono (fun _ _ kept => kept)
  intro e misplaced
  obtain ⟨u, within, place⟩ := misplaced.place
  refine ⟨fun span has => ?_, fun reference => ?_⟩
  · rw [place] at has
    cases has
    exact within
  · rw [misplaced.kind] at reference
    cases reference

end Term

namespace Expression

variable {s : Store} {t : Text}

theorem requireSet_pinned {name : Text} {what : Unset} {span : Span} (within : span.Within t)
    (opens : span.Opens t name) (named : (Cause.uninitialized what).subject? = some name)
    (v : Value) : FailsAs (Pinned t) (requireSet what span v) := by
  unfold requireSet
  split
  · trivial
  · have about : About name { cause := .uninitialized what } := ⟨rfl, fun _ => named⟩
    exact about.withSpan within opens

theorem operandWith_pinned {u : Spanned Token} (placed : Token.PlacedIn t u)
    {visit : ∀ index, u.node.index? = some index → Result Int64}
    (visits : ∀ index has, FailsAs (Pinned t) (visit index has)) :
    FailsAs (Pinned t) (operandWith s u visit) := by
  obtain ⟨node, place⟩ := u
  obtain ⟨within, opens, _⟩ := placed
  cases node with
  | number text =>
      exact (Arithmetic.literal_ensures text).fails.mapError fun _ plain => plain.withSpan within
  | ident name =>
      apply FailsAs.bind
      · exact (s.getScalar_fails name).mapError fun _ about =>
          about.withSpan within (opens name rfl)
      · intro v _
        exact requireSet_pinned within (opens name rfl) rfl v
  | element name index =>
      apply FailsAs.bind (visits index rfl)
      intro i _
      apply FailsAs.bind
      · exact (s.getElement_fails name i).mapError fun _ about =>
          about.withSpan within (opens name rfl)
      · intro v _
        exact requireSet_pinned within (opens name rfl) rfl v
  | op _ | lparen | rparen => exact pinned_at within rfl
  | _ => trivial

theorem termWith_pinned {u : Spanned Token} (placed : Token.PlacedIn t u)
    {visit : ∀ index, u.node.index? = some index → Result Int64}
    (visits : ∀ index has, FailsAs (Pinned t) (visit index has)) :
    FailsAs (Pinned t) (termWith s u visit) := by
  unfold termWith
  split
  · trivial
  · trivial
  · trivial
  · apply (operandWith_pinned placed visits).bind
    intro v _
    split
    · trivial
    · exact pinned_at placed.within rfl

theorem termsWith_places {tokens : List (Spanned Token)} {visit : Visit tokens}
    (all : ∀ u ∈ tokens, Token.PlacedIn t u)
    (visits : ∀ u member index has, FailsAs (Pinned t) (visit u member index has)) :
    Ensures (fun given => ∀ u ∈ given, u.span.Within t) (Pinned t) (termsWith s tokens visit) := by
  induction tokens with
  | nil => exact List.forall_mem_nil _
  | cons u rest ih =>
      obtain ⟨first, later⟩ := List.forall_mem_cons.mp all
      apply Ensures.bind (termWith_pinned first (visits u List.mem_cons_self))
      intro term _ _
      apply Ensures.bind (ih later fun v member => visits v (List.mem_cons_of_mem u member))
      intro terms _ given
      exact List.forall_mem_cons.mpr ⟨first.within, given⟩

theorem arithmetic_located {tokens : List (Spanned Token)} {visit : Visit tokens}
    (all : ∀ u ∈ tokens, Token.PlacedIn t u)
    (visits : ∀ u member index has, FailsAs (Pinned t) (visit u member index has)) :
    FailsAs (Located t)
      (do Term.evaluate (← Term.toPostfix (← termsWith s tokens visit))) := by
  have resolved := (termsWith_places (s := s) all visits).mono (fun _ _ given => given) fun _ =>
    Pinned.toLocated
  apply Ensures.bind resolved
  intro given _ within
  apply Ensures.bind (Term.toPostfix_places within)
  intro queue _ kept
  exact Term.evaluate_located kept

theorem tokensValue_located {tokens : List (Spanned Token)} {visit : Visit tokens}
    (all : ∀ u ∈ tokens, Token.PlacedIn t u)
    (visits : ∀ u member index has, FailsAs (Pinned t) (visit u member index has)) :
    FailsAs (Located t) (tokensValue s (bytes t) tokens visit) := by
  match tokens with
  | [] =>
      have whole : Span.Within t ⟨0, bytes t⟩ := by
        have within := (StandsAt.refl t).within
        rw [Nat.zero_add] at within
        exact within
      exact (pinned_at whole rfl).toLocated
  | [u] =>
      rw [tokensValue]
      split
      · have operand := operandWith_pinned (s := s) (all u List.mem_cons_self)
          (visits u List.mem_cons_self)
        exact operand.weaken fun _ => Pinned.toLocated
      · exact arithmetic_located all visits
  | _ :: _ :: _ => exact arithmetic_located all visits

theorem toIndex_pinned {index : Spanned Text} (stands : index.StandsIn t) {r : Result Value}
    (fails : FailsAs (Located index.node) r) : FailsAs (Pinned t) (toIndex index.span r) := by
  unfold toIndex
  split
  · trivial
  · exact pinned_at stands.within rfl
  · rename_i e
    have located : Located index.node e := fails
    exact located.shift_orSpan stands

/-- A failing segment is reported in its text. The recursion is into the indices, whose places are
moved by the bytes before them. -/
theorem segmentValue_located (s : Store) (t : Text) : FailsAs (Located t) (segmentValue s t) := by
  rw [segmentValue_eq]
  have tokens := (tokenize_places t).mono (fun _ _ given => given) fun _ => Pinned.toLocated
  apply Ensures.bind tokens
  intro tokens read placed
  apply tokensValue_located placed
  intro u member index has
  have shorter := Token.index_shorter read member has
  exact toIndex_pinned ((placed u member).index index has) (segmentValue_located s index.node)
termination_by t.length

theorem indexValue_pinned {index : Spanned Text} (stands : index.StandsIn t) :
    FailsAs (Pinned t) (indexValue s index) :=
  toIndex_pinned stands (segmentValue_located s index.node)

theorem segment_places {part : Nat × Text} (member : part ∈ splitOuter '+' t) :
    Ensures (fun piece => piece.StandsIn t) (Pinned t) (segment (bytes t) part.1 part.2) := by
  obtain ⟨stands, follows⟩ := Text.standsAt_of_mem_splitOuter rfl member
  unfold segment
  dsimp only
  split
  · apply pinned_at
    · split
      -- Only a part that a plus follows can end before the text does.
      · rename_i before
        rcases follows with ends | plus
        · omega
        · exact plus.right.within
      · exact stands.within
    · rfl
  · exact stands.trimmed_standsIn

theorem segments_places (t : Text) :
    Ensures (fun found => ∀ piece ∈ found, piece.StandsIn t) (Pinned t) (segments t) :=
  Ensures.mapM fun _ member => segment_places member

theorem segmentAt_pinned {piece : Spanned Text} (stands : piece.StandsIn t) :
    FailsAs (Pinned t) (segmentAt s piece) :=
  (segmentValue_located s piece.node).mapError fun _ located => located.shift_orSpan stands

theorem joinSegment_pinned {piece : Spanned Text} (stands : piece.StandsIn t) (sum : Value) :
    FailsAs (Pinned t) (joinSegment s sum piece) := by
  apply FailsAs.bind (segmentAt_pinned stands)
  intro v _
  exact (Arithmetic.join_fails sum v).mapError fun _ plain => plain.located.orSpan stands.within

/-- A failing expression is reported in its text. -/
theorem evaluate_located (s : Store) (t : Text) : FailsAs (Located t) (evaluate s t) := by
  apply ((segments_places t).fails.weaken fun _ => Pinned.toLocated).bind
  intro found cut
  have stands := (segments_places t).of_ok cut
  match found with
  | [] => exact Plain.located ⟨rfl, rfl⟩
  | first :: rest =>
      obtain ⟨here, later⟩ := List.forall_mem_cons.mp stands
      have started : FailsAs (Pinned t) (segmentAt s first) := segmentAt_pinned here
      apply (started.weaken fun _ => Pinned.toLocated).bind
      intro v _
      have joined : FailsAs (Pinned t) (rest.foldlM (joinSegment s) v) := by
        apply Ensures.foldlM trivial
        intro sum _ piece member
        exact joinSegment_pinned (later piece member) sum
      exact joined.weaken fun _ => Pinned.toLocated

/-- A failing expression inside a line is reported in the line. -/
theorem evaluateAt_pinned {piece : Spanned Text} (stands : piece.StandsIn t) :
    FailsAs (Pinned t) (evaluateAt s piece) :=
  (evaluate_located s piece.node).mapError fun _ located => located.shift_orSpan stands

end Expression

end Pseudocode
