import Pseudocode.Proofs.Expression.Places
import Pseudocode.Statement.Reader

set_option autoImplicit false

namespace Pseudocode

open Text (bytes trim trimmed afterWord? breakOuter splitOuter stripComment isIdentifier StandsAt
  Outline)
open Failure (Pinned Plain pinned_at)

variable {whole : Text}

/-- What follows a word that stands in a text. -/
theorem Text.StandsAt.afterWord {start : Nat} {word t rest : Text} (stands : StandsAt whole start t)
    (found : afterWord? word t = some rest) : StandsAt whole (start + bytes word) rest := by
  rw [(eq_append_of_afterWord? found).1] at stands
  exact stands.right

namespace Target

/-- A target at its place in the text: it begins with its name, and its index is a piece of the
text. -/
structure PlacedIn (whole : Text) (target : Spanned Target) : Prop where
  within : target.span.Within whole
  opens : target.span.Opens whole target.node.name
  index : ∀ index, target.node.index? = some index → index.StandsIn whole

theorem checkName_places {span : Span} (within : span.Within whole) (name : Text) :
    Ensures (fun _ => isIdentifier name = true) (Pinned whole) (checkName span name) := by
  unfold checkName
  split
  · assumption
  · exact pinned_at within rfl

theorem read_places {base : Nat} {t : Text} (stands : StandsAt whole base t) :
    Ensures (PlacedIn whole) (Pinned whole) (read base t) := by
  have piece := stands.trimmed_standsIn
  unfold read
  dsimp only
  split
  · exact pinned_at piece.within rfl
  · split
    · apply (checkName_places piece.within _).bind
      intro _ _ named
      refine ⟨piece.within, ⟨Text.isWord_of_isIdentifier named, piece.stands, ?_⟩, ?_⟩
      · exact Nat.le_of_eq piece.size.symm
      · intro index has
        cases has
    · rename_i bracket inner found
      obtain ⟨rfl, node⟩ := Text.eq_append_of_dropWhile_ne found
      split
      · exact pinned_at piece.within rfl
      · rename_i closed
        split
        · exact pinned_at piece.within rfl
        · have stands := piece.stands
          have size := piece.size
          -- The name is what stands before the bracket, without the blanks after it.
          obtain ⟨blanks, front, _⟩ := Text.exists_trimEnd_append
            ((trimmed base t).node.takeWhile (· != '['))
          apply (checkName_places piece.within _).bind
          intro _ _ named
          refine ⟨piece.within, ⟨Text.isWord_of_isIdentifier named, ?_, ?_⟩, ?_⟩
          · rw [node, front, List.append_assoc] at stands
            exact stands.left
          · have total := congrArg bytes node
            have before := congrArg bytes front
            rw [Text.bytes_append] at total before
            show (trimmed base t).span.start + bytes (Text.trimEnd _) ≤ (trimmed base t).span.stop
            omega
          · intro index has
            cases has
            have last : inner = inner.dropLast ++ [']'] := by
              have ends : inner.getLast? = some ']' := by simpa using closed
              exact (List.dropLast_append_getLast? ']' (by simp [ends])).symm
            have whole : (trimmed base t).node =
                (trimmed base t).node.takeWhile (· != '[') ++ ['['] ++
                  (inner.dropLast ++ [']']) := by
              rw [← last, List.append_assoc]
              exact node
            rw [whole] at stands
            have inside := stands.right.left
            rw [Text.bytes_append, ← Nat.add_assoc] at inside
            exact inside.trimmed_standsIn

end Target

namespace Bounds

theorem readBound_pinned {span : Span} (within : span.Within whole) (t : Text) :
    FailsAs (Pinned whole) (readBound span t) := by
  unfold readBound
  split
  · trivial
  · exact pinned_at within rfl

theorem readContent_pinned {span : Span} (within : span.Within whole) (content : Text) :
    FailsAs (Pinned whole) (readContent span content) := by
  unfold readContent
  split
  · exact pinned_at within rfl
  · split
    · exact pinned_at within rfl
    · apply (readBound_pinned within _).bind
      intro lower _
      exact (readBound_pinned within _).bind fun _ _ => trivial

/-- The bounds stand in the text, and what follows them begins where they end. -/
theorem read_places {base : Nat} {t : Text} (stands : StandsAt whole base t) :
    Ensures (fun found => found.1.span.Within whole ∧ StandsAt whole found.1.span.stop found.2)
      (Pinned whole) (read base t) := by
  have piece := stands.trimmed_standsIn
  unfold read
  split
  · rename_i inner opened
    split
    · exact pinned_at piece.within rfl
    · rename_i bracket rest found
      obtain ⟨rfl, content⟩ := Text.eq_append_of_dropWhile_ne found
      have parts := List.takeWhile_append_dropWhile (p := Text.isBlank) (l := t)
      rw [← Text.trimStart, opened, content] at parts
      rw [← parts] at stands
      have bounds := stands.right
      have split : '[' :: (inner.takeWhile (· != ']') ++ ']' :: rest) =
          ('[' :: (inner.takeWhile (· != ']') ++ [']'])) ++ rest := by simp
      rw [split] at bounds
      have size : bytes ('[' :: (inner.takeWhile (· != ']') ++ [']'])) =
          1 + bytes (inner.takeWhile (· != ']')) + 1 := by
        rw [Text.bytes_cons, Text.bytes_append, ← Nat.add_assoc]
        rfl
      have within := bounds.left.within
      have after := bounds.right
      rw [size, ← Nat.add_assoc, ← Nat.add_assoc] at within after
      apply Ensures.bind (readContent_pinned within _)
      intro found _ _
      exact ⟨within, after⟩
  · exact pinned_at piece.within rfl

end Bounds

namespace Declaration

/-- The parts of a declaration that are reported are ranges of the text. -/
structure PlacedIn (whole : Text) (d : Declaration) : Prop where
  names : ∀ name ∈ d.names, name.span.Within whole
  type : d.type.span.Within whole
  bounds : ∀ bounds, d.bounds = some bounds → bounds.span.Within whole

theorem readName_places {base : Nat} {front : Text} (stands : StandsAt whole base front)
    {part : Nat × Text} (member : part ∈ splitOuter ',' front) :
    Ensures (fun name => name.span.Within whole) (Pinned whole)
      (readName base (base + bytes front) part) := by
  have inside := (Text.standsAt_of_mem_splitOuter rfl member).1
  have placed := stands.trans inside
  unfold readName
  dsimp only
  split
  -- A missing name is reported from where it is due to the end of the list.
  · have before := inside.stop_le
    refine pinned_at ⟨?_, placed.boundary, stands.within.last⟩ rfl
    show base + part.1 ≤ base + bytes front
    omega
  · exact placed.trimmed_standsIn.within

theorem readType_places {t : Spanned Text} (stands : t.StandsIn whole) :
    Ensures (fun found => found.1.span.Within whole ∧
      ∀ bounds, found.2 = some bounds → bounds.span.Within whole)
      (Pinned whole) (readType t) := by
  unfold readType
  split
  · refine ⟨stands.within, fun bounds has => ?_⟩
    cases has
  · rename_i after found
    apply (Bounds.read_places (stands.stands.afterWord found)).bind
    intro pair _ placed
    obtain ⟨bounds, rest⟩ := pair
    obtain ⟨within, follows⟩ := placed
    have piece := follows.trimmed_standsIn
    dsimp only
    split
    · exact pinned_at (piece.within.merge within) rfl
    · rename_i type found
      refine ⟨(piece.stands.afterWord found).trimmed_standsIn.within, fun other has => ?_⟩
      cases has
      exact within

theorem read_places {base : Nat} {body : Text} (stands : StandsAt whole base body) :
    Ensures (PlacedIn whole) (Pinned whole) (read base body) := by
  unfold read
  split
  · exact pinned_at stands.trimmed_standsIn.within rfl
  · rename_i colon after found
    obtain ⟨rfl, parts⟩ := Text.eq_append_of_dropWhile_ne found
    rw [parts] at stands
    have mark : StandsAt whole (base + bytes (body.takeWhile (· != ':'))) ([':'] ++ after) :=
      stands.right
    have follows := mark.right
    dsimp only
    apply Ensures.bind (Ensures.mapM fun part member => readName_places stands.left member)
    intro names _ placed
    apply (readType_places follows.trimmed_standsIn).bind
    intro pair _ typed
    obtain ⟨type, bounds⟩ := pair
    dsimp only
    split
    · exact pinned_at typed.1 rfl
    · exact ⟨placed, typed.1, typed.2⟩

end Declaration

namespace Statement

theorem literalValue_ensures (tokens : List Token) :
    Ensures (fun v => v.isSet = true) Plain (literalValue tokens) := by
  unfold literalValue
  split
  · exact Arithmetic.literal_ensures _
  · exact Arithmetic.literal_ensures _
  · rfl
  · rfl
  · rfl
  · exact ⟨rfl, rfl⟩

theorem readConstant_places {base : Nat} {body : Text} (stands : StandsAt whole base body) :
    Ensures (fun constant => constant.1.span.Within whole ∧ constant.2.node.isSet = true)
      (Pinned whole) (readConstant base body) := by
  unfold readConstant
  split
  · exact pinned_at stands.trimmed_standsIn.within rfl
  · rename_i front rest found
    obtain ⟨parts, depth, marked⟩ := Outline.breakAt_eq_some found
    obtain ⟨value, rfl⟩ : ∃ value, rest = '=' :: value := by
      simp only [Bool.and_eq_true, List.isPrefixOf_iff_prefix] at marked
      obtain ⟨value, same⟩ := marked.2
      exact ⟨value, same.symm⟩
    have within := stands.within
    rw [parts] at stands
    have mark : StandsAt whole (base + bytes front) (['='] ++ value) := stands.right
    have text := mark.right.trimmed_standsIn
    show Ensures _ _ (if _ then _ else _)
    split
    · exact pinned_at within rfl
    · apply Ensures.bind ((tokenize_places _).fails.mapError fun _ pinned =>
        pinned.shift text.stands)
      intro tokens _ _
      apply Ensures.bind ((literalValue_ensures _).mapError fun _ plain =>
        plain.located.orSpan text.within)
      intro v _ set
      exact ⟨stands.left.trimmed_standsIn.within, set⟩

/-- The parts of a statement that are reported are at their places in the line. -/
def PlacedIn (whole : Text) : Statement → Prop
  | .declare d => d.PlacedIn whole
  | .constant name value => name.span.Within whole ∧ value.node.isSet = true
  | .assign target expr => Target.PlacedIn whole target ∧ expr.StandsIn whole
  | .input target => Target.PlacedIn whole target
  | .output exprs => ∀ expr ∈ exprs, expr.StandsIn whole

theorem readOutputPart_places {base : Nat} {body : Text} (stands : StandsAt whole base body)
    {part : Nat × Text} (member : part ∈ splitOuter ',' body) :
    Ensures (fun expr => expr.StandsIn whole) (Pinned whole) (readOutputPart base part) := by
  have placed := stands.trans (Text.standsAt_of_mem_splitOuter rfl member).1
  unfold readOutputPart
  dsimp only
  split
  · exact pinned_at placed.within rfl
  · exact placed.trimmed_standsIn

theorem readCode_places {code : Spanned Text} (stands : code.StandsIn whole) :
    Ensures (PlacedIn whole) (Pinned whole) (readCode code) := by
  unfold readCode
  dsimp only
  split
  · rename_i body found
    exact (Declaration.read_places (stands.stands.afterWord found)).map fun _ _ placed => placed
  · split
    · rename_i body found
      exact (readConstant_places (stands.stands.afterWord found)).map fun _ _ placed => placed
    · split
      · rename_i body found
        exact (Target.read_places (stands.stands.afterWord found)).map fun _ _ placed => placed
      · split
        · rename_i body found
          have follows := stands.stands.afterWord found
          apply Ensures.map (Ensures.mapM fun part member => readOutputPart_places follows member)
          exact fun _ _ placed => placed
        · split
          · rename_i front rest found
            obtain ⟨parts, depth, marked⟩ := Outline.breakAt_eq_some found
            obtain ⟨expr, rfl⟩ : ∃ expr, rest = ['<', '-'] ++ expr := by
              simp only [Bool.and_eq_true, List.isPrefixOf_iff_prefix] at marked
              obtain ⟨expr, same⟩ := marked.2
              exact ⟨expr, same.symm⟩
            have placed := stands.stands
            rw [parts] at placed
            have follows : StandsAt whole (code.span.start + bytes front + 2) expr :=
              placed.right.right
            split
            · exact pinned_at placed.right.left.within rfl
            · apply (Target.read_places placed.left).map
              exact fun _ _ target => ⟨target, follows.trimmed_standsIn⟩
          · exact pinned_at stands.within rfl

theorem standsAt_stripComment (line : Text) : StandsAt line 0 (stripComment line) := by
  unfold stripComment
  split
  · rename_i code comment found
    exact ⟨[], comment, (Outline.breakAt_eq_some found).1, rfl⟩
  · exact StandsAt.refl line

/-- A line that can be read has its parts at their places; one that cannot is reported in it. -/
theorem ofLine_places (line : Text) :
    Ensures (fun found => ∀ statement, found = some statement → statement.node.PlacedIn line)
      (Pinned line) (ofLine line) := by
  have code := (standsAt_stripComment line).trimmed_standsIn
  unfold ofLine
  dsimp only
  split
  · intro statement has
    cases has
  · apply (readCode_places code).map
    intro s _ placed statement has
    cases has
    exact placed

end Statement

end Pseudocode
