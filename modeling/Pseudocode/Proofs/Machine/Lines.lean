import Pseudocode.Machine
import Pseudocode.Proofs.Places

set_option autoImplicit false

namespace Pseudocode

open Text (bytes trimLineEnd StandsAt)

/-- `line` is the line with number `n` of the source: `n - 1` lines end in the text before it, and
carriage returns may stand between it and the line feed or the end of the source. -/
structure Text.LineAt (source : Text) (n : Nat) (front line : Text) : Prop where
  number : n = front.count '\n' + 1
  starts : front = [] ∨ ∃ before, front = before ++ ['\n']
  single : '\n' ∉ line
  bare : ∀ before, line ≠ before ++ ['\r']
  ends : ∃ returns feed back, source = front ++ (line ++ (returns ++ (feed ++ back))) ∧
    (∀ c ∈ returns, c = '\r') ∧ (feed = ['\n'] ∨ feed = [] ∧ back = [])

theorem Text.LineAt.standsAt {source front line : Text} {n : Nat}
    (numbered : source.LineAt n front line) : StandsAt source (bytes front) line := by
  obtain ⟨returns, feed, back, same, _⟩ := numbered.ends
  exact ⟨front, returns ++ (feed ++ back), same, rfl⟩

/-- Lines with the line feeds that end them; the last one may have none. -/
inductive Feeds : List Text → Prop where
  | nil : Feeds []
  | last {content : Text} (single : '\n' ∉ content) : Feeds [content]
  | cons {content : Text} {rest : List Text} (single : '\n' ∉ content) (later : Feeds rest) :
      Feeds ((content ++ ['\n']) :: rest)

theorem flatten_sourceLines (t : Text) : (sourceLines t).flatten = t := by
  induction t with
  | nil => rfl
  | cons c t ih =>
      rw [sourceLines]
      split
      · rename_i feed
        rw [List.flatten_cons, ih, feed]
        rfl
      · split
        · rename_i none
          rw [none] at ih
          rw [← ih]
          rfl
        · rename_i line rest found
          rw [found, List.flatten_cons] at ih
          rw [List.flatten_cons, List.cons_append, ih]

theorem feeds_sourceLines (t : Text) : Feeds (sourceLines t) := by
  induction t with
  | nil => exact .nil
  | cons c t ih =>
      rw [sourceLines]
      split
      · exact .cons List.not_mem_nil ih
      · rename_i other
        have added {content : Text} (single : '\n' ∉ content) : '\n' ∉ c :: content := by
          intro member
          rcases List.mem_cons.mp member with same | member
          · exact other same.symm
          · exact single member
        split
        · exact .last (added List.not_mem_nil)
        · rename_i line rest found
          rw [found] at ih
          cases ih with
          | last single => exact .last (added single)
          | cons single later => exact .cons (added single) later

theorem Feeds.cut {before after : List Text} {line : Text}
    (feeds : Feeds (before ++ line :: after)) :
    before.flatten.count '\n' = before.length ∧
      (before.flatten = [] ∨ ∃ front, before.flatten = front ++ ['\n']) ∧
      ∃ content feed, line = content ++ feed ∧ '\n' ∉ content ∧
        (feed = ['\n'] ∨ feed = [] ∧ after.flatten = []) := by
  induction before with
  | nil =>
      refine ⟨rfl, .inl rfl, ?_⟩
      cases feeds with
      | last single => exact ⟨line, [], by simp, single, .inr ⟨rfl, rfl⟩⟩
      | @cons content _ single _ => exact ⟨content, ['\n'], rfl, single, .inl rfl⟩
  | cons first before ih =>
      rw [List.cons_append] at feeds
      generalize all : before ++ line :: after = rest at feeds
      cases feeds with
      | last _ => simp at all
      | @cons content _ single later =>
          subst all
          obtain ⟨count, starts, own⟩ := ih later
          refine ⟨?_, .inr ?_, own⟩
          · have none : content.count '\n' = 0 := List.count_eq_zero.mpr single
            rw [List.flatten_cons, List.count_append, List.count_append, count, none,
              List.length_cons]
            simp [Nat.add_comm]
          · rcases starts with empty | ⟨front, starts⟩
            · exact ⟨content, by rw [List.flatten_cons, empty, List.append_nil]⟩
            · exact ⟨content ++ ['\n'] ++ front, by simp [starts]⟩

theorem Text.exists_trimLineEnd_append (t : Text) :
    (∀ before, trimLineEnd t ≠ before ++ ['\r']) ∧
      ∃ ending, t = trimLineEnd t ++ ending ∧ ∀ c ∈ ending, c = '\n' ∨ c = '\r' := by
  refine ⟨fun before ends => ?_, ?_⟩
  · have stop := List.head?_dropWhile_not (fun c => c == '\n' || c == '\r') t.reverse
    rw [trimLineEnd, List.reverse_eq_iff, List.reverse_append] at ends
    rw [ends] at stop
    simp at stop
  · refine ⟨(t.reverse.takeWhile fun c => c == '\n' || c == '\r').reverse, ?_, ?_⟩
    · have parts := List.takeWhile_append_dropWhile (p := fun c => c == '\n' || c == '\r')
        (l := t.reverse)
      rw [trimLineEnd, ← List.reverse_append, parts, List.reverse_reverse]
    · intro c member
      have marked := List.mem_takeWhile_imp (List.mem_reverse.mp member)
      simpa using marked

theorem Text.trimLineEnd_append_feed (t : Text) {feed : Text} (marks : ∀ c ∈ feed, c = '\n') :
    trimLineEnd (t ++ feed) = trimLineEnd t := by
  have reversed : ∀ c ∈ feed.reverse, (c == '\n' || c == '\r') = true := by
    intro c member
    rw [marks c (List.mem_reverse.mp member)]
    rfl
  rw [trimLineEnd, List.reverse_append, List.dropWhile_append_of_pos reversed, trimLineEnd]

/-- The lines that a machine executes are the lines of the source. -/
theorem lineAt_of_sourceLines {source line : Text} {before after : List Text}
    (cut : sourceLines source = before ++ line :: after) :
    source.LineAt (before.length + 1) before.flatten (trimLineEnd line) := by
  have feeds := feeds_sourceLines source
  have whole := flatten_sourceLines source
  rw [cut] at feeds whole
  rw [List.flatten_append, List.flatten_cons] at whole
  obtain ⟨count, starts, content, feed, rfl, single, ends⟩ := feeds.cut
  have marks : ∀ c ∈ feed, c = '\n' := by
    rcases ends with rfl | ⟨rfl, _⟩ <;> simp
  obtain ⟨bare, returns, parts, ending⟩ := Text.exists_trimLineEnd_append content
  rw [Text.trimLineEnd_append_feed content marks]
  refine ⟨by rw [count], starts, ?_, bare, returns, feed, after.flatten, ?_, ?_, ends⟩
  · rw [parts] at single
    exact fun member => single (List.mem_append_left _ member)
  · rw [← whole, ← List.append_assoc (trimLineEnd content), ← parts, List.append_assoc]
  · intro c member
    rcases ending c member with rfl | same
    · rw [parts] at single
      exact absurd (List.mem_append_right _ member) single
    · exact same

end Pseudocode
