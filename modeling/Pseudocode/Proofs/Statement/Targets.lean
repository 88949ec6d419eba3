import Pseudocode.Proofs.Expression.Padding
import Pseudocode.Proofs.Lexeme.Names
import Pseudocode.Proofs.Machine.Frame
import Pseudocode.Proofs.Statement.ConstantLiterals
import Pseudocode.Proofs.Statement.Printed

set_option autoImplicit false

namespace Pseudocode

open Text (bytes trim trimmed isBlank isIdentifier splitOuter)
open Lexeme (Lexed isGap)

/-- All white space of the text may stand between lexemes. -/
def Lexeme.Spaced (t : Text) : Prop :=
  ∀ c ∈ t, isBlank c = true → isGap c = true

open Lexeme (Spaced)

theorem Lexeme.Spaced.exists_pad {t : Text} (spaced : Spaced t) :
    ∃ front back, t = front ++ (trim t ++ back) ∧ (∀ c ∈ front, isGap c = true) ∧
      (∀ c ∈ back, isGap c = true) ∧ Spaced (trim t) := by
  obtain ⟨back, parts, after⟩ := Text.exists_trimEnd_append (Text.trimStart t)
  have whole : t = t.takeWhile isBlank ++ (trim t ++ back) :=
    List.takeWhile_append_dropWhile.symm.trans (congrArg (t.takeWhile isBlank ++ ·) parts)
  have pieces := spaced
  rw [whole] at pieces
  obtain ⟨first, pieces⟩ := List.forall_mem_append.mp pieces
  obtain ⟨middle, last⟩ := List.forall_mem_append.mp pieces
  exact ⟨t.takeWhile isBlank, back, whole,
    fun c member => first c member (List.mem_takeWhile_imp member),
    fun c member => last c member (after c member), middle⟩

namespace Target

/-- How a target is written: a name, or a name, blanks, and an index between brackets. -/
theorem read_cases {base : Nat} {t : Text} {target : Spanned Target}
    (made : read base t = .ok target) :
    isIdentifier target.node.name = true ∧
    (target.node = .variable (trim t) ∨
      ∃ name gap index text, target.node = .element name index ∧
        trim t = name ++ (gap ++ '[' :: (text ++ [']'])) ∧ (∀ c ∈ gap, isBlank c = true) ∧
        trim text = index.node ∧ index.node ≠ []) := by
  refine ⟨(legible_of_read made).named, ?_⟩
  unfold read at made
  dsimp only at made
  split at made
  · cases made
  · split at made
    · obtain ⟨_, _, made⟩ := bind_eq_ok made
      cases made
      exact .inl rfl
    · rename_i mark inner found
      split at made
      · cases made
      · rename_i closed
        split at made
        · cases made
        · rename_i some
          obtain ⟨_, _, made⟩ := bind_eq_ok made
          cases made
          obtain ⟨_, whole⟩ := Text.eq_append_of_dropWhile_ne found
          obtain ⟨gap, front, blank⟩ :=
            Text.exists_trimEnd_append ((trimmed base t).node.takeWhile (· != '['))
          have last : inner.dropLast ++ [']'] = inner :=
            List.dropLast_append_getLast? _ (by simpa using closed)
          refine .inr ⟨_, gap, _, inner.dropLast, rfl, ?_, blank, rfl, by simpa using some⟩
          rw [last, ← List.append_assoc, ← front]
          exact whole

inductive IsToken : Target → Token → Prop where
  | scalar (name : Text) : IsToken (.variable name) (.ident name)
  | element {name : Text} {index text : Spanned Text} (trims : trim text.node = index.node) :
      IsToken (.element name index) (.element name text)

end Target

namespace Token

theorem encloses_append {inner : List (Spanned Lexeme)} {depth : Nat}
    (enclosed : encloses depth inner = true) (outer : Nat) (rest : List (Spanned Lexeme)) :
    encloses (depth + outer) (inner ++ rest) = encloses outer rest := by
  induction inner generalizing depth with
  | nil => rw [beq_iff_eq.mp enclosed, Nat.zero_add, List.nil_append]
  | cons l inner ih =>
      obtain ⟨node, place⟩ := l
      cases node with
      | lbracket =>
          have deeper : encloses (depth + 1 + outer) (inner ++ rest) = encloses outer rest :=
            ih enclosed
          rw [Nat.add_right_comm] at deeper
          exact deeper
      | rbracket =>
          cases depth with
          | zero => cases enclosed
          | succ depth =>
              rw [Nat.add_right_comm]
              exact ih enclosed
      | _ => exact ih enclosed

theorem Grouped.encloses {source : Text} {due : Bool} {lexemes : List (Spanned Lexeme)}
    {tokens : List (Spanned Token)} (grouped : Grouped source due lexemes tokens) :
    encloses 0 lexemes = true := by
  induction grouped with
  | nil due => rfl
  | @element due name index place opening closing inner rest tokens enclosed _ _ _ _ _ ih =>
      have outside := encloses_append enclosed 1 (⟨.rbracket, closing⟩ :: rest)
      rw [Nat.zero_add] at outside
      exact outside.trans ih
  | @single due l token rest tokens made _ ih =>
      obtain ⟨node, place⟩ := l
      cases node with
      | lbracket | rbracket => cases made
      | _ => exact ih

theorem exists_of_bareAll {tokens : List (Spanned Token)} {x : Token}
    (same : bareAll tokens = [x]) : ∃ token place, tokens = [⟨token, place⟩] ∧ token.bare = x := by
  obtain ⟨⟨token, place⟩, rfl, node⟩ := List.map_eq_singleton_iff.mp same
  exact ⟨token, place, rfl, node⟩

theorem Rereads.exists_tokenize {t : Text} {token : Token} {place : Span}
    (rereads : Rereads [] t true [⟨token, place⟩]) :
    ∃ again place, tokenize t = .ok [⟨again, place⟩] ∧ again.bare = token.bare := by
  obtain ⟨lexemes, again, lexed, grouped, same⟩ := rereads
  obtain ⟨token, place, rfl, node⟩ := exists_of_bareAll same
  exact ⟨token, place, tokenize_of_grouped lexed grouped, node⟩

theorem rereads_nil (front : Text) (due : Bool) : Rereads front [] due [] :=
  ⟨[], [], .nil _, .nil due, rfl⟩

theorem tokenize_of_isIdentifier {name : Text} (named : isIdentifier name = true) :
    ∃ place, tokenize name = .ok [⟨.ident name, place⟩] := by
  have made : ofLexeme [] true ⟨.ident name, ⟨0, 0⟩⟩ = .ok (.ident name) := rfl
  have rereads : Rereads [] (name ++ []) true [⟨.ident name, ⟨0, 0⟩⟩] :=
    .single made ((Lexeme.legible_ident_iff _).mpr named)
      (Lexeme.breaks_of_gaps (List.forall_mem_nil _)) (rereads_nil _ _) _
  rw [List.append_nil] at rereads
  obtain ⟨token, place, read, same⟩ := rereads.exists_tokenize
  cases token <;> cases same
  exact ⟨place, read⟩

end Token

namespace Target

theorem IsToken.of_bare {target : Target} {token again : Token} (is : IsToken target token)
    (same : again.bare = token.bare) : IsToken target again := by
  cases is with
  | scalar name =>
      cases again <;> cases same
      exact .scalar name
  | @element name index text trims =>
      cases again with
      | element other found =>
          obtain ⟨rfl, texts⟩ := Token.element.inj same
          have node : found.node = text.node := (Spanned.mk.inj texts).1
          exact .element (by rw [node, trims])
      | _ => cases same

/-- A target that can be located is one token. -/
theorem exists_token {s : Store} {base : Nat} {t : Text} {target : Spanned Target} {slot : Slot}
    (spaced : Spaced t) (made : read base t = .ok target)
    (located : Slot.locate s target.node = .ok slot) :
    ∃ token place, tokenize (trim t) = .ok [⟨token, place⟩] ∧ target.node.IsToken token := by
  obtain ⟨named, shape⟩ := read_cases made
  obtain ⟨_, _, _, _, _, spaced⟩ := spaced.exists_pad
  rcases shape with scalar | ⟨name, gap, index, text, element, written, blank, trims, some⟩
  · rw [scalar] at named ⊢
    obtain ⟨place, read⟩ := Token.tokenize_of_isIdentifier named
    exact ⟨_, place, read, .scalar _⟩
  · rw [element] at named located ⊢
    rw [written] at spaced ⊢
    obtain ⟨_, spaced⟩ := List.forall_mem_append.mp spaced
    obtain ⟨apart, spaced⟩ := List.forall_mem_append.mp spaced
    obtain ⟨inside, _⟩ := List.forall_mem_append.mp (List.forall_mem_cons.mp spaced).2
    -- The index has a value, so it has tokens: its brackets close, and no quote is left open.
    obtain ⟨i, valued, _⟩ := map_eq_ok located
    have value := Expression.eq_integer_of_toIndex valued
    rw [← trims, Expression.segmentValue_eq] at value
    obtain ⟨tokens, read, _⟩ := bind_eq_ok value
    obtain ⟨front, back, pad, before, after, _⟩ := Spaced.exists_pad inside
    obtain ⟨again, reread, _⟩ := tokenize_pad before after read
    rw [← pad] at reread
    obtain ⟨lexemes, lexed, grouped⟩ := exists_grouped_of_tokenize reread
    have rereads : Token.Rereads [] (name ++ (gap ++ '[' :: (text ++ ']' :: []))) true
        [⟨.element name ⟨text, ⟨0, 0⟩⟩, ⟨0, 0⟩⟩] :=
      .element gap ((Lexeme.legible_ident_iff _).mpr named)
        (fun c member => apart c member (blank c member)) grouped.encloses grouped.closed lexed
        (trims ▸ some) (Token.rereads_nil _ _) _ _
    obtain ⟨token, place, read, same⟩ := rereads.exists_tokenize
    exact ⟨token, place, read, (IsToken.element trims).of_bare same⟩

end Target

def Slot.held (s : Store) : Slot → Result Value
  | .scalar name => s.getScalar name
  | .element name index => s.getElement name index

theorem Store.Converts.isSet {policy : Policy} {type : DataType} {value stored : Value}
    (converts : Converts policy type value stored) (set : value.isSet = true) :
    stored.isSet = true := by
  cases policy with
  | strict =>
      rw [Value.isSet_iff, DataType.type?_of_accept? converts]
      exact Option.some_ne_none type
  | permissive =>
      rw [show stored = value from converts]
      exact set

theorem Slot.Written.exists_held {s next : Store} {slot : Slot} {value : Value}
    (written : slot.Written s value next) (set : value.isSet = true) :
    ∃ v, slot.held next = .ok v ∧ v.isSet = true := by
  cases written with
  | scalar _ converts _ read => exact ⟨_, read, converts.isSet set⟩
  | element _ _ converts _ _ read => exact ⟨_, read, converts.isSet set⟩

namespace Expression

variable {s : Store} {t : Text} {target : Target} {token : Token} {place : Span} {slot : Slot}

/-- The index of the token has the value that the index of the target has. -/
theorem exists_segmentValue_index {name : Text} {index text : Spanned Text} (spaced : Spaced t)
    (read : tokenize t = .ok [⟨.element name text, place⟩]) (trims : trim text.node = index.node)
    (located : Slot.locate s (.element name index) = .ok slot) :
    ∃ i, slot = .element name i ∧ segmentValue s text.node = .ok (.integer i) := by
  have placed := (tokenize_places t).of_ok read _ List.mem_cons_self
  obtain ⟨before, after, whole, _⟩ := (placed.index text rfl).stands
  rw [whole] at spaced
  obtain ⟨_, spaced⟩ := List.forall_mem_append.mp spaced
  have inside : Spaced text.node := (List.forall_mem_append.mp spaced).1
  obtain ⟨i, valued, rfl⟩ := map_eq_ok located
  have value := eq_integer_of_toIndex valued
  obtain ⟨front, back, pad, before, after, _⟩ := inside.exists_pad
  rw [← trims] at value
  rw [pad]
  exact ⟨i, rfl, segmentValue_pad before after value⟩

/-- A text that is the token of a target has the value of the place that the target names. -/
theorem segmentValue_of_isToken (spaced : Spaced t) (read : tokenize t = .ok [⟨token, place⟩])
    (is : target.IsToken token) (located : Slot.locate s target = .ok slot) {v : Value}
    (held : slot.held s = .ok v) (set : v.isSet = true) : segmentValue s t = .ok v := by
  have single : segmentValue s t =
      tokensValue s (bytes t) [⟨token, place⟩] fun _ _ index _ => indexValue s index := by
    rw [segmentValue_eq, read]
    rfl
  have passes (what : Unset) : requireSet what place v = .ok v := if_pos set
  rw [single]
  cases is with
  | scalar name =>
      cases located
      have value : s.getScalar name = .ok v := held
      change ((s.getScalar name).mapError _ >>= _) = .ok v
      rw [value]
      exact passes _
  | @element name index text trims =>
      obtain ⟨i, rfl, valued⟩ := exists_segmentValue_index spaced read trims located
      have value : s.getElement name i = .ok v := held
      change (toIndex text.span (segmentValue s text.node) >>= _) = .ok v
      rw [valued]
      change ((s.getElement name i).mapError _ >>= _) = .ok v
      rw [value]
      exact passes _

theorem splitOuter_of_isToken (spaced : Spaced t) (read : tokenize t = .ok [⟨token, place⟩])
    (is : target.IsToken token) (located : Slot.locate s target = .ok slot) :
    splitOuter '+' t = [(0, t)] := by
  cases is with
  | scalar name =>
      exact splitOuter_of_tokenize read (List.forall_mem_singleton.mpr ⟨rfl, nofun⟩)
  | @element name index text trims =>
      obtain ⟨i, rfl, valued⟩ := exists_segmentValue_index spaced read trims located
      obtain ⟨lexemes, lexed, grouped⟩ := exists_grouped_of_tokenize read
      cases grouped with
      | single made _ => cases Token.index?_ofLexeme made
      | @element _ _ _ place opening closing inner rest _ _ _ inside _ _ later =>
          cases later
          have nests := nests_of_segmentValue valued inside
          obtain ⟨passes, _⟩ :=
            Token.passes_element nests (Int.le_refl 0) name place opening closing
          rw [splitOuter, lexed.parts_of_passes passes]
          rfl

theorem evaluate_of_segment (some : trim t ≠ []) (uncut : splitOuter '+' t = [(0, t)]) {v : Value}
    (valued : segmentValue s (trim t) = .ok v) : evaluate s t = .ok v := by
  rw [evaluate_eq_of_segments (segments_of_uncut uncut some), segmentAt]
  change ((segmentValue s (trim t)).mapError _ >>= _) = _
  rw [valued]
  rfl

end Expression

/-- A text that can be assigned to can be evaluated. After a successful assignment the target, if
all its white space may stand between lexemes, is one token: the name of the variable, or the name
of the array with an index that trims to the index of the target. Where the index still has the
value that it had before the assignment, the target evaluates to what the place that was written
holds. -/
theorem assigned_target_evaluates {s next : Store} (reached : s.Reachable) {t expr : Text}
    (spaced : Spaced t) (assigned : s.assign t expr = .ok next) :
    ∃ target slot token place, Target.read 0 t = .ok target ∧
      Slot.locate s target.node = .ok slot ∧ tokenize t = .ok [⟨token, place⟩] ∧
      target.node.IsToken token ∧
      (Slot.locate next target.node = .ok slot →
        ∃ v, slot.held next = .ok v ∧ Expression.evaluate next t = .ok v) := by
  obtain ⟨target, made, assigned⟩ := bind_eq_ok assigned
  obtain ⟨value, valued, assigned⟩ := bind_eq_ok assigned
  obtain ⟨slot, located, written⟩ := Target.write_eq_ok assigned
  obtain ⟨token, place, read, is⟩ := Target.exists_token spaced made located
  obtain ⟨front, back, pad, before, after, tight⟩ := spaced.exists_pad
  obtain ⟨again, reread, same⟩ := tokenize_pad before after read
  rw [← pad] at reread
  obtain ⟨token', place', rfl, node⟩ := Token.exists_of_bareAll same
  have is' := is.of_bare node
  refine ⟨target, slot, token', place', made, located, reread, is', fun relocated => ?_⟩
  have set := value.isSet_iff.mpr (Expression.type?_ne_none_of_evaluate valued)
  obtain ⟨v, held, set⟩ := (reached.valid.written written).exists_held set
  refine ⟨v, held, ?_⟩
  have some : trim t ≠ [] := by
    intro none
    have nothing : tokenize [] = .ok [] := by decide +kernel
    rw [none, nothing] at read
    cases read
  exact Expression.evaluate_of_segment some
    (Expression.splitOuter_of_isToken spaced reread is' located)
    (Expression.segmentValue_of_isToken tight read is relocated held set)

/-- The CHAR has become a STRING in the element with index 0, which `n - 2` still is. -/
theorem assigned_target_evaluates_element :
    let s := Machine.furnished.store
    let next := s.put ['a'] (.array ⟨.string, -1, 1, #[.unset, .string ['x'], .string ['z']]⟩)
    let t := " a [n - 2 ]\t".toList
    s.Reachable ∧ Spaced t ∧ s.assign t "'x'".toList = .ok next ∧
      Expression.evaluate next t = .ok (.string ['x']) := by
  intro s next t
  have reached : s.Reachable := ⟨_, _, _, _, rfl⟩
  have spaced : Spaced t := by
    have all : (t.filter isBlank).all isGap = true := by decide +kernel
    intro c member blank
    exact List.all_eq_true.mp all c (List.mem_filter.mpr ⟨member, blank⟩)
  have assigned : s.assign t "'x'".toList = .ok next := by decide +kernel
  obtain ⟨target, slot, _, _, read, located, _, _, value⟩ :=
    assigned_target_evaluates reached spaced assigned
  have element : Target.read 0 t =
      .ok ⟨.element ['a'] ⟨"n - 2".toList, ⟨4, 9⟩⟩, ⟨1, 11⟩⟩ := by decide +kernel
  cases element.symm.trans read
  have place : Slot.locate s (.element ['a'] ⟨"n - 2".toList, ⟨4, 9⟩⟩) =
      .ok (.element ['a'] 0) := by
    decide +kernel
  cases place.symm.trans located
  obtain ⟨v, held, evaluated⟩ := value (by decide +kernel)
  have stored : next.getElement ['a'] 0 = .ok (.string ['x']) := by decide +kernel
  cases stored.symm.trans held
  exact ⟨reached, spaced, assigned, evaluated⟩

end Pseudocode
