import Pseudocode.Proofs.Machine.Frame
import Pseudocode.Proofs.Statement.Targets

set_option autoImplicit false

namespace Pseudocode

open Text (bytes encode trimLineEnd)

namespace Text

theorem feed_not_mem_utf8EncodeChar {c : Char} (other : c ≠ '\n') :
    (10 : UInt8) ∉ String.utf8EncodeChar c := by
  intro member
  have code : c.val.toNat ≠ 10 := by
    intro same
    exact other (Char.ext (UInt32.toNat_inj.mp same))
  have byte : ∀ n, (10 : UInt8) = UInt8.ofNat n → n % 256 = 10 := by
    intro n same
    have value := congrArg UInt8.toNat same
    simpa using value.symm
  -- A byte of a longer form has its first bit set.
  unfold String.utf8EncodeChar at member
  dsimp only at member
  split at member
  · have value := byte _ (List.mem_singleton.mp member)
    omega
  · split at member
    · simp only [List.mem_cons, List.not_mem_nil, or_false] at member
      rcases member with same | same <;> have value := byte _ same <;> omega
    · split at member
      · simp only [List.mem_cons, List.not_mem_nil, or_false] at member
        rcases member with same | same | same <;> have value := byte _ same <;> omega
      · simp only [List.mem_cons, List.not_mem_nil, or_false] at member
        rcases member with same | same | same | same <;> have value := byte _ same <;> omega

theorem feed_not_mem_encode {t : Text} (single : '\n' ∉ t) : (10 : UInt8) ∉ encode t := by
  intro member
  obtain ⟨c, inside, among⟩ := List.mem_flatMap.mp member
  refine feed_not_mem_utf8EncodeChar (fun feed => ?_) among
  rw [feed] at inside
  exact single inside

theorem trimLineEnd_of_line {t : Text} (single : '\n' ∉ t) (bare : t.getLast? ≠ some '\r') :
    trimLineEnd (t ++ ['\n']) = t := by
  rw [trimLineEnd_append_feed t (by simp)]
  obtain ⟨_, ending, parts, marks⟩ := exists_trimLineEnd_append t
  rcases List.eq_nil_or_concat ending with rfl | ⟨front, last, rfl⟩
  · rw [List.append_nil] at parts
    exact parts.symm
  · have final : t.getLast? = some last := by
      rw [parts]
      simp
    rcases marks last (by simp) with rfl | rfl
    · exact absurd (List.mem_of_getLast? final) single
    · exact absurd final bare

end Text

/-- A line that was written is taken from the input as it was written. -/
theorem nextLine_encode {t : Text} (single : '\n' ∉ t) (more : List UInt8) :
    nextLine (encode (t ++ ['\n']) ++ more) = (encode (t ++ ['\n']), more) := by
  have plain : ∀ b ∈ encode t, (b != 10) = true := by
    intro b member
    rw [bne_iff_ne]
    rintro rfl
    exact Text.feed_not_mem_encode single member
  have feed : encode ['\n'] = [10] := by decide
  rw [Text.encode_append, feed, List.append_assoc, nextLine,
    List.dropWhile_append_of_pos plain, List.takeWhile_append_of_pos plain]
  simp

namespace Value

/-- A value other than a REAL whose text is one line, with no line feed in it and no carriage return
at its end. -/
def OnOneLine : Value → Prop
  | .integer _ | .boolean _ => True
  | .char c => c ≠ '\n' ∧ c ≠ '\r'
  | .string s => '\n' ∉ s ∧ s.getLast? ≠ some '\r'
  | .real _ | .unset => False

theorem OnOneLine.display {v : Value} (line : v.OnOneLine) :
    '\n' ∉ v.display ∧ v.display.getLast? ≠ some '\r' := by
  cases v with
  | integer n =>
      have plain : '\n' ∉ Integer.display n ∧ '\r' ∉ Integer.display n :=
        ⟨Integer.not_mem_display rfl (by decide) n, Integer.not_mem_display rfl (by decide) n⟩
      exact ⟨plain.1, fun ends => plain.2 (List.mem_of_getLast? ends)⟩
  | boolean b => cases b <;> decide +kernel
  | char c =>
      change '\n' ∉ [c] ∧ [c].getLast? ≠ some '\r'
      refine ⟨fun member => line.1 (List.mem_singleton.mp member).symm, fun ends => line.2 ?_⟩
      exact Option.some.inj ends
  | string s => exact line
  | real x => cases line
  | unset => cases line

end Value

theorem Integer.trim_display (n : Int64) : Text.trim (display n) = display n := by
  have solid : ∀ c ∈ display n, Text.isBlank c = false :=
    fun c member => isBlank_of_mem_display member
  exact Text.trim_eq_self (Text.startsSolid_of_forall (display_ne_nil n) solid)
    (Text.endsSolid_of_forall (display_ne_nil n) solid)

theorem DataType.ofInput?_display {v : Value} {type : DataType} (line : v.OnOneLine)
    (typed : v.type? = some type) : type.ofInput? v.display = some v := by
  cases v with
  | integer n =>
      cases typed
      change (Integer.read? (Text.trim (Integer.display n))).map Value.integer = _
      rw [Integer.trim_display, Integer.read?_display]
      rfl
  | boolean b =>
      cases typed
      cases b <;> decide +kernel
  | char c =>
      cases typed
      rfl
  | string s =>
      cases typed
      rfl
  | real x => cases line
  | unset => cases line

theorem Store.coerce_of_type? (policy : Policy) {v : Value} {type : DataType}
    (typed : v.type? = some type) : coerce policy type v = .ok v := by
  cases v <;> cases typed <;> cases policy <;> rfl

theorem Store.Converts.eq {policy : Policy} {v stored : Value} {type : DataType}
    (converts : Converts policy type v stored) (typed : v.type? = some type) : stored = v := by
  cases policy with
  | permissive => exact converts
  | strict =>
      cases v <;> cases typed <;> cases converts <;> rfl

/-- What can be converted to the type of a place can be written there. -/
theorem Slot.exists_write {s : Store} {slot : Slot} {type : DataType}
    (placed : slot.type s = .ok type) {v stored : Value}
    (coerced : Store.coerce s.policy type v = .ok stored) : ∃ next, slot.write s v = .ok next := by
  cases slot with
  | scalar name =>
      obtain ⟨old, found⟩ := (Target.scalarType_eq_ok_iff s name type).mp placed
      refine ⟨s.put name (.scalar type stored), ?_⟩
      simp only [write, Store.setScalar, (Store.get_eq_ok_iff s name _).mpr found, coerced, bind,
        Except.bind, pure, Except.pure]
  | element name index =>
      obtain ⟨b, found, rfl, above, below⟩ :=
        (Target.type_element_eq_ok_iff s name index type).mp placed
      have inside : b.offset? index = some (index.toInt - b.lower.toInt).toNat :=
        (b.offset?_eq_some_iff index _).mpr ⟨below, by omega⟩
      generalize (index.toInt - b.lower.toInt).toNat = i at inside
      refine ⟨s.put name (.array { b with elements := b.elements.setIfInBounds i stored }), ?_⟩
      simp only [write, Store.setElement, Store.getArray, (Store.get_eq_ok_iff s name _).mpr found,
        Store.position, inside, coerced, bind, Except.bind, pure, Except.pure]

theorem Slot.Written.held_eq {s next : Store} {slot : Slot} {type : DataType}
    (placed : slot.type s = .ok type) {v : Value} (written : slot.Written s v next)
    (typed : v.type? = some type) : slot.held next = .ok v := by
  cases written with
  | @scalar name _ _ _ before converts _ read =>
      obtain ⟨_, found⟩ := (Target.scalarType_eq_ok_iff s name type).mp placed
      cases before.symm.trans found
      rw [converts.eq typed] at read
      exact read
  | @element name index _ _ _ _ before _ converts _ _ read =>
      obtain ⟨_, found, rfl, _⟩ := (Target.type_element_eq_ok_iff s name index type).mp placed
      cases before.symm.trans found
      rw [converts.eq typed] at read
      exact read

namespace Target

/-- A target of this type that may be read into: a variable, which is no constant, or an element
within the bounds of an array. -/
def ReadyFor (s : Store) (type : DataType) : Target → Prop
  | .variable name => ∃ old, s.find? name = some (.scalar type old)
  | .element name index => ∃ i b, Expression.indexValue s index = .ok i ∧
      s.find? name = some (.array b) ∧ b.type = type ∧ b.lower.toInt ≤ i.toInt ∧
      i.toInt ≤ b.upper.toInt

theorem ReadyFor.check {s : Store} {type : DataType} {target : Spanned Target}
    (ready : ReadyFor s type target.node) :
    ∃ slot, Slot.locate s target.node = .ok slot ∧ Target.check s target = .ok (slot, type) := by
  have checked : ∀ slot, Slot.locate s target.node = .ok slot → slot.type s = .ok type →
      Target.check s target = .ok (slot, type) := by
    intro slot located placed
    simp only [Target.check, located, placed, bind, Except.bind, Except.mapError, pure, Except.pure]
  obtain ⟨node, place⟩ := target
  rcases node with name | ⟨name, index⟩
  · have placed := (scalarType_eq_ok_iff s name type).mpr ready
    exact ⟨.scalar name, rfl, checked _ rfl placed⟩
  · obtain ⟨i, b, valued, found, same, inside⟩ := ready
    have located : Slot.locate s (.element name index) = .ok (.element name i) := by
      rw [Slot.locate, valued]
      rfl
    have placed := (type_element_eq_ok_iff s name i type).mpr ⟨b, found, same, inside⟩
    exact ⟨.element name i, located, checked _ located placed⟩

theorem type_of_check {s : Store} {target : Spanned Target} {slot : Slot} {type : DataType}
    (checked : check s target = .ok (slot, type)) : slot.type s = .ok type := by
  obtain ⟨_, _, checked⟩ := bind_eq_ok checked
  obtain ⟨_, placed, checked⟩ := bind_eq_ok checked
  cases checked
  exact mapError_eq_ok_iff.mp placed

end Target

namespace Machine

/-- The line stores exactly this value in the place and leaves `rest` of the input; nothing else
changes. -/
def Stores (m : Machine) (line : Text) (slot : Slot) (v : Value) (rest : List UInt8) : Prop :=
  ∃ next, m.executeLine line = ({ m with store := next, input := rest }, .ok true) ∧
    Store.SameOutside (slot.name = ·) m.store next ∧ slot.Written m.store v next ∧
    slot.held next = .ok v

section Input

variable {m : Machine} {line text : Text} {target : Spanned Target} {place : Span} {slot : Slot}
  {type : DataType} (read : Statement.ofLine line = .ok (some ⟨.input target, place⟩))
  (checked : Target.check m.store target = .ok (slot, type)) (full : (nextLine m.input).1 ≠ [])
  (decoded : Text.decode (nextLine m.input).1 = some text)

include read checked full decoded

/-- An INPUT with a good target hands the line that it reads over to the store. -/
theorem executeLine_input :
    m.executeLine line =
      let outcome := m.store.settle (Target.store m.store target (trimLineEnd text))
      ({ m with store := outcome.1, input := (nextLine m.input).2 },
        outcome.2.map fun _ => true) := by
  have taken : ¬ (nextLine m.input).1.isEmpty = true := by
    rw [List.isEmpty_iff]
    exact full
  simp only [executeLine, read, execute, readInto, checked, if_neg taken, decoded, withStore]

/-- What the line spells is stored as it is. -/
theorem stores_of_ofInput? (valid : m.store.Valid) {v : Value}
    (spelt : type.ofInput? (trimLineEnd text) = some v) :
    m.Stores line slot v (nextLine m.input).2 := by
  have placed := Target.type_of_check checked
  have typed := (DataType.ofInput?_eq_some spelt).1
  obtain ⟨next, made⟩ := Slot.exists_write placed (Store.coerce_of_type? m.store.policy typed)
  have written := valid.written made
  have stored : Target.store m.store target (trimLineEnd text) = .ok next := by
    simp only [Target.store, checked, spelt, made, bind, Except.bind, Except.mapError]
  refine ⟨next, ?_, Slot.write_frame made, written, written.held_eq placed typed⟩
  rw [executeLine_input read checked full decoded, stored]
  rfl

theorem executeLine_unreadable (unspelt : type.ofInput? (trimLineEnd text) = none) :
    m.executeLine line = ({ m with input := (nextLine m.input).2 }, failAt target.span
      (.invalidInput (.unreadable (trimLineEnd text) type target.node.display))) := by
  have refused : Target.store m.store target (trimLineEnd text) = failAt target.span
      (.invalidInput (.unreadable (trimLineEnd text) type target.node.display)) := by
    simp only [Target.store, checked, unspelt, bind, Except.bind]
  rw [executeLine_input read checked full decoded, refused]
  rfl

end Input

end Machine

def Output.HasRoom (o : Output) (n : Nat) : Prop :=
  ∀ capacity, o.capacity = some capacity → o.written.length + n ≤ capacity

theorem Output.writeLine_of_hasRoom {o : Output} {t : Text} (room : o.HasRoom (bytes t + 1)) :
    o.writeLine t =
      ({ o with written := o.written ++ encode (t ++ ['\n']) }, .ok ()) := by
  have size : (encode (t ++ ['\n'])).length = bytes t + 1 := by
    rw [Text.length_encode, Text.bytes_append]
    rfl
  unfold writeLine write
  cases limit : o.capacity with
  | none => rfl
  | some capacity =>
      have enough := room capacity limit
      have fits : (encode (t ++ ['\n'])).length ≤ capacity - o.written.length := by omega
      simp only [if_pos fits, List.take_of_length_le fits]

namespace Machine

theorem executeLine_value {m : Machine} {line : Text} {expr : Spanned Text} {place : Span}
    {v : Value} (read : Statement.ofLine line = .ok (some ⟨.output [expr], place⟩))
    (valued : Expression.evaluateAt m.store expr = .ok v)
    (room : m.output.HasRoom (bytes v.display + 1)) :
    m.executeLine line = ({ m with output :=
        { m.output with written := m.output.written ++ encode (v.display ++ ['\n']) } },
      .ok true) := by
  have shown : outputText m.store [expr] = .ok v.display := by
    simp [outputText, valued]
  simp only [executeLine, read, execute, writeValues, shown, Output.writeLine_of_hasRoom room]
  rfl

/-- An INTEGER, a BOOLEAN, a CHAR or a STRING on one line is written by OUTPUT, and an INPUT of its
type that finds the written bytes stores the same value. In general an INPUT with a good target that
has read a line of text stores exactly what the line spells in the type of the target, which no
policy converts, or refuses the line as input. -/
theorem output_reads_back :
    (∀ (v : Value) type, v.OnOneLine → v.type? = some type → ∀ (m : Machine) line expr place,
      Statement.ofLine line = .ok (some ⟨.output [expr], place⟩) →
      Expression.evaluateAt m.store expr = .ok v → m.output.HasRoom (bytes v.display + 1) →
        ∃ data, m.executeLine line = ({ m with output :=
            { m.output with written := m.output.written ++ data } }, .ok true) ∧
          ∀ (r : Machine) line target place more, r.store.Reachable →
            Statement.ofLine line = .ok (some ⟨.input target, place⟩) →
            Target.ReadyFor r.store type target.node → r.input = data ++ more →
              ∃ slot, Slot.locate r.store target.node = .ok slot ∧ r.Stores line slot v more) ∧
    (∀ (m : Machine) line target place slot type text, m.store.Reachable →
      Statement.ofLine line = .ok (some ⟨.input target, place⟩) →
      Target.check m.store target = .ok (slot, type) → (nextLine m.input).1 ≠ [] →
      Text.decode (nextLine m.input).1 = some text →
        (∃ v, type.ofInput? (trimLineEnd text) = some v ∧
          (∀ policy, Store.coerce policy type v = .ok v) ∧
          m.Stores line slot v (nextLine m.input).2) ∨
        (type.ofInput? (trimLineEnd text) = none ∧ ∃ e, e.kind = .invalidInput ∧
          m.executeLine line = ({ m with input := (nextLine m.input).2 }, .error e))) := by
  constructor
  · intro v type single typed m line expr place read valued room
    refine ⟨_, executeLine_value read valued room, ?_⟩
    intro r line target place more reached read ready input
    obtain ⟨slot, located, checked⟩ := ready.check
    obtain ⟨plain, bare⟩ := single.display
    have taken := nextLine_encode plain more
    rw [← input] at taken
    have full : (nextLine r.input).1 ≠ [] := by
      rw [taken, Text.encode_append]
      exact List.append_ne_nil_of_right_ne_nil _ (by decide)
    have decoded : Text.decode (nextLine r.input).1 = some (v.display ++ ['\n']) := by
      rw [taken, Text.decode_encode]
    have spelt : type.ofInput? (trimLineEnd (v.display ++ ['\n'])) = some v := by
      rw [Text.trimLineEnd_of_line plain bare, DataType.ofInput?_display single typed]
    have stored := stores_of_ofInput? read checked full decoded reached.valid spelt
    rw [taken] at stored
    exact ⟨slot, located, stored⟩
  · intro m line target place slot type text reached read checked full decoded
    cases spelt : type.ofInput? (trimLineEnd text) with
    | some v =>
        have typed := (DataType.ofInput?_eq_some spelt).1
        exact .inl ⟨v, rfl, fun policy => Store.coerce_of_type? policy typed,
          stores_of_ofInput? read checked full decoded reached.valid spelt⟩
    | none => exact .inr ⟨rfl, _, rfl, executeLine_unreadable read checked full decoded spelt⟩

/-- Blanks at both ends and a carriage return inside survive; `1_` spells no INTEGER. -/
theorem output_reads_back_blanks :
    let v := Value.string " é\r ".toList
    let data := encode " é\r \n".toList
    let r := { furnished with input := data ++ [49, 95] }
    (∃ next, furnished.executeLine "OUTPUT \" é\r \"".toList = (next, .ok true) ∧
        next.output.written = data) ∧
      r.Stores "INPUT a[n - 2]".toList (.element ['a'] 0) v [49, 95] ∧
      ∃ e, e.kind = .invalidInput ∧
        { furnished with input := [49, 95] }.executeLine "INPUT n".toList =
          ({ furnished with input := [] }, .error e) := by
  intro v data r
  have reached : furnished.store.Reachable := ⟨_, _, _, _, rfl⟩
  obtain ⟨echo, general⟩ := output_reads_back
  have read : Statement.ofLine "OUTPUT \" é\r \"".toList =
      .ok (some ⟨.output [⟨"\" é\r \"".toList, ⟨7, 14⟩⟩], ⟨0, 14⟩⟩) := by
    decide +kernel
  have valued : Expression.evaluateAt furnished.store ⟨"\" é\r \"".toList, ⟨7, 14⟩⟩ = .ok v := by
    decide +kernel
  have single : v.OnOneLine := ⟨by decide +kernel, by decide +kernel⟩
  obtain ⟨written, executed, back⟩ :=
    echo v .string single rfl furnished _ _ _ read valued nofun
  have same : written = data := by
    have output : (furnished.executeLine "OUTPUT \" é\r \"".toList).1.output.written = data := by
      decide +kernel
    rw [executed] at output
    exact output
  subst same
  have target : Statement.ofLine "INPUT a[n - 2]".toList = .ok (some ⟨.input
      ⟨.element ['a'] ⟨"n - 2".toList, ⟨8, 13⟩⟩, ⟨6, 14⟩⟩, ⟨0, 14⟩⟩) := by
    decide +kernel
  have zero : Expression.indexValue furnished.store ⟨"n - 2".toList, ⟨8, 13⟩⟩ = .ok 0 := by
    decide +kernel
  have array : furnished.store.find? ['a'] =
      some (.array ⟨.string, -1, 1, #[.unset, .unset, .string ['z']]⟩) := by
    decide +kernel
  obtain ⟨slot, located, stores⟩ := back r _ _ _ [49, 95] reached target
    ⟨0, _, zero, array, rfl, by decide, by decide⟩ rfl
  have element : Slot.locate furnished.store (.element ['a'] ⟨"n - 2".toList, ⟨8, 13⟩⟩) =
      .ok (.element ['a'] 0) := by
    rw [Slot.locate, zero]
    rfl
  cases element.symm.trans located
  refine ⟨⟨_, executed, rfl⟩, stores, ?_⟩
  have scalar : Statement.ofLine "INPUT n".toList =
      .ok (some ⟨.input ⟨.variable ['n'], ⟨6, 7⟩⟩, ⟨0, 7⟩⟩) := by
    decide +kernel
  have checked : Target.check furnished.store ⟨.variable ['n'], ⟨6, 7⟩⟩ =
      .ok (.scalar ['n'], .integer) := by
    decide +kernel
  have decoded : Text.decode (nextLine [49, 95]).1 = some ['1', '_'] := by
    have line : (nextLine [49, 95]).1 = encode ['1', '_'] := by decide
    rw [line, Text.decode_encode]
  rcases general { furnished with input := [49, 95] } _ _ _ _ _ _ reached scalar checked
    (by decide) decoded with ⟨w, spelt, _⟩ | ⟨_, refused⟩
  · have unspelt : DataType.ofInput? .integer (trimLineEnd ['1', '_']) = none := by decide +kernel
    cases unspelt.symm.trans spelt
  · exact refused

end Machine

end Pseudocode
