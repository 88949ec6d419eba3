import Pseudocode.Proofs.Statement.Literals
import Pseudocode.Proofs.Text.Clause

set_option autoImplicit false

namespace Pseudocode

open Text (bytes trim trimmed afterWord? isIdentifier isNameChar breakOuter splitOuter
  commaSeparated Clean Clause SelfContained Item Outline)

namespace Bounds

def printed (b : Bounds) : Text :=
  '[' :: (Integer.display b.lower ++ ':' :: Integer.display b.upper) ++ [']']

end Bounds

namespace Declaration

def printedType (d : Declaration) : Text :=
  match d.bounds with
  | none => d.type.node
  | some bounds =>
      Keyword.array ++ bounds.node.printed ++ " ".toList ++ Keyword.of ++ " ".toList ++ d.type.node

end Declaration

namespace Statement

/-- The line for a statement. -/
def printed : Statement → Text
  | .declare d =>
      Keyword.declare ++ " ".toList ++ commaSeparated (d.names.map (·.node)) ++ " : ".toList ++
        d.printedType
  | .constant name value =>
      Keyword.constant ++ " ".toList ++ name.node ++ " = ".toList ++ value.node.literal
  | .assign target expr => target.node.display ++ " <- ".toList ++ expr.node
  | .input target => Keyword.input ++ " ".toList ++ target.node.display
  | .output exprs => Keyword.output ++ " ".toList ++ commaSeparated (exprs.map (·.node))

end Statement

def DataType.keywords : List Text :=
  all.map (·.keyword.toList)

/-- A name, with an index whose brackets cannot be mistaken for those around it. -/
def Target.Printable (target : Target) : Prop :=
  isIdentifier target.name = true ∧ ∀ index ∈ target.index?, SelfContained index.node

instance (target : Target) : Decidable target.Printable :=
  inferInstanceAs (Decidable (_ ∧ _))

instance : DecidablePred Value.Literal
  | .integer _ | .boolean _ => isTrue trivial
  | .char c => inferInstanceAs (Decidable (c ≠ '\''))
  | .string s => inferInstanceAs (Decidable ('"' ∉ s))
  | .real _ | .unset => isFalse id

namespace Statement

/-- Names are identifiers, types are keywords, and the texts of expressions can be told from what
stands around them. -/
def Printable : Statement → Prop
  | .declare d =>
      d.names ≠ [] ∧ (∀ name ∈ d.names, isIdentifier name.node = true) ∧
        d.type.node ∈ DataType.keywords
  | .constant name value => isIdentifier name.node = true ∧ value.node.Literal
  | .assign target expr =>
      target.node.Printable ∧ target.node.name ∉ Keyword.opening ∧ Clean expr.node
  | .input target => target.node.Printable
  | .output exprs =>
      exprs ≠ [] ∧ ∀ expr ∈ exprs, SelfContained expr.node ∧ Text.Undivided expr.node

instance : DecidablePred Printable
  | .declare _ => inferInstanceAs (Decidable (_ ∧ _ ∧ _))
  | .constant _ _ => inferInstanceAs (Decidable (_ ∧ _))
  | .assign _ _ => inferInstanceAs (Decidable (_ ∧ _ ∧ _))
  | .input target => inferInstanceAs (Decidable target.node.Printable)
  | .output _ => inferInstanceAs (Decidable (_ ∧ _))

end Statement

def Spanned.bare {α : Type} (s : Spanned α) : Spanned α :=
  ⟨s.node, ⟨0, 0⟩⟩

theorem Spanned.bare_eq_iff {α : Type} (s t : Spanned α) : s.bare = t.bare ↔ s.node = t.node := by
  constructor
  · exact congrArg Spanned.node
  · intro same
    rw [bare, same, bare]

def Target.bare : Target → Target
  | .variable name => .variable name
  | .element name index => .element name index.bare

/-- The statement with every part at the same place. -/
def Statement.bare : Statement → Statement
  | .declare d => .declare ⟨d.names.map Spanned.bare, d.type.bare, d.bounds.map Spanned.bare⟩
  | .constant name value => .constant name.bare value.bare
  | .assign target expr => .assign (target.map Target.bare).bare expr.bare
  | .input target => .input (target.map Target.bare).bare
  | .output exprs => .output (exprs.map Spanned.bare)

theorem map_bare_eq {α : Type} {xs ys : List (Spanned α)}
    (same : xs.map (·.node) = ys.map (·.node)) : xs.map Spanned.bare = ys.map Spanned.bare := by
  have bare_eq : (Spanned.bare : Spanned α → Spanned α) =
      (fun node => ⟨node, ⟨0, 0⟩⟩) ∘ fun s => s.node := rfl
  rw [bare_eq, ← List.map_map, same, List.map_map]

namespace Bounds

theorem readBound_display (span : Span) (n : Int64) :
    readBound span (Integer.display n) = .ok n := by
  have solid : ∀ c ∈ Integer.display n, Text.isBlank c = false :=
    fun c member => Integer.isBlank_of_mem_display member
  have trims : trim (Integer.display n) = Integer.display n :=
    Text.trim_eq_self (Text.startsSolid_of_forall (Integer.display_ne_nil n) solid)
      (Text.endsSolid_of_forall (Integer.display_ne_nil n) solid)
  rw [readBound, trims, Integer.read?_display]

theorem readContent_printed (span : Span) (b : Bounds) :
    readContent span (Integer.display b.lower ++ ':' :: Integer.display b.upper) = .ok b := by
  have absent : ∀ n, ':' ∉ Integer.display n := Integer.not_mem_display rfl (by decide)
  have single : (Integer.display b.upper).contains ':' = false := by
    rw [Bool.eq_false_iff, ne_eq, List.contains_iff_mem]
    exact absent b.upper
  rw [readContent, Text.dropWhile_ne_append (absent b.lower),
    Text.takeWhile_ne_append (absent b.lower)]
  dsimp only
  rw [single, if_neg Bool.false_ne_true, readBound_display, readBound_display]
  rfl

theorem read_printed (base : Nat) (b : Bounds) (rest : Text) :
    ∃ span, read base (b.printed ++ rest) = .ok (⟨b, span⟩, rest) := by
  have absent : ∀ n, ']' ∉ Integer.display n := Integer.not_mem_display rfl (by decide)
  have content : ']' ∉ Integer.display b.lower ++ ':' :: Integer.display b.upper := by
    simp [absent]
  have text : b.printed ++ rest =
      '[' :: (Integer.display b.lower ++ ':' :: Integer.display b.upper ++ ']' :: rest) := by
    simp [printed]
  have starts : Text.trimStart (b.printed ++ rest) = b.printed ++ rest :=
    Text.StartsSolid.trimStart_eq ⟨'[', _, text, by decide⟩
  rw [read, starts, text]
  simp only [Text.dropWhile_ne_append content, Text.takeWhile_ne_append content,
    readContent_printed]
  exact ⟨_, rfl⟩

end Bounds

/-- Both lists of a statement are read part by part, and each part is trimmed. -/
theorem exists_mapM_trimmed {f : Nat × Text → Result (Spanned Text)} {base : Nat}
    (reads : ∀ part, trim part.2 ≠ [] → f part = .ok (trimmed (base + part.1) part.2))
    {items : List Text} (some : items ≠ []) (each : ∀ t ∈ items, Item t) {back : Text}
    (blank : ∀ c ∈ back, c = ' ') :
    ∃ found, (splitOuter ',' (' ' :: commaSeparated items ++ back)).mapM f = .ok found ∧
      found.map (·.node) = items := by
  have parts := Text.map_trim_parts some each blank
  rw [← Text.map_snd_withOffsets 0 (Outline.parts _ _ _), List.map_map] at parts
  refine ⟨_, mapM_eq_ok_of_forall fun part member => reads part ?_, ?_⟩
  · have among : trim part.2 ∈ items := by
      rw [← parts]
      exact List.mem_map_of_mem member
    exact (each _ among).nonempty
  · rw [List.map_map]
    exact parts

namespace Declaration

theorem readName_eq (base stop : Nat) (part : Nat × Text) (some : trim part.2 ≠ []) :
    readName base stop part = .ok (trimmed (base + part.1) part.2) :=
  if_neg (by rwa [List.isEmpty_iff])

theorem type_cases {type : Text} (typed : type ∈ DataType.keywords) :
    type ≠ [] ∧ type.all isNameChar = true ∧ type ≠ Keyword.array := by
  revert type
  decide

theorem clause_type {type : Text} (typed : type ∈ DataType.keywords) : Clause type :=
  Text.clause_of_isNameChar (type_cases typed).1 (type_cases typed).2.1

theorem clause_array (b : Bounds) : Clause (Keyword.array ++ b.printed) := by
  have text : Keyword.array ++ b.printed = Keyword.array ++
      '[' :: (Integer.display b.lower ++ ':' :: Integer.display b.upper) ++ [']'] :=
    (List.append_assoc _ _ _).symm
  have absent : ∀ n, '/' ∉ Integer.display n := Integer.not_mem_display rfl (by decide)
  rw [text]
  refine Text.clause_bracketed (by decide) (by decide) ?_ ?_
  · exact Outline.uncommented_of_not_mem (by simp [absent]) {}
  · refine Outline.run_plain (fun c member => ?_) 0
    simp only [List.mem_append, List.mem_cons] at member
    rcases member with lower | rfl | upper
    · exact Integer.plain_of_mem_display lower
    · rfl
    · exact Integer.plain_of_mem_display upper

theorem printedType_eq {d : Declaration} {b : Spanned Bounds} (declared : d.bounds = some b) :
    d.printedType = Keyword.array ++ b.node.printed ++
      ([' '] ++ (Keyword.of ++ ([' '] ++ d.type.node))) := by
  rw [printedType, declared]
  simp

theorem clause_printedType {d : Declaration}
    (typed : d.type.node ∈ DataType.keywords) : Clause d.printedType := by
  have type := clause_type typed
  have of : Clause Keyword.of := Text.clause_of_isNameChar (by decide) (by decide)
  cases declared : d.bounds with
  | none =>
      rw [printedType, declared]
      exact type
  | some b =>
      rw [printedType_eq declared]
      exact (clause_array b.node).append (by decide) (of.append (by decide) type)

/-- The type is read back with the bounds, if there are any. -/
theorem readType_printedType {d : Declaration}
    (typed : d.type.node ∈ DataType.keywords) {t : Spanned Text}
    (text : t.node = d.printedType) :
    ∃ type bounds, readType t = .ok (type, bounds) ∧ type.node = d.type.node ∧
      bounds.map Spanned.bare = d.bounds.map Spanned.bare := by
  have type := clause_type typed
  obtain ⟨_, named, other⟩ := type_cases typed
  cases declared : d.bounds with
  | none =>
      have whole : t.node = d.type.node := by rw [text, printedType, declared]
      have scalar : afterWord? Keyword.array t.node = none := by
        rw [whole, Text.afterWord?_name (by decide) named, if_neg other]
      exact ⟨t, none, by rw [readType, scalar], whole, rfl⟩
  | some b =>
      have of : Clause (Keyword.of ++ ([' '] ++ d.type.node)) :=
        (Text.clause_of_isNameChar (by decide) (by decide)).append (by decide) type
      have array : afterWord? Keyword.array t.node =
          some (b.node.printed ++ ' ' :: (Keyword.of ++ ([' '] ++ d.type.node))) := by
        rw [text, printedType_eq declared, List.append_assoc]
        rfl
      have after : afterWord? Keyword.of (Keyword.of ++ ([' '] ++ d.type.node)) =
          some (' ' :: d.type.node) := rfl
      obtain ⟨span, bounds⟩ := Bounds.read_printed (t.span.start + bytes Keyword.array) b.node
        (' ' :: (Keyword.of ++ ([' '] ++ d.type.node)))
      have between (base : Nat) :
          (trimmed base (' ' :: (Keyword.of ++ ([' '] ++ d.type.node)))).node =
            Keyword.of ++ ([' '] ++ d.type.node) :=
        Text.trim_pad_start of.starts of.ends
      rw [readType, array]
      dsimp only
      rw [bounds]
      dsimp only [bind, Except.bind]
      rw [between, after]
      exact ⟨_, _, rfl, Text.trim_pad_start type.starts type.ends, rfl⟩

theorem item_of_mem_names {names : List (Spanned Text)}
    (named : ∀ name ∈ names, isIdentifier name.node = true) :
    ∀ t ∈ names.map (·.node), Item t :=
  List.forall_mem_map.mpr fun name member => Text.item_of_isIdentifier (named name member)

theorem not_mem_commaSeparated_names {names : List (Spanned Text)}
    (named : ∀ name ∈ names, isIdentifier name.node = true) :
    ':' ∉ commaSeparated (names.map (·.node)) := by
  intro member
  rcases Text.mem_commaSeparated member with comma | blank | ⟨t, among, inside⟩
  · cases comma
  · cases blank
  · obtain ⟨name, listed, rfl⟩ := List.mem_map.mp among
    exact Text.not_mem_of_isIdentifier (named name listed) rfl inside

theorem read_printed {d : Declaration} (some : d.names ≠ [])
    (named : ∀ name ∈ d.names, isIdentifier name.node = true)
    (typed : d.type.node ∈ DataType.keywords) (base : Nat) :
    ∃ found, read base
        (' ' :: (commaSeparated (d.names.map (·.node)) ++ ([' ', ':', ' '] ++ d.printedType))) =
          .ok found ∧ (Statement.declare found).bare = (Statement.declare d).bare := by
  have clause := clause_printedType typed
  have body : ' ' :: (commaSeparated (d.names.map (·.node)) ++ ([' ', ':', ' '] ++ d.printedType)) =
      ' ' :: commaSeparated (d.names.map (·.node)) ++ [' '] ++ ':' :: ' ' :: d.printedType := by
    simp
  have colonless : ':' ∉ ' ' :: commaSeparated (d.names.map (·.node)) ++ [' '] := by
    simpa using not_mem_commaSeparated_names named
  have nonempty : d.names.map (·.node) ≠ [] := by simpa using some
  obtain ⟨names, namesRead, sameNames⟩ := exists_mapM_trimmed (readName_eq base _) nonempty
    (item_of_mem_names named) (List.forall_mem_singleton.mpr rfl)
  obtain ⟨type, bounds, typeRead, sameType, sameBounds⟩ := readType_printedType typed
    (t := trimmed _ (' ' :: d.printedType)) (Text.trim_pad_start clause.starts clause.ends)
  have typeSome : type.node.isEmpty = false := by
    rw [sameType, List.isEmpty_eq_false_iff]
    exact (type_cases typed).1
  refine ⟨⟨names, type, bounds⟩, ?_, ?_⟩
  · rw [body, read, Text.dropWhile_ne_append colonless, Text.takeWhile_ne_append colonless]
    dsimp only
    rw [namesRead]
    dsimp only [bind, Except.bind]
    rw [typeRead]
    dsimp only
    rw [typeSome]
    rfl
  · simp only [Statement.bare, map_bare_eq sameNames, (Spanned.bare_eq_iff _ _).mpr sameType,
      sameBounds]

end Declaration

namespace Target

theorem clause_display {target : Target} (printable : target.Printable) :
    Clause target.display := by
  obtain ⟨named, contained⟩ := printable
  rcases target with name | ⟨name, index⟩
  · exact (Text.item_of_isIdentifier named).toClause
  · have index := contained index rfl
    exact Text.clause_bracketed (Text.ne_nil_of_isIdentifier named)
      (Text.all_isNameChar_of_isIdentifier named) index.uncommented index.closes

/-- Nothing in a target is taken for an arrow. -/
theorem passes_display {target : Target} (printable : target.Printable) :
    (Outline.scan '<').Passes {} target.display := by
  obtain ⟨named, contained⟩ := printable
  rcases target with name | ⟨name, index⟩
  · exact Outline.passes_of_not_mem (Text.not_mem_of_isIdentifier named rfl) {}
  · change isIdentifier name = true at named
    have word := (Text.item_of_isIdentifier named).closes
    have index := contained index rfl
    rw [display, Scan.passes_append_iff, Scan.passes_append_iff, Scan.passes_cons_iff,
      Outline.run_scan, word]
    refine ⟨⟨?_, rfl, index.passes '<'⟩, Outline.passes_of_not_mem (by decide) _⟩
    exact Outline.passes_of_not_mem (Text.not_mem_of_isIdentifier named rfl) {}

theorem checkName_eq {name : Text} (named : isIdentifier name = true) (span : Span) :
    checkName span name = .ok () :=
  if_pos named

theorem checkName_eq_ok {name : Text} {span : Span} (made : checkName span name = .ok ()) :
    isIdentifier name = true := by
  unfold checkName failStatement failAt at made
  split at made
  · assumption
  · cases made

/-- A name, with an index that no blanks stand around. -/
structure Legible (target : Target) : Prop where
  named : isIdentifier target.name = true
  indexed : ∀ index, target.index? = some index → index.node ≠ [] ∧ trim index.node = index.node

theorem Printable.legible {target : Target} (printable : target.Printable) : target.Legible := by
  refine ⟨printable.1, fun index has => ?_⟩
  have content := printable.2 index has
  exact ⟨content.nonempty, content.trimmed⟩

theorem Legible.solid {target : Target} (legible : target.Legible) :
    Text.StartsSolid target.display ∧ Text.EndsSolid target.display := by
  have word := Text.item_of_isIdentifier legible.named
  rcases target with name | ⟨name, index⟩
  · exact ⟨word.starts, word.ends⟩
  · have closing : Text.EndsSolid [']'] := ⟨[], ']', rfl, by decide⟩
    constructor
    · exact (word.starts.append ('[' :: index.node)).append [']']
    · exact closing.prepend (name ++ '[' :: index.node)

theorem Legible.read_display {target : Target} (legible : target.Legible) (base : Nat)
    {front back : Text} (before : ∀ c ∈ front, Text.isBlank c = true)
    (after : ∀ c ∈ back, Text.isBlank c = true) :
    ∃ found, read base (front ++ (target.display ++ back)) = .ok found ∧
      found.node.bare = target.bare := by
  obtain ⟨starts, ends⟩ := legible.solid
  have whole : (trimmed base (front ++ (target.display ++ back))).node = target.display :=
    Text.trim_pad starts ends before after
  have some : target.display.isEmpty = false := List.isEmpty_eq_false_iff.mpr starts.ne_nil
  obtain ⟨named, contained⟩ := legible
  unfold read
  dsimp only
  rw [whole, some, if_neg Bool.false_ne_true]
  rcases target with name | ⟨name, index⟩
  · change isIdentifier name = true at named
    rw [display, Text.dropWhile_ne_eq_nil (Text.not_mem_of_isIdentifier named rfl)]
    dsimp only
    rw [checkName_eq named]
    exact ⟨_, rfl, rfl⟩
  · change isIdentifier name = true at named
    obtain ⟨nonempty, clean⟩ := contained index rfl
    have text : display (.element name index) = name ++ '[' :: (index.node ++ [']']) := by
      simp [display]
    have closed : (index.node ++ [']']).getLast? = .some ']' := List.getLast?_concat
    have name_eq : Text.trimEnd name = name :=
      (Text.item_of_isIdentifier named).ends.trimEnd_eq
    have index_eq (base : Nat) : (trimmed base index.node).node = index.node := clean
    have indexed : index.node.isEmpty = false := List.isEmpty_eq_false_iff.mpr nonempty
    rw [text, Text.dropWhile_ne_append (Text.not_mem_of_isIdentifier named rfl),
      Text.takeWhile_ne_append (Text.not_mem_of_isIdentifier named rfl)]
    dsimp only
    rw [closed, List.dropLast_concat, index_eq, indexed, name_eq, checkName_eq named]
    refine ⟨_, rfl, ?_⟩
    exact congrArg (element name) ((Spanned.bare_eq_iff _ _).mpr (index_eq _))

/-- A target that was read can be read again from its written form. -/
theorem legible_of_read {base : Nat} {t : Text} {target : Spanned Target}
    (made : read base t = .ok target) : target.node.Legible := by
  unfold read at made
  dsimp only at made
  split at made
  · cases made
  · split at made
    · obtain ⟨_, named, made⟩ := bind_eq_ok made
      cases made
      refine ⟨checkName_eq_ok named, fun index has => ?_⟩
      cases has
    · split at made
      · cases made
      · split at made
        · cases made
        · rename_i some
          obtain ⟨_, named, made⟩ := bind_eq_ok made
          cases made
          refine ⟨checkName_eq_ok named, fun index has => ?_⟩
          cases has
          exact ⟨by simpa using some, Text.trim_trim _⟩

end Target

/-- A literal may end a line. -/
theorem Value.clean_literal {v : Value} (literal : v.Literal) : Clean v.literal := by
  cases v with
  | integer n =>
      refine (Text.clause_of_forall (Integer.display_ne_nil n) fun c member => ⟨?_, ?_, ?_⟩).toClean
      · exact Integer.isBlank_of_mem_display member
      · rintro rfl
        exact Integer.not_mem_display rfl (by decide) n member
      · exact Integer.plain_of_mem_display member
  | boolean b =>
      refine (Text.clause_of_isNameChar ?_ ?_).toClean
      · cases b <;> decide
      · cases b <;> decide
  | char c =>
      have absent : '\'' ∉ [c] := fun member => literal (List.mem_singleton.mp member).symm
      exact Text.clean_quoted rfl (by decide) absent
  | string s => exact Text.clean_quoted rfl (by decide) literal
  | real x => cases literal
  | unset => cases literal

namespace Statement

theorem readConstant_printed {name : Text} {v : Value} (named : isIdentifier name = true)
    (literal : v.Literal) (base : Nat) :
    ∃ found, readConstant base (' ' :: (name ++ ([' ', '=', ' '] ++ v.literal))) = .ok found ∧
      found.1.node = name ∧ found.2.node = v := by
  have item := Text.item_of_isIdentifier named
  have clean := Value.clean_literal literal
  have body : ' ' :: (name ++ ([' ', '=', ' '] ++ v.literal)) =
      ' ' :: (name ++ [' ']) ++ (['='] ++ ' ' :: v.literal) := by simp
  have absent : '=' ∉ ' ' :: (name ++ [' ']) := by
    simp only [List.mem_cons, List.mem_append, List.not_mem_nil, or_false, not_or]
    exact ⟨by decide, Text.not_mem_of_isIdentifier named rfl, by decide⟩
  have closes : Outline.run {} (' ' :: (name ++ [' '])) = {} := by
    rw [Outline.run_cons, Outline.run_append]
    exact congrArg (Outline.run · [' ']) item.closes
  -- A `=` inside the literal comes after the one that is looked for.
  have found : breakOuter Keyword.equals (' ' :: (name ++ [' ']) ++ (['='] ++ ' ' :: v.literal)) =
      some (' ' :: (name ++ [' ']), ['='] ++ ' ' :: v.literal) :=
    Outline.breakOuter_append rfl closes (Outline.passes_of_not_mem absent {}) _
  have name_eq (base : Nat) : (trimmed base (' ' :: (name ++ [' ']))).node = name :=
    Text.trim_pad item.starts item.ends (List.forall_mem_singleton.mpr rfl)
      (List.forall_mem_singleton.mpr rfl)
  have text_eq (base : Nat) : (trimmed base (' ' :: v.literal)).node = v.literal :=
    Text.trim_pad_start clean.starts clean.ends
  have some : (name.isEmpty || v.literal.isEmpty) = false := by
    rw [List.isEmpty_eq_false_iff.mpr item.nonempty, List.isEmpty_eq_false_iff.mpr clean.nonempty]
    rfl
  obtain ⟨tokens, tokenized, value⟩ := literalValue_literal literal
  rw [body, readConstant, found]
  dsimp only
  rw [List.singleton_append, List.drop_one, List.tail_cons, name_eq, text_eq, some,
    if_neg Bool.false_ne_true, tokenized]
  dsimp only [bind, Except.bind, Except.mapError]
  rw [value]
  exact ⟨_, rfl, name_eq _, rfl⟩

theorem readOutputPart_eq (base : Nat) (part : Nat × Text) (some : trim part.2 ≠ []) :
    readOutputPart base part = .ok (trimmed (base + part.1) part.2) :=
  if_neg (by rwa [List.isEmpty_iff])

theorem item_of_mem_exprs {exprs : List (Spanned Text)}
    (contained : ∀ expr ∈ exprs, SelfContained expr.node ∧ Text.Undivided expr.node) :
    ∀ t ∈ exprs.map (·.node), Item t :=
  List.forall_mem_map.mpr fun expr member =>
    Text.item_of_undivided (contained expr member).1.toClause (contained expr member).2

theorem readCode_declare (span : Span) (body : Text) :
    readCode ⟨Keyword.declare ++ ' ' :: body, span⟩ =
      (Declaration.read (span.start + bytes Keyword.declare) (' ' :: body)).map .declare := rfl

theorem readCode_constant (span : Span) (body : Text) :
    readCode ⟨Keyword.constant ++ ' ' :: body, span⟩ =
      (readConstant (span.start + bytes Keyword.constant) (' ' :: body)).map fun (name, value) =>
        .constant name value := rfl

theorem readCode_input (span : Span) (body : Text) :
    readCode ⟨Keyword.input ++ ' ' :: body, span⟩ =
      (Target.read (span.start + bytes Keyword.input) (' ' :: body)).map .input := rfl

theorem readCode_output (span : Span) (body : Text) :
    readCode ⟨Keyword.output ++ ' ' :: body, span⟩ =
      ((splitOuter ',' (' ' :: body)).mapM
        (readOutputPart (span.start + bytes Keyword.output))).map .output := rfl

/-- A target opens no other statement unless it is named so. -/
theorem afterWord?_display {target : Target} (printable : target.Printable) {word : Text}
    (inWord : word.all isNameChar = true) (other : target.name ≠ word) (rest : Text) :
    afterWord? word (target.display ++ ' ' :: rest) = none := by
  have inName := Text.all_isNameChar_of_isIdentifier printable.1
  obtain ⟨c, r, text, apart⟩ : ∃ c r, target.display ++ ' ' :: rest = target.name ++ c :: r ∧
      isNameChar c = false := by
    rcases target with name | ⟨name, index⟩
    · exact ⟨' ', rest, rfl, by decide⟩
    · refine ⟨'[', index.node ++ ']' :: ' ' :: rest, ?_, by decide⟩
      simp [Target.display, Target.name]
  rw [text, Text.afterWord?_append_cons inWord inName apart, if_neg other]

theorem readCode_assign {target : Target} (printable : target.Printable)
    (free : target.name ∉ Keyword.opening) {expr : Text} (clean : Clean expr) (span : Span) :
    ∃ found value, readCode ⟨target.display ++ ([' ', '<', '-', ' '] ++ expr), span⟩ =
      .ok (.assign found value) ∧ found.node.bare = target.bare ∧ value.node = expr := by
  have clause := Target.clause_display printable
  have text : target.display ++ ([' ', '<', '-', ' '] ++ expr) =
      target.display ++ [' '] ++ (['<', '-'] ++ ' ' :: expr) := by simp
  have closes : Outline.run {} (target.display ++ [' ']) = {} := by
    rw [Outline.run_append, clause.closes]
    rfl
  have passes : (Outline.scan '<').Passes {} (target.display ++ [' ']) :=
    (Scan.passes_append_iff _ _ _ _).mpr
      ⟨Target.passes_display printable, Outline.passes_of_not_mem (by decide) _⟩
  -- An arrow in the index is inside brackets, and one in the expression comes later.
  have arrow : breakOuter Keyword.arrow (target.display ++ [' '] ++ (['<', '-'] ++ ' ' :: expr)) =
      some (target.display ++ [' '], ['<', '-'] ++ ' ' :: expr) :=
    Outline.breakOuter_append rfl closes passes _
  have unopened : ∀ word ∈ Keyword.opening,
      afterWord? word (target.display ++ ([' ', '<', '-', ' '] ++ expr)) = none := by
    intro word opens
    have inWord : word.all isNameChar = true := by
      revert word
      decide
    exact afterWord?_display printable inWord (fun same => free (same ▸ opens)) _
  simp only [Keyword.opening, List.forall_mem_cons] at unopened
  obtain ⟨declare, constant, input, output, _⟩ := unopened
  have value_eq (base : Nat) : (trimmed base (' ' :: expr)).node = expr :=
    Text.trim_pad_start clean.starts clean.ends
  have some : expr.isEmpty = false := List.isEmpty_eq_false_iff.mpr clean.nonempty
  obtain ⟨found, read, same⟩ := printable.legible.read_display span.start (List.forall_mem_nil _)
    (List.forall_mem_singleton.mpr rfl : ∀ c ∈ [' '], Text.isBlank c = true)
  rw [List.nil_append] at read
  have drops : (['<', '-'] ++ ' ' :: expr).drop 2 = ' ' :: expr := rfl
  unfold readCode
  simp only [declare, constant, input, output]
  rw [text, arrow]
  simp only [drops, value_eq, some, read, Bool.false_eq_true, if_false]
  exact ⟨found, _, rfl, same, value_eq _⟩

theorem printed_declare (d : Declaration) :
    printed (.declare d) = Keyword.declare ++
      ' ' :: (commaSeparated (d.names.map (·.node)) ++ ([' ', ':', ' '] ++ d.printedType)) := by
  simp [printed]

theorem printed_constant (name : Spanned Text) (value : Spanned Value) :
    printed (.constant name value) = Keyword.constant ++
      ' ' :: (name.node ++ ([' ', '=', ' '] ++ value.node.literal)) := by
  simp [printed]

theorem printed_assign (target : Spanned Target) (expr : Spanned Text) :
    printed (.assign target expr) = target.node.display ++ ([' ', '<', '-', ' '] ++ expr.node) := by
  simp [printed]

theorem printed_input (target : Spanned Target) :
    printed (.input target) = Keyword.input ++ ' ' :: target.node.display := by
  simp [printed]

theorem printed_output (exprs : List (Spanned Text)) :
    printed (.output exprs) = Keyword.output ++ ' ' :: commaSeparated (exprs.map (·.node)) := by
  simp [printed]

theorem clean_opening {word rest : Text} (opens : word ∈ Keyword.opening) (clean : Clean rest) :
    Clean (word ++ ' ' :: rest) := by
  have named : word ≠ [] ∧ word.all isNameChar = true := by
    revert word
    decide
  exact (Text.clause_of_isNameChar named.1 named.2).append_clean (by decide : Text.Gap [' ']) clean

/-- The line of a statement has no comment and no blanks to lose. -/
theorem clean_printed {s : Statement} (printable : s.Printable) : Clean s.printed := by
  cases s with
  | declare d =>
      obtain ⟨some, named, typed⟩ := printable
      have names := Text.clause_commaSeparated (by simpa using some)
        (Declaration.item_of_mem_names named)
      have type := Declaration.clause_printedType typed
      rw [printed_declare]
      exact clean_opening (by decide) (names.append_clean (by decide) type.toClean)
  | constant name value =>
      obtain ⟨named, literal⟩ := printable
      have item := Text.item_of_isIdentifier named
      rw [printed_constant]
      exact clean_opening (by decide)
        (item.append_clean (by decide) (Value.clean_literal literal))
  | assign target expr =>
      obtain ⟨target, _, clean⟩ := printable
      rw [printed_assign]
      exact (Target.clause_display target).append_clean (by decide) clean
  | input target =>
      rw [printed_input]
      exact clean_opening (by decide) (Target.clause_display printable).toClean
  | output exprs =>
      obtain ⟨some, contained⟩ := printable
      have list := Text.clause_commaSeparated (by simpa using some) (item_of_mem_exprs contained)
      rw [printed_output]
      exact clean_opening (by decide) list.toClean

theorem readCode_printed {s : Statement} (printable : s.Printable) (span : Span) :
    ∃ found, readCode ⟨s.printed, span⟩ = .ok found ∧ found.bare = s.bare := by
  cases s with
  | declare d =>
      obtain ⟨some, named, typed⟩ := printable
      obtain ⟨found, read, same⟩ := Declaration.read_printed some named typed
        (span.start + bytes Keyword.declare)
      rw [printed_declare, readCode_declare, read]
      exact ⟨_, rfl, same⟩
  | constant name value =>
      obtain ⟨named, literal⟩ := printable
      obtain ⟨found, read, sameName, sameValue⟩ := readConstant_printed named literal
        (span.start + bytes Keyword.constant)
      rw [printed_constant, readCode_constant, read]
      refine ⟨_, rfl, ?_⟩
      simp only [bare, Spanned.bare, sameName, sameValue]
  | assign target expr =>
      obtain ⟨named, free, clean⟩ := printable
      obtain ⟨found, value, read, sameTarget, sameValue⟩ := readCode_assign named free clean span
      rw [printed_assign, read]
      refine ⟨_, rfl, ?_⟩
      simp only [bare, Spanned.map, Spanned.bare, sameTarget, sameValue]
  | input target =>
      obtain ⟨found, read, same⟩ := printable.legible.read_display
        (span.start + bytes Keyword.input)
        (List.forall_mem_singleton.mpr rfl : ∀ c ∈ [' '], Text.isBlank c = true)
        (List.forall_mem_nil _)
      rw [List.append_nil, List.singleton_append] at read
      rw [printed_input, readCode_input, read]
      refine ⟨_, rfl, ?_⟩
      simp only [bare, Spanned.map, Spanned.bare, same]
  | output exprs =>
      obtain ⟨some, contained⟩ := printable
      obtain ⟨found, read, same⟩ := exists_mapM_trimmed
        (readOutputPart_eq (span.start + bytes Keyword.output)) (by simpa using some)
        (item_of_mem_exprs contained) (List.forall_mem_nil _)
      rw [List.append_nil] at read
      rw [printed_output, readCode_output, read]
      exact ⟨_, rfl, congrArg output (map_bare_eq same)⟩

theorem ofLine_of_clean {line : Text} (clean : Clean line) :
    ∃ span, ofLine line = (readCode ⟨line, span⟩).map fun s => some ⟨s, span⟩ := by
  have code : trimmed 0 line = ⟨line, (trimmed 0 line).span⟩ :=
    congrArg (Spanned.mk · (trimmed 0 line).span) clean.trimmed
  have some : line.isEmpty = false := List.isEmpty_eq_false_iff.mpr clean.nonempty
  refine ⟨(trimmed 0 line).span, ?_⟩
  unfold ofLine
  rw [Outline.stripComment_eq_self clean.uncommented, code]
  exact if_neg (by rw [some]; exact Bool.false_ne_true)

/-- Reading undoes writing: the line of a statement is read as the same statement, with the places
that its parts have in the line. -/
theorem ofLine_printed (s : Statement) (printable : s.Printable) :
    ∃ found, ofLine s.printed = .ok (some found) ∧ found.node.bare = s.bare := by
  obtain ⟨span, line⟩ := ofLine_of_clean (clean_printed printable)
  obtain ⟨found, read, same⟩ := readCode_printed printable span
  rw [line, read]
  exact ⟨⟨found, span⟩, rfl, same⟩

/-- An assignment full of marks that do not count where they stand, to an array whose name begins
with a keyword. -/
def misleading : Statement :=
  .assign ⟨.element "OUTPUTS".toList ⟨"f(\"] <- //\")".toList, ⟨0, 0⟩⟩, ⟨0, 0⟩⟩
    ⟨"1 <- \"//".toList, ⟨0, 0⟩⟩

theorem ofLine_printed_misleading :
    misleading.Printable ∧ misleading.printed = "OUTPUTS[f(\"] <- //\")] <- 1 <- \"//".toList ∧
      ∃ found, ofLine misleading.printed = .ok (some found) ∧ found.node.bare = misleading := by
  have printable : misleading.Printable := by decide +kernel
  exact ⟨printable, by decide, ofLine_printed misleading printable⟩

end Statement

end Pseudocode
