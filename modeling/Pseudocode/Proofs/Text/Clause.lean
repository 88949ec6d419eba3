import Mathlib.Data.List.Infix
import Pseudocode.Proofs.Text.Outline
import Pseudocode.Proofs.Text.Pieces

set_option autoImplicit false

namespace Pseudocode.Text

open Outline (Uncommented plain)

/-- A text that may end a line: not empty, trimmed and without a comment. -/
structure Clean (t : Text) : Prop where
  nonempty : t ≠ []
  trimmed : trim t = t
  uncommented : Uncommented {} t

/-- A text that other text may follow: at its end no quote or bracket is open. -/
structure Clause (t : Text) : Prop extends Clean t where
  closes : Outline.run {} t = {}

/-- A clause that brackets may stand around: none is closed in it that it does not open. -/
structure SelfContained (t : Text) : Prop extends Clause t where
  above : ∀ front ∈ t.inits, 0 ≤ (Outline.run {} front).depth

/-- No comma stands outside quotes and brackets. -/
def Undivided (t : Text) : Prop :=
  ∀ front back, t = front ++ ',' :: back → Outline.run {} front ≠ {}

section Decidable

theorem forall_append_iff (mark t : Text) (p : Text → Prop) :
    (∀ front ∈ t.inits, mark <+: t.drop front.length → p front) ↔
      ∀ front back, t = front ++ (mark ++ back) → p front := by
  constructor
  · rintro all front back rfl
    refine all front ((List.mem_inits _ _).mpr (List.prefix_append _ _)) ?_
    rw [List.drop_left]
    exact List.prefix_append mark back
  · rintro all front member ⟨back, follows⟩
    obtain ⟨after, rfl⟩ := (List.mem_inits _ _).mp member
    rw [List.drop_left] at follows
    exact all front back (by rw [follows])

instance (o : Outline) (t : Text) : Decidable (Uncommented o t) :=
  decidable_of_iff _ (forall_append_iff ['/', '/'] t fun front => (o.run front).quote ≠ none)

instance (t : Text) : Decidable (Undivided t) :=
  decidable_of_iff _ (forall_append_iff [','] t fun front => Outline.run {} front ≠ {})

instance (t : Text) : Decidable (Clean t) :=
  decidable_of_iff (t ≠ [] ∧ trim t = t ∧ Uncommented {} t)
    ⟨fun ⟨nonempty, trimmed, uncommented⟩ => ⟨nonempty, trimmed, uncommented⟩,
      fun clean => ⟨clean.nonempty, clean.trimmed, clean.uncommented⟩⟩

instance (t : Text) : Decidable (SelfContained t) :=
  decidable_of_iff
    (Clean t ∧ Outline.run {} t = {} ∧ ∀ front ∈ t.inits, 0 ≤ (Outline.run {} front).depth)
    ⟨fun ⟨clean, closes, above⟩ => ⟨⟨clean, closes⟩, above⟩,
      fun contained => ⟨contained.toClean, contained.closes, contained.above⟩⟩

end Decidable

theorem Clean.starts {t : Text} (clean : Clean t) : StartsSolid t :=
  startsSolid_of_trim clean.nonempty clean.trimmed

theorem Clean.ends {t : Text} (clean : Clean t) : EndsSolid t :=
  endsSolid_of_trim clean.nonempty clean.trimmed

theorem clean_of_solid {t : Text} (starts : StartsSolid t) (ends : EndsSolid t)
    (uncommented : Uncommented {} t) : Clean t :=
  ⟨starts.ne_nil, trim_eq_self starts ends, uncommented⟩

theorem startsSolid_of_forall {t : Text} (some : t ≠ []) (solid : ∀ c ∈ t, isBlank c = false) :
    StartsSolid t := by
  obtain ⟨c, rest, rfl⟩ := List.exists_cons_of_ne_nil some
  exact ⟨c, rest, rfl, solid c List.mem_cons_self⟩

theorem endsSolid_of_forall {t : Text} (some : t ≠ []) (solid : ∀ c ∈ t, isBlank c = false) :
    EndsSolid t :=
  ⟨t.dropLast, t.getLast some, (List.dropLast_concat_getLast some).symm,
    solid _ (List.getLast_mem some)⟩

theorem clause_of_forall {t : Text} (some : t ≠ [])
    (all : ∀ c ∈ t, isBlank c = false ∧ c ≠ '/' ∧ plain c = true) : Clause t := by
  have solid : ∀ c ∈ t, isBlank c = false := fun c member => (all c member).1
  refine ⟨clean_of_solid (startsSolid_of_forall some solid) (endsSolid_of_forall some solid) ?_, ?_⟩
  · exact Outline.uncommented_of_not_mem (fun member => (all _ member).2.1 rfl) {}
  · exact Outline.run_plain (fun c member => (all c member).2.2) 0

theorem clause_of_isNameChar {t : Text} (some : t ≠ []) (named : t.all isNameChar = true) :
    Clause t := by
  have inside := List.all_eq_true.mp named
  refine clause_of_forall some fun c member => ⟨?_, ?_, ?_⟩
  · exact isBlank_eq_false_of_isNameChar (inside c member)
  · rintro rfl
    cases inside '/' member
  · exact Outline.plain_of_class (inside c member) (by decide)

/-- A gap between two clauses: it opens and closes nothing, and no comment begins at it. -/
def Gap (gap : Text) : Prop :=
  gap ≠ [] ∧ ∀ c ∈ gap, c ≠ '/' ∧ plain c = true

instance (gap : Text) : Decidable (Gap gap) :=
  @instDecidableAnd _ _ _ (List.decidableBAll _ gap)

theorem Clause.append_clean {s t gap : Text} (first : Clause s) (between : Gap gap)
    (second : Clean t) : Clean (s ++ (gap ++ t)) := by
  have passed : Outline.run {} gap = {} :=
    Outline.run_plain (fun c member => (between.2 c member).2) 0
  have slashless : '/' ∉ gap := fun member => (between.2 '/' member).1 rfl
  refine clean_of_solid (first.starts.append _) ((second.ends.prepend _).prepend _) ?_
  refine first.uncommented.append ?_ (.inr ?_)
  · rw [first.closes]
    refine Uncommented.after ?_ slashless
    rw [passed]
    exact second.uncommented
  · obtain ⟨c, rest, rfl⟩ := List.exists_cons_of_ne_nil between.1
    rintro r ⟨⟩
    exact slashless List.mem_cons_self

theorem Clause.append {s t gap : Text} (first : Clause s) (between : Gap gap)
    (second : Clause t) : Clause (s ++ (gap ++ t)) := by
  have passed : Outline.run {} gap = {} :=
    Outline.run_plain (fun c member => (between.2 c member).2) 0
  refine ⟨first.append_clean between second.toClean, ?_⟩
  rw [Outline.run_append, Outline.run_append, first.closes, passed, second.closes]

theorem clean_quoted {q : Char} {t : Text} (mark : isQuote q = true) (solid : isBlank q = false)
    (absent : q ∉ t) : Clean (q :: t ++ [q]) := by
  have slashless : q ≠ '/' := by
    rintro rfl
    cases mark
  exact clean_of_solid ⟨q, t ++ [q], rfl, solid⟩ ⟨q :: t, q, rfl, solid⟩
    (Outline.uncommented_quoted mark slashless absent 0)

/-- A name with a text in brackets after it. -/
theorem clause_bracketed {name index : Text} (some : name ≠ [])
    (named : name.all isNameChar = true) (uncommented : Uncommented {} index)
    (closes : Outline.run {} index = {}) : Clause (name ++ '[' :: index ++ [']']) := by
  have word := clause_of_isNameChar some named
  have slashless : '/' ∉ name ++ ['['] := by
    simp only [List.mem_append, List.mem_singleton, not_or]
    exact ⟨fun member => (by cases List.all_eq_true.mp named '/' member), by decide⟩
  have opened : Outline.run {} (name ++ ['[']) = ⟨none, 1⟩ := by
    rw [Outline.run_append, word.closes]
    rfl
  have inside : Outline.run ⟨none, 1⟩ index = ⟨none, 1⟩ := by
    have raised := Outline.run_raise none 0 1 index
    rw [Int.zero_add, closes] at raised
    exact raised
  have text : name ++ '[' :: index ++ [']'] = (name ++ ['[']) ++ (index ++ [']']) := by simp
  have ends : EndsSolid [']'] := ⟨[], ']', rfl, by decide⟩
  rw [text]
  refine ⟨clean_of_solid ((word.starts.append _).append _) ((ends.prepend _).prepend _) ?_, ?_⟩
  · refine Uncommented.after ?_ slashless
    rw [opened]
    exact uncommented.raise.before (by decide)
  · rw [Outline.run_append, opened, Outline.run_append, inside]
    rfl

/-- In brackets a self-contained text stays one; nothing is cut there. -/
theorem SelfContained.passes {t : Text} (contained : SelfContained t) (sep : Char) :
    (Outline.scan sep).Passes ⟨none, 1⟩ t := by
  refine Outline.passes_of_positive ?_ sep
  rintro front back rfl
  have above := contained.above front ((List.mem_inits _ _).mpr (List.prefix_append front back))
  have raised := Outline.run_raise none 0 1 front
  rw [Int.zero_add] at raised
  rw [raised]
  exact Int.lt_add_one_of_le above

/-- One of a list's items. -/
structure Item (t : Text) : Prop extends Clause t where
  uncut : (Outline.scan ',').Passes {} t

theorem item_of_undivided {t : Text} (clause : Clause t) (undivided : Undivided t) : Item t := by
  refine ⟨clause, (Scan.passes_iff _ _ _).mpr fun front c back same => ?_⟩
  rw [Outline.run_scan, Bool.eq_false_iff, ne_eq, Outline.scan_cutsAt_iff]
  rintro ⟨seen, rfl, outside⟩
  simp only [Outline.sees, Bool.and_eq_true, Option.isNone_iff_eq_none] at seen
  cases reached : Outline.run {} front with
  | mk quote depth =>
      rw [reached] at seen outside
      obtain rfl : quote = none := seen.1
      rw [Outline.step_plain (by decide)] at outside
      obtain rfl : depth = 0 := outside
      exact undivided front back same reached

theorem item_of_isIdentifier {name : Text} (named : isIdentifier name = true) : Item name := by
  refine ⟨clause_of_isNameChar (ne_nil_of_isIdentifier named)
    (all_isNameChar_of_isIdentifier named), ?_⟩
  exact Outline.passes_of_not_mem (not_mem_of_isIdentifier named rfl) {}

theorem selfContained_of_isIdentifier {name : Text} (named : isIdentifier name = true) :
    SelfContained name := by
  have inside := List.all_eq_true.mp (all_isNameChar_of_isIdentifier named)
  refine ⟨(item_of_isIdentifier named).toClause, fun front among => ?_⟩
  have plain : ∀ c ∈ front, plain c = true := fun c member =>
    Outline.plain_of_class (inside c (((List.mem_inits _ _).mp among).subset member)) (by decide)
  exact Int.le_of_eq (congrArg Outline.depth (Outline.run_plain plain 0)).symm

theorem undivided_of_isIdentifier {name : Text} (named : isIdentifier name = true) :
    Undivided name := by
  rintro front back rfl
  exact absurd (by simp) (not_mem_of_isIdentifier (c := ',') named rfl)

/-- A list as it is written. -/
def commaSeparated (items : List Text) : Text :=
  List.intercalate [',', ' '] items

theorem commaSeparated_cons_cons (first second : Text) (rest : List Text) :
    commaSeparated (first :: second :: rest) =
      first ++ ([',', ' '] ++ commaSeparated (second :: rest)) := by
  rw [commaSeparated, List.intercalate_cons_cons, List.append_assoc]
  rfl

theorem clause_commaSeparated {items : List Text} (some : items ≠ [])
    (each : ∀ t ∈ items, Item t) : Clause (commaSeparated items) := by
  induction items with
  | nil => exact absurd rfl some
  | cons first rest ih =>
      obtain ⟨here, later⟩ := List.forall_mem_cons.mp each
      cases rest with
      | nil =>
          rw [commaSeparated, List.intercalate_singleton]
          exact here.toClause
      | cons second rest =>
          rw [commaSeparated_cons_cons]
          exact here.append (by decide) (ih (List.cons_ne_nil _ _) later)

/-- The blank after each comma may be taken to stand before the next item. -/
theorem cons_commaSeparated {items : List Text} (some : items ≠ []) :
    ' ' :: commaSeparated items = List.intercalate [','] (items.map (' ' :: ·)) := by
  induction items with
  | nil => exact absurd rfl some
  | cons first rest ih =>
      cases rest with
      | nil => simp [commaSeparated]
      | cons second rest =>
          rw [commaSeparated_cons_cons, List.map_cons, List.map_cons, List.intercalate_cons_cons,
            ← List.map_cons, ← ih (List.cons_ne_nil _ _)]
          simp

theorem mem_commaSeparated {items : List Text} {c : Char} (member : c ∈ commaSeparated items) :
    c = ',' ∨ c = ' ' ∨ ∃ t ∈ items, c ∈ t := by
  induction items with
  | nil => cases member
  | cons first rest ih =>
      cases rest with
      | nil =>
          rw [commaSeparated, List.intercalate_singleton] at member
          exact .inr (.inr ⟨first, List.mem_cons_self, member⟩)
      | cons second rest =>
          rw [commaSeparated_cons_cons] at member
          simp only [List.mem_append, List.mem_cons, List.not_mem_nil, or_false] at member
          rcases member with here | mark | later
          · exact .inr (.inr ⟨first, List.mem_cons_self, here⟩)
          · exact mark.imp_right .inl
          · rcases ih later with comma | blank | ⟨t, among, inside⟩
            · exact .inl comma
            · exact .inr (.inl blank)
            · exact .inr (.inr ⟨t, List.mem_cons_of_mem first among, inside⟩)

/-- Splitting a written list at its commas and trimming the parts gives the items back. -/
theorem map_trim_parts {items : List Text} (some : items ≠ []) (each : ∀ t ∈ items, Item t)
    {back : Text} (blank : ∀ c ∈ back, c = ' ') :
    (Outline.parts ',' {} (' ' :: commaSeparated items ++ back)).map trim = items := by
  have pieces : ∀ part ∈ items.map (' ' :: ·), (Outline.scan ',').Passes {} part ∧
      (Outline.scan ',').run {} part = {} := by
    intro part member
    obtain ⟨t, among, rfl⟩ := List.mem_map.mp member
    exact ⟨(Scan.passes_cons_iff _ _ _ _).mpr ⟨rfl, (each t among).uncut⟩, (each t among).closes⟩
  have cut : (Outline.scan ',').cut {} (List.intercalate [','] (items.map (' ' :: ·))) =
      items.map (' ' :: ·) :=
    Scan.cut_intercalate _ rfl rfl (by simpa using some)
      (fun part member => (pieces part member).1) (fun part member => (pieces part member).2)
  have unmarked : ',' ∉ back := by
    intro member
    cases blank ',' member
  have after : ∀ c ∈ back, isBlank c = true := by
    intro c member
    rw [blank c member]
    decide
  -- What follows the list goes to its last item.
  obtain ⟨front, last, alone, followed⟩ := (Outline.scan ',').cut_append_last
    (List.intercalate [','] (items.map (' ' :: ·))) (Outline.passes_of_not_mem unmarked _)
  rw [cut, List.map_eq_append_iff] at alone
  obtain ⟨firsts, lasts, rfl, rfl, single⟩ := alone
  obtain ⟨x, rfl, rfl⟩ := List.map_eq_singleton_iff.mp single
  have opening : (firsts.map (' ' :: ·)).map trim = firsts := by
    rw [List.map_map]
    refine (List.map_congr_left fun t member => ?_).trans (List.map_id firsts)
    have item := each t (List.mem_append_left _ member)
    exact trim_pad_start item.starts item.ends
  have item := each x (List.mem_append_right _ List.mem_cons_self)
  have closing : trim (' ' :: x ++ back) = x :=
    trim_pad item.starts item.ends (List.forall_mem_singleton.mpr rfl) after
  rw [cons_commaSeparated some, Outline.parts_eq_cut, followed, List.map_append, opening,
    List.map_singleton, closing]

theorem map_snd_withOffsets (offset : Nat) (parts : List Text) :
    (withOffsets offset parts).map Prod.snd = parts := by
  induction parts generalizing offset with
  | nil => rfl
  | cons part rest ih => rw [withOffsets, List.map_cons, ih]

end Pseudocode.Text
