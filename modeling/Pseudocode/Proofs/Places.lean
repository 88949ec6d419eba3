import Pseudocode.Proofs.Result
import Pseudocode.Proofs.Text.Outline
import Pseudocode.Proofs.Text.Pieces

set_option autoImplicit false

namespace Pseudocode

open Text (bytes isBlank isNameChar trimStart trim splitOuter withOffsets Outline)

/-- The part stands in a text at byte `start`. -/
def Text.StandsAt (whole : Text) (start : Nat) (part : Text) : Prop :=
  ∃ front back, whole = front ++ (part ++ back) ∧ start = bytes front

open Text (StandsAt)

namespace Text.StandsAt

variable {whole part : Text} {start : Nat}

theorem refl (t : Text) : StandsAt t 0 t :=
  ⟨[], [], by simp, rfl⟩

theorem after (front t : Text) : StandsAt (front ++ t) (bytes front) t :=
  ⟨front, [], by simp, rfl⟩

theorem trans {piece : Text} {inner : Nat} (stands : StandsAt whole start part)
    (inside : StandsAt part inner piece) : StandsAt whole (start + inner) piece := by
  obtain ⟨front, back, rfl, rfl⟩ := stands
  obtain ⟨before, after, rfl, rfl⟩ := inside
  exact ⟨front ++ before, after ++ back, by simp, by simp⟩

theorem left {first second : Text} (stands : StandsAt whole start (first ++ second)) :
    StandsAt whole start first := by
  obtain ⟨front, back, rfl, rfl⟩ := stands
  exact ⟨front, second ++ back, by simp, rfl⟩

theorem right {first second : Text} (stands : StandsAt whole start (first ++ second)) :
    StandsAt whole (start + bytes first) second := by
  obtain ⟨front, back, rfl, rfl⟩ := stands
  exact ⟨front ++ first, back, by simp, by simp⟩

theorem stop_le (stands : StandsAt whole start part) : start + bytes part ≤ bytes whole := by
  obtain ⟨front, back, rfl, rfl⟩ := stands
  simp only [bytes_append]
  omega

theorem trimmed (stands : StandsAt whole start part) :
    StandsAt whole (trimmed start part).span.start (trimmed start part).node := by
  obtain ⟨front, back, rfl, rfl⟩ := stands
  obtain ⟨blanks, ends, _⟩ := exists_trimEnd_append (trimStart part)
  have parts := List.takeWhile_append_dropWhile (p := isBlank) (l := part)
  refine ⟨front ++ part.takeWhile isBlank, blanks ++ back, ?_, (bytes_append _ _).symm⟩
  calc
    front ++ (part ++ back) = front ++ (part.takeWhile isBlank ++ trimStart part ++ back) := by
      rw [trimStart, parts]
    _ = front ++ (part.takeWhile isBlank ++ (trim part ++ blanks) ++ back) := by rw [trim, ← ends]
    _ = _ := by simp only [List.append_assoc, Text.trimmed]

end Text.StandsAt

/-- Every part of a list stands at its offset, and a separator or the end of the text follows it. -/
theorem Text.standsAt_of_mem_splitOuter {sep : Char} (narrow : sep.utf8Size = 1) {t : Text}
    {part : Nat × Text} (member : part ∈ splitOuter sep t) :
    StandsAt t part.1 part.2 ∧
      (part.1 + bytes part.2 = bytes t ∨ StandsAt t part.1 (part.2 ++ [sep])) := by
  have along (front t : Text) (o : Outline) :
      ∀ part ∈ withOffsets (bytes front) ((Outline.scan sep).cut o t),
        StandsAt (front ++ t) part.1 part.2 ∧ (part.1 + bytes part.2 = bytes (front ++ t) ∨
          StandsAt (front ++ t) part.1 (part.2 ++ [sep])) := by
    induction o, t using (Outline.scan sep).cut_induction generalizing front with
    | uncut o t passes =>
        rw [passes]
        intro part member
        rw [withOffsets, withOffsets, List.mem_singleton] at member
        subst member
        exact ⟨⟨front, [], by simp, rfl⟩, .inl (bytes_append front t).symm⟩
    | cut o before x back passes here ih =>
        obtain ⟨_, rfl, _⟩ := (Outline.scan_cutsAt_iff sep _ x).mp here
        have size : bytes (front ++ (before ++ [x])) = bytes front + bytes before + 1 := by
          simp [narrow, Nat.add_assoc]
        have whole : front ++ (before ++ [x]) ++ back = front ++ (before ++ x :: back) := by simp
        have later := ih (front ++ (before ++ [x]))
        rw [size, whole] at later
        rw [Scan.cut_append_cons _ here, passes, List.singleton_append, withOffsets]
        refine List.forall_mem_cons.mpr ⟨⟨?_, .inr ?_⟩, later⟩
        · exact ⟨front, x :: back, rfl, rfl⟩
        · exact ⟨front, back, by simp, rfl⟩
  rw [splitOuter, Outline.parts_eq_cut] at member
  exact along [] t {} part member

/-- A character begins at byte `n` of the text, or the text ends there. -/
def Text.Boundary (t : Text) (n : Nat) : Prop :=
  ∃ front back, t = front ++ back ∧ n = bytes front

/-- A range of whole characters of a text. -/
structure Span.Within (t : Text) (s : Span) : Prop where
  ordered : s.start ≤ s.stop
  first : t.Boundary s.start
  last : t.Boundary s.stop

/-- A piece of a text with its range. -/
structure Spanned.StandsIn (whole : Text) (piece : Spanned Text) : Prop where
  stands : StandsAt whole piece.span.start piece.node
  size : piece.span.stop = piece.span.start + bytes piece.node

section Ranges

variable {whole part t : Text} {start : Nat} {a b : Span} {piece : Spanned Text}

theorem Text.StandsAt.boundary (stands : StandsAt whole start part) : whole.Boundary start := by
  obtain ⟨front, back, rfl, rfl⟩ := stands
  exact ⟨front, part ++ back, rfl, rfl⟩

theorem Text.StandsAt.within (stands : StandsAt whole start part) :
    Span.Within whole ⟨start, start + bytes part⟩ := by
  refine ⟨Nat.le_add_right start _, stands.boundary, ?_⟩
  obtain ⟨front, back, rfl, rfl⟩ := stands
  exact ⟨front ++ part, back, by simp, by simp⟩

theorem Text.Boundary.shift {n : Nat} (stands : StandsAt whole start part)
    (boundary : part.Boundary n) : whole.Boundary (n + start) := by
  obtain ⟨front, back, rfl, rfl⟩ := boundary
  rw [Nat.add_comm]
  exact stands.right.boundary

namespace Span.Within

theorem shift (within : a.Within part) (stands : StandsAt whole start part) :
    (a.shift start).Within whole :=
  ⟨Nat.add_le_add_right within.ordered start, within.first.shift stands,
    within.last.shift stands⟩

theorem merge (one : a.Within t) (other : b.Within t) : (a.merge b).Within t := by
  have first := one.ordered
  have second := other.ordered
  refine ⟨?_, ?_, ?_⟩
  · show min a.start b.start ≤ max a.stop b.stop
    omega
  · show t.Boundary (min a.start b.start)
    rcases Nat.le_total a.start b.start with le | le
    · rw [Nat.min_eq_left le]
      exact one.first
    · rw [Nat.min_eq_right le]
      exact other.first
  · show t.Boundary (max a.stop b.stop)
    rcases Nat.le_total a.stop b.stop with le | le
    · rw [Nat.max_eq_right le]
      exact other.last
    · rw [Nat.max_eq_left le]
      exact one.last

end Span.Within

theorem Spanned.StandsIn.within (stands : piece.StandsIn whole) : piece.span.Within whole := by
  have within := stands.stands.within
  rw [← stands.size] at within
  exact within

theorem Text.StandsAt.slice_eq (stands : StandsAt whole start part) :
    slice whole ⟨start, start + bytes part⟩ = part := by
  obtain ⟨front, back, rfl, rfl⟩ := stands
  rw [← List.append_assoc]
  exact slice_append front part back

theorem Spanned.StandsIn.slice_eq (stands : piece.StandsIn whole) :
    Text.slice whole piece.span = piece.node := by
  have text := stands.stands.slice_eq
  rw [← stands.size] at text
  exact text

theorem Text.StandsAt.trimmed_standsIn (stands : StandsAt whole start part) :
    (Text.trimmed start part).StandsIn whole :=
  ⟨stands.trimmed, rfl⟩

end Ranges

/-- Letters, digits and underscores, at least one. -/
structure Text.IsWord (name : Text) : Prop where
  nonempty : name ≠ []
  all : ∀ c ∈ name, isNameChar c = true

structure Span.Opens (t : Text) (s : Span) (name : Text) : Prop where
  word : name.IsWord
  stands : StandsAt t s.start name
  size : s.start + bytes name ≤ s.stop

theorem Text.isWord_of_isIdentifier {name : Text} (named : isIdentifier name = true) :
    name.IsWord :=
  ⟨ne_nil_of_isIdentifier named, List.all_eq_true.mp (all_isNameChar_of_isIdentifier named)⟩

theorem Span.Opens.shift {whole part name : Text} {start : Nat} {s : Span}
    (opens : s.Opens part name) (stands : StandsAt whole start part) :
    (s.shift start).Opens whole name := by
  refine ⟨opens.word, ?_, ?_⟩
  · show StandsAt whole (s.start + start) name
    rw [Nat.add_comm]
    exact stands.trans opens.stands
  · have size := opens.size
    show s.start + start + bytes name ≤ s.stop + start
    omega

theorem Text.takeBytes_cons {n : Nat} {c : Char} (t : Text) (some : 0 < n) :
    takeBytes n (c :: t) = c :: takeBytes (n - c.utf8Size) t := by
  cases n with
  | zero => omega
  | succ n => rfl

/-- The text at a range begins with what stands at the front of the range. -/
theorem Span.Opens.prefix_slice {t name : Text} {s : Span} (opens : s.Opens t name) :
    name <+: t.slice s := by
  have taken (n : Nat) (name back : Text) (size : bytes name ≤ n) :
      name <+: Text.takeBytes n (name ++ back) := by
    induction name generalizing n with
    | nil => exact List.nil_prefix
    | cons c rest ih =>
        have positive := c.utf8Size_pos
        rw [Text.bytes_cons] at size
        rw [List.cons_append, Text.takeBytes_cons _ (by omega)]
        exact List.cons_prefix_cons.mpr ⟨rfl, ih (n - c.utf8Size) (by omega)⟩
  obtain ⟨front, back, same, start⟩ := opens.stands
  have size := opens.size
  rw [Text.slice, same, start, Text.dropBytes_append]
  exact taken _ name back (by omega)

/-- The kinds of failure that are about a variable that is read or written. -/
def Kind.isReference : Kind → Bool
  | .undeclaredVariable | .uninitializedValue => true
  | _ => false

/-- The variable that such a failure is about. -/
def Cause.subject? : Cause → Option Text
  | .undeclared name _ => some name
  | .uninitialized (.scalar name) | .uninitialized (.element name _) => some name
  | _ => none

namespace Failure

/-- The failure is reported, if anywhere, at whole characters of the text, and if it is about a
variable, then where the variable stands. -/
structure Located (t : Text) (e : Failure) : Prop where
  within : ∀ span, e.span = some span → span.Within t
  opens : e.kind.isReference = true →
    ∃ name span, e.cause.subject? = some name ∧ e.span = some span ∧ span.Opens t name

/-- The failure is reported somewhere in the text. -/
structure Pinned (t : Text) (e : Failure) : Prop extends Located t e where
  placed : e.span ≠ none

/-- The failure has no place yet and is about no variable. -/
structure Plain (e : Failure) : Prop where
  unplaced : e.span = none
  other : e.kind.isReference = false

/-- The failure has no place yet, and if it is about a variable, then about this one. -/
structure About (name : Text) (e : Failure) : Prop where
  unplaced : e.span = none
  subject : e.kind.isReference = true → e.cause.subject? = some name

variable {t whole part name : Text} {start : Nat} {e : Failure} {span : Span}

theorem Plain.located (plain : e.Plain) : e.Located t := by
  refine ⟨fun span has => ?_, fun reference => ?_⟩
  · rw [plain.unplaced] at has
    cases has
  · rw [plain.other] at reference
    cases reference

theorem Plain.about (plain : e.Plain) : e.About name := by
  refine ⟨plain.unplaced, fun reference => ?_⟩
  rw [plain.other] at reference
  cases reference

theorem Located.shift (located : e.Located part) (stands : StandsAt whole start part) :
    (e.shift start).Located whole := by
  refine ⟨fun span has => ?_, fun reference => ?_⟩
  · obtain ⟨inner, given, rfl⟩ := Option.map_eq_some_iff.mp has
    exact (located.within inner given).shift stands
  · obtain ⟨name, inner, subject, has, opens⟩ := located.opens reference
    refine ⟨name, inner.shift start, subject, ?_, opens.shift stands⟩
    show e.span.map _ = _
    rw [has]
    rfl

theorem Pinned.shift (pinned : e.Pinned part) (stands : StandsAt whole start part) :
    (e.shift start).Pinned whole := by
  refine ⟨pinned.toLocated.shift stands, fun none => ?_⟩
  exact pinned.placed (Option.map_eq_none_iff.mp none)

theorem Located.orSpan (located : e.Located t) (within : span.Within t) :
    (e.orSpan span).Pinned t := by
  cases has : e.span with
  | none =>
      refine ⟨⟨fun other same => ?_, fun reference => ?_⟩, by simp [Failure.orSpan]⟩
      · simp only [Failure.orSpan, has, Option.getD_none, Option.some.injEq] at same
        rw [← same]
        exact within
      · obtain ⟨name, inner, _, given, _⟩ := located.opens reference
        rw [has] at given
        cases given
  | some inner =>
      have same : e.orSpan span = e := by
        obtain ⟨cause, place⟩ := e
        cases has
        rfl
      rw [same]
      exact ⟨located, by simp [has]⟩

/-- A failure in a piece of a text is one in the text, at the piece if nothing is known better. -/
theorem Located.shift_orSpan {piece : Spanned Text} (located : e.Located piece.node)
    (stands : piece.StandsIn whole) :
    ((e.shift piece.span.start).orSpan piece.span).Pinned whole :=
  (located.shift stands.stands).orSpan stands.within

theorem About.withSpan (about : e.About name) (within : span.Within t) (opens : span.Opens t name) :
    (e.withSpan span).Pinned t := by
  refine ⟨⟨fun other same => ?_, fun reference => ?_⟩, by simp [Failure.withSpan]⟩
  · cases same
    exact within
  · exact ⟨name, span, about.subject reference, rfl, opens⟩

theorem Plain.withSpan (plain : e.Plain) (within : span.Within t) : (e.withSpan span).Pinned t := by
  refine ⟨⟨fun other same => ?_, fun reference => ?_⟩, by simp [Failure.withSpan]⟩
  · cases same
    exact within
  · have kind : (e.withSpan span).kind = e.kind := rfl
    rw [kind, plain.other] at reference
    cases reference

theorem About.orSpan (about : e.About name) (within : span.Within t) (opens : span.Opens t name) :
    (e.orSpan span).Pinned t := by
  have same : e.orSpan span = e.withSpan span := by
    rw [Failure.orSpan, about.unplaced]
    rfl
  rw [same]
  exact about.withSpan within opens

theorem pinned_at {cause : Cause} (within : span.Within t)
    (other : cause.kind.isReference = false) :
    Pinned t { cause, span := some span } :=
  Plain.withSpan (e := { cause }) ⟨rfl, other⟩ within

end Failure

end Pseudocode
