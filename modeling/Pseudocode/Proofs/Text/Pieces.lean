import Mathlib.Data.List.DropRight
import Mathlib.Data.List.TakeWhile
import Pseudocode.Text.Identifier

set_option autoImplicit false

namespace Pseudocode.Text

theorem dropBytes_append (s t : Text) : dropBytes (bytes s) (s ++ t) = t := by
  induction s with
  | nil => exact dropBytes.eq_1 t
  | cons c s ih =>
      have positive := c.utf8Size_pos
      obtain ⟨n, size⟩ : ∃ n, bytes (c :: s) = n + 1 :=
        Nat.exists_eq_succ_of_ne_zero (by rw [bytes_cons]; omega)
      have left : n + 1 - c.utf8Size = bytes s := by
        rw [← size, bytes_cons]
        omega
      rw [size, List.cons_append, dropBytes, left, ih]

theorem takeBytes_append (s t : Text) : takeBytes (bytes s) (s ++ t) = s := by
  induction s with
  | nil => exact takeBytes.eq_1 t
  | cons c s ih =>
      have positive := c.utf8Size_pos
      obtain ⟨n, size⟩ : ∃ n, bytes (c :: s) = n + 1 :=
        Nat.exists_eq_succ_of_ne_zero (by rw [bytes_cons]; omega)
      have left : n + 1 - c.utf8Size = bytes s := by
        rw [← size, bytes_cons]
        omega
      rw [size, List.cons_append, takeBytes, left, ih]

theorem bytes_append_plus (front t : Text) :
    bytes (front ++ t ++ ['+']) = bytes front + bytes t + 1 := by
  rw [bytes_append, bytes_append]
  rfl

theorem append_plus_append (front t rest : Text) :
    front ++ t ++ ['+'] ++ rest = front ++ (t ++ '+' :: rest) := by
  rw [List.append_assoc, List.append_assoc, List.singleton_append]

/-- The slice between two places of a text. -/
theorem slice_append (front piece back : Text) :
    slice (front ++ piece ++ back) ⟨bytes front, bytes front + bytes piece⟩ = piece := by
  have size : bytes front + bytes piece - bytes front = bytes piece := by omega
  rw [slice, size, List.append_assoc, dropBytes_append, takeBytes_append]

theorem not_mem_takeWhile_ne (q : Char) (t : Text) : q ∉ t.takeWhile (· != q) := by
  intro member
  have := List.mem_takeWhile_imp member
  simp at this

theorem takeWhile_ne_append {q : Char} {s : Text} (absent : q ∉ s) (t : Text) :
    (s ++ q :: t).takeWhile (· != q) = s := by
  have others : ∀ c ∈ s, (c != q) = true := by
    rintro c member
    exact bne_iff_ne.mpr fun same => absent (same ▸ member)
  rw [List.takeWhile_append_of_pos others, List.takeWhile_cons_of_neg (by simp), List.append_nil]

theorem dropWhile_ne_append {q : Char} {s : Text} (absent : q ∉ s) (t : Text) :
    (s ++ q :: t).dropWhile (· != q) = q :: t := by
  have others : ∀ c ∈ s, (c != q) = true := by
    rintro c member
    exact bne_iff_ne.mpr fun same => absent (same ▸ member)
  rw [List.dropWhile_append_of_pos others, List.dropWhile_cons_of_neg (by simp)]

/-- A search for a character stops at that character. -/
theorem eq_append_of_dropWhile_ne {q c : Char} {t rest : Text}
    (found : t.dropWhile (· != q) = c :: rest) :
    c = q ∧ t = t.takeWhile (· != q) ++ q :: rest := by
  have mark := List.head?_dropWhile_not (· != q) t
  have parts := List.takeWhile_append_dropWhile (p := (· != q)) (l := t)
  rw [found] at mark parts
  simp only [List.head?_cons, bne_eq_false_iff_eq] at mark
  subst mark
  exact ⟨rfl, parts.symm⟩

theorem dropWhile_ne_eq_nil {q : Char} {t : Text} (absent : q ∉ t) :
    t.dropWhile (· != q) = [] :=
  List.dropWhile_eq_nil_iff.mpr fun _ member => bne_iff_ne.mpr fun same => absent (same ▸ member)

theorem isBlank_eq_false_of_between {c : Char} (low : 33 ≤ c.toNat) (high : c.toNat ≤ 126) :
    isBlank c = false := by
  simp only [isBlank, blankRanges, List.any_cons, List.any_nil, Bool.or_false, Bool.or_eq_false_iff,
    Bool.and_eq_false_iff, decide_eq_false_iff_not]
  omega

theorem range_of_isDigit {c : Char} (digit : c.isDigit = true) : 48 ≤ c.toNat ∧ c.toNat ≤ 57 := by
  obtain ⟨first, last⟩ := Bool.and_eq_true_iff.mp digit
  exact ⟨of_decide_eq_true first, of_decide_eq_true last⟩

theorem range_of_isAlpha {c : Char} (letter : c.isAlpha = true) :
    65 ≤ c.toNat ∧ c.toNat ≤ 122 := by
  rcases Bool.or_eq_true_iff.mp letter with upper | lower
  · have range : 65 ≤ c.toNat ∧ c.toNat ≤ 90 := of_decide_eq_true upper
    omega
  · obtain ⟨first, last⟩ := Bool.and_eq_true_iff.mp lower
    have low : 97 ≤ c.toNat := of_decide_eq_true first
    have high : c.toNat ≤ 122 := of_decide_eq_true last
    omega

theorem isDigit_eq_false_of_isNameStart {c : Char} (first : isNameStart c = true) :
    c.isDigit = false := by
  refine eq_false_of_ne_true fun digit => ?_
  have high := (range_of_isDigit digit).2
  simp only [isNameStart, Bool.or_eq_true, beq_iff_eq] at first
  rcases first with alpha | rfl
  · have low := (range_of_isAlpha alpha).1
    omega
  · cases digit

theorem isBlank_eq_false_of_isDigit {c : Char} (digit : c.isDigit = true) : isBlank c = false := by
  obtain ⟨low, high⟩ := range_of_isDigit digit
  exact isBlank_eq_false_of_between (by omega) (by omega)

theorem isBlank_eq_false_of_isNameChar {c : Char} (inside : isNameChar c = true) :
    isBlank c = false := by
  simp only [isNameChar, Char.isAlphanum, Bool.or_eq_true, beq_iff_eq] at inside
  rcases inside with (letter | digit) | underscore
  · obtain ⟨low, high⟩ := range_of_isAlpha letter
    exact isBlank_eq_false_of_between (by omega) (by omega)
  · exact isBlank_eq_false_of_isDigit digit
  · rw [underscore]
    decide

/-- What is trimmed at the end is blank. -/
theorem exists_trimEnd_append (t : Text) :
    ∃ blanks, t = trimEnd t ++ blanks ∧ ∀ c ∈ blanks, isBlank c = true := by
  refine ⟨(t.reverse.takeWhile isBlank).reverse, ?_, ?_⟩
  · have parts := List.takeWhile_append_dropWhile (p := isBlank) (l := t.reverse)
    rw [trimEnd, ← List.reverse_append, parts, List.reverse_reverse]
  · intro c member
    exact List.mem_takeWhile_imp (List.mem_reverse.mp member)

/-- A text is its trimmed form with blanks before and after it. -/
theorem exists_trim_append (t : Text) :
    ∃ blanks, t = t.takeWhile isBlank ++ (trim t ++ blanks) ∧ ∀ c ∈ blanks, isBlank c = true := by
  obtain ⟨blanks, rest, blank⟩ := exists_trimEnd_append (trimStart t)
  refine ⟨blanks, ?_, blank⟩
  rw [trim, ← rest]
  exact List.takeWhile_append_dropWhile.symm

/-- Blanks at the end reach back no further than to the last character that is none. -/
theorem exists_append_of_append_blanks {u blanks front rest : Text} {last : Char}
    (same : u ++ blanks = front ++ last :: rest) (blank : ∀ c ∈ blanks, isBlank c = true)
    (solid : isBlank last = false) : ∃ r, u = front ++ last :: r ∧ rest = r ++ blanks := by
  rcases List.append_eq_append_iff.mp same with ⟨r, front_eq, blanks_eq⟩ | ⟨r, u_eq, tail_eq⟩
  · have among := blank last (by rw [blanks_eq]; simp)
    rw [solid] at among
    cases among
  · cases r with
    | nil =>
        have among := blank last (by rw [← List.nil_append blanks, ← tail_eq]; simp)
        rw [solid] at among
        cases among
    | cons x r =>
        obtain ⟨rfl, rest_eq⟩ := List.cons.inj tail_eq
        exact ⟨r, u_eq, rest_eq⟩

/-- A text that is cut in two ways: the first cut comes after the second, or before it. -/
theorem append_eq_append_cases {a b c d : Text} (same : a ++ b = c ++ d) :
    (∃ m, a = c ++ m ∧ d = m ++ b) ∨ ∃ m, c = a ++ m ∧ m ≠ [] ∧ m ++ d = b := by
  rcases List.append_eq_append_iff.mp same with ⟨m, later, rest⟩ | ⟨m, front, rest⟩
  · cases m with
    | nil => exact .inl ⟨[], by simpa using later.symm, rest.symm⟩
    | cons x m => exact .inr ⟨x :: m, later, List.cons_ne_nil x m, rest.symm⟩
  · exact .inl ⟨m, front, rest⟩

def StartsSolid (t : Text) : Prop :=
  ∃ c rest, t = c :: rest ∧ isBlank c = false

def EndsSolid (t : Text) : Prop :=
  ∃ front c, t = front ++ [c] ∧ isBlank c = false

theorem StartsSolid.append {s : Text} (starts : StartsSolid s) (t : Text) :
    StartsSolid (s ++ t) := by
  obtain ⟨c, rest, rfl, solid⟩ := starts
  exact ⟨c, rest ++ t, rfl, solid⟩

theorem EndsSolid.prepend {t : Text} (ends : EndsSolid t) (s : Text) : EndsSolid (s ++ t) := by
  obtain ⟨front, c, rfl, solid⟩ := ends
  exact ⟨s ++ front, c, (List.append_assoc s front [c]).symm, solid⟩

theorem StartsSolid.ne_nil {t : Text} (starts : StartsSolid t) : t ≠ [] := by
  obtain ⟨c, rest, rfl, _⟩ := starts
  exact List.cons_ne_nil c rest

theorem StartsSolid.trimStart_eq {t : Text} (starts : StartsSolid t) : trimStart t = t := by
  obtain ⟨c, rest, rfl, solid⟩ := starts
  rw [trimStart, List.dropWhile_cons_of_neg (by rw [solid]; exact Bool.false_ne_true)]

theorem EndsSolid.trimEnd_append {t : Text} (ends : EndsSolid t) {blanks : Text}
    (blank : ∀ c ∈ blanks, isBlank c = true) : trimEnd (t ++ blanks) = t := by
  obtain ⟨front, c, rfl, solid⟩ := ends
  have reversed : ∀ x ∈ blanks.reverse, isBlank x = true :=
    fun x member => blank x (List.mem_reverse.mp member)
  rw [trimEnd, List.reverse_append, List.dropWhile_append_of_pos reversed, List.reverse_append,
    List.reverse_singleton, List.singleton_append,
    List.dropWhile_cons_of_neg (by rw [solid]; exact Bool.false_ne_true)]
  simp

theorem EndsSolid.trimEnd_eq {t : Text} (ends : EndsSolid t) : trimEnd t = t := by
  have trimmed := ends.trimEnd_append (List.forall_mem_nil _)
  rwa [List.append_nil] at trimmed

/-- Blanks around a text are trimmed, and nothing else. -/
theorem trim_pad {front t back : Text} (starts : StartsSolid t) (ends : EndsSolid t)
    (before : ∀ c ∈ front, isBlank c = true) (after : ∀ c ∈ back, isBlank c = true) :
    trim (front ++ (t ++ back)) = t := by
  have started : trimStart (front ++ (t ++ back)) = trimStart (t ++ back) :=
    List.dropWhile_append_of_pos before
  rw [trim, started, (starts.append back).trimStart_eq, ends.trimEnd_append after]

theorem trim_eq_self {t : Text} (starts : StartsSolid t) (ends : EndsSolid t) : trim t = t := by
  have padded : trim ([] ++ (t ++ [])) = t := trim_pad starts ends (by simp) (by simp)
  rwa [List.nil_append, List.append_nil] at padded

theorem trim_pad_start {t : Text} (starts : StartsSolid t) (ends : EndsSolid t) :
    trim (' ' :: t) = t := by
  have padded : trim ([' '] ++ (t ++ [])) = t :=
    trim_pad starts ends (List.forall_mem_singleton.mpr rfl) (by simp)
  rwa [List.append_nil] at padded

theorem startsSolid_of_trim {t : Text} (some : t ≠ []) (trimmed : trim t = t) : StartsSolid t := by
  obtain ⟨blanks, parts, _⟩ := exists_trimEnd_append (trimStart t)
  rw [← trim, trimmed] at parts
  cases t with
  | nil => exact absurd rfl some
  | cons c rest =>
      refine ⟨c, rest, rfl, ?_⟩
      cases blank : isBlank c with
      | false => rfl
      | true =>
          have shorter : (trimStart (c :: rest)).length ≤ rest.length := by
            rw [trimStart, List.dropWhile_cons_of_pos blank]
            exact (List.dropWhile_suffix _).length_le
          rw [parts, List.length_append, List.length_cons] at shorter
          omega

theorem endsSolid_of_trim {t : Text} (some : t ≠ []) (trimmed : trim t = t) : EndsSolid t := by
  have starts := startsSolid_of_trim some trimmed
  rw [trim, starts.trimStart_eq, trimEnd, List.reverse_eq_iff] at trimmed
  cases reversed : t.reverse with
  | nil => exact absurd (List.reverse_eq_nil_iff.mp reversed) some
  | cons c rest =>
      refine ⟨rest.reverse, c, by rw [← List.reverse_cons, ← reversed, List.reverse_reverse], ?_⟩
      rw [reversed] at trimmed
      have stop := List.head?_dropWhile_not isBlank (c :: rest)
      rw [trimmed] at stop
      exact stop

theorem trimEnd_append_blanks (t : Text) {blanks : Text} (blank : ∀ c ∈ blanks, isBlank c = true) :
    trimEnd (t ++ blanks) = trimEnd t := by
  have reversed : ∀ x ∈ blanks.reverse, isBlank x = true :=
    fun x member => blank x (List.mem_reverse.mp member)
  rw [trimEnd, List.reverse_append, List.dropWhile_append_of_pos reversed, trimEnd]

/-- Where a search comes to an end, what follows the text does not matter to it. -/
theorem takeWhile_append_of_found {p : Char → Bool} {t : Text} (found : t.dropWhile p ≠ [])
    (rest : Text) : (t ++ rest).takeWhile p = t.takeWhile p := by
  have parts := congrArg List.length (List.takeWhile_append_dropWhile (p := p) (l := t))
  have some := List.length_pos_iff.mpr found
  rw [List.length_append] at parts
  rw [List.takeWhile_append, if_neg (by omega)]

theorem dropWhile_append_of_found {p : Char → Bool} {t : Text} (found : t.dropWhile p ≠ [])
    (rest : Text) : (t ++ rest).dropWhile p = t.dropWhile p ++ rest := by
  rw [List.dropWhile_append, if_neg (by simp [found])]

theorem trim_append_blanks (t : Text) {blanks : Text} (blank : ∀ c ∈ blanks, isBlank c = true) :
    trim (t ++ blanks) = trim t := by
  by_cases found : t.dropWhile isBlank = []
  · have all : ∀ c ∈ t ++ blanks, isBlank c = true :=
      List.forall_mem_append.mpr ⟨List.dropWhile_eq_nil_iff.mp found, blank⟩
    rw [trim, trimStart, List.dropWhile_eq_nil_iff.mpr all, trim, trimStart, found]
  · rw [trim, trimStart, dropWhile_append_of_found found, trimEnd_append_blanks _ blank]
    rfl

/-- Blanks after a text are no part of it. -/
theorem trimmed_append_blanks {t blanks : Text} (some : trim t ≠ [])
    (blank : ∀ c ∈ blanks, isBlank c = true) (base : Nat) :
    trimmed base (t ++ blanks) = trimmed base t := by
  have found : t.dropWhile isBlank ≠ [] := by
    intro none
    apply some
    rw [trim, trimStart, none]
    rfl
  rw [trimmed, trimmed, trim_append_blanks t blank, takeWhile_append_of_found found]

theorem isBlank_of_trim_eq_nil {t : Text} (none : trim t = []) : ∀ c ∈ t, isBlank c = true := by
  obtain ⟨blanks, rest, blank⟩ := exists_trimEnd_append (trimStart t)
  have parts : t.takeWhile isBlank ++ blanks = t := by
    rw [show trimEnd (trimStart t) = [] from none, List.nil_append] at rest
    rw [← rest]
    exact List.takeWhile_append_dropWhile
  rw [← parts, List.forall_mem_append]
  exact ⟨fun c member => List.mem_takeWhile_imp member, blank⟩

theorem trim_trim (t : Text) : trim (trim t) = trim t := by
  have starts : trimStart (trim t) = trim t := by
    cases front : trim t with
    | nil => rfl
    | cons c rest =>
        obtain ⟨blanks, parts, _⟩ := exists_trimEnd_append (trimStart t)
        rw [← trim, front] at parts
        have solid := List.head?_dropWhile_not isBlank t
        rw [← trimStart, parts] at solid
        exact List.dropWhile_cons_of_neg (by simpa using solid)
  have ends : trimEnd (trim t) = trim t := by
    have solid := List.dropWhile_idempotent isBlank (trimStart t).reverse
    rw [trim, trimEnd, trimEnd, List.reverse_reverse, solid]
  rw [trim, starts, ends]

/-- What follows a word that a text begins with. -/
theorem eq_append_of_afterWord? {word t rest : Text} (after : afterWord? word t = some rest) :
    t = word ++ rest ∧ ∀ c r, rest = c :: r → isNameChar c = false := by
  unfold afterWord? at after
  split at after
  · rename_i begins
    obtain ⟨tail, rfl⟩ := List.isPrefixOf_iff_prefix.mp begins
    rw [List.drop_left] at after
    cases tail with
    | nil =>
        cases after
        exact ⟨rfl, fun c r same => nomatch same⟩
    | cons c tail =>
        cases inside : isNameChar c with
        | true => simp [inside] at after
        | false =>
            simp only [inside, Bool.false_eq_true, if_false, Option.some.injEq] at after
            subst after
            refine ⟨rfl, fun d r same => ?_⟩
            rw [← (List.cons.inj same).1, inside]
  · cases after

/-- Whether a text begins with a word is decided by its first name. -/
theorem afterWord?_append {word name rest : Text} (inWord : word.all isNameChar = true)
    (inName : name.all isNameChar = true)
    (apart : ∀ c r, rest = c :: r → isNameChar c = false) :
    afterWord? word (name ++ rest) = if name = word then some rest else none := by
  split
  · rename_i same
    subst same
    have begins : name.isPrefixOf (name ++ rest) = true :=
      List.isPrefixOf_iff_prefix.mpr (List.prefix_append name rest)
    rw [afterWord?, if_pos begins, List.drop_left]
    cases rest with
    | nil => rfl
    | cons c r => exact if_neg (by rw [apart c r rfl]; exact Bool.false_ne_true)
  · rename_i other
    unfold afterWord?
    split
    · rename_i begins
      obtain ⟨after, same⟩ := List.isPrefixOf_iff_prefix.mp begins
      have dropped : (name ++ rest).drop word.length = after := by rw [← same, List.drop_left]
      rcases List.append_eq_append_iff.mp same with ⟨a, name_eq, after_eq⟩ | ⟨a, word_eq, rest_eq⟩
      · cases a with
        | nil => exact absurd (by rw [name_eq, List.append_nil]) other
        | cons c a =>
            have inside := List.all_eq_true.mp inName c (by rw [name_eq]; simp)
            rw [dropped, after_eq]
            exact if_pos inside
      · cases a with
        | nil => exact absurd (by rw [word_eq, List.append_nil]) other
        | cons c a =>
            have inside := List.all_eq_true.mp inWord c (by rw [word_eq]; simp)
            rw [apart c _ rest_eq] at inside
            cases inside
    · rfl

theorem afterWord?_append_cons {word name : Text} {c : Char}
    (inWord : word.all isNameChar = true)
    (inName : name.all isNameChar = true) (apart : isNameChar c = false) (rest : Text) :
    afterWord? word (name ++ c :: rest) = if name = word then some (c :: rest) else none :=
  afterWord?_append inWord inName fun _ _ same => (List.cons.inj same).1 ▸ apart

theorem afterWord?_name {word name : Text} (inWord : word.all isNameChar = true)
    (inName : name.all isNameChar = true) :
    afterWord? word name = if name = word then some [] else none := by
  have after := afterWord?_append inWord inName fun c r (same : [] = c :: r) => nomatch same
  rwa [List.append_nil] at after

/-- Blanks after a text do not change which word it begins with. -/
theorem afterWord?_append_blanks {word t rest blanks : Text} (inWord : word.all isNameChar = true)
    (after : afterWord? word t = some rest) (blank : ∀ c ∈ blanks, isBlank c = true) :
    afterWord? word (t ++ blanks) = some (rest ++ blanks) := by
  obtain ⟨rfl, apart⟩ := eq_append_of_afterWord? after
  rw [List.append_assoc, afterWord?_append inWord inWord, if_pos rfl]
  intro c r same
  cases rest with
  | cons d rest => exact apart c rest (congrArg (· :: rest) (List.cons.inj same).1)
  | nil =>
      rw [List.nil_append] at same
      rw [Bool.eq_false_iff]
      intro inside
      have solid := isBlank_eq_false_of_isNameChar inside
      rw [blank c (by rw [same]; exact List.mem_cons_self)] at solid
      cases solid

theorem isNameChar_of_isNameStart {c : Char} (first : isNameStart c = true) :
    isNameChar c = true := by
  simp only [isNameStart, isNameChar, Char.isAlphanum, Bool.or_eq_true] at first ⊢
  exact first.imp_left .inl

theorem all_isNameChar_of_isIdentifier {name : Text} (named : isIdentifier name = true) :
    name.all isNameChar = true := by
  cases name with
  | nil => rfl
  | cons c rest =>
      simp only [isIdentifier, Bool.and_eq_true] at named
      rw [List.all_cons, isNameChar_of_isNameStart named.1.1, named.1.2]
      rfl

theorem not_mem_of_isIdentifier {name : Text} {c : Char} (named : isIdentifier name = true)
    (other : isNameChar c = false) : c ∉ name := by
  intro member
  have inside := List.all_eq_true.mp (all_isNameChar_of_isIdentifier named) c member
  rw [other] at inside
  cases inside

theorem ne_nil_of_isIdentifier {name : Text} (named : isIdentifier name = true) : name ≠ [] := by
  rintro rfl
  cases named

end Pseudocode.Text
