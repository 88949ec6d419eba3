import Mathlib.Data.List.Nodup
import Pseudocode.Store.Basic

set_option autoImplicit false

namespace Pseudocode.Store

theorem findEntry_eq_none_iff (name : Text) (entries : List (Text × Entry)) :
    findEntry name entries = none ↔ name ∉ entries.map Prod.fst := by
  induction entries with
  | nil => simp [findEntry]
  | cons first rest ih =>
      obtain ⟨key, e⟩ := first
      by_cases same : key = name
      · simp [findEntry, same]
      · simp [findEntry, same, ih, Ne.symm same]

theorem mem_names_iff (s : Store) (name : Text) :
    name ∈ s.names ↔ ∃ e, s.find? name = some e := by
  have absent := findEntry_eq_none_iff name s.entries
  rw [← Option.isSome_iff_exists, ← Option.ne_none_iff_isSome]
  exact ⟨fun member none => absent.mp none member,
    fun some => not_not.mp fun outside => some (absent.mpr outside)⟩

theorem map_fst_putEntry (name : Text) (e : Entry) (entries : List (Text × Entry)) :
    (putEntry name e entries).map Prod.fst =
      if name ∈ entries.map Prod.fst then entries.map Prod.fst
      else entries.map Prod.fst ++ [name] := by
  induction entries with
  | nil => rfl
  | cons first rest ih =>
      obtain ⟨key, old⟩ := first
      by_cases same : key = name
      · simp [putEntry, same]
      · by_cases later : name ∈ rest.map Prod.fst
        · have inside : name ∈ ((key, old) :: rest).map Prod.fst := List.mem_cons_of_mem key later
          rw [if_pos later] at ih
          rw [putEntry, if_neg same, if_pos inside, List.map_cons, List.map_cons, ih]
        · have outside : name ∉ ((key, old) :: rest).map Prod.fst := by
            intro member
            rcases List.mem_cons.mp member with rfl | member
            · exact same rfl
            · exact later member
          rw [if_neg later] at ih
          rw [putEntry, if_neg same, if_neg outside, List.map_cons, List.map_cons, ih]
          rfl

theorem mem_names_put (s : Store) (name other : Text) (e : Entry) :
    other ∈ (s.put name e).names ↔ other = name ∨ other ∈ s.names := by
  rw [mem_names_iff, mem_names_iff, find?_put]
  by_cases same : name = other
  · subst same
    simp
  · simp [same, Ne.symm same]

/-- Names stay distinct: a name that is put again keeps its place. -/
theorem nodup_names_put {s : Store} (distinct : s.names.Nodup) (name : Text) (e : Entry) :
    (s.put name e).names.Nodup := by
  have names : (s.put name e).names = if name ∈ s.names then s.names else s.names ++ [name] :=
    map_fst_putEntry name e s.entries
  rw [names]
  split
  · exact distinct
  · rename_i new
    refine List.Nodup.append distinct (List.nodup_singleton name) ?_
    intro other old added
    rw [List.mem_singleton.mp added] at old
    exact new old

theorem keptIn_cons (names : List Text) (key : Text) (e : Entry) (rest : List (Text × Entry)) :
    keptIn names ((key, e) :: rest) =
      (if key ∈ names then 0 else e.length) + keptIn names rest := by
  simp [keptIn]

/-- Listing a name that has no entry frees nothing. -/
theorem keptIn_cons_name {name : Text} {names : List Text} {entries : List (Text × Entry)}
    (absent : name ∉ entries.map Prod.fst) :
    keptIn (name :: names) entries = keptIn names entries := by
  induction entries with
  | nil => rfl
  | cons first rest ih =>
      obtain ⟨key, e⟩ := first
      rw [List.map_cons, List.mem_cons, not_or] at absent
      have other : key ∈ name :: names ↔ key ∈ names := by
        rw [List.mem_cons, or_iff_right (Ne.symm absent.1)]
      rw [keptIn_cons, keptIn_cons, ih absent.2]
      simp only [other]

theorem keptIn_putEntry {name : Text} {e : Entry} {names : List Text}
    {entries : List (Text × Entry)} (distinct : (entries.map Prod.fst).Nodup) :
    keptIn names (putEntry name e entries) =
      if name ∈ names then keptIn names entries
      else keptIn (name :: names) entries + e.length := by
  induction entries with
  | nil =>
      rw [putEntry, keptIn_cons]
      split <;> simp [keptIn]
  | cons first rest ih =>
      obtain ⟨key, old⟩ := first
      obtain ⟨fresh, distinct⟩ := List.nodup_cons.mp distinct
      by_cases same : key = name
      · subst same
        rw [putEntry, if_pos rfl, keptIn_cons, keptIn_cons, keptIn_cons,
          keptIn_cons_name fresh, if_pos List.mem_cons_self]
        split <;> omega
      · have other : key ∈ name :: names ↔ key ∈ names := by
          rw [List.mem_cons, or_iff_right same]
        rw [putEntry, if_neg same, keptIn_cons, keptIn_cons, keptIn_cons, ih distinct]
        simp only [other]
        by_cases listed : name ∈ names
        · rw [if_pos listed, if_pos listed]
        · rw [if_neg listed, if_neg listed, Nat.add_assoc]

/-- What putting an entry does to the elements outside a list of names. -/
theorem kept_put {s : Store} (distinct : s.names.Nodup) (name : Text) (e : Entry)
    (names : List Text) :
    (s.put name e).kept names =
      if name ∈ names then s.kept names else s.kept (name :: names) + e.length :=
  keptIn_putEntry distinct

theorem putEntry_of_findEntry {name : Text} {e : Entry} {entries : List (Text × Entry)}
    (found : findEntry name entries = some e) : putEntry name e entries = entries := by
  induction entries with
  | nil => cases found
  | cons first rest ih =>
      obtain ⟨key, old⟩ := first
      by_cases same : key = name
      · rw [findEntry, if_pos same] at found
        cases found
        rw [putEntry, if_pos same, same]
      · rw [findEntry, if_neg same] at found
        rw [putEntry, if_neg same, ih found]

/-- All elements: those of one entry and those of the others. -/
theorem kept_nil_of_find? {s : Store} (distinct : s.names.Nodup) {name : Text} {e : Entry}
    (found : s.find? name = some e) : s.kept [] = s.kept [name] + e.length := by
  have again : s.put name e = s := by
    unfold put
    rw [putEntry_of_findEntry found]
  have counted := kept_put distinct name e []
  rwa [again, if_neg List.not_mem_nil] at counted

theorem checkCapacity_eq_ok_iff (s : Store) (names : List Text) (lower upper : Int64) :
    s.checkCapacity names lower upper = .ok () ↔
      Block.count lower upper ≤ maxArrayLength ∧
        (s.kept names : Int) + Block.count lower upper * names.length ≤ maxTotalLength := by
  unfold checkCapacity fail
  dsimp only
  split
  · rename_i long
    constructor
    · intro impossible
      cases impossible
    · intro short
      omega
  · rename_i short
    split
    · rename_i full
      constructor
      · intro impossible
        cases impossible
      · intro fits
        exact absurd fits.2 (Int.not_le.mpr full)
    · rename_i fits
      exact ⟨fun _ => ⟨Int.not_lt.mp short, Int.not_lt.mp fits⟩, fun _ => rfl⟩

end Pseudocode.Store
