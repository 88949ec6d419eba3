import Pseudocode.Proofs.Store.Writes

set_option autoImplicit false

namespace Pseudocode

/-- What a place of this type may hold: no value yet, or a value of the type. -/
def Value.Fits (type : DataType) (v : Value) : Prop :=
  v.isSet = true → v.type? = some type

/-- An array whose elements are exactly those between its bounds. -/
structure Block.WellFormed (b : Block) : Prop where
  ordered : b.lower.toInt ≤ b.upper.toInt
  size : (b.elements.size : Int) = b.upper.toInt - b.lower.toInt + 1
  short : b.elements.size ≤ maxArrayLength

namespace Entry

def type? : Entry → Option DataType
  | .scalar type _ => some type
  | .constant _ => none
  | .array b => some b.type

def values : Entry → List Value
  | .scalar _ v | .constant v => [v]
  | .array b => b.elements.toList

/-- Constants and only they have no declared type, they have a value, and arrays are well formed. -/
structure WellFormed (e : Entry) : Prop where
  untyped_iff : e.type? = none ↔ e.isConstant = true
  constant_set : e.isConstant = true → ∀ v ∈ e.values, v.isSet = true
  block : ∀ b, e = .array b → b.WellFormed

/-- Every value that is set has the declared type. -/
def Typed (e : Entry) : Prop :=
  ∀ type, e.type? = some type → ∀ v ∈ e.values, v.Fits type

end Entry

/-- The invariant of stores. Nothing is left out of `kept []`, so it counts the elements of all
arrays. -/
structure Store.Valid (s : Store) : Prop where
  distinct : s.names.Nodup
  identifiers : ∀ name ∈ s.names, Text.isIdentifier name = true
  wellFormed : ∀ name e, s.find? name = some e → e.WellFormed
  total : s.kept [] ≤ maxTotalLength
  typed : s.policy = .strict → ∀ name e, s.find? name = some e → e.Typed

namespace Block

theorem size_fresh (type : DataType) (lower upper : Int64) :
    (fresh type lower upper).elements.size = (count lower upper).toNat :=
  Array.size_replicate

theorem mem_fresh {type : DataType} {lower upper : Int64} {v : Value}
    (member : v ∈ (fresh type lower upper).elements) : v = .unset :=
  (Array.mem_replicate.mp member).2

theorem wellFormed_fresh {type : DataType} {lower upper : Int64}
    (ordered : lower.toInt ≤ upper.toInt) (short : count lower upper ≤ maxArrayLength) :
    (fresh type lower upper).WellFormed := by
  have size := size_fresh type lower upper
  unfold count at size short
  refine ⟨ordered, ?_, ?_⟩
  · change _ = upper.toInt - lower.toInt + 1
    omega
  · omega

/-- Storing an element changes neither the bounds nor their number. -/
theorem WellFormed.setElement {b : Block} (given : b.WellFormed) (i : Nat) (v : Value) :
    ({ b with elements := b.elements.setIfInBounds i v } : Block).WellFormed := by
  refine ⟨given.ordered, ?_, ?_⟩
  · rw [Array.size_setIfInBounds]
    exact given.size
  · rw [Array.size_setIfInBounds]
    exact given.short

theorem offset?_eq_some_iff (b : Block) (index : Int64) (i : Nat) :
    b.offset? index = some i ↔
      index.toInt ≤ b.upper.toInt ∧ index.toInt = b.lower.toInt + i := by
  unfold offset?
  split
  · rename_i inside
    rw [Option.some.injEq]
    omega
  · rename_i outside
    constructor
    · intro impossible
      cases impossible
    · intro inside
      omega

theorem offset?_eq_none_iff (b : Block) (index : Int64) :
    b.offset? index = none ↔ ¬ (b.lower.toInt ≤ index.toInt ∧ index.toInt ≤ b.upper.toInt) := by
  unfold offset?
  split <;> simp_all

/-- Positions stay below the number of elements, also for bounds at the ends of the range. -/
theorem WellFormed.offset?_lt {b : Block} (given : b.WellFormed) {index : Int64} {i : Nat}
    (inside : b.offset? index = some i) : i < b.elements.size := by
  obtain ⟨below, place⟩ := (offset?_eq_some_iff b index i).mp inside
  have size := given.size
  omega

/-- Every position belongs to exactly one index. -/
theorem WellFormed.existsUnique_offset? {b : Block} (given : b.WellFormed) {i : Nat}
    (inside : i < b.elements.size) : ∃! index, b.offset? index = some i := by
  have size := given.size
  have least := b.lower.minValue_le_toInt
  have greatest := b.upper.toInt_le
  refine ⟨Int64.ofIntLE (b.lower.toInt + i) (by omega) (by omega), ?_, ?_⟩
  · refine (offset?_eq_some_iff b _ i).mpr ⟨?_, Int64.toInt_ofIntLE⟩
    rw [Int64.toInt_ofIntLE]
    omega
  · intro other same
    obtain ⟨_, place⟩ := (offset?_eq_some_iff b other i).mp same
    apply Int64.toInt_inj.mp
    rw [Int64.toInt_ofIntLE, place]

end Block

namespace Entry

theorem wellFormed_scalar (type : DataType) (v : Value) : (scalar type v).WellFormed := by
  refine ⟨by simp [type?, isConstant], ?_, ?_⟩
  · intro impossible
    cases impossible
  · intro b impossible
    cases impossible

theorem wellFormed_constant {v : Value} (set : v.isSet = true) : (constant v).WellFormed := by
  refine ⟨by simp [type?, isConstant], ?_, ?_⟩
  · intro _ w member
    rw [List.mem_singleton.mp member]
    exact set
  · intro b impossible
    cases impossible

theorem wellFormed_array {b : Block} (given : b.WellFormed) : (array b).WellFormed := by
  refine ⟨by simp [type?, isConstant], ?_, ?_⟩
  · intro impossible
    cases impossible
  · intro c same
    cases same
    exact given

end Entry

theorem DataType.type?_of_accept? {type : DataType} {v stored : Value}
    (accepted : type.accept? v = some stored) : stored.type? = some type := by
  unfold DataType.accept? at accepted
  split at accepted <;> cases accepted <;> rfl

namespace Store

theorem coerce_fits {policy : Policy} {type : DataType} {v stored : Value}
    (made : coerce policy type v = .ok stored) (strict : policy = .strict) : stored.Fits type := by
  unfold coerce fail at made
  subst strict
  split at made
  · cases made
  · cases accepted : type.accept? v with
    | none =>
        rw [accepted] at made
        cases made
    | some w =>
        rw [accepted] at made
        cases made
        exact fun _ => DataType.type?_of_accept? accepted

section Write

variable {s : Store} {name : Text} {e : Entry}

theorem Writes.identifier (valid : s.Valid) (writes : Writes s name e) :
    Text.isIdentifier name = true := by
  cases writes with
  | scalar _ free => exact ((checkDeclarable_eq_ok_iff s name).mp free).1
  | array _ free => exact ((checkDeclarable_eq_ok_iff s name).mp free).1
  | constant free => exact ((checkDeclarable_eq_ok_iff s name).mp free).1
  | assign found => exact valid.identifiers name ((mem_names_iff s name).mpr ⟨_, found⟩)
  | element found => exact valid.identifiers name ((mem_names_iff s name).mpr ⟨_, found⟩)

theorem Writes.wellFormed (valid : s.Valid) (writes : Writes s name e) : e.WellFormed := by
  cases writes with
  | scalar type _ => exact Entry.wellFormed_scalar type .unset
  | array type _ ordered fits =>
      have short := ((checkCapacity_eq_ok_iff s [name] _ _).mp fits).1
      exact Entry.wellFormed_array (Block.wellFormed_fresh ordered short)
  | constant _ set => exact Entry.wellFormed_constant set
  | assign _ _ => exact Entry.wellFormed_scalar _ _
  | element found _ _ =>
      have old := (valid.wellFormed name _ found).block _ rfl
      exact Entry.wellFormed_array (old.setElement _ _)

/-- The elements of the other names and those written stay within the limit. -/
theorem Writes.total (valid : s.Valid) (writes : Writes s name e) :
    s.kept [name] + e.length ≤ maxTotalLength := by
  have whole := valid.total
  -- Every write but a new array leaves the name with at most what it held before.
  have bounded : s.kept [name] ≤ s.kept [] := by
    cases found : s.find? name with
    | none =>
        have absent := (findEntry_eq_none_iff name s.entries).mp found
        exact Nat.le_of_eq (keptIn_cons_name absent)
    | some old =>
        have counted := kept_nil_of_find? valid.distinct found
        omega
  cases writes with
  | scalar _ _ => exact Nat.le_trans bounded whole
  | array type _ ordered fits =>
      have small := ((checkCapacity_eq_ok_iff s [name] _ _).mp fits).2
      have size := Block.size_fresh type
      simp only [Entry.length, size, List.length_singleton] at small ⊢
      unfold Block.count at small ⊢
      omega
  | constant _ _ => exact Nat.le_trans bounded whole
  | assign _ _ => exact Nat.le_trans bounded whole
  | element found _ _ =>
      have counted := kept_nil_of_find? valid.distinct found
      simp only [Entry.length, Array.size_setIfInBounds] at counted ⊢
      omega

theorem Writes.typed (valid : s.Valid) (writes : Writes s name e) (strict : s.policy = .strict) :
    e.Typed := by
  intro type declared v member
  cases writes with
  | scalar _ _ =>
      rw [List.mem_singleton.mp member]
      intro impossible
      cases impossible
  | array _ _ _ _ =>
      rw [Block.mem_fresh (Array.mem_toList_iff.mp member)]
      intro impossible
      cases impossible
  | constant _ _ => cases declared
  | assign _ made =>
      cases declared
      rw [List.mem_singleton.mp member]
      exact coerce_fits made strict
  | element found _ made =>
      cases declared
      rcases Array.mem_or_eq_of_mem_setIfInBounds (Array.mem_toList_iff.mp member) with old | new
      · exact valid.typed strict name _ found _ rfl v (Array.mem_toList_iff.mpr old)
      · rw [new]
        exact coerce_fits made strict

/-- What one write keeps. -/
theorem Valid.put (valid : s.Valid) (writes : Writes s name e) : (s.put name e).Valid := by
  refine ⟨nodup_names_put valid.distinct name e, ?_, ?_, ?_, ?_⟩
  · intro other member
    rcases (mem_names_put s name other e).mp member with rfl | old
    · exact writes.identifier valid
    · exact valid.identifiers other old
  · intro other entry found
    rw [find?_put] at found
    split at found
    · cases found
      exact writes.wellFormed valid
    · exact valid.wellFormed other entry found
  · rw [kept_put valid.distinct, if_neg List.not_mem_nil]
    exact writes.total valid
  · intro strict other entry found
    rw [find?_put] at found
    split at found
    · cases found
      exact writes.typed valid strict
    · exact valid.typed strict other entry found

end Write

theorem valid_empty (policy : Policy) : ({ policy } : Store).Valid := by
  refine ⟨List.nodup_nil, ?_, ?_, Nat.zero_le _, ?_⟩
  · intro name member
    cases member
  · intro name e found
    cases found
  · intro _ name e found
    cases found

theorem Valid.steps {s next : Store} (valid : s.Valid) (steps : Steps s next) : next.Valid :=
  steps.preserves (fun _ _ _ valid writes => valid.put writes) valid

end Store

end Pseudocode
