import Mathlib.Data.List.Dedup
import Mathlib.Data.List.Infix
import Pseudocode.Proofs.Machine.Reachable

set_option autoImplicit false

namespace Pseudocode

theorem DataType.ofKeyword?_eq_some_iff (t : Text) (type : DataType) :
    DataType.ofKeyword? t = some type ↔ t = type.keyword.toList := by
  constructor
  · intro found
    have same := List.find?_some found
    exact (beq_iff_eq.mp same).symm
  · rintro rfl
    cases type <;> decide

theorem DataType.eq_of_keyword_eq {type other : DataType}
    (same : type.keyword.toList = other.keyword.toList) : type = other := by
  have found := (DataType.ofKeyword?_eq_some_iff _ type).mpr rfl
  rw [same, (DataType.ofKeyword?_eq_some_iff _ other).mpr rfl] at found
  exact (Option.some.inj found).symm

theorem forM_eq_ok_iff {α : Type} (f : α → Result Unit) (items : List α) :
    items.forM f = .ok () ↔ ∀ item ∈ items, f item = .ok () := by
  induction items with
  | nil => simp [pure, Except.pure]
  | cons first rest ih =>
      have unfolded : (first :: rest).forM f = (f first >>= fun _ => rest.forM f) := rfl
      rw [unfolded, List.forall_mem_cons, ← ih]
      cases f first with
      | error e => simp [bind, Except.bind]
      | ok u => exact ⟨fun later => ⟨rfl, later⟩, fun given => given.2⟩

namespace Store

/-- Array elements in the store once the listed names have arrays of `length` elements each. -/
def load (s : Store) (length : Nat) (names : List Text) : Nat :=
  s.kept names + length * names.dedup.length

theorem keptIn_congr {names others : List Text} (same : ∀ name, name ∈ names ↔ name ∈ others)
    (entries : List (Text × Entry)) : keptIn names entries = keptIn others entries := by
  induction entries with
  | nil => rfl
  | cons first rest ih =>
      obtain ⟨key, e⟩ := first
      rw [keptIn_cons, keptIn_cons, ih]
      simp only [same key]

theorem load_nil (s : Store) (length : Nat) : s.load length [] = s.kept [] := rfl

/-- Declaring one more name moves it from the names to come to the store. -/
theorem load_put {s : Store} (distinct : s.names.Nodup) (name : Text) (e : Entry)
    (names : List Text) : (s.put name e).load e.length names = s.load e.length (name :: names) := by
  unfold load
  rw [kept_put distinct]
  by_cases again : name ∈ names
  · have same : ∀ other, other ∈ names ↔ other ∈ name :: names := by
      intro other
      rw [List.mem_cons]
      constructor
      · exact .inr
      · rintro (rfl | member)
        · exact again
        · exact member
    rw [if_pos again, List.dedup_cons_of_mem again, kept, kept, keptIn_congr same]
  · rw [if_neg again, List.dedup_cons_of_notMem again, List.length_cons, Nat.mul_add, Nat.mul_one]
    omega

theorem checkCapacity_singleton (s : Store) (name : Text) {type : DataType} {lower upper : Int64}
    (ordered : lower.toInt ≤ upper.toInt) (short : Block.count lower upper ≤ maxArrayLength) :
    s.checkCapacity [name] lower upper = .ok () ↔
      s.load (Entry.array (.fresh type lower upper)).length [name] ≤ maxTotalLength := by
  have size := Block.size_fresh type lower upper
  have single : [name].dedup.length = 1 := rfl
  rw [checkCapacity_eq_ok_iff, load, single, List.length_singleton]
  simp only [Entry.length, size]
  unfold Block.count at short ⊢
  omega

/-- A fresh entry is no constant, so the names after it may still be declared. -/
theorem checkDeclarable_put {s : Store} {name other : Text} {e : Entry}
    (replaceable : e.isConstant = false) (free : s.checkDeclarable other = .ok ()) :
    (s.put name e).checkDeclarable other = .ok () := by
  rw [checkDeclarable_eq_ok_iff] at free ⊢
  refine ⟨free.1, ?_⟩
  unfold isConstant
  rw [find?_put]
  split
  · exact replaceable
  · exact free.2

end Store

namespace Declaration

/-- What the declaration makes of each of its names: an entry without values. -/
def blank (d : Declaration) (type : DataType) : Entry :=
  match d.bounds with
  | some bounds => .array (.fresh type bounds.node.lower bounds.node.upper)
  | none => .scalar type .unset

theorem isConstant_blank (d : Declaration) (type : DataType) :
    (d.blank type).isConstant = false := by
  unfold blank
  cases d.bounds <;> rfl

/-- What is asked of a declaration: every name may be declared, the type is one of the five, and
bounds are in order and leave room for the whole list of names. -/
structure Passes (d : Declaration) (s : Store) : Prop where
  declarable : ∀ name ∈ d.names, s.checkDeclarable name.node = .ok ()
  typed : ∃ type : DataType, d.type.node = type.keyword.toList
  bounded : ∀ bounds, d.bounds = some bounds →
    bounds.node.lower.toInt ≤ bounds.node.upper.toInt ∧
      s.checkCapacity (d.names.map (·.node)) bounds.node.lower bounds.node.upper = .ok ()

def Declared (d : Declaration) (s : Store) : Prop :=
  ∃ type : DataType, d.type.node = type.keyword.toList ∧
    ∀ name ∈ d.names, s.find? name.node = some (d.blank type)

/-- The declaration succeeds and all names are fresh, or it fails and the store is untouched. -/
def AllOrNothing (d : Declaration) (s : Store) : Prop :=
  ((d.apply s).2 = .ok () ∧ d.Declared (d.apply s).1) ∨
    ((∃ e, (d.apply s).2 = .error e) ∧ (d.apply s).1 = s)

/-- Whatever part of the names has been declared, new and old arrays fit beside each other: the
check is made again for each name, while the names after it still have their old arrays. -/
def FitsStepwise (d : Declaration) (s : Store) : Prop :=
  ∀ bounds, d.bounds = some bounds → ∀ front, front <+: d.names.map (·.node) →
    s.load (Block.count bounds.node.lower bounds.node.upper).toNat front ≤ maxTotalLength

theorem declareName_eq_ok_iff (d : Declaration) (s next : Store) (name : Spanned Text) :
    d.declareName s name = .ok next ↔
      s.checkDeclarable name.node = .ok () ∧
        (∀ bounds, d.bounds = some bounds →
          bounds.node.lower.toInt ≤ bounds.node.upper.toInt ∧
            s.checkCapacity [name.node] bounds.node.lower bounds.node.upper = .ok ()) ∧
        ∃ type : DataType, d.type.node = type.keyword.toList ∧
          next = s.put name.node (d.blank type) := by
  unfold declareName blank
  cases given : d.bounds with
  | none =>
      rw [mapError_eq_ok_iff, Store.declareScalar_eq_ok_iff]
      simp only [DataType.ofKeyword?_eq_some_iff, reduceCtorEq, false_implies, implies_true,
        true_and]
  | some bounds =>
      rw [mapError_eq_ok_iff, Store.declareArray_eq_ok_iff]
      simp only [DataType.ofKeyword?_eq_some_iff, Option.some.injEq, forall_eq', and_assoc]

theorem check_eq_ok_iff (d : Declaration) (s : Store) :
    d.check s = .ok () ↔
      (∀ name ∈ d.names, s.checkDeclarable name.node = .ok ()) ∧
        ∀ bounds, d.bounds = some bounds → bounds.node.lower.toInt ≤ bounds.node.upper.toInt →
          s.checkCapacity (d.names.map (·.node)) bounds.node.lower bounds.node.upper = .ok () := by
  have capacity : d.checkCapacity s = .ok () ↔ ∀ bounds, d.bounds = some bounds →
      bounds.node.lower.toInt ≤ bounds.node.upper.toInt →
        s.checkCapacity (d.names.map (·.node)) bounds.node.lower bounds.node.upper = .ok () := by
    unfold checkCapacity
    cases given : d.bounds with
    | none => simp
    | some bounds =>
        simp only [Option.some.injEq, forall_eq']
        split
        · rename_i ordered
          rw [mapError_eq_ok_iff]
          exact ⟨fun fits _ => fits, fun fits => fits ordered⟩
        · rename_i reversed
          exact ⟨fun _ ordered => absurd ordered reversed, fun _ => rfl⟩
  have names : (d.names.forM fun name =>
      (s.checkDeclarable name.node).mapError (·.withSpan name.span)) = .ok () ↔
        ∀ name ∈ d.names, s.checkDeclarable name.node = .ok () := by
    rw [forM_eq_ok_iff]
    simp only [mapError_eq_ok_iff]
  rw [← names, ← capacity, check]
  constructor
  · intro made
    obtain ⟨_, first, second⟩ := bind_eq_ok made
    exact ⟨first, second⟩
  · rintro ⟨first, second⟩
    rw [first]
    exact second

/-- Where all names are declared, each has its fresh entry and no other name is touched. -/
theorem find?_declareNames {d : Declaration} {type : DataType}
    (typed : d.type.node = type.keyword.toList) (names : List (Spanned Text)) (s : Store)
    (made : (d.declareNames s names).2 = .ok ()) (other : Text) :
    (d.declareNames s names).1.find? other =
      if other ∈ names.map (·.node) then some (d.blank type) else s.find? other := by
  induction names generalizing s with
  | nil => rfl
  | cons name rest ih =>
      rw [declareNames] at made ⊢
      cases declared : d.declareName s name with
      | error e =>
          rw [declared] at made
          cases made
      | ok next =>
          rw [declared] at made
          obtain ⟨_, _, found, known, rfl⟩ := (declareName_eq_ok_iff d s next name).mp declared
          cases DataType.eq_of_keyword_eq (known.symm.trans typed)
          dsimp only
          rw [ih _ made, Store.find?_put, List.map_cons]
          by_cases later : other ∈ rest.map (·.node)
          · rw [if_pos later, if_pos (List.mem_cons_of_mem _ later)]
          · by_cases this : name.node = other
            · rw [if_neg later, if_pos this, if_pos (this ▸ List.mem_cons_self)]
            · have outside : other ∉ name.node :: rest.map (·.node) := by
                rw [List.mem_cons, not_or]
                exact ⟨Ne.symm this, later⟩
              rw [if_neg later, if_neg this, if_neg outside]

theorem declareNames_scalars {d : Declaration} (unbounded : d.bounds = none) {type : DataType}
    (typed : d.type.node = type.keyword.toList) (names : List (Spanned Text)) (s : Store)
    (free : ∀ name ∈ names, s.checkDeclarable name.node = .ok ()) :
    (d.declareNames s names).2 = .ok () := by
  induction names generalizing s with
  | nil => rfl
  | cons name rest ih =>
      have declared : d.declareName s name = .ok (s.put name.node (d.blank type)) := by
        refine (declareName_eq_ok_iff d s _ name).mpr
          ⟨free name List.mem_cons_self, ?_, type, typed, rfl⟩
        intro bounds given
        rw [unbounded] at given
        cases given
      rw [declareNames, declared]
      exact ih _ fun later member =>
        Store.checkDeclarable_put (d.isConstant_blank type)
          (free later (List.mem_cons_of_mem _ member))

structure OfArrays (d : Declaration) (type : DataType) (bounds : Spanned Bounds) : Prop where
  given : d.bounds = some bounds
  ordered : bounds.node.lower.toInt ≤ bounds.node.upper.toInt
  short : Block.count bounds.node.lower bounds.node.upper ≤ maxArrayLength
  typed : d.type.node = type.keyword.toList

namespace OfArrays

variable {d : Declaration} {type : DataType} {bounds : Spanned Bounds}

theorem length_blank (arrays : d.OfArrays type bounds) :
    (d.blank type).length = (Block.count bounds.node.lower bounds.node.upper).toNat := by
  unfold blank
  rw [arrays.given]
  exact Block.size_fresh type bounds.node.lower bounds.node.upper

/-- The check that is made again for one name is about the load of that name alone. -/
theorem declareName_eq_ok_iff (arrays : d.OfArrays type bounds) {s : Store} {name : Spanned Text}
    (free : s.checkDeclarable name.node = .ok ()) (next : Store) :
    d.declareName s name = .ok next ↔
      s.load (d.blank type).length [name.node] ≤ maxTotalLength ∧
        next = s.put name.node (d.blank type) := by
  have capacity : s.checkCapacity [name.node] bounds.node.lower bounds.node.upper = .ok () ↔
      s.load (d.blank type).length [name.node] ≤ maxTotalLength := by
    rw [arrays.length_blank, ← Block.size_fresh type]
    exact Store.checkCapacity_singleton s name.node arrays.ordered arrays.short
  rw [Declaration.declareName_eq_ok_iff]
  constructor
  · rintro ⟨_, room, found, known, rfl⟩
    cases DataType.eq_of_keyword_eq (known.symm.trans arrays.typed)
    exact ⟨capacity.mp (room bounds arrays.given).2, rfl⟩
  · rintro ⟨fits, rfl⟩
    refine ⟨free, ?_, type, arrays.typed, rfl⟩
    intro other same
    cases arrays.given.symm.trans same
    exact ⟨arrays.ordered, capacity.mpr fits⟩

/-- Arrays of names that may be declared are all declared exactly if every load on the way fits. -/
theorem declareNames_iff (arrays : d.OfArrays type bounds) (names : List (Spanned Text)) (s : Store)
    (distinct : s.names.Nodup) (whole : s.kept [] ≤ maxTotalLength)
    (free : ∀ name ∈ names, s.checkDeclarable name.node = .ok ()) :
    (d.declareNames s names).2 = .ok () ↔
      ∀ front, front <+: names.map (·.node) →
        s.load (d.blank type).length front ≤ maxTotalLength := by
  induction names generalizing s with
  | nil =>
      constructor
      · intro _ front before
        rw [List.map_nil, List.prefix_nil] at before
        rw [before]
        exact whole
      · intro _
        rfl
  | cons name rest ih =>
      have this := arrays.declareName_eq_ok_iff (free name List.mem_cons_self)
      by_cases fits : s.load (d.blank type).length [name.node] ≤ maxTotalLength
      · have step := Store.load_put distinct name.node (d.blank type)
        rw [declareNames, (this _).mpr ⟨fits, rfl⟩]
        dsimp only
        rw [ih (s.put name.node (d.blank type)) (Store.nodup_names_put distinct _ _)
          (by rw [← Store.load_nil, step]; exact fits)
          (fun later member => Store.checkDeclarable_put (d.isConstant_blank type)
            (free later (List.mem_cons_of_mem _ member)))]
        constructor
        · intro onward front before
          rcases List.prefix_cons_iff.mp before with rfl | ⟨later, rfl, shorter⟩
          · exact whole
          · rw [← step]
            exact onward later shorter
        · intro all front before
          rw [step]
          exact all _ (List.prefix_cons_iff.mpr (.inr ⟨front, rfl, before⟩))
      · constructor
        · intro made
          rw [declareNames] at made
          cases declared : d.declareName s name with
          | error e =>
              rw [declared] at made
              cases made
          | ok next => exact absurd ((this next).mp declared).1 fits
        · intro all
          exact absurd (all [name.node] (List.prefix_cons_iff.mpr
            (.inr ⟨[], rfl, List.nil_prefix⟩))) fits

end OfArrays

theorem Passes.apply_eq {d : Declaration} {s : Store} (passes : d.Passes s) :
    d.apply s = d.declareNames s d.names := by
  have checked : d.check s = .ok () :=
    (check_eq_ok_iff d s).mpr
      ⟨passes.declarable, fun bounds given _ => (passes.bounded bounds given).2⟩
  rw [apply, checked]

/-- A declaration that passes goes through exactly if its arrays fit step by step. -/
theorem Passes.apply_ok_iff {d : Declaration} {s : Store} (passes : d.Passes s) (valid : s.Valid) :
    (d.apply s).2 = .ok () ↔ d.FitsStepwise s := by
  obtain ⟨type, typed⟩ := passes.typed
  rw [passes.apply_eq]
  cases given : d.bounds with
  | none =>
      constructor
      · intro _ bounds impossible
        rw [given] at impossible
        cases impossible
      · intro _
        exact declareNames_scalars given typed d.names s passes.declarable
  | some bounds =>
      obtain ⟨ordered, room⟩ := passes.bounded bounds given
      have arrays : d.OfArrays type bounds :=
        ⟨given, ordered, ((Store.checkCapacity_eq_ok_iff s _ _ _).mp room).1, typed⟩
      rw [arrays.declareNames_iff d.names s valid.distinct valid.total passes.declarable,
        arrays.length_blank]
      constructor
      · intro all other same
        cases given.symm.trans same
        exact all
      · intro all
        exact all bounds given

theorem apply_of_not_passes {d : Declaration} {s : Store} (named : d.names ≠ [])
    (refused : ¬ d.Passes s) : ∃ e, d.apply s = (s, .error e) := by
  unfold apply
  cases checked : d.check s with
  | error e => exact ⟨e, rfl⟩
  | ok _ =>
      obtain ⟨declarable, room⟩ := (check_eq_ok_iff d s).mp checked
      cases names : d.names with
      | nil => exact absurd names named
      | cons name rest =>
          dsimp only
          rw [declareNames]
          cases declared : d.declareName s name with
          | error e => exact ⟨e, rfl⟩
          | ok next =>
              obtain ⟨_, bounded, type, typed, _⟩ :=
                (declareName_eq_ok_iff d s next name).mp declared
              refine absurd ⟨declarable, ⟨type, typed⟩, ?_⟩ refused
              intro bounds given
              have ordered := (bounded bounds given).1
              exact ⟨ordered, room bounds given ordered⟩

/-- In every reachable store, a DECLARE of any names, type and bounds declares all or nothing and
succeeds if it passes, exactly unless it passes and its arrays do not fit step by step. -/
theorem allOrNothing_iff_fitsStepwise {s : Store} (reached : s.Reachable) (d : Declaration)
    (named : d.names ≠ []) :
    (d.AllOrNothing s ∧ (d.Passes s → (d.apply s).2 = .ok ())) ↔
      (d.Passes s → d.FitsStepwise s) := by
  have valid := reached.valid
  constructor
  · rintro ⟨_, succeeds⟩ passes
    exact (passes.apply_ok_iff valid).mp (succeeds passes)
  · intro fits
    by_cases passes : d.Passes s
    · have made : (d.apply s).2 = .ok () := (passes.apply_ok_iff valid).mpr (fits passes)
      refine ⟨.inl ⟨made, ?_⟩, fun _ => made⟩
      obtain ⟨type, typed⟩ := passes.typed
      refine ⟨type, typed, ?_⟩
      intro name member
      rw [passes.apply_eq] at made ⊢
      rw [find?_declareNames typed d.names s made, if_pos (List.mem_map_of_mem member)]
    · obtain ⟨e, failed⟩ := apply_of_not_passes named passes
      refine ⟨.inr ⟨⟨e, by rw [failed]⟩, by rw [failed]⟩, fun given => absurd given passes⟩

def filled (names : List Text) : Store where
  entries := names.map fun name => (name, .array (.fresh .integer 1 1048576))

def shorter (names : List Text) : Declaration where
  names := names.map fun name => ⟨name, ⟨0, 0⟩⟩
  type := ⟨"INTEGER".toList, ⟨0, 0⟩⟩
  bounds := some ⟨⟨1, 600000⟩, ⟨0, 0⟩⟩

theorem map_node_shorter (names : List Text) : (shorter names).names.map (·.node) = names := by
  unfold shorter
  rw [List.map_map]
  exact List.map_id names

theorem kept_filled (held names : List Text) :
    (filled held).kept names = 1048576 * (held.filter (· ∉ names)).length := by
  have size : (Entry.array (.fresh .integer 1 1048576)).length = 1048576 :=
    Block.size_fresh .integer 1 1048576
  unfold filled Store.kept
  induction held with
  | nil => rfl
  | cons name rest ih =>
      rw [List.map_cons, Store.keptIn_cons, ih, size, List.filter_cons]
      by_cases listed : name ∈ names
      · simp [listed]
      · simp [listed]
        omega

theorem load_filled (held names : List Text) :
    (filled held).load 600000 names =
      1048576 * (held.filter (· ∉ names)).length + 600000 * names.dedup.length := by
  rw [Store.load, kept_filled]

theorem reachable_filled_append {held : List Text} {name : Text}
    (reached : (filled held).Reachable) (few : held.length ≤ 3)
    (free : (filled held).checkDeclarable name = .ok ())
    (new : (filled held).put name (.array (.fresh .integer 1 1048576)) = filled (held ++ [name])) :
    (filled (held ++ [name])).Reachable := by
  have count : Block.count 1 1048576 = 1048576 := by decide
  have fits : (filled held).checkCapacity [name] 1 1048576 = .ok () := by
    have fewer := List.length_filter_le (· ∉ [name]) held
    rw [Store.checkCapacity_eq_ok_iff, count, kept_filled, List.length_singleton]
    unfold maxArrayLength maxTotalLength
    omega
  exact reached.declareArray ((Store.declareArray_eq_ok_iff _ _ name "INTEGER".toList _ _).mpr
    ⟨free, by decide, fits, .integer, by decide, new.symm⟩)

theorem reachable_filled : (filled [['p'], ['q'], ['b']]).Reachable := by
  have none : (filled []).Reachable := Store.reachable_empty .strict
  have one : (filled [['p']]).Reachable :=
    reachable_filled_append none (by decide) (by decide) rfl
  have two : (filled [['p'], ['q']]).Reachable :=
    reachable_filled_append one (by decide) (by decide) rfl
  exact reachable_filled_append two (by decide) (by decide) rfl

theorem passes_shorter {held names : List Text}
    (declarable : ∀ name ∈ names, (filled held).checkDeclarable name = .ok ())
    (room : 1048576 * (held.filter (· ∉ names)).length + 600000 * names.length ≤ maxTotalLength) :
    (shorter names).Passes (filled held) := by
  have count : Block.count 1 600000 = 600000 := by decide
  refine ⟨?_, ⟨.integer, rfl⟩, ?_⟩
  · intro name member
    obtain ⟨text, listed, rfl⟩ := List.mem_map.mp member
    exact declarable text listed
  · intro bounds given
    cases given
    refine ⟨by decide, ?_⟩
    rw [map_node_shorter, Store.checkCapacity_eq_ok_iff, kept_filled, count]
    refine ⟨by decide, ?_⟩
    omega

theorem fitsStepwise_shorter {held names : List Text}
    (fits : ∀ front ∈ names.inits,
      1048576 * (held.filter (· ∉ front)).length + 600000 * front.dedup.length ≤ maxTotalLength) :
    (shorter names).FitsStepwise (filled held) := by
  have count : (Block.count 1 600000).toNat = 600000 := by decide
  intro bounds given front before
  cases given
  rw [map_node_shorter] at before
  rw [count, load_filled]
  exact fits front ((List.mem_inits front names).mpr before)

/-- Beside three arrays of the greatest length, three shorter ones are declared if the one that
replaces a longer array comes first. -/
theorem allOrNothing_shorter_replacing_first :
    let s := filled [['p'], ['q'], ['b']]
    let d := shorter [['b'], ['a'], ['c']]
    s.Reachable ∧ d.Passes s ∧ d.AllOrNothing s ∧ (d.apply s).2 = .ok () := by
  intro s d
  have passes : d.Passes s := passes_shorter (by decide) (by decide)
  have fits : d.FitsStepwise s := fitsStepwise_shorter (by decide)
  obtain ⟨whole, succeeds⟩ :=
    (allOrNothing_iff_fitsStepwise reachable_filled d (List.cons_ne_nil _ _)).mpr fun _ => fits
  exact ⟨reachable_filled, passes, whole, succeeds passes⟩

/-- If that one comes last, the second name is checked while the longer array is still there: the
declaration passes and fails, and its first name stays declared. -/
theorem shorter_replacing_last_declares_part :
    let s := filled [['p'], ['q'], ['b']]
    let d := shorter [['a'], ['c'], ['b']]
    s.Reachable ∧ d.Passes s ∧ (∃ e, (d.apply s).2 = .error e) ∧ s.find? ['a'] = none ∧
      (d.apply s).1.find? ['a'] = some (.array (.fresh .integer 1 600000)) ∧
      ¬ d.AllOrNothing s := by
  intro s d
  have passes : d.Passes s := passes_shorter (by decide) (by decide)
  have arrays : d.OfArrays .integer ⟨⟨1, 600000⟩, ⟨0, 0⟩⟩ := ⟨rfl, by decide, by decide, rfl⟩
  have size : (d.blank .integer).length = 600000 := arrays.length_blank
  let next := s.put ['a'] (d.blank .integer)
  have first : d.declareName s ⟨['a'], ⟨0, 0⟩⟩ = .ok next := by
    refine (arrays.declareName_eq_ok_iff (by decide) next).mpr ⟨?_, rfl⟩
    rw [size, load_filled]
    decide
  have second : ∃ e, d.declareName next ⟨['c'], ⟨0, 0⟩⟩ = .error e := by
    cases made : d.declareName next ⟨['c'], ⟨0, 0⟩⟩ with
    | error e => exact ⟨e, rfl⟩
    | ok last =>
        obtain ⟨fits, _⟩ := (arrays.declareName_eq_ok_iff (by decide) last).mp made
        rw [Store.load_put (by decide), size, load_filled] at fits
        exact absurd fits (by decide)
  obtain ⟨e, second⟩ := second
  have outcome : d.apply s = (next, .error e) := by
    rw [passes.apply_eq]
    change d.declareNames s (⟨['a'], ⟨0, 0⟩⟩ :: ⟨['c'], ⟨0, 0⟩⟩ :: [⟨['b'], ⟨0, 0⟩⟩]) = _
    rw [declareNames, first]
    dsimp only
    rw [declareNames, second]
  have part : (d.apply s).1.find? ['a'] = some (.array (.fresh .integer 1 600000)) := by
    rw [outcome]
    exact Store.find?_put s ['a'] ['a'] _
  refine ⟨reachable_filled, passes, ⟨e, by rw [outcome]⟩, rfl, part, ?_⟩
  rintro (⟨made, _⟩ | ⟨_, same⟩)
  · rw [outcome] at made
    cases made
  · rw [same] at part
    cases part

end Declaration

end Pseudocode
