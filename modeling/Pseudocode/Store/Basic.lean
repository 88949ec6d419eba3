import Pseudocode.Text.Distance
import Pseudocode.Text.Identifier
import Pseudocode.Error

set_option autoImplicit false

namespace Pseudocode

/-- How a write is checked against the declared type. -/
inductive Policy where
  /-- The value is converted as `DataType.accept?` allows, or refused. -/
  | strict
  /-- Any value is stored as it is. -/
  | permissive
deriving DecidableEq, Repr

/-- An array whose indices run from `lower` to `upper`. -/
structure Block where
  type : DataType
  lower : Int64
  upper : Int64
  elements : Array Value
deriving DecidableEq

namespace Block

/-- Number of indices from `lower` to `upper`; not positive if the bounds are reversed. -/
def count (lower upper : Int64) : Int :=
  upper.toInt - lower.toInt + 1

def fresh (type : DataType) (lower upper : Int64) : Block :=
  ⟨type, lower, upper, Array.replicate (count lower upper).toNat .unset⟩

def offset? (b : Block) (index : Int64) : Option Nat :=
  if b.lower.toInt ≤ index.toInt ∧ index.toInt ≤ b.upper.toInt then
    some (index.toInt - b.lower.toInt).toNat
  else none

end Block

inductive Entry where
  | scalar (type : DataType) (value : Value)
  | constant (value : Value)
  | array (block : Block)
deriving DecidableEq

namespace Entry

def isConstant : Entry → Bool
  | .constant _ => true
  | _ => false

def length : Entry → Nat
  | .array b => b.elements.size
  | _ => 0

end Entry

/-- Declared names in the order of their first declaration. -/
structure Store where
  policy : Policy := .strict
  entries : List (Text × Entry) := []
deriving DecidableEq

namespace Store

def findEntry (name : Text) : List (Text × Entry) → Option Entry
  | [] => none
  | (other, e) :: rest => if other = name then some e else findEntry name rest

def find? (s : Store) (name : Text) : Option Entry :=
  findEntry name s.entries

def names (s : Store) : List Text :=
  s.entries.map Prod.fst

def contains (s : Store) (name : Text) : Bool :=
  (s.find? name).isSome

def isConstant (s : Store) (name : Text) : Bool :=
  (s.find? name).any Entry.isConstant

/-- Replaces the entry of a name, or adds one at the end. -/
def putEntry (name : Text) (e : Entry) : List (Text × Entry) → List (Text × Entry)
  | [] => [(name, e)]
  | (other, old) :: rest =>
      if other = name then (name, e) :: rest else (other, old) :: putEntry name e rest

def put (s : Store) (name : Text) (e : Entry) : Store :=
  { s with entries := putEntry name e s.entries }

theorem findEntry_putEntry (name other : Text) (e : Entry) (entries : List (Text × Entry)) :
    findEntry other (putEntry name e entries) =
      if name = other then some e else findEntry other entries := by
  induction entries with
  | nil => rfl
  | cons first rest ih =>
      obtain ⟨key, old⟩ := first
      by_cases same : key = name
      · by_cases h : name = other <;> simp [putEntry, findEntry, same, h]
      · by_cases h : key = other
        · subst h
          simp [putEntry, findEntry, same, Ne.symm same]
        · simp [putEntry, findEntry, same, h, ih]

/-- A name that was put stands for its new entry, and no other name is touched. -/
@[simp] theorem find?_put (s : Store) (name other : Text) (e : Entry) :
    (s.put name e).find? other = if name = other then some e else s.find? other :=
  findEntry_putEntry name other e s.entries

/-- How many edits away a declared name may be to be suggested for an unknown one. -/
def suggestionReach : Nat := 2

def get (s : Store) (name : Text) : Result Entry :=
  match s.find? name with
  | some e => .ok e
  | none => fail (.undeclared name (Text.closest name s.names suggestionReach))

def checkDeclarable (s : Store) (name : Text) : Result Unit :=
  if !Text.isIdentifier name then fail (.invalidName name)
  else if s.isConstant name then fail (.duplicateName name)
  else .ok ()

def keptIn (names : List Text) : List (Text × Entry) → Nat
  | [] => 0
  | (name, e) :: rest => (if names.contains name then 0 else e.length) + keptIn names rest

/-- Array elements that stay when the listed names are declared again. -/
def kept (s : Store) (names : List Text) : Nat :=
  keptIn names s.entries

/-- Whether arrays with these bounds and names fit beside the other arrays; arrays of the same names
are given up. -/
def checkCapacity (s : Store) (names : List Text) (lower upper : Int64) : Result Unit :=
  let length := Block.count lower upper
  if (maxArrayLength : Int) < length then fail (.arrayTooLong length)
  else
    let total := (s.kept names : Int) + length * names.length
    if (maxTotalLength : Int) < total then fail (.arraysTooLong total) else .ok ()

def readType (keyword : Text) : Result DataType :=
  match DataType.ofKeyword? keyword with
  | some type => .ok type
  | none => fail (.invalidType keyword)

def declareScalar (s : Store) (name keyword : Text) : Result Store := do
  s.checkDeclarable name
  let type ← readType keyword
  return s.put name (.scalar type .unset)

/-- Declares an array, or declares it again; its elements have no values yet. -/
def declareArray (s : Store) (name keyword : Text) (lower upper : Int64) : Result Store := do
  s.checkDeclarable name
  if upper.toInt < lower.toInt then fail (.boundsReversed lower upper)
  let type ← readType keyword
  s.checkCapacity [name] lower upper
  return s.put name (.array (.fresh type lower upper))

/-- Gives a name a value for good; a variable or array of that name is given up. -/
def declareConstant (s : Store) (name : Text) (value : Value) : Result Store :=
  if !Text.isIdentifier name then fail (.invalidName name)
  else if s.isConstant name then fail (.constantRedeclared name)
  else if !value.isSet then fail (.uninitialized (.constant name))
  else .ok (s.put name (.constant value))

def getScalar (s : Store) (name : Text) : Result Value := do
  match ← s.get name with
  | .scalar _ value | .constant value => return value
  | .array _ => fail (.arrayWithoutIndex name)

def getArray (s : Store) (name : Text) : Result Block := do
  match ← s.get name with
  | .array b => return b
  | _ => fail (.notAnArray name)

/-- The position of an element that must lie within the bounds. -/
def position (name : Text) (b : Block) (index : Int64) : Result Nat :=
  match b.offset? index with
  | some i => .ok i
  | none => fail (.indexOutOfBounds name index b.lower b.upper)

def getElement (s : Store) (name : Text) (index : Int64) : Result Value := do
  let b ← s.getArray name
  let i ← position name b index
  return b.elements.getD i .unset

/-- The value as it is stored in a place of the given type. -/
def coerce (policy : Policy) (type : DataType) (value : Value) : Result Value :=
  if !value.isSet then fail (.uninitialized .value)
  else
    match policy with
    | .permissive => .ok value
    | .strict =>
        match type.accept? value with
        | some v => .ok v
        | none => fail (.typeMismatch (.stored type value.type?))

def setScalar (s : Store) (name : Text) (value : Value) : Result Store := do
  match ← s.get name with
  | .array _ => fail (.arrayWithoutIndex name)
  | .constant _ => fail (.assignToConstant name)
  | .scalar type _ =>
      let v ← coerce s.policy type value
      return s.put name (.scalar type v)

def setElement (s : Store) (name : Text) (index : Int64) (value : Value) : Result Store := do
  let b ← s.getArray name
  let i ← position name b index
  let v ← coerce s.policy b.type value
  return s.put name (.array { b with elements := b.elements.setIfInBounds i v })

def scalarType (s : Store) (name : Text) : Result DataType := do
  match ← s.get name with
  | .scalar type _ => return type
  | .constant _ => fail (.assignToConstant name)
  | .array _ => fail (.arrayWithoutIndex name)

def sorted (s : Store) : List (Text × Entry) :=
  s.entries.mergeSort fun a b => Text.precedes a.1 b.1

end Store

end Pseudocode
