import Pseudocode.Store.Basic

set_option autoImplicit false

namespace Pseudocode.Dump

def escapeChar (c : Char) : Text :=
  match c with
  | '"' => ['\\', '"']
  | '\\' => ['\\', '\\']
  | '\n' => ['\\', 'n']
  | '\r' => ['\\', 'r']
  | '\t' => ['\\', 't']
  | '\x08' => ['\\', 'b']
  | '\x0c' => ['\\', 'f']
  | c =>
      if c.toNat < 16 then ['\\', 'u', '0', '0', '0'] ++ Nat.toDigits 16 c.toNat
      else if c.toNat < 32 then ['\\', 'u', '0', '0'] ++ Nat.toDigits 16 c.toNat
      else [c]

def string (t : Text) : Text :=
  '"' :: t.flatMap escapeChar ++ ['"']

def null : Text := "null".toList

/-- A value; REALs that are not finite and values that are not set have none. -/
def value : Value → Text
  | .integer n => Integer.display n
  | .real x => (Real.dumpText? x).getD null
  | .char c => string [c]
  | .string s => string s
  | .boolean true => "true".toList
  | .boolean false => "false".toList
  | .unset => null

def indentation (depth : Nat) : Text :=
  List.replicate (2 * depth) ' '

/-- The items of an object or list, each on a line of its own one level deeper. -/
def block (opening closing : Char) (depth : Nat) (items : List Text) : Text :=
  match items with
  | [] => [opening, closing]
  | first :: rest =>
      let line (item : Text) := '\n' :: indentation (depth + 1) ++ item
      opening :: line first ++ rest.flatMap (fun item => ',' :: line item) ++
        '\n' :: indentation depth ++ [closing]

def object (depth : Nat) (fields : List (Text × Text)) : Text :=
  block '\x7b' '\x7d' depth (fields.map fun (name, item) => string name ++ [':', ' '] ++ item)

def list (depth : Nat) (items : List Text) : Text :=
  block '[' ']' depth items

def keyword (type : DataType) : Text :=
  string type.keyword.toList

def field (name : String) (item : Text) : Text × Text :=
  (name.toList, item)

def entry : Entry → Text
  | .scalar type v =>
      object 1
        [field "kind" (string "scalar".toList), field "type" (keyword type),
         field "value" (value v)]
  | .constant v =>
      object 1
        [field "kind" (string "scalar".toList), field "type" null, field "value" (value v),
         field "is_constant" "true".toList]
  | .array b =>
      object 1
        [field "kind" (string "array".toList), field "type" (keyword b.type),
         field "lower_bound" (Integer.display b.lower),
         field "upper_bound" (Integer.display b.upper),
         field "elements" (list 2 (b.elements.toList.map value))]

def store (s : Store) : Text :=
  object 0 (s.sorted.map fun (name, e) => (name, entry e))

end Pseudocode.Dump
