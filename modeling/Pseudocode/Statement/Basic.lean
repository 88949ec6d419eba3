import Pseudocode.Value

set_option autoImplicit false

namespace Pseudocode

structure Bounds where
  lower : Int64
  upper : Int64
deriving DecidableEq

/-- `a, b : INTEGER` or `a : ARRAY[1:5] OF REAL`. -/
structure Declaration where
  names : List (Spanned Text)
  type : Spanned Text
  bounds : Option (Spanned Bounds)
deriving DecidableEq

/-- What an assignment or INPUT writes to. -/
inductive Target where
  | variable (name : Text)
  | element (name : Text) (index : Spanned Text)
deriving DecidableEq

namespace Target

def name : Target → Text
  | .variable n => n
  | .element n _ => n

def index? : Target → Option (Spanned Text)
  | .variable _ => none
  | .element _ index => some index

def display : Target → Text
  | .variable n => n
  | .element n index => n ++ '[' :: index.node ++ [']']

end Target

inductive Statement where
  | declare (d : Declaration)
  | constant (name : Spanned Text) (value : Spanned Value)
  | assign (target : Spanned Target) (expr : Spanned Text)
  | input (target : Spanned Target)
  | output (exprs : List (Spanned Text))
deriving DecidableEq

end Pseudocode
