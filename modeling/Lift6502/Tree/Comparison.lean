/-!
# Comparison operators

The operators of conditions in the program tree, with the spelling that the tree uses for them.
-/

namespace Lift6502

inductive Comparison where
  | eq | ne | lt | ge | gt | le
  deriving DecidableEq

namespace Comparison

def all : List Comparison := [eq, ne, lt, ge, gt, le]

def text : Comparison → String
  | eq => "="
  | ne => "<>"
  | lt => "<"
  | ge => ">="
  | gt => ">"
  | le => "<="

/-- The operator that holds exactly when this one does not. -/
def inverse : Comparison → Comparison
  | eq => ne
  | ne => eq
  | lt => ge
  | ge => lt
  | gt => le
  | le => gt

def read? (text : String) : Option Comparison := all.find? (·.text == text)

/-- What is said about a text that is no operator. -/
def unknownMessage (text : String) : String := "Unknown comparison operator: " ++ text

end Comparison

end Lift6502
