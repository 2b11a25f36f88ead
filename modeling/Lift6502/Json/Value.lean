/-!
# JSON values

A number is a mantissa times a power of ten. The members of an object stand in the order in which
they are written; where a name is written twice, the last member of that name is the one that counts.
-/

namespace Lift6502

inductive Json where
  | null
  | bool (value : Bool)
  | number (mantissa : Int) (exponent : Int)
  | string (text : String)
  | array (elements : List Json)
  | object (members : List (String × Json))

namespace Json

def ofNat (number : Nat) : Json := .number number 0

/-- The member of an object with a name. -/
def member? (name : String) : Json → Option Json
  | object members => ((members.filter (·.1 == name)).getLast?).map (·.2)
  | _ => none

end Json

end Lift6502
