import Lift6502.Json.Value
import Lift6502.Text.Decimal
import Lift6502.Tree.Program

/-!
# The JSON form of a program

Fields that are empty or absent are left out, so that a label that is present and empty differs from
one that is absent. Maps are objects whose names are addresses in decimal.
-/

namespace Lift6502

def Address.toJson (address : Address) : Json := Json.ofNat address.toNat

namespace Node

/-- A member that is left out if the text is empty. -/
def textMember (name text : String) : List (String × Json) :=
  if text = "" then [] else [(name, .string text)]

/-- A member that is left out if there is nothing to write. -/
def optionalMember (name : String) : Option Json → List (String × Json)
  | none => []
  | some value => [(name, value)]

/-- A member that is left out if the list is empty. -/
def arrayMember (name : String) : List Json → List (String × Json)
  | [] => []
  | elements => [(name, .array elements)]

mutual

def toJson : Node → Json
  | ⟨kind, children, value, label, params, address⟩ =>
    .object <|
      [("kind", .string kind.text)]
        ++ arrayMember "children" (toJsonAll children)
        ++ textMember "value" value
        ++ optionalMember "label" (label.map .string)
        ++ arrayMember "params" (params.map .string)
        ++ optionalMember "address" (address.map Address.toJson)

def toJsonAll : List Node → List Json
  | [] => []
  | node :: nodes => node.toJson :: toJsonAll nodes

end

end Node

def Variable.toJson (place : Variable) : Json :=
  .object
    [("name", .string place.name),
     ("address", place.address.toJson),
     ("kind", match place.kind with
       | some kind => .string kind.text
       | none => .null),
     ("indexed", .bool place.indexed),
     ("pointer", .bool place.pointer)]

namespace Program

/-- A map as an object whose names are addresses in decimal. -/
def mapJson {β : Type} (encode : β → Json) (map : AddressMap β) : Json :=
  .object (map.toList.map fun (address, value) => (Text.decimal address.toNat, encode value))

def toJson (program : Program) : Json :=
  .object
    [("program", program.root.toJson),
     ("subroutines", mapJson .string program.subroutines),
     ("kernal_calls", mapJson .string program.romCalls),
     ("variables", mapJson Variable.toJson program.variableMap)]

end Program

end Lift6502
