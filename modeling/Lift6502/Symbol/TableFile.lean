import Lift6502.Json.Printer
import Lift6502.Json.Reader
import Lift6502.Symbol.Entry
import Lift6502.Text.Blank
import Lift6502.Text.Digits

/-!
# Files of names

A table of names is a JSON object. Its keys are addresses, `$D020`, `0xD020`, `D020` or `#53280`; its
values are names, or objects with a name and perhaps a description. Keys and values that are none of
these are passed over. Where several keys spell one address, the greatest key with a usable value wins.
-/

namespace Lift6502

namespace EntryTable

/-- A hexadecimal key without its mark. -/
def hexDigits : List Char → List Char
  | '$' :: rest => rest
  | '0' :: 'x' :: rest => rest
  | '0' :: 'X' :: rest => rest
  | key => key

/-- The address that a key spells. -/
def address? (key : String) : Option Address :=
  match Text.trim key.toList with
  | '#' :: decimal => Text.plainWord? 10 Char.isDigit decimal
  | key => Text.plainWord? 16 Text.isHexDigit (hexDigits key)

/-- A description, which may be null. -/
def description? : Json → Option (Option String)
  | .string text => some (some text)
  | .null => some none
  | _ => none

/-- An entry: a name, or an object with a name and at most one description or comment. -/
def entry? (value : Json) : Option Entry :=
  match value with
  | .string name => some { name }
  | .object _ =>
    match value.member? "name", value.member? "description", value.member? "comment" with
    | some (.string name), none, none => some { name }
    | some (.string name), some text, none => (description? text).map fun description => { name, description }
    | some (.string name), none, some text => (description? text).map fun description => { name, description }
    | _, _, _ => none
  | _ => none

/-- The entry that one member of the object gives, with its address. -/
def row? (member : String × Json) : Option (Address × Entry) := do
  let address ← address? member.1
  let entry ← entry? member.2
  return (address, entry)

/-- The table that the members of an object give. -/
def ofMembers (members : List (String × Json)) : EntryTable :=
  let byKey : NameMap Json := Std.ExtTreeMap.ofList members
  Std.ExtTreeMap.ofList (byKey.toList.filterMap row?)

/-- The table that a file's text gives, if it holds a JSON object. -/
def ofText? (text : String) : Option EntryTable :=
  match Json.read? text.toList with
  | some (.object members) => some (ofMembers members)
  | _ => none

/-- The value that stands for an entry in a file. -/
def entryJson (entry : Entry) : Json :=
  match entry.description with
  | none => .string entry.name
  | some text => .object [("name", .string entry.name), ("description", .string text)]

/-- A table as the text of a file. -/
def toText (table : EntryTable) : String :=
  (Json.object (table.toList.map fun (address, entry) =>
    ("$" ++ Text.hex4 address, entryJson entry))).print ++ "\n"

end EntryTable

end Lift6502
