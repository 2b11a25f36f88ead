import Lift6502.Listing.Candidates
import Lift6502.Symbol.Sources
import Lift6502.Text.Name

/-!
# Naming addresses

Every candidate address gets the first name that a source has for it: the routine table, the hardware
table, the zero-page table, the memory map, the listing's own labels, and last a generated name.
Other data in memory has no generated name and may stay without a symbol. Names are turned into
identifiers; a name that an address below already has gets the address appended.
-/

namespace Lift6502

/-! ## Generated names -/

def generatedDataName (address : Address) : String :=
  if address ≤ Address.zeroPageEnd then "ZVAR_" ++ Text.hex2 address.toNat
  else "VAR_" ++ Text.hex4 address

def generatedLabelName (address : Address) : String := "LABEL_" ++ Text.hex4 address

def generatedSubroutineName (address : Address) : String := "SUB_" ++ Text.hex4 address

/-! ## Roles -/

/-- What a listing uses an address for. -/
inductive Role where
  | subroutine | label | zeroPage | hardware | memory
  deriving DecidableEq

namespace Role

def kind : Role → SymbolKind
  | subroutine => .subroutine
  | label | memory => .label
  | zeroPage => .zeroPage
  | hardware => .hardwareRegister

/-- The generated name for an address in this role. -/
def generatedName? (address : Address) : Role → Option String
  | subroutine => some (generatedSubroutineName address)
  | label => some (generatedLabelName address)
  | zeroPage | hardware => some (generatedDataName address)
  | memory => none

end Role

namespace Candidates

/-- The strongest role that an address has. -/
def role? (candidates : Candidates) (address : Address) : Option Role :=
  if candidates.subroutines.contains address then some .subroutine
  else if candidates.jumpLabels.contains address then some .label
  else if candidates.zeroPage.contains address then some .zeroPage
  else if candidates.hardware.contains address then some .hardware
  else if candidates.memory.contains address then some .memory
  else none

/-- All addresses that have a role, in ascending order. -/
def addresses (candidates : Candidates) : List Address :=
  (setOf (candidates.subroutines.toList ++ candidates.jumpLabels.toList
    ++ candidates.zeroPage.toList ++ candidates.hardware.toList ++ candidates.memory.toList)).toList

end Candidates

/-! ## The table of symbols -/

structure SymbolTable where
  symbols : AddressMap Symbol := ∅
  /-- Targets of subroutine calls. -/
  subroutines : AddressSet := ∅
  /-- Targets of jumps and branches that nothing calls. -/
  labels : AddressSet := ∅
  /-- Subroutines that call themselves. -/
  recursive : AddressSet := ∅
  deriving DecidableEq

namespace SymbolTable

/-- A name as its source has it, before it is made an identifier. -/
structure RawName where
  name : String
  kind : SymbolKind
  description : Option String := none

/-- The first name that a source has for an address. -/
def rawName? (candidates : Candidates) (sources : Sources) (address : Address) (role : Role) :
    Option RawName :=
  let listed (table : EntryTable) (kind : SymbolKind) : Option RawName :=
    table[address]?.map fun entry => { name := entry.name, kind, description := entry.description }
  let plain (name : String) : RawName := { name, kind := role.kind }
  listed sources.routines .kernalCall
    <|> listed sources.hardware .hardwareRegister
    <|> listed sources.zeroPage .zeroPage
    <|> listed sources.memoryMap role.kind
    <|> candidates.sourceLabels[address]?.map plain
    <|> (role.generatedName? address).map plain

/-- The symbol of an address, before names are made different. -/
def symbol? (candidates : Candidates) (sources : Sources) (address : Address) : Option Symbol := do
  let role ← candidates.role? address
  let raw ← rawName? candidates sources address role
  let name ← match Text.sanitize raw.name with
    | "" => role.generatedName? address
    | name => some name
  return { address, name, kind := raw.kind, description := raw.description }

/-- Symbols so far, with the names that they have taken. -/
structure Naming where
  symbols : AddressMap Symbol := ∅
  taken : NameSet := ∅

/-- Adds a symbol; a name that is taken gets the address appended. -/
def Naming.add (naming : Naming) (symbol : Symbol) : Naming :=
  let name :=
    if naming.taken.contains symbol.name then symbol.name ++ "_" ++ Text.hex4 symbol.address
    else symbol.name
  { symbols := naming.symbols.insert symbol.address { symbol with name }
    taken := naming.taken.insert name }

/-- Names all candidate addresses, in ascending order. -/
def resolve (candidates : Candidates) (sources : Sources) : SymbolTable :=
  let found := candidates.addresses.filterMap (symbol? candidates sources)
  { symbols := (found.foldl Naming.add {}).symbols
    subroutines := candidates.subroutines
    labels := candidates.jumpLabels.filter fun address => !candidates.subroutines.contains address
    recursive := candidates.recursive }

def name? (table : SymbolTable) (address : Address) : Option String :=
  table.symbols[address]?.map (·.name)

def kind? (table : SymbolTable) (address : Address) : Option SymbolKind :=
  table.symbols[address]?.map (·.kind)

/-- The name of a code address. -/
def codeName (table : SymbolTable) (address : Address) : String :=
  match table.name? address with
  | some name => name
  | none =>
    if table.subroutines.contains address then generatedSubroutineName address
    else generatedLabelName address

/-- The name of a data address. -/
def dataName (table : SymbolTable) (address : Address) : String :=
  (table.name? address).getD (generatedDataName address)

end SymbolTable

end Lift6502
