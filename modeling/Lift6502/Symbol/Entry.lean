import Lift6502.Machine.Address

/-!
# Symbols

A symbol is a named address, with what is known about it. The tables that bring names along hold
entries: a name as somebody wrote it, and perhaps a description.
-/

namespace Lift6502

/-- What a named address is. -/
inductive SymbolKind where
  | subroutine
  /-- A routine of the operating system. -/
  | kernalCall
  | hardwareRegister
  | zeroPage
  | label
  deriving DecidableEq

def SymbolKind.text : SymbolKind → String
  | subroutine => "subroutine"
  | kernalCall => "kernal_call"
  | hardwareRegister => "hardware_register"
  | zeroPage => "zero_page_var"
  | label => "generic_label"

structure Symbol where
  address : Address
  name : String
  kind : SymbolKind
  description : Option String := none
  deriving DecidableEq

/-- One entry of a table of names. -/
structure Entry where
  name : String
  description : Option String := none
  deriving DecidableEq

abbrev EntryTable := AddressMap Entry

end Lift6502
