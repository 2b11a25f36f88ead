import Std.Data.ExtTreeMap
import Std.Data.ExtTreeSet

/-!
# Addresses

The machine has sixteen-bit addresses that wrap around at the top of memory. Sets and maps of
addresses are kept in ascending order, and two of them are equal when they hold the same things.
-/

namespace Lift6502

abbrev Address := UInt16

abbrev AddressSet := Std.ExtTreeSet Address

abbrev AddressMap (β : Type) := Std.ExtTreeMap Address β

/-- Names in ascending order of their characters. -/
abbrev NameSet := Std.ExtTreeSet String

abbrev NameMap (β : Type) := Std.ExtTreeMap String β

namespace Address

/-- The last address of the zero page. -/
def zeroPageEnd : Address := 0x00FF

/-- The first address of the input and output area. -/
def ioStart : Address := 0xD000

/-- The last address of the input and output area. -/
def ioEnd : Address := 0xDFFF

end Address

end Lift6502
