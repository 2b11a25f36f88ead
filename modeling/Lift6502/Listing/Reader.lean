import Lift6502.Listing.Candidates
import Lift6502.Listing.Scan
import Lift6502.Text.Lines

/-!
# Reading a listing

A reader takes the lines of a listing one by one. An operation without an address follows the
operation accepted last; labels wait for the next operation that is accepted; a line that cannot be
used is recorded and changes nothing else. When the last line has been read, operands that name a
label of the listing are resolved, and the instructions stand in ascending order of their addresses.
-/

namespace Lift6502

/-- What reading a listing gives. -/
structure Listing where
  /-- In strictly ascending order of their addresses. -/
  instructions : List Instruction := []
  candidates : Candidates := {}
  /-- In the order of the listing. -/
  skipped : List SkippedLine := []

namespace Listing

structure Reader where
  /-- The accepted operations. -/
  operations : AddressMap Operation := ∅
  /-- The address of each label's first definition. -/
  labels : NameMap Address := ∅
  /-- The first label of each address. -/
  sourceLabels : AddressMap String := ∅
  /-- Labels that wait for the next accepted operation. -/
  pending : List String := []
  skipped : Array SkippedLine := #[]
  /-- The address after the operation accepted last. -/
  next : Option Address := none

namespace Reader

def skip (reader : Reader) (number : Nat) (text : String) (error : LineError) : Reader :=
  { reader with skipped := reader.skipped.push { number, text, error } }

/-- Defines a label at an address; an earlier definition of the name or at the address stays. -/
def define (address : Address) (reader : Reader) (name : String) : Reader :=
  { reader with
    labels := reader.labels.insertIfNew name address
    sourceLabels := reader.sourceLabels.insertIfNew address name }

/-- Accepts an operation at an address, and gives it the labels that waited for it. -/
def accept (reader : Reader) (address : Address) (label : Option String) (operation : Operation) :
    Reader :=
  let instruction : Instruction := { operation with address }
  let labelled := (reader.pending ++ label.toList).foldl (define address) reader
  { labelled with
    operations := reader.operations.insert address operation
    pending := []
    next := some instruction.nextAddress }

/-- Reads one line. -/
def feed (reader : Reader) (number : Nat) (text : String) : Reader :=
  match Line.scan text with
  | .ok .blank => reader
  | .ok (.label name) => { reader with pending := reader.pending ++ [name] }
  | .ok (.operation label address operation) =>
    match address <|> reader.next with
    | none => reader.skip number text .missingAddress
    | some address =>
      if reader.operations.contains address then
        reader.skip number text (.duplicateAddress address)
      else reader.accept address label operation
  | .error error => reader.skip number text error

/-- Reads lines whose numbers go up from a first one. -/
def feedAll (reader : Reader) (number : Nat) : List String → Reader
  | [] => reader
  | text :: rest => (reader.feed number text).feedAll (number + 1) rest

/-- A jump, branch or call to a label of the listing goes to the label's address. -/
def resolve (labels : NameMap Address) (operation : Operation) : Operation :=
  match operation.operand with
  | .symbolic name =>
    if operation.mnemonic.isControlFlow then
      match labels[name]? with
      | some address => { operation with operand := .absolute address }
      | none => operation
    else operation
  | _ => operation

/-- The accepted instructions, with their labels resolved. -/
def instructions (reader : Reader) : List Instruction :=
  reader.operations.toList.map fun (address, operation) =>
    { resolve reader.labels operation with address }

def finish (reader : Reader) : Listing :=
  { instructions := reader.instructions
    candidates := Candidates.collect reader.instructions reader.sourceLabels
    skipped := reader.skipped.toList }

end Reader

/-- Reads lines numbered from one. -/
def ofLines (lines : List String) : Listing := (Reader.feedAll {} 1 lines).finish

/-- Reads a whole listing. -/
def read (text : String) : Listing := ofLines ((Text.lines text.toList).map String.ofList)

end Listing

end Lift6502
