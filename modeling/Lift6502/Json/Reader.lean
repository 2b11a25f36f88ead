import Lift6502.Json.Token

/-!
# Reading JSON

The tokens are read from left to right with a stack of the arrays and objects that are still open.
At most 127 of them may be open at once, and nothing may follow the value.
-/

namespace Lift6502.Json

/-- An array or object that is still open, its parts in reverse. -/
inductive Frame where
  | array (elements : List Json)
  /-- Between two members. -/
  | object (members : List (String × Json))
  /-- Before the value of a named member. -/
  | member (members : List (String × Json)) (name : String)

/-- What may come next. -/
inductive Expectation where
  | value
  /-- The first element of an array, or its end. -/
  | element
  /-- The first name of an object, or its end. -/
  | firstName
  | name
  | colon (name : String)
  /-- A comma or the end of the innermost array or object. -/
  | separator
  | done (result : Json)

structure State where
  frames : List Frame := []
  expectation : Expectation := .value

namespace State

/-- The most arrays and objects that may be open at once. -/
def maxDepth : Nat := 127

/-- Puts a finished value where it belongs. -/
def finish (value : Json) : List Frame → Option State
  | [] => some { frames := [], expectation := .done value }
  | .array elements :: frames =>
    some { frames := .array (value :: elements) :: frames, expectation := .separator }
  | .member members name :: frames =>
    some { frames := .object ((name, value) :: members) :: frames, expectation := .separator }
  | .object _ :: _ => none

def push (frame : Frame) (expectation : Expectation) (frames : List Frame) : Option State :=
  if frames.length < maxDepth then some { frames := frame :: frames, expectation } else none

/-- Reads the first token of a value. -/
def startValue (frames : List Frame) : Token → Option State
  | .scalar value => finish value frames
  | .openArray => push (.array []) .element frames
  | .openObject => push (.object []) .firstName frames
  | _ => none

def closeArray : List Frame → Option State
  | .array elements :: frames => finish (.array elements.reverse) frames
  | _ => none

def closeObject : List Frame → Option State
  | .object members :: frames => finish (.object members.reverse) frames
  | _ => none

def readName (frames : List Frame) : Token → Option State
  | .scalar (.string name) => some { frames, expectation := .colon name }
  | _ => none

/-- Reads one token. -/
def step (state : State) (token : Token) : Option State :=
  match state.expectation, token with
  | .value, token => startValue state.frames token
  | .element, .closeArray => closeArray state.frames
  | .element, token => startValue state.frames token
  | .firstName, .closeObject => closeObject state.frames
  | .firstName, token => readName state.frames token
  | .name, token => readName state.frames token
  | .colon name, .colon =>
    match state.frames with
    | .object members :: frames =>
      some { frames := .member members name :: frames, expectation := .value }
    | _ => none
  | .separator, .closeArray => closeArray state.frames
  | .separator, .closeObject => closeObject state.frames
  | .separator, .comma =>
    match state.frames with
    | .array _ :: _ => some { state with expectation := .value }
    | .object _ :: _ => some { state with expectation := .name }
    | _ => none
  | _, _ => none

end State

/-- The value that a whole text spells. -/
def read? (text : List Char) : Option Json := do
  let tokens ← tokens? text
  let state ← tokens.foldlM State.step {}
  match state.expectation with
  | .done result => some result
  | _ => none

end Lift6502.Json
