import ScriptBridge.Script.Value

/-!
Argument sources: what a call frame answers about its slots. Positions count from one. A source
says how many arguments were passed, and need not agree with itself about which it can read.
-/
namespace ScriptBridge

open ScriptBridge.Number

structure Source where
  count : Nat
  number? : Nat → Option Double
  text? : Nat → Option String
  kind : Nat → String

abbrev Frame := List Value

namespace Frame

/-- The slot at a position, which counts from one. -/
def slot? (frame : Frame) : Nat → Option Value
  | 0 => none
  | i + 1 => frame[i]?

def kind (frame : Frame) (position : Nat) : String :=
  ((slot? frame position).map Value.typeName).getD "none"

def source (frame : Frame) : Source where
  count := frame.length
  number? position := (slot? frame position).bind Value.number?
  text? position := (slot? frame position).bind Value.text?
  kind := kind frame

end Frame

structure Cell where
  position : Nat
  number? : Option Double
  text? : Option String
  kind : String

/-- The source of a foreign frame that is known cell by cell. Other positions are absent. -/
def Source.ofCells (count : Nat) (cells : List Cell) : Source :=
  let cell? := fun position => cells.find? (·.position = position)
  { count
    number? := fun position => (cell? position).bind (·.number?)
    text? := fun position => (cell? position).bind (·.text?)
    kind := fun position => ((cell? position).map (·.kind)).getD "absent" }

end ScriptBridge
