import Binaural.Decimal.Notation

/-!
Arrays of numbers of one type.
-/

namespace Binaural

/-- The type of the elements of an array. -/
inductive ElementType
  | unsignedInt
  | int
  | float
  deriving DecidableEq, Repr

namespace ElementType

/-- What the type is called in words. -/
def name : ElementType → String
  | .unsignedInt => "unsigned int"
  | .int => "int"
  | .float => "float"

/-- What Rust calls the type. -/
def rustName : ElementType → String
  | .unsignedInt => "u32"
  | .int => "i32"
  | .float => "f32"

end ElementType

/-- An array of numbers of 32 bits. -/
inductive ArrayValues
  | unsignedInt (values : List UInt32)
  | int (values : List Int32)
  | float (values : List Float32)
  deriving DecidableEq

namespace ArrayValues

/-- The type of the elements. -/
def elementType : ArrayValues → ElementType
  | .unsignedInt _ => .unsignedInt
  | .int _ => .int
  | .float _ => .float

/-- The number of elements. -/
def length : ArrayValues → Nat
  | .unsignedInt values => values.length
  | .int values => values.length
  | .float values => values.length

/-- Whether there is no element. -/
def isEmpty (a : ArrayValues) : Bool := a.length == 0

/-- The texts of the elements, those of floats given by `float`. -/
def texts (float : Float32 → String) : ArrayValues → List String
  | .unsignedInt values => values.map fun x => toString x.toNat
  | .int values => values.map fun x => toString x.toInt
  | .float values => values.map float

end ArrayValues

end Binaural
