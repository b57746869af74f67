import Binaural.Arrays.Table

/-!
Arrays as one JSON object that maps the name of each to its element type and its values.
-/

namespace Binaural

/-- A table of arrays to be written as JSON. -/
structure JsonText where
  table : ArrayTable

namespace JsonText

/-- The two lower-case hexadecimal digits of a number below 256. -/
def hexPair (n : Nat) : List Char := [Nat.digitChar (n / 16), Nat.digitChar (n % 16)]

/-- A character inside a string. Only quotes, backslashes and control characters are escaped. -/
def escapeChar (c : Char) : List Char :=
  match c with
  | '"' => ['\\', '"']
  | '\\' => ['\\', '\\']
  | '\n' => ['\\', 'n']
  | '\t' => ['\\', 't']
  | '\r' => ['\\', 'r']
  | '\x08' => ['\\', 'b']
  | '\x0c' => ['\\', 'f']
  | c => if c.toNat < 32 then ['\\', 'u', '0', '0'] ++ hexPair c.toNat else [c]

/-- A string with its quotes. -/
def quote (s : String) : String :=
  String.ofList ('"' :: (s.toList.flatMap escapeChar ++ ['"']))

/-- Floats are written as the numbers of 64 bits that they are, in the fewest digits that identify
those; exponents are written from 10^16 on and below 10^-5. -/
def floatNotation : Notation := ⟨.even, some (-5, 16), true, true, "null", "null"⟩

/-- The text of a float. What is not finite has none and is null. -/
def floatText (x : Float32) : String :=
  match BinaryNumber.ofFloat32 x with
  | .finite negative significand exponent =>
    floatNotation.text .double (BinaryFormat.double.round (.finite negative significand exponent))
  | _ => "null"

/-- The value of one array. -/
def valueText (values : ArrayValues) : String :=
  "\x7b\"element_type\":" ++ quote values.elementType.name ++ ",\"values\":["
    ++ ",".intercalate (values.texts floatText) ++ "]\x7d"

/-- The entry of one array. -/
def entryText (entry : String × ArrayValues) : String :=
  quote entry.1 ++ ":" ++ valueText entry.2

/-- The object of all arrays in the order of their names, and the end of the line. -/
def text (t : ArrayTable) : String :=
  let sorted := t.arrays.mergeSort fun a b => decide (a.1 ≤ b.1)
  "\x7b" ++ ",".intercalate (sorted.map entryText) ++ "\x7d\n"

end JsonText

instance : ArraySink JsonText where
  Output := String
  empty := ⟨.empty⟩
  add s name values := (s.table.add name values).map JsonText.mk
  finish s := JsonText.text s.table

end Binaural
