import Binaural.Arrays.Table
import Binaural.Text.UpperCase

/-!
Arrays as Rust source: one static item for each, named in capitals.
-/

namespace Binaural

/-- A table of arrays to be written as Rust source. -/
structure RustSource where
  table : ArrayTable

namespace RustSource

/-- Floats are literals: a point or an exponent is always there, and exponents are written from
10^16 on and below 10^-4. -/
def floatNotation : Notation := ⟨.upper, some (-4, 16), true, false, "NaN", "inf"⟩

/-- The literals of an array. -/
def literals (values : ArrayValues) : List String :=
  values.texts floatNotation.ofFloat32

/-- The item of one array. -/
def item (name : String) (values : ArrayValues) : String :=
  "pub static " ++ UpperCase.ofString name ++ ": [" ++ values.elementType.rustName ++ "; "
    ++ toString values.length ++ "] = [\n    " ++ ",\n    ".intercalate (literals values)
    ++ "\n];\n"

/-- The comment at the head of the file. -/
def header : String := "// Generated by hrtf_compiler. Do not edit.\n\n"

/-- The file of all arrays. -/
def text (t : ArrayTable) : String :=
  header ++ "\n".intercalate (t.arrays.map fun entry => item entry.1 entry.2)

end RustSource

instance : ArraySink RustSource where
  Output := String
  empty := ⟨.empty⟩
  add s name values := (s.table.add name values).map RustSource.mk
  finish s := RustSource.text s.table

end Binaural
