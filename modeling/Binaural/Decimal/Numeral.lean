import Binaural.Decimal.Shortest

/-!
Reading decimal numerals: an optional sign, digits with at most one point among or around them,
and an optional exponent.
-/

namespace Binaural

/-- A numeral as written: its sign, its digits without the point, and the exponent that the point
and the written exponent make together. -/
structure Numeral where
  negative : Bool
  digits : List Char
  exponent : Int
  deriving DecidableEq, Repr

namespace Numeral

/-- The value of a list of decimal digits. -/
def digitsValue (digits : List Char) : Nat :=
  digits.foldl (fun n c => n * 10 + (c.toNat - '0'.toNat)) 0

/-- A sign, if the text has one, and what follows it. -/
def takeSign : List Char → Bool × List Char
  | '-' :: rest => (true, rest)
  | '+' :: rest => (false, rest)
  | text => (false, text)

/-- The exponent part of a numeral: nothing at all, or a letter, an optional sign and digits. -/
def exponentOf? : List Char → Option Int
  | [] => some 0
  | e :: rest =>
    if e = 'e' || e = 'E' then
      let (negative, digits) := takeSign rest
      if digits.isEmpty || !digits.all Char.isDigit then none
      else some (if negative then -(digitsValue digits : Int) else digitsValue digits)
    else none

/-- The numeral that a whole text is. There is a digit before or after the point. -/
def ofChars? (text : List Char) : Option Numeral :=
  let (negative, text) := takeSign text
  let whole := text.takeWhile Char.isDigit
  let rest := text.dropWhile Char.isDigit
  let (fraction, rest) :=
    match rest with
    | '.' :: rest => (rest.takeWhile Char.isDigit, rest.dropWhile Char.isDigit)
    | _ => ([], rest)
  if whole.isEmpty && fraction.isEmpty then none
  else
    (exponentOf? rest).map fun exponent =>
      ⟨negative, whole ++ fraction, exponent - fraction.length⟩

/-- The number of a format that is nearest to a numeral. Numerals far beyond the largest and below
the smallest number of either format are not multiplied out. -/
def toBinary (f : BinaryFormat) (n : Numeral) : BinaryNumber :=
  let d : Decimal := ⟨digitsValue n.digits, n.exponent⟩
  let magnitude : Int := (Nat.toDigits 10 d.digits).length + n.exponent
  if d.digits = 0 || magnitude < -400 then f.nearest n.negative 0 1
  else if 400 < magnitude then .infinite n.negative
  else f.nearest n.negative d.num d.den

/-- The 64-bit float that a text denotes. -/
def toFloat? (text : String) : Option Float :=
  (ofChars? text.toList).map fun n => (n.toBinary .double).toFloat

/-- The 32-bit float that a text denotes. -/
def toFloat32? (text : String) : Option Float32 :=
  (ofChars? text.toList).map fun n => (n.toBinary .single).toFloat32

end Numeral

end Binaural
