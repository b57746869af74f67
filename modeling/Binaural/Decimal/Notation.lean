import Binaural.Decimal.Shortest

/-!
How a decimal is laid out as text: where the point stands, and when an exponent is written.

A `Notation` holds the decisions of one output format; the digits themselves are chosen by
`Decimal.shortest`.
-/

namespace Binaural

/-- The decisions of a number format. -/
structure Notation where
  /-- Which digits are taken of those that identify a number equally well. -/
  tie : Tie
  /-- The exponents of the first digit from which on, and below which, no exponent is written;
  without bounds none is ever written. -/
  positional : Option (Int × Int)
  /-- Whether a whole number without exponent ends in `.0`. -/
  wholePoint : Bool
  /-- Whether an exponent that is not negative carries a sign. -/
  exponentSign : Bool
  /-- The word for what is not a number. -/
  nan : String
  /-- The word for the infinite number. -/
  infinity : String

namespace Notation

/-- The digits without any exponent. -/
def positionalText (n : Notation) (d : Decimal) : String :=
  let whole := if n.wholePoint then ".0" else ""
  if d.digits = 0 then "0" ++ whole
  else
    let digits := (Nat.toDigits 10 d.digits)
    if 0 ≤ d.exponent then
      String.ofList (digits ++ List.replicate d.exponent.toNat '0') ++ whole
    else
      let places := (-d.exponent).toNat
      let padded := List.replicate (places + 1 - digits.length) '0' ++ digits
      String.ofList (padded.take (padded.length - places)) ++ "."
        ++ String.ofList (padded.drop (padded.length - places))

/-- One digit, the point and the others, and an exponent. -/
def scientificText (n : Notation) (d : Decimal) : String :=
  let digits := Nat.toDigits 10 d.digits
  let exponent : Int := d.exponent + (digits.length - 1 : Nat)
  let tail := digits.drop 1
  let point := if tail.isEmpty then "" else "."
  let sign := if n.exponentSign && 0 ≤ exponent then "+" else ""
  String.ofList (digits.take 1) ++ point ++ String.ofList tail ++ "e" ++ sign ++ toString exponent

/-- A non-negative decimal in this notation. -/
def decimalText (n : Notation) (d : Decimal) : String :=
  let first : Int := d.exponent + ((Nat.toDigits 10 d.digits).length - 1 : Nat)
  match n.positional with
  | none => n.positionalText d
  | some (least, bound) =>
    if d.digits = 0 || (least ≤ first && first < bound) then n.positionalText d
    else n.scientificText d

/-- The text of a number of a format, in the fewest digits that identify it there. -/
def text (n : Notation) (f : BinaryFormat) : BinaryNumber → String
  | .nan => n.nan
  | .infinite negative => sign negative ++ n.infinity
  | .finite negative significand exponent =>
    sign negative ++ n.decimalText (Decimal.shortest f n.tie significand exponent)
where
  sign (negative : Bool) : String := if negative then "-" else ""

/-- Numbers in messages: never an exponent, and whole numbers without a point. -/
def plain : Notation := ⟨.upper, none, false, false, "NaN", "inf"⟩

/-- The text of a 64-bit float. -/
def ofFloat (n : Notation) (x : Float) : String :=
  n.text .double (.ofFloat x)

/-- The text of a 32-bit float. -/
def ofFloat32 (n : Notation) (x : Float32) : String :=
  n.text .single (.ofFloat32 x)

end Notation

end Binaural
