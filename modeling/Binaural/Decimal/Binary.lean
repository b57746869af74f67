/-!
Binary floating-point numbers as integers: what a bit pattern stands for, and which number of a
format is nearest to a fraction.

Everything is exact arithmetic on naturals. `BinaryFormat.nearest` is the one rule of rounding:
reading a decimal, narrowing a number to a smaller format and looking for the shortest text of a
number all go through it.
-/

namespace Binaural

/-- The quotient of two naturals rounded to the nearest integer, a half going to the even one. -/
def roundDiv (num den : Nat) : Nat :=
  let quotient := num / den
  let twice := 2 * (num % den)
  if twice < den then quotient
  else if den < twice then quotient + 1
  else quotient + quotient % 2

/-- A format of binary floating-point numbers, by the length of its significands and of its
exponent field. -/
structure BinaryFormat where
  /-- The number of binary digits of a significand. -/
  precision : Nat
  /-- The number of bits of the exponent field. -/
  exponentBits : Nat
  deriving DecidableEq, Repr

/-- A number of a format. A finite one is its significand times two to its exponent. -/
inductive BinaryNumber
  | nan
  | infinite (negative : Bool)
  | finite (negative : Bool) (significand : Nat) (exponent : Int)
  deriving DecidableEq, Repr

namespace BinaryFormat

/-- Numbers of 32 bits. -/
def single : BinaryFormat := ⟨24, 8⟩

/-- Numbers of 64 bits. -/
def double : BinaryFormat := ⟨53, 11⟩

/-- What is stored of an exponent for the significand 1. -/
def bias (f : BinaryFormat) : Nat := Nat.pow 2 (f.exponentBits - 1) - 1

/-- The exponent of the smallest numbers, and the least of all. -/
def leastExponent (f : BinaryFormat) : Int := 2 - (f.bias : Int) - f.precision

/-- The exponent of the largest numbers. -/
def greatestExponent (f : BinaryFormat) : Int :=
  (Nat.pow 2 f.exponentBits - 2 : Nat) - (f.bias : Int) - (f.precision - 1 : Nat)

/-- The number that a bit pattern stands for. -/
def decode (f : BinaryFormat) (bits : Nat) : BinaryNumber :=
  let hidden := Nat.pow 2 (f.precision - 1)
  let fraction := bits % hidden
  let field := bits / hidden % Nat.pow 2 f.exponentBits
  let negative := bits / hidden / Nat.pow 2 f.exponentBits % 2 == 1
  if field = Nat.pow 2 f.exponentBits - 1 then
    if fraction = 0 then .infinite negative else .nan
  else if field = 0 then .finite negative fraction f.leastExponent
  else .finite negative (hidden + fraction) (f.leastExponent + (field - 1 : Nat))

/-- The bit pattern of a number of the format. -/
def encode (f : BinaryFormat) : BinaryNumber → Nat
  | .nan => infinite + Nat.pow 2 (f.precision - 2)
  | .infinite negative => sign negative + infinite
  | .finite negative significand exponent =>
    let hidden := Nat.pow 2 (f.precision - 1)
    if significand < hidden then sign negative + significand
    else sign negative + ((exponent - f.leastExponent).toNat + 1) * hidden + (significand - hidden)
where
  sign (negative : Bool) : Nat :=
    if negative then Nat.pow 2 f.exponentBits * Nat.pow 2 (f.precision - 1) else 0
  infinite : Nat := (Nat.pow 2 f.exponentBits - 1) * Nat.pow 2 (f.precision - 1)

/-- The exponent of the binary digit before the point of a positive fraction. -/
def floorLog2 (num den : Nat) : Int :=
  let k : Int := (num.log2 : Int) - den.log2
  if den * Nat.pow 2 k.toNat ≤ num * Nat.pow 2 (-k).toNat then k else k - 1

/-- The number of the format that is nearest to `num / den`, of two equally near ones that with
the even significand; infinite beyond the largest number. -/
def nearest (f : BinaryFormat) (negative : Bool) (num den : Nat) : BinaryNumber :=
  if num = 0 then .finite negative 0 f.leastExponent
  else
    let exponent := max f.leastExponent (floorLog2 num den - (f.precision - 1 : Nat))
    let significand :=
      roundDiv (num * Nat.pow 2 (-exponent).toNat) (den * Nat.pow 2 exponent.toNat)
    let full := Nat.pow 2 f.precision
    let (significand, exponent) :=
      if significand = full then (full / 2, exponent + 1) else (significand, exponent)
    if f.greatestExponent < exponent then .infinite negative
    else .finite negative significand exponent

/-- The number of the format that is nearest to a number of any format. -/
def round (f : BinaryFormat) : BinaryNumber → BinaryNumber
  | .finite negative significand exponent =>
    f.nearest negative (significand * Nat.pow 2 exponent.toNat) (Nat.pow 2 (-exponent).toNat)
  | x => x

end BinaryFormat

/-- The number that a 64-bit float is. -/
def BinaryNumber.ofFloat (x : Float) : BinaryNumber :=
  BinaryFormat.double.decode x.toBits.toNat

/-- The number that a 32-bit float is. -/
def BinaryNumber.ofFloat32 (x : Float32) : BinaryNumber :=
  BinaryFormat.single.decode x.toBits.toNat

/-- The 64-bit float that is nearest to a number. -/
def BinaryNumber.toFloat (x : BinaryNumber) : Float :=
  Float.ofBits (UInt64.ofNat (BinaryFormat.double.encode (BinaryFormat.double.round x)))

/-- The 32-bit float that is nearest to a number. -/
def BinaryNumber.toFloat32 (x : BinaryNumber) : Float32 :=
  Float32.ofBits (UInt32.ofNat (BinaryFormat.single.encode (BinaryFormat.single.round x)))

/-- The 32-bit float nearest to a 64-bit one. -/
def narrow (x : Float) : Float32 := (BinaryNumber.ofFloat x).toFloat32

end Binaural
