import Binaural.Decimal.Binary

/-!
The fewest decimal digits that identify a binary number.

`shortest` looks for the coarsest decimal grid on which one of the two neighbours of the number
reads back as the number, and takes the nearer of the two. What it returns reads back by the test
that selected it, or else is the number's exact decimal value.
-/

namespace Binaural

/-- A non-negative decimal, `digits * 10 ^ exponent`. -/
structure Decimal where
  digits : Nat
  exponent : Int
  deriving DecidableEq, Repr

/-- Which of two decimals is taken that are equally near. -/
inductive Tie
  | upper
  /-- The one whose last digit is even. -/
  | even
  deriving DecidableEq, Repr

/-- Whether the lower neighbour comes first, where `below / unit` is how far the number is above
it and `digits` are the digits of that neighbour. -/
def Tie.prefersLower (tie : Tie) (below unit digits : Nat) : Bool :=
  2 * below < unit || (2 * below == unit && tie == .even && digits % 2 == 0)

namespace Decimal

/-- The numerator of a decimal as a fraction. -/
def num (d : Decimal) : Nat := d.digits * Nat.pow 10 d.exponent.toNat

/-- The denominator of a decimal as a fraction. -/
def den (d : Decimal) : Nat := Nat.pow 10 (-d.exponent).toNat

/-- Whether rounding the decimal to the format gives this significand and exponent. -/
def readsBack (f : BinaryFormat) (significand : Nat) (exponent : Int) (d : Decimal) : Bool :=
  f.nearest false d.num d.den == .finite false significand exponent

/-- The exponent of the decimal digit before the point of a positive fraction. The logarithm to
the base two tells it up to one, and exact comparison decides. -/
def floorLog10 (num den : Nat) : Int :=
  let estimate := (BinaryFormat.floorLog2 num den * 30103).fdiv 100000
  let reaches (k : Int) : Bool := den * Nat.pow 10 k.toNat ≤ num * Nat.pow 10 (-k).toNat
  if reaches (estimate + 1) then estimate + 1
  else if reaches estimate then estimate
  else estimate - 1

/-- The exact value of a binary number. -/
def ofBinary (significand : Nat) (exponent : Int) : Decimal :=
  if 0 ≤ exponent then ⟨significand * Nat.pow 2 exponent.toNat, 0⟩
  else ⟨significand * Nat.pow 5 (-exponent).toNat, exponent⟩

/-- The nearer of the two neighbours of `num / den` times `10 ^ grid` on that decimal grid, among
those that read back. What reads back is no further away than half of the number divided by its
significand, so no test is made of neighbours beyond that. -/
def onGrid? (f : BinaryFormat) (tie : Tie) (significand : Nat) (exponent : Int) (num den : Nat)
    (grid : Int) : Option Decimal :=
  let below := num % den
  let digits := num / den
  let lowerFirst := tie.prefersLower below den digits
  let distance := if lowerFirst then below else den - below
  if num < 2 * distance * significand then none
  else
    let lower : Decimal := ⟨digits, grid⟩
    let upper : Decimal := ⟨digits + 1, grid⟩
    let first := if lowerFirst then lower else upper
    let second := if lowerFirst then upper else lower
    if first.readsBack f significand exponent then some first
    else if second.readsBack f significand exponent then some second
    else none

/-- The same decimal without zeros at its end. -/
def strip (digits : Nat) (exponent : Int) : Decimal :=
  if 0 < digits ∧ digits % 10 = 0 then strip (digits / 10) (exponent + 1) else ⟨digits, exponent⟩
termination_by digits
decreasing_by omega

/-- Searches the grids of `count` more digits, the coarsest first, for a number that is `num / den`
times `10 ^ grid`. -/
def search (f : BinaryFormat) (tie : Tie) (significand : Nat) (exponent : Int) (num den : Nat)
    (grid : Int) : (count : Nat) → Decimal
  | 0 => ofBinary significand exponent
  | count + 1 =>
    match onGrid? f tie significand exponent num den grid with
    | some d => strip d.digits d.exponent
    | none => search f tie significand exponent (10 * num) den (grid - 1) count

/-- The fewest digits that read back as a finite number of the format. -/
def shortest (f : BinaryFormat) (tie : Tie) (significand : Nat) (exponent : Int) : Decimal :=
  if significand = 0 then ⟨0, 0⟩
  else
    let num := significand * Nat.pow 2 exponent.toNat
    let den := Nat.pow 2 (-exponent).toNat
    let grid := floorLog10 num den
    search f tie significand exponent (num * Nat.pow 10 (-grid).toNat)
      (den * Nat.pow 10 grid.toNat) grid 17

end Decimal

end Binaural
