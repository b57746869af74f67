import Binaural.Arrays.JsonText
import Binaural.Arrays.RustSource
import Mathlib.Tactic.Common

/-!
The characters of number texts.

The text of a finite number has digits, points, signs and the letter of exponents, and nothing else
(`Notation.allNumeral_text`), in every notation and for every format. So it is neither a word
nor does it have a line break in it.
-/

namespace Binaural

/-- A character of a number: a digit, a point, a sign, or the letter before an exponent. -/
def IsNumeral (c : Char) : Prop := c.isDigit = true ∨ c ∈ ['.', 'e', '+', '-']

instance (c : Char) : Decidable (IsNumeral c) := inferInstanceAs (Decidable (_ ∨ _))

/-- A text of nothing but characters of numbers. -/
def AllNumeral (s : String) : Prop := ∀ c ∈ s.toList, IsNumeral c

instance (s : String) : Decidable (AllNumeral s) := List.decidableBAll IsNumeral s.toList

namespace AllNumeral

variable {s t : String}

theorem append (first : AllNumeral s) (second : AllNumeral t) : AllNumeral (s ++ t) := by
  intro c member
  rw [String.toList_append, List.mem_append] at member
  exact member.elim (first c) (second c)

theorem of_ofList {cs : List Char} (all : ∀ c ∈ cs, IsNumeral c) :
    AllNumeral (String.ofList cs) := by
  intro c member
  rw [String.toList_ofList] at member
  exact all c member

/-- A text with a character that numbers lack is no number. -/
theorem ne (all : AllNumeral s) {c : Char} (member : c ∈ t.toList) (other : ¬ IsNumeral c) :
    s ≠ t := by
  rintro rfl
  exact other (all c member)

end AllNumeral

theorem isNumeral_of_mem_toDigits {c : Char} {n : Nat} (member : c ∈ Nat.toDigits 10 n) :
    IsNumeral c :=
  .inl (Nat.isDigit_of_mem_toDigits (by decide) (by decide) member)

theorem allNumeral_toString_nat (n : Nat) : AllNumeral (toString n) := by
  rw [Nat.toString_eq_ofList_toDigits]
  exact .of_ofList fun c member => isNumeral_of_mem_toDigits member

theorem allNumeral_toString_int (z : Int) : AllNumeral (toString z) := by
  cases z with
  | ofNat n => exact allNumeral_toString_nat n
  | negSucc n =>
      change AllNumeral ("-" ++ toString (n + 1))
      exact .append (by decide) (allNumeral_toString_nat _)

namespace Notation

variable (n : Notation) (d : Decimal)

theorem allNumeral_positionalText : AllNumeral (n.positionalText d) := by
  have zeros : ∀ k, ∀ c ∈ List.replicate k '0', IsNumeral c := by
    intro k c member
    rw [List.eq_of_mem_replicate member]
    decide
  have whole : AllNumeral (if n.wholePoint then ".0" else "") := by
    split
    · decide
    · decide
  unfold positionalText
  dsimp only
  split
  · exact .append (by decide) whole
  · split
    · refine .append (.of_ofList fun c member => ?_) whole
      rcases List.mem_append.mp member with digit | zero
      · exact isNumeral_of_mem_toDigits digit
      · exact zeros _ c zero
    · generalize padded_eq :
        List.replicate ((-d.exponent).toNat + 1 - (Nat.toDigits 10 d.digits).length) '0' ++
          Nat.toDigits 10 d.digits = padded
      have all : ∀ c ∈ padded, IsNumeral c := by
        intro c member
        rw [← padded_eq] at member
        rcases List.mem_append.mp member with zero | digit
        · exact zeros _ c zero
        · exact isNumeral_of_mem_toDigits digit
      refine .append (.append (.of_ofList fun c member => ?_) (by decide))
        (.of_ofList fun c member => ?_)
      · exact all c (List.mem_of_mem_take member)
      · exact all c (List.mem_of_mem_drop member)

theorem allNumeral_scientificText : AllNumeral (n.scientificText d) := by
  have digits : ∀ c ∈ Nat.toDigits 10 d.digits, IsNumeral c := fun c =>
    isNumeral_of_mem_toDigits
  have point : AllNumeral (if ((Nat.toDigits 10 d.digits).drop 1).isEmpty then "" else ".") := by
    split
    · decide
    · decide
  unfold scientificText
  dsimp only
  refine .append (.append (.append (.append (.append ?_ point) ?_) (by decide)) ?_)
    (allNumeral_toString_int _)
  · exact .of_ofList fun c member => digits c (List.mem_of_mem_take member)
  · exact .of_ofList fun c member => digits c (List.mem_of_mem_drop member)
  · split
    · decide
    · decide

theorem allNumeral_decimalText : AllNumeral (n.decimalText d) := by
  unfold decimalText
  dsimp only
  split
  · exact allNumeral_positionalText n d
  · split
    · exact allNumeral_positionalText n d
    · exact allNumeral_scientificText n d

/-- The text of a finite number has nothing but characters of numbers. -/
theorem allNumeral_text {f : BinaryFormat} {negative : Bool} {significand : Nat} {exponent : Int} :
    AllNumeral (n.text f (.finite negative significand exponent)) := by
  refine .append ?_ (allNumeral_decimalText n _)
  unfold text.sign
  split
  · decide
  · decide

end Notation

end Binaural
