import Binaural.Decimal.Notation
import Binaural.Scalar

/-!
Whether two numbers differ by less than a threshold, and the report if they do not.
-/

namespace Binaural

/-- Two numbers that are too far apart, or whose distance is no number. -/
structure Mismatch (α : Type) where
  /-- Where the numbers stand, if they are elements of lists. -/
  index : Option Nat
  left : α
  right : α
  difference : α
  threshold : α

/-- Why two lists are not close. -/
inductive ListMismatch (α : Type)
  | lengths (left right : Nat)
  | element (mismatch : Mismatch α)

namespace Closeness

variable {α : Type} [Scalar α]

/-- Nothing, if the two numbers differ by less than the threshold. -/
def mismatch? (index : Option Nat) (left right threshold : α) : Option (Mismatch α) :=
  let difference := Scalar.abs (left - right)
  if difference < threshold then none
  else some ⟨index, left, right, difference, threshold⟩

/-- The first pair of elements that is too far apart, the first of these having the index
`start`. -/
def firstMismatch? (threshold : α) (start : Nat) : List α → List α → Option (Mismatch α)
  | x :: xs, y :: ys =>
    match mismatch? (some start) x y threshold with
    | some m => some m
    | none => firstMismatch? threshold (start + 1) xs ys
  | _, _ => none

/-- Nothing, if the lists have one length and every two elements differ by less than the
threshold. -/
def listMismatch? (left right : List α) (threshold : α) : Option (ListMismatch α) :=
  if left.length = right.length then (firstMismatch? threshold 0 left right).map .element
  else some (.lengths left.length right.length)

end Closeness

/-- The report of a mismatch, its numbers written by `text`. -/
def Mismatch.message {α : Type} (text : α → String) (m : Mismatch α) : String :=
  let place :=
    match m.index with
    | some i => "At index " ++ toString i ++ ": "
    | none => ""
  place ++ text m.left ++ " vs " ++ text m.right ++ ", difference " ++ text m.difference
    ++ " is greater than threshold " ++ text m.threshold

end Binaural
