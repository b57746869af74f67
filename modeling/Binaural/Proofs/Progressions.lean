import Binaural.Proofs.Reader

/-!
Which angles are the elevations of a dataset.

Angles are accepted by a walk over neighbours, while a reader of the compiled arrays finds an
elevation by its closed form, `least + k * increment`. Of a list the two say the same
(`ElevationLayout.exists_isProgression_iff`).

* `ElevationLayout.IsProgression` is the closed form, `ElevationLayout.Spans` what a layout says of
  the angles that it was made of, and `ElevationLayout.BreaksAt` what a refusal says of them.
* `ElevationLayout.recognizes_progressions`: of ascending angles, progressions of two or more are
  accepted, and all others are refused for their number or for their first break.
-/

namespace Binaural.ElevationLayout

/-! ## Progressions -/

/-- An arithmetic progression: the `k`-th angle is `k` increments above the start. -/
def IsProgression (start increment : Int) (angles : List Int) : Prop :=
  ∀ k < angles.length, angles[k]? = some (start + k * increment)

variable {start increment lower upper : Int} {angles : List Int}

theorem IsProgression.eq_of_getElem? (progression : IsProgression start increment angles)
    {k : Nat} {angle : Int} (angle_at : angles[k]? = some angle) :
    angle = start + k * increment := by
  have inside : k < angles.length := (List.getElem?_eq_some_iff.mp angle_at).1
  exact Option.some.inj (angle_at.symm.trans (progression k inside))

/-- Neighbours in a progression are one increment apart. -/
theorem IsProgression.sub_eq (progression : IsProgression start increment angles) {k : Nat}
    (lower_at : angles[k]? = some lower) (upper_at : angles[k + 1]? = some upper) :
    upper - lower = increment := by
  rw [progression.eq_of_getElem? lower_at, progression.eq_of_getElem? upper_at, Nat.cast_succ]
  ring

theorem IsProgression.isChain (progression : IsProgression start increment angles) :
    List.IsChain (fun lower upper => upper - lower = increment) angles := by
  rw [List.isChain_iff_getElem]
  intro k inside
  exact progression.sub_eq (List.getElem?_eq_getElem (Nat.lt_of_succ_lt inside))
    (List.getElem?_eq_getElem inside)

theorem isProgression_of_isChain (starts : angles.head? = some start)
    (chain : List.IsChain (fun lower upper => upper - lower = increment) angles) :
    IsProgression start increment angles := by
  cases angles with
  | nil => cases starts
  | cons first rest =>
      cases starts
      intro k inside
      exact getElem?_of_isChain chain inside

/-- The closed form holds from some start on exactly if all neighbours are one increment apart. -/
theorem exists_isProgression_iff :
    (∃ start, IsProgression start increment angles) ↔
      List.IsChain (fun lower upper => upper - lower = increment) angles := by
  refine ⟨fun ⟨start, progression⟩ => progression.isChain, fun chain => ?_⟩
  cases angles with
  | nil => exact ⟨0, fun k inside => absurd inside (Nat.not_lt_zero k)⟩
  | cons first rest => exact ⟨first, isProgression_of_isChain rfl chain⟩

/-! ## Accepted angles -/

/-- What a layout says of the angles that it was made of. -/
structure Spans (layout : ElevationLayout) (angles : List Int) : Prop where
  angles_eq : layout.angles = angles
  count_eq : layout.count = angles.length
  progression : IsProgression layout.least layout.increment angles
  ends : angles.getLast? = some layout.greatest
  increment_pos : 0 < layout.increment
  /-- The increment and the least angle are what compiled arrays hold in 32 bits. -/
  increment32 : FitsInt32 layout.increment
  least32 : FitsInt32 layout.least
  greatest32 : FitsInt32 layout.greatest

theorem spans_of_ofAngles {α : Type} {layout : ElevationLayout}
    (ascending : angles.Pairwise (· < ·)) (angles32 : ∀ angle ∈ angles, FitsInt32 angle)
    (differences32 : List.IsChain (fun lower upper => FitsInt32 (upper - lower)) angles)
    (accepted : ofAngles (α := α) angles = .ok layout) : layout.Spans angles := by
  rcases of_ofAngles accepted with
    ⟨first, second, rest, angles_eq, layout_angles, increment_eq, least_eq, greatest_eq, chain⟩
  have starts : angles.head? = some layout.least := by
    rw [angles_eq, least_eq]
    rfl
  have ends : angles.getLast? = some layout.greatest := by
    rw [greatest_eq, angles_eq, List.getLastD_eq_getLast?, List.getLast?_cons]
    rfl
  have step : 0 < layout.increment ∧ FitsInt32 layout.increment := by
    rw [angles_eq] at ascending differences32
    rw [increment_eq]
    exact ⟨Int.sub_pos_of_lt (List.rel_of_pairwise_cons ascending List.mem_cons_self),
      (List.isChain_cons_cons.mp differences32).1⟩
  exact
    { angles_eq := layout_angles
      count_eq := congrArg List.length layout_angles
      progression := isProgression_of_isChain starts chain
      ends := ends
      increment_pos := step.1
      increment32 := step.2
      least32 := angles32 _ (List.mem_of_mem_head? starts)
      greatest32 := angles32 _ (List.mem_of_mem_getLast? ends) }

/-! ## Refused angles -/

/-- At place `i` stand the first neighbours that are not `increment` apart, so that all angles up to
the lower of them are a progression. -/
structure BreaksAt (start increment : Int) (angles : List Int) (i : Nat) (lower upper : Int) :
    Prop where
  lower_at : angles[i]? = some lower
  upper_at : angles[i + 1]? = some upper
  broken : upper - lower ≠ increment
  earlier : ∀ j < i, ∀ lower' upper', angles[j]? = some lower' → angles[j + 1]? = some upper' →
    upper' - lower' = increment
  progression : IsProgression start increment (angles.take (i + 1))

theorem breaksAt_of_split {before after : List Int} (starts : angles.head? = some start)
    (split : angles = before ++ lower :: upper :: after)
    (even : List.IsChain (fun lower upper => upper - lower = increment) (before ++ [lower]))
    (broken : upper - lower ≠ increment) :
    BreaksAt start increment angles before.length lower upper := by
  have front : angles.take (before.length + 1) = before ++ [lower] := by
    rw [split, List.take_length_add_append]
    rfl
  have progression : IsProgression start increment (angles.take (before.length + 1)) := by
    apply isProgression_of_isChain
    · rw [List.head?_take, if_neg (Nat.succ_ne_zero _), starts]
    · rw [front]
      exact even
  refine ⟨?_, ?_, broken, fun j inside lower' upper' lower_at upper_at => ?_, progression⟩
  · rw [split, List.getElem?_append_right (Nat.le_refl _), Nat.sub_self]
    rfl
  · rw [split, List.getElem?_append_right (Nat.le_add_right _ 1), Nat.add_sub_cancel_left]
    rfl
  · -- both stand up to the lower neighbour of the break, where the angles are a progression
    rw [← List.getElem?_take_of_lt (Nat.lt_succ_of_lt inside)] at lower_at
    rw [← List.getElem?_take_of_lt (Nat.succ_lt_succ inside)] at upper_at
    exact progression.sub_eq lower_at upper_at

/-! ## All angles -/

/-- What becomes of ascending angles: progressions of two or more are accepted, and what is refused
is told by its length or by its first break. -/
structure Recognizes {α : Type} (angles : List Int)
    (outcome : Except (IntegrityError α) ElevationLayout) : Prop where
  isOk_iff : (∃ layout, outcome = .ok layout) ↔
    2 ≤ angles.length ∧ ∃ start increment, IsProgression start increment angles
  spans : ∀ layout, outcome = .ok layout → layout.Spans angles
  few : angles.length < 2 → outcome = .error (.tooFewElevations angles.length)
  /-- The first two angles tell which increment was expected. -/
  uneven : 2 ≤ angles.length → (¬ ∃ start increment, IsProgression start increment angles) →
    ∃ first second rest i lower upper, angles = first :: second :: rest ∧
      outcome = .error (.unevenElevations (second - first) lower upper) ∧
      FitsInt32 (second - first) ∧ BreaksAt first (second - first) angles i lower upper

theorem exists_ofAngles_iff_isProgression {α : Type} :
    (∃ layout, ofAngles (α := α) angles = .ok layout) ↔
      2 ≤ angles.length ∧ ∃ start increment, IsProgression start increment angles := by
  rw [exists_ofAngles_iff, exists_comm]
  simp only [exists_isProgression_iff]

/-- Ascending angles of 32 bits, whose differences have 32 bits too, are a layout exactly if they
are a progression of at least two. The layout gives its start, end and increment, and no number of
it needs more bits. Otherwise the error gives the number of the angles, or the first neighbours that
are not as far apart as the first two angles. -/
theorem recognizes_progressions {α : Type} (ascending : angles.Pairwise (· < ·))
    (angles32 : ∀ angle ∈ angles, FitsInt32 angle)
    (differences32 : List.IsChain (fun lower upper => FitsInt32 (upper - lower)) angles) :
    Recognizes angles (ofAngles (α := α) angles) := by
  refine ⟨exists_ofAngles_iff_isProgression,
    fun layout accepted => spans_of_ofAngles ascending angles32 differences32 accepted,
    fun short => ofAngles_eq_error_iff.mpr (.few short), fun several irregular => ?_⟩
  cases outcome : ofAngles (α := α) angles with
  | ok layout => exact absurd (exists_ofAngles_iff_isProgression.mp ⟨layout, outcome⟩).2 irregular
  | error e =>
      cases ofAngles_eq_error_iff.mp outcome with
      | few short => exact absurd several (Nat.not_le_of_lt short)
      | @uneven first second lower upper rest before after starts split even broken =>
          have head : angles.head? = some first := by
            rw [starts]
            rfl
          rw [starts, List.isChain_cons_cons] at differences32
          exact ⟨first, second, rest, before.length, lower, upper, starts, rfl, differences32.1,
            breaksAt_of_split head split even broken⟩

/-- Three angles as far apart as 32 bits allow are a layout. With the greatest angle of 32 bits
behind them they break at the last two. -/
theorem recognizes_progressions_limits :
    let angles : List Int := [-2147483648, -1, 2147483646]
    Recognizes (α := Float) angles (.ok ⟨angles, 2147483647, -2147483648, 2147483646⟩) ∧
      Recognizes (α := Float) (angles ++ [2147483647])
        (.error (.unevenElevations 2147483647 2147483646 2147483647)) := by
  intro angles
  have angles32 : ∀ angle ∈ angles ++ [2147483647], FitsInt32 angle := by
    unfold FitsInt32
    decide
  have differences32 : List.IsChain (fun lower upper => FitsInt32 (upper - lower))
      (angles ++ [2147483647]) := by
    unfold FitsInt32
    decide
  exact ⟨recognizes_progressions (by decide)
      (fun angle member => angles32 angle (List.mem_append_left _ member))
      differences32.left_of_append,
    recognizes_progressions (by decide) angles32 differences32⟩

end Binaural.ElevationLayout
