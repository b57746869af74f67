import Binaural.Elevation
import Mathlib.Data.List.Chain
import Mathlib.Tactic.Ring

/-!
Elevation layouts are arithmetic progressions.

`ElevationLayout.firstBreak?` finds no break exactly if all neighbours are one increment apart
(`firstBreak?_eq_none_iff`). An accepted layout holds the angles it was made of, and its `k`-th
angle is `least + k * increment` (`getElem?_of_ofAngles`).

Angles that are refused have a flaw (`ElevationLayout.Flaw`), and the error is that of the flaw
(`ofAngles_eq_error_iff`).
-/

namespace Binaural

namespace ElevationLayout

/-- No break is found exactly in lists whose neighbours are all one increment apart. -/
theorem firstBreak?_eq_none_iff {increment : Int} {angles : List Int} :
    firstBreak? increment angles = none ↔
      List.IsChain (fun lower upper => upper - lower = increment) angles := by
  fun_induction firstBreak? increment angles with
  | case1 lower upper rest step ih =>
      rw [ih, List.isChain_cons_cons]
      exact ⟨fun tail => ⟨step, tail⟩, fun chain => chain.2⟩
  | case2 lower upper rest step =>
      simp only [List.isChain_cons_cons, reduceCtorEq, false_iff]
      exact fun chain => step chain.1
  | case3 angles short =>
      refine ⟨fun _ => ?_, fun _ => rfl⟩
      cases angles with
      | nil => exact .nil
      | cons first rest =>
          cases rest with
          | nil => exact .singleton first
          | cons second rest => exact (short first second rest rfl).elim

/-- A list whose neighbours are all one increment apart is determined by its first angle. -/
theorem getElem?_of_isChain {increment first : Int} {rest : List Int}
    (chain : List.IsChain (fun lower upper => upper - lower = increment) (first :: rest))
    {k : Nat} (inside : k < (first :: rest).length) :
    (first :: rest)[k]? = some (first + k * increment) := by
  induction rest generalizing first k with
  | nil =>
      have zero : k = 0 := by simpa using inside
      subst zero
      simp
  | cons second rest ih =>
      rw [List.isChain_cons_cons] at chain
      obtain ⟨step, tail⟩ := chain
      cases k with
      | zero => simp
      | succ k =>
          have inside' : k < (second :: rest).length := by simpa using inside
          rw [List.getElem?_cons_succ, ih tail inside']
          have second_eq : second = first + increment := by omega
          rw [second_eq, Nat.cast_succ]
          congr 1
          ring

/-- What is known of the layout of accepted angles. -/
theorem of_ofAngles {α : Type} {angles : List Int} {layout : ElevationLayout}
    (accepted : ofAngles (α := α) angles = .ok layout) :
    ∃ first second rest,
      angles = first :: second :: rest ∧
      layout.angles = angles ∧
      layout.increment = second - first ∧
      layout.least = first ∧
      layout.greatest = angles.getLastD first ∧
      List.IsChain (fun lower upper => upper - lower = layout.increment) angles := by
  unfold ofAngles at accepted
  split at accepted
  · rename_i first second rest
    dsimp only at accepted
    split at accepted
    · cases accepted
    · rename_i unbroken
      cases accepted
      exact ⟨first, second, rest, rfl, rfl, rfl, rfl, rfl,
        firstBreak?_eq_none_iff.mp unbroken⟩
  · cases accepted

/-- The `k`-th angle of an accepted layout is `k` increments above the least. -/
theorem getElem?_of_ofAngles {α : Type} {angles : List Int} {layout : ElevationLayout}
    (accepted : ofAngles (α := α) angles = .ok layout)
    {k : Nat} (inside : k < angles.length) :
    angles[k]? = some (layout.least + k * layout.increment) := by
  obtain ⟨first, second, rest, rfl, -, -, least, -, chain⟩ := of_ofAngles accepted
  rw [least]
  exact getElem?_of_isChain chain inside

/-! ## Refused layouts -/

/-- Of a list in two parts, the first part with one element more starts as the list does. -/
theorem head?_concat_of_split {first lower : Int} {rest before after : List Int}
    (split : first :: rest = before ++ lower :: after) :
    (before ++ [lower]).head? = some first := by
  cases before with
  | nil =>
      cases split
      rfl
  | cons start before =>
      cases split
      rfl

/-- The first break stands behind neighbours that are all one increment apart. -/
theorem firstBreak?_eq_some_iff {increment lower upper : Int} {angles : List Int} :
    firstBreak? increment angles = some (lower, upper) ↔
      ∃ before after, angles = before ++ lower :: upper :: after ∧
        List.IsChain (fun lower upper => upper - lower = increment) (before ++ [lower]) ∧
        upper - lower ≠ increment := by
  fun_induction firstBreak? increment angles with
  | case1 first second rest step ih =>
      rw [ih]
      constructor
      · rintro ⟨before, after, split, chain, broken⟩
        refine ⟨first :: before, after, by rw [split, List.cons_append], ?_, broken⟩
        rw [List.cons_append, List.isChain_cons, head?_concat_of_split split]
        exact ⟨fun next same => Option.some.inj same ▸ step, chain⟩
      · rintro ⟨before, after, split, chain, broken⟩
        cases before with
        | nil =>
            cases split
            exact absurd step broken
        | cons start before =>
            obtain ⟨rfl, tail⟩ := List.cons.inj split
            exact ⟨before, after, tail, chain.tail, broken⟩
  | case2 first second rest step =>
      simp only [Option.some.injEq, Prod.mk.injEq]
      constructor
      · rintro ⟨rfl, rfl⟩
        exact ⟨[], rest, rfl, .singleton _, step⟩
      · rintro ⟨before, after, split, chain, broken⟩
        cases before with
        | nil =>
            cases split
            exact ⟨rfl, rfl⟩
        | cons start before =>
            -- the break would be a later one than that of the first two
            obtain ⟨rfl, tail⟩ := List.cons.inj split
            exact absurd ((List.isChain_cons.mp chain).1 second (head?_concat_of_split tail)) step
  | case3 angles short =>
      simp only [reduceCtorEq, false_iff]
      rintro ⟨before, after, rfl, -, -⟩
      cases before with
      | nil => exact short lower upper after rfl
      | cons start before =>
          cases before with
          | nil => exact short start lower (upper :: after) rfl
          | cons next before => exact short start next (before ++ lower :: upper :: after) rfl

/-- What is wrong with ascending angles that are no layout: there are less than two of them, or two
neighbours, the first such, are not as far apart as the first two. -/
inductive Flaw {α : Type} (angles : List Int) : IntegrityError α → Prop
  | few (short : angles.length < 2) : Flaw angles (.tooFewElevations angles.length)
  | uneven {first second lower upper : Int} {rest before after : List Int}
    (starts : angles = first :: second :: rest)
    (split : angles = before ++ lower :: upper :: after)
    (even : List.IsChain (fun lower upper => upper - lower = second - first) (before ++ [lower]))
    (broken : upper - lower ≠ second - first) :
    Flaw angles (.unevenElevations (second - first) lower upper)

/-- Angles are a layout, or they have the flaw that is reported. -/
theorem ofAngles_eq_error_iff {α : Type} {angles : List Int} {e : IntegrityError α} :
    ofAngles angles = .error e ↔ Flaw angles e := by
  unfold ofAngles
  split
  · rename_i first second rest
    dsimp only
    split
    · rename_i lower upper found
      obtain ⟨before, after, parts, even, broken⟩ := firstBreak?_eq_some_iff.mp found
      rw [Except.error.injEq]
      constructor
      · rintro rfl
        exact .uneven rfl parts even broken
      · intro flaw
        cases flaw with
        | few short => exact absurd short (by simp)
        | uneven starts split even broken =>
            cases starts
            have other := firstBreak?_eq_some_iff.mpr ⟨_, _, split, even, broken⟩
            cases found.symm.trans other
            rfl
    · rename_i unbroken
      simp only [reduceCtorEq, false_iff]
      intro flaw
      cases flaw with
      | few short => exact absurd short (by simp)
      | uneven starts split even broken =>
          cases starts
          have found := firstBreak?_eq_some_iff.mpr ⟨_, _, split, even, broken⟩
          cases unbroken.symm.trans found
  · rename_i short
    have few : angles.length < 2 := by
      cases angles with
      | nil => exact Nat.two_pos
      | cons first rest =>
          cases rest with
          | nil => exact Nat.one_lt_two
          | cons second rest => exact absurd rfl (short first second rest)
    rw [Except.error.injEq]
    constructor
    · rintro rfl
      exact .few few
    · intro flaw
      cases flaw with
      | few => rfl
      | uneven starts => exact absurd starts (short _ _ _)

/-- Angles are a layout exactly if there are two of them at least, all one increment apart. -/
theorem exists_ofAngles_iff {α : Type} {angles : List Int} :
    (∃ layout, ofAngles (α := α) angles = .ok layout) ↔
      2 ≤ angles.length ∧
        ∃ increment, List.IsChain (fun lower upper => upper - lower = increment) angles := by
  constructor
  · rintro ⟨layout, accepted⟩
    obtain ⟨first, second, rest, rfl, -, -, -, -, chain⟩ := of_ofAngles accepted
    exact ⟨by simp, layout.increment, chain⟩
  · rintro ⟨several, increment, chain⟩
    cases outcome : ofAngles (α := α) angles with
    | ok layout => exact ⟨layout, rfl⟩
    | error e =>
        cases ofAngles_eq_error_iff.mp outcome with
        | few short => omega
        | @uneven first second lower upper rest before after starts split _ broken =>
            have common := chain
            rw [starts, List.isChain_cons_cons] at common
            rw [split, List.isChain_append] at chain
            have there := (List.isChain_cons_cons.mp chain.2.1).1
            exact absurd (there.trans common.1.symm) broken

end ElevationLayout

end Binaural
