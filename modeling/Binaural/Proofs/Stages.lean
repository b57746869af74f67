import Binaural.Compile
import Binaural.Proofs.Traversal

/-!
A compilation as a list of stages.

A `GridStage` prepares something for a grid as a whole and then walks over its entries. A list of
stages either passes (`GridStage.Passes`) or breaks at the first stage that fails, and there at the
first entry that fails (`GridStage.Breaks`); `GridStage.runAll_eq_ok_iff` and
`GridStage.runAll_eq_error_iff` say so of every list.

The results of a stage have to be finite: `Grid.settled` is what is done at an angle, and
`Grid.settled_eq_ok_iff` and `Grid.settled_eq_error_iff` say when that gives a result, and which.
-/

namespace Binaural

variable {α ε : Type}

/-- A stage: what it prepares for a whole grid gives what it then does at each angle. -/
structure GridStage (ε α : Type) where
  prepare : Grid (List α) → Except ε (Position → List α → Except ε (List α))

namespace GridStage

/-- A stage prepared for a grid and run over it. -/
def run (s : GridStage ε α) (g : Grid (List α)) : Except ε (Grid (List α)) :=
  (s.prepare g).bind g.traverse

/-- Stages run one after the other; the first error ends it. -/
def runAll : List (GridStage ε α) → Grid (List α) → Except ε (Grid (List α))
  | [], g => .ok g
  | s :: rest, g => (s.run g).bind (runAll rest)

/-- A stage meets an error on a grid: while it is prepared, or at one of the angles. -/
def Reports (s : GridStage ε α) (g : Grid (List α)) (e : ε) : Prop :=
  s.prepare g = .error e ∨
    ∃ f, s.prepare g = .ok f ∧ ∃ entry ∈ g.positioned, f entry.1 entry.2 = .error e

/-- Every stage can be prepared and succeeds at every angle; the last grid holds what comes out. -/
inductive Passes : List (GridStage ε α) → Grid (List α) → Grid (List α) → Prop
  | done {g : Grid (List α)} : Passes [] g g
  | step {s : GridStage ε α} {rest : List (GridStage ε α)} {g h final : Grid (List α)}
      {f : Position → List α → Except ε (List α)} :
      s.prepare g = .ok f →
      h.outline = g.outline →
      Images f g.positioned h.positioned →
      Passes rest h final →
      Passes (s :: rest) g final

/-- The error of the first stage that fails: that of its preparation, or else that of the first
angle at which it fails. -/
inductive Breaks : List (GridStage ε α) → Grid (List α) → ε → Prop
  | preparing {s : GridStage ε α} {rest : List (GridStage ε α)} {g : Grid (List α)} {e : ε} :
      s.prepare g = .error e → Breaks (s :: rest) g e
  | entry {s : GridStage ε α} {rest : List (GridStage ε α)} {g : Grid (List α)}
      {f : Position → List α → Except ε (List α)} {e : ε} :
      s.prepare g = .ok f → FirstError f g.positioned e → Breaks (s :: rest) g e
  | later {s : GridStage ε α} {rest : List (GridStage ε α)} {g h : Grid (List α)}
      {f : Position → List α → Except ε (List α)} {e : ε} :
      s.prepare g = .ok f →
      h.outline = g.outline →
      Images f g.positioned h.positioned →
      Breaks rest h e →
      Breaks (s :: rest) g e

theorem Passes.outline {stages : List (GridStage ε α)} {g h : Grid (List α)}
    (passes : Passes stages g h) : h.outline = g.outline := by
  induction passes with
  | done => rfl
  | step _ outline _ _ ih => exact ih.trans outline

/-- What breaks the stages is met by one of them, on some grid over the same places. -/
theorem Breaks.exists_stage {stages : List (GridStage ε α)} {g : Grid (List α)} {e : ε}
    (breaks : Breaks stages g e) :
    ∃ s ∈ stages, ∃ h : Grid (List α),
      h.positioned.map Prod.fst = g.positioned.map Prod.fst ∧ s.Reports h e := by
  induction breaks with
  | @preparing s rest g e prepared =>
      exact ⟨s, List.mem_cons_self, g, rfl, .inl prepared⟩
  | @entry s rest g f e prepared first =>
      exact ⟨s, List.mem_cons_self, g, rfl, .inr ⟨f, prepared, first.exists_place⟩⟩
  | later _ _ result _ ih =>
      obtain ⟨s, member, h, places, reports⟩ := ih
      exact ⟨s, List.mem_cons_of_mem _ member, h, places.trans result.map_fst, reports⟩

/-- Stages either all pass or break at one of them. -/
theorem runAll_spec (stages : List (GridStage ε α)) (g : Grid (List α)) :
    (∃ h, runAll stages g = .ok h ∧ Passes stages g h) ∨
      ∃ e, runAll stages g = .error e ∧ Breaks stages g e := by
  induction stages generalizing g with
  | nil => exact .inl ⟨g, rfl, .done⟩
  | cons s rest ih =>
      rw [runAll, run]
      cases prepared : s.prepare g with
      | error e => exact .inr ⟨e, rfl, .preparing prepared⟩
      | ok f =>
          dsimp only [Except.bind]
          rcases Grid.traverse_spec g f with ⟨h, walk, outline, result⟩ | ⟨e, walk, first⟩
          · rw [walk]
            dsimp only
            rcases ih h with ⟨final, tail, passes⟩ | ⟨e, tail, breaks⟩
            · exact .inl ⟨final, tail, .step prepared outline result passes⟩
            · exact .inr ⟨e, tail, .later prepared outline result breaks⟩
          · exact .inr ⟨e, by rw [walk], .entry prepared first⟩

/-- Two grids of one outline that hold the images of the same entries are one. -/
theorem eq_of_images {f : Position → List α → Except ε (List α)} {g h h' : Grid (List α)}
    (outline : h.outline = g.outline) (result : Images f g.positioned h.positioned)
    (outline' : h'.outline = g.outline) (result' : Images f g.positioned h'.positioned) :
    h = h' :=
  Grid.eq_of_outline_of_positioned (outline.trans outline'.symm) (result.unique result')

theorem Passes.unique {stages : List (GridStage ε α)} {g h h' : Grid (List α)}
    (passes : Passes stages g h) (other : Passes stages g h') : h = h' := by
  induction passes with
  | done => cases other; rfl
  | step prepared outline result _ ih =>
      cases other with
      | step prepared' outline' result' passes' =>
          cases Except.ok.inj (prepared.symm.trans prepared')
          rw [← eq_of_images outline result outline' result'] at passes'
          exact ih passes'

theorem Breaks.not_passes {stages : List (GridStage ε α)} {g h : Grid (List α)} {e : ε}
    (breaks : Breaks stages g e) : ¬ Passes stages g h := by
  intro passes
  induction breaks with
  | preparing prepared =>
      cases passes with
      | step prepared' _ _ _ => cases prepared.symm.trans prepared'
  | entry prepared first =>
      cases passes with
      | step prepared' _ result _ =>
          cases Except.ok.inj (prepared.symm.trans prepared')
          exact first.not_images result
  | later prepared outline result _ ih =>
      cases passes with
      | step prepared' outline' result' passes' =>
          cases Except.ok.inj (prepared.symm.trans prepared')
          rw [← eq_of_images outline result outline' result'] at passes'
          exact ih passes'

theorem Breaks.unique {stages : List (GridStage ε α)} {g : Grid (List α)} {e e' : ε}
    (breaks : Breaks stages g e) (other : Breaks stages g e') : e = e' := by
  induction breaks with
  | preparing prepared =>
      cases other with
      | preparing prepared' => exact Except.error.inj (prepared.symm.trans prepared')
      | entry prepared' _ => cases prepared.symm.trans prepared'
      | later prepared' _ _ _ => cases prepared.symm.trans prepared'
  | entry prepared first =>
      cases other with
      | preparing prepared' => cases prepared.symm.trans prepared'
      | entry prepared' first' =>
          cases Except.ok.inj (prepared.symm.trans prepared')
          exact first.unique first'
      | later prepared' _ result _ =>
          cases Except.ok.inj (prepared.symm.trans prepared')
          exact (first.not_images result).elim
  | later prepared outline result _ ih =>
      cases other with
      | preparing prepared' => cases prepared.symm.trans prepared'
      | entry prepared' first =>
          cases Except.ok.inj (prepared.symm.trans prepared')
          exact (first.not_images result).elim
      | later prepared' outline' result' breaks' =>
          cases Except.ok.inj (prepared.symm.trans prepared')
          rw [← eq_of_images outline result outline' result'] at breaks'
          exact ih breaks'

/-- Stages succeed with exactly the grid with which they pass. -/
theorem runAll_eq_ok_iff {stages : List (GridStage ε α)} {g h : Grid (List α)} :
    runAll stages g = .ok h ↔ Passes stages g h := by
  rcases runAll_spec stages g with ⟨h', run, passes⟩ | ⟨e, run, breaks⟩
  · rw [run, Except.ok.injEq]
    constructor
    · rintro rfl
      exact passes
    · exact passes.unique
  · simp only [run, reduceCtorEq, false_iff]
    exact breaks.not_passes

/-- Stages fail with exactly the error at which they break. -/
theorem runAll_eq_error_iff {stages : List (GridStage ε α)} {g : Grid (List α)} {e : ε} :
    runAll stages g = .error e ↔ Breaks stages g e := by
  rcases runAll_spec stages g with ⟨h, run, passes⟩ | ⟨e', run, breaks⟩
  · simp only [run, reduceCtorEq, false_iff]
    exact fun breaks => breaks.not_passes passes
  · rw [run, Except.error.injEq]
    constructor
    · rintro rfl
      exact breaks
    · exact breaks.unique

end GridStage

/-! ## Finite results -/

section Finite

variable [Scalar α]

namespace Scalar

theorem firstNonFinite_eq (xs : List α) (start : Nat) :
    firstNonFinite xs start = firstFailing? isFinite start xs := by
  induction xs generalizing start with
  | nil => rfl
  | cons x rest ih => rw [firstNonFinite, firstFailing?, ih]

/-- There is no value that is not finite exactly where all are. -/
theorem firstNonFinite_eq_none_iff {xs : List α} {start : Nat} :
    firstNonFinite xs start = none ↔ ∀ x ∈ xs, isFinite x = true := by
  rw [firstNonFinite_eq, firstFailing?_eq_none_iff]

/-- The first value that is not finite stands where all before it are finite. -/
theorem firstNonFinite_eq_some_iff {xs : List α} {start index : Nat} {value : α} :
    firstNonFinite xs start = some (index, value) ↔
      ∃ before after, xs = before ++ value :: after ∧ index = start + before.length ∧
        (∀ x ∈ before, isFinite x = true) ∧ isFinite value = false := by
  rw [firstNonFinite_eq, firstFailing?_eq_some_iff]

end Scalar

namespace Grid

/-- What a function gives at an angle, if all of it is finite. -/
def settled (stage : Stage) (f : Position → List α → Except (Failure α) (List α))
    (position : Position) (signal : List α) : Except (Failure α) (List α) :=
  match f position signal with
  | .error e => .error e
  | .ok result =>
    match checkFinite stage position.location result with
    | .error e => .error (.error e)
    | .ok () => .ok result

variable {stage : Stage} {f : Position → List α → Except (Failure α) (List α)}
  {position : Position} {location : Location} {signal result xs : List α} {e : Failure α}

theorem checkFinite_eq_ok_iff :
    checkFinite stage location xs = .ok () ↔ ∀ x ∈ xs, Scalar.isFinite x = true := by
  rw [checkFinite, ← @Scalar.firstNonFinite_eq_none_iff _ _ _ 0]
  cases Scalar.firstNonFinite xs 0 with
  | none => simp
  | some found => simp

theorem settled_eq_ok_iff :
    settled stage f position signal = .ok result ↔
      f position signal = .ok result ∧ ∀ x ∈ result, Scalar.isFinite x = true := by
  rw [settled]
  cases given : f position signal with
  | error e => simp
  | ok y =>
      dsimp only
      cases checked : checkFinite stage position.location y with
      | error e =>
          simp only [reduceCtorEq, Except.ok.injEq, false_iff, not_and]
          rintro rfl finite
          cases (checkFinite_eq_ok_iff.mpr finite).symm.trans checked
      | ok _ =>
          rw [Except.ok.injEq]
          constructor
          · rintro rfl
            exact ⟨rfl, checkFinite_eq_ok_iff.mp checked⟩
          · exact fun both => both.1

/-- A result is refused for the error of the function, or for its first value that is not
finite. -/
theorem settled_eq_error_iff :
    settled stage f position signal = .error e ↔
      f position signal = .error e ∨
        ∃ y index value, f position signal = .ok y ∧
          Scalar.firstNonFinite y 0 = some (index, value) ∧
          e = .error (.numerical stage position.location index value) := by
  rw [settled]
  cases given : f position signal with
  | error e' => simp
  | ok y =>
      dsimp only [checkFinite]
      cases found : Scalar.firstNonFinite y 0 with
      | none => simp [found]
      | some place =>
          obtain ⟨index, value⟩ := place
          simp only [Except.error.injEq, reduceCtorEq, false_or, Except.ok.injEq]
          constructor
          · rintro rfl
            exact ⟨y, index, value, rfl, found, rfl⟩
          · rintro ⟨_, index', value', rfl, found', rfl⟩
            rw [found] at found'
            cases found'
            rfl

/-- A function over all signals succeeds with the finite images of all of them. -/
theorem tryMap_eq_ok_iff {g h : Grid (List α)} :
    g.tryMap stage f = .ok h ↔
      h.outline = g.outline ∧ Images (settled stage f) g.positioned h.positioned :=
  traverse_eq_ok_iff

/-- A function over all signals succeeds if it gives something finite for each, and what holds of
all that it gives then holds in the grid. -/
theorem exists_tryMap {g : Grid (List α)} (holds : List α → Prop)
    (works : ∀ entry ∈ g.positioned, ∃ y, f entry.1 entry.2 = .ok y ∧
      (∀ x ∈ y, Scalar.isFinite x = true) ∧ holds y) :
    ∃ h, g.tryMap stage f = .ok h ∧ h.outline = g.outline ∧
      ∀ image ∈ h.positioned, holds image.2 := by
  rcases traverse_spec g (settled stage f) with ⟨h, walk, outline, result⟩ | ⟨e, -, first⟩
  · refine ⟨h, walk, outline, fun image member => ?_⟩
    obtain ⟨entry, entryMember, -, given⟩ := result.exists_source member
    obtain ⟨y, expected, -, held⟩ := works entry entryMember
    cases (settled_eq_ok_iff.mp given).1.symm.trans expected
    exact held
  · obtain ⟨entry, member, fails⟩ := first.exists_place
    obtain ⟨y, expected, finite, -⟩ := works entry member
    cases (settled_eq_ok_iff.mpr ⟨expected, finite⟩).symm.trans fails

/-- A function that gives finite signals can always be mapped over a grid. -/
theorem mapSignals_of_finite {g : Grid (List α)} {f : List α → List α}
    (finite : ∀ m ∈ g.values, ∀ x ∈ f m, Scalar.isFinite x = true) :
    g.mapSignals stage f = .ok (g.map f) := by
  rw [mapSignals, tryMap_eq_ok_iff]
  refine ⟨outline_map f g, ?_⟩
  rw [positioned_map, Images, List.forall₂_map_right_iff, List.forall₂_same]
  intro entry member
  have value : entry.2 ∈ g.values := by
    rw [← map_snd_positioned]
    exact List.mem_map_of_mem member
  exact ⟨rfl, settled_eq_ok_iff.mpr ⟨rfl, finite entry.2 value⟩⟩

/-- A stage sees of the signals only what its function makes of them. -/
theorem mapSignals_eq (g : Grid (List α)) (stage : Stage) (f : List α → List α) :
    g.mapSignals stage f = (g.map f).mapSignals stage id :=
  (traverse_map f g (settled stage fun _ y => .ok y)).symm

end Grid

end Finite

end Binaural
