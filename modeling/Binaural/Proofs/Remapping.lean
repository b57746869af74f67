import Binaural.Proofs.Reader
import Binaural.Proofs.Stages
import Mathlib.Data.List.SplitLengths

/-!
Grids mapped entry by entry.

What a function gives at all entries is collected in one flat list, and the rows take from it again.
Rows differ in length and may be empty, so one count that is off would move all that follows.

* `Grid.Counted` says that the rows of a grid, its entries in order and its bare contents count
  alike; every grid does (`Grid.counted`).
* `Grid.Remaps` says what a grid and a function have to do with an answer: the same angles with the
  results in the places of the old entries, or the error of the first entry that has none.
* `Grid.remaps_tryMap`: the answer of `Grid.tryMap` is that one, for all grids and functions.
-/

namespace Binaural

variable {α β γ ε : Type}

/-! ## Columns of rows -/

namespace Row

/-- The azimuths of a row. -/
def azimuths (row : Row β) : List Int := row.entries.map Prod.fst

/-- What a row holds, without the azimuths. -/
def contents (row : Row β) : List β := row.entries.map Prod.snd

theorem length_azimuths (row : Row β) : row.azimuths.length = row.entries.length :=
  List.length_map _

theorem length_contents (row : Row β) : row.contents.length = row.entries.length :=
  List.length_map _

end Row

/-- Lists laid end to end can be cut by their lengths again. -/
theorem splitLengths_flatten (lists : List (List β)) :
    (lists.map List.length).splitLengths lists.flatten = lists := by
  induction lists with
  | nil => rfl
  | cons first rest ih =>
      rw [List.map_cons, List.flatten_cons, List.splitLengths_cons, List.take_left,
        List.drop_left, ih]

namespace Grid

variable {g : Grid β} {h : Grid γ}

theorem values_eq_flatten (g : Grid β) : g.values = (g.rows.map Row.contents).flatten :=
  List.flatMap_def ..

theorem azimuthCounts_eq_contents (g : Grid β) :
    g.azimuthCounts = (g.rows.map Row.contents).map List.length := by
  rw [List.map_map]
  exact List.map_congr_left fun row _ => row.length_contents.symm

/-- The contents of the rows are the stretches of the flat list that the counts cut out of it. -/
theorem map_contents_eq (g : Grid β) :
    g.rows.map Row.contents = g.azimuthCounts.splitLengths g.values := by
  rw [azimuthCounts_eq_contents, values_eq_flatten, splitLengths_flatten]

theorem length_positioned (g : Grid β) : g.positioned.length = g.size := by
  rw [size, ← map_snd_positioned, List.length_map]

/-! ## Grids of one outline -/

theorem elevations_eq_of_outline (outline : h.outline = g.outline) :
    h.elevations = g.elevations := by
  have firsts := congrArg (List.map Prod.fst) outline
  simp only [Grid.outline, List.map_map] at firsts
  exact firsts

theorem azimuths_eq_of_outline (outline : h.outline = g.outline) :
    h.rows.map Row.azimuths = g.rows.map Row.azimuths := by
  have seconds := congrArg (List.map Prod.snd) outline
  simp only [Grid.outline, List.map_map] at seconds
  exact seconds

theorem azimuthCounts_eq_of_outline (outline : h.outline = g.outline) :
    h.azimuthCounts = g.azimuthCounts := by
  have counts {δ : Type} (k : Grid δ) :
      k.azimuthCounts = (k.rows.map Row.azimuths).map List.length := by
    rw [List.map_map]
    exact List.map_congr_left fun row _ => row.length_azimuths.symm
  rw [counts, counts, azimuths_eq_of_outline outline]

/-! ## Counts -/

/-- All ways to count the entries of a grid agree, and its contents are those of its entries in
order. -/
structure Counted (g : Grid β) : Prop where
  /-- Each row holds as much as it has azimuths. -/
  rows : ∀ row ∈ g.rows, row.contents.length = row.azimuths.length
  azimuthCounts : g.azimuthCounts = g.rows.map fun row => row.azimuths.length
  /-- The size is what all rows hold together. -/
  size : g.size = (g.rows.map fun row => row.contents.length).sum
  sum_azimuthCounts : g.azimuthCounts.sum = g.size
  positioned : g.positioned.length = g.size
  values : g.values.length = g.size
  order : g.values = g.positioned.map Prod.snd

theorem counted (g : Grid β) : g.Counted where
  rows row _ := row.length_contents.trans row.length_azimuths.symm
  azimuthCounts := List.map_congr_left fun row _ => row.length_azimuths.symm
  size := by
    rw [size_eq_sum_azimuthCounts]
    exact congrArg List.sum (List.map_congr_left fun row _ => row.length_contents.symm)
  sum_azimuthCounts := g.size_eq_sum_azimuthCounts.symm
  positioned := g.length_positioned
  values := rfl
  order := g.map_snd_positioned.symm

end Grid

/-! ## Images and errors by their places -/

section Places

variable {f : Position → β → Except ε γ} {places : List (Position × β)}
  {images : List (Position × γ)} {e : ε}

/-- The `k`-th image is that of the `k`-th entry, at the same position. -/
theorem Images.getElem?_eq (result : Images f places images) {k : Nat} {position : Position}
    {x : β} (place : places[k]? = some (position, x)) :
    ∃ y, f position x = .ok y ∧ images[k]? = some (position, y) := by
  obtain ⟨inside, place_eq⟩ := List.getElem?_eq_some_iff.mp place
  have inside' : k < images.length := result.length_eq ▸ inside
  have image := result.get inside inside'
  simp only [List.get_eq_getElem, place_eq] at image
  exact ⟨images[k].2, image.2, List.getElem?_eq_some_iff.mpr ⟨inside', Prod.ext image.1 rfl⟩⟩

/-- The first error has places before it at which something is given, and then one that fails. -/
theorem FirstError.iff_exists :
    FirstError f places e ↔
      ∃ before position x after, places = before ++ (position, x) :: after ∧
        (∀ place ∈ before, ∃ y, f place.1 place.2 = .ok y) ∧ f position x = .error e := by
  constructor
  · intro first
    induction first with
    | @here place rest e fails =>
        exact ⟨[], place.1, place.2, rest, rfl, by simp, fails⟩
    | @later place rest y e given _ ih =>
        obtain ⟨before, position, x, after, rfl, given', fails⟩ := ih
        exact ⟨place :: before, position, x, after, rfl,
          List.forall_mem_cons.mpr ⟨⟨y, given⟩, given'⟩, fails⟩
  · rintro ⟨before, position, x, after, rfl, given, fails⟩
    induction before with
    | nil => exact .here fails
    | cons place before ih =>
        obtain ⟨⟨y, head⟩, tail⟩ := List.forall_mem_cons.mp given
        exact .later head (ih tail)

/-- A traversal succeeds if the function gives something at every entry. -/
theorem Grid.exists_traverse_iff {g : Grid β} :
    (∃ h, g.traverse f = .ok h) ↔ ∀ entry ∈ g.positioned, ∃ y, f entry.1 entry.2 = .ok y := by
  rcases traverse_spec g f with ⟨h, walk, -, result⟩ | ⟨e, walk, first⟩
  · refine ⟨fun _ entry member => ?_, fun _ => ⟨h, walk⟩⟩
    obtain ⟨k, place⟩ := List.getElem?_of_mem member
    obtain ⟨y, given, -⟩ := result.getElem?_eq place
    exact ⟨y, given⟩
  · obtain ⟨entry, member, fails⟩ := first.exists_place
    constructor
    · rintro ⟨h, succeeded⟩
      cases walk.symm.trans succeeded
    · intro given
      obtain ⟨y, some⟩ := given entry member
      cases fails.symm.trans some

end Places

/-! ## Mapped grids -/

namespace Grid

variable [Scalar α]

/-- A function gives something at an entry, and all of it is finite. -/
def GivesFinite (f : Position → List α → Except (Failure α) (List α)) (entry : Position × List α) :
    Prop :=
  ∃ y, f entry.1 entry.2 = .ok y ∧ ∀ x ∈ y, Scalar.isFinite x = true

/-- Why nothing is taken at an entry: the function fails there, or gives a value that is not finite,
of which the first is reported with its index, its angle and the stage. -/
inductive Spoils (stage : Stage) (f : Position → List α → Except (Failure α) (List α))
    (position : Position) (signal : List α) : Failure α → Prop
  | failure {e : Failure α} : f position signal = .error e → Spoils stage f position signal e
  | notFinite {before after : List α} {value : α} :
      f position signal = .ok (before ++ value :: after) →
      (∀ x ∈ before, Scalar.isFinite x = true) →
      Scalar.isFinite value = false →
      Spoils stage f position signal
        (.error (.numerical stage (.angle position.elevation position.azimuth) before.length value))

/-- What the answer is when a function is run over all entries of a grid during a stage. -/
structure Remaps (g : Grid (List α)) (stage : Stage)
    (f : Position → List α → Except (Failure α) (List α))
    (answer : Except (Failure α) (Grid (List α))) : Prop where
  succeeds_iff : (∃ h, answer = .ok h) ↔ ∀ entry ∈ g.positioned, GivesFinite f entry
  elevations : ∀ h, answer = .ok h → h.elevations = g.elevations
  azimuths : ∀ h, answer = .ok h → h.rows.map Row.azimuths = g.rows.map Row.azimuths
  azimuthCounts : ∀ h, answer = .ok h → h.azimuthCounts = g.azimuthCounts
  /-- The rows take the results in order, each as many as it has azimuths. -/
  contents : ∀ h, answer = .ok h →
    h.rows.map Row.contents = g.azimuthCounts.splitLengths h.values
  size : ∀ h, answer = .ok h → h.size = g.size
  /-- The `k`-th entry is at the old position and is what the function gives for the old entry. -/
  entry : ∀ h, answer = .ok h → ∀ (k : Nat) (position : Position) (signal : List α),
    g.positioned[k]? = some (position, signal) →
      ∃ y, f position signal = .ok y ∧ h.positioned[k]? = some (position, y)
  /-- The error is that of the first entry at which nothing is taken. -/
  fails_iff : ∀ e, answer = .error e ↔
    ∃ before position signal after, g.positioned = before ++ (position, signal) :: after ∧
      (∀ entry ∈ before, GivesFinite f entry) ∧ Spoils stage f position signal e

variable {stage : Stage} {f : Position → List α → Except (Failure α) (List α)}

theorem exists_settled_iff {entry : Position × List α} :
    (∃ y, settled stage f entry.1 entry.2 = .ok y) ↔ GivesFinite f entry :=
  exists_congr fun _ => settled_eq_ok_iff

theorem settled_eq_error_iff_spoils {position : Position} {signal : List α} {e : Failure α} :
    settled stage f position signal = .error e ↔ Spoils stage f position signal e := by
  rw [settled_eq_error_iff]
  constructor
  · rintro (failed | ⟨y, index, value, given, found, rfl⟩)
    · exact .failure failed
    · obtain ⟨before, after, rfl, rfl, finite, notFinite⟩ :=
        Scalar.firstNonFinite_eq_some_iff.mp found
      rw [Nat.zero_add]
      exact .notFinite given finite notFinite
  · intro spoils
    cases spoils with
    | failure failed => exact .inl failed
    | @notFinite before after value given finite notFinite =>
        refine .inr ⟨_, before.length, value, given, ?_, rfl⟩
        exact Scalar.firstNonFinite_eq_some_iff.mpr
          ⟨before, after, rfl, (Nat.zero_add _).symm, finite, notFinite⟩

/-- All grids count alike in every way, and a function run over the entries of any of them keeps
angles, order and positions, or fails as it does at the first entry that spoils it. -/
theorem remaps_tryMap :
    (∀ g : Grid (List α), g.Counted) ∧
      ∀ (g : Grid (List α)) (stage : Stage)
        (f : Position → List α → Except (Failure α) (List α)),
        g.Remaps stage f (g.tryMap stage f) := by
  refine ⟨counted, fun g stage f => ?_⟩
  have outline (h : Grid (List α)) (mapped : g.tryMap stage f = .ok h) : h.outline = g.outline :=
    (tryMap_eq_ok_iff.mp mapped).1
  refine ⟨?_, fun h mapped => elevations_eq_of_outline (outline h mapped),
    fun h mapped => azimuths_eq_of_outline (outline h mapped),
    fun h mapped => azimuthCounts_eq_of_outline (outline h mapped), ?_, ?_, ?_, ?_⟩
  · exact exists_traverse_iff.trans (forall₂_congr fun _ _ => exists_settled_iff)
  · intro h mapped
    rw [map_contents_eq, azimuthCounts_eq_of_outline (outline h mapped)]
  · intro h mapped
    rw [size_eq_sum_azimuthCounts, size_eq_sum_azimuthCounts,
      azimuthCounts_eq_of_outline (outline h mapped)]
  · intro h mapped k position signal place
    obtain ⟨y, given, image⟩ := (tryMap_eq_ok_iff.mp mapped).2.getElem?_eq place
    exact ⟨y, (settled_eq_ok_iff.mp given).1, image⟩
  · intro e
    rw [show g.tryMap stage f = g.traverse (settled stage f) from rfl, traverse_eq_error_iff,
      FirstError.iff_exists]
    simp only [exists_settled_iff, settled_eq_error_iff_spoils]

/-- Rows of two entries, none and one. -/
theorem remaps_tryMap_ragged :
    let g : Grid (List Float) :=
      ⟨[⟨-10, [(0, [1.0, 0.5]), (180, [])]⟩, ⟨5, []⟩, ⟨20, [(90, [-1.0])]⟩]⟩
    let f : Position → List Float → Except (Failure Float) (List Float) :=
      fun _ signal => .ok (0.25 :: signal)
    ∃ h, g.tryMap .clamp f = .ok h ∧ h.azimuthCounts = [2, 0, 1] ∧
      h.positioned[2]? = some (⟨20, 90, 2, 0, 1⟩, [0.25, -1.0]) := by
  intro g f
  have mapped : g.tryMap .clamp f = .ok
      ⟨[⟨-10, [(0, [0.25, 1.0, 0.5]), (180, [0.25])]⟩, ⟨5, []⟩, ⟨20, [(90, [0.25, -1.0])]⟩]⟩ := by
    rfl
  have remaps := remaps_tryMap.2 g .clamp f
  obtain ⟨y, given, image⟩ := remaps.entry _ mapped 2 ⟨20, 90, 2, 0, 1⟩ [-1.0] rfl
  cases given
  exact ⟨_, mapped, remaps.azimuthCounts _ mapped, image⟩

end Grid

end Binaural
