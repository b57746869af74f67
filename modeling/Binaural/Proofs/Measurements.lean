import Binaural.Artifact
import Binaural.Compile
import Binaural.Proofs.Ascending
import Mathlib.Data.Prod.Lex

/-!
Which measurements make a dataset, and which dataset they make.

A grid is seen through its entries with their angles (`Grid.entries`). Insertion adds one entry to
them and fails exactly at an angle that has one; an ascending grid is determined by them in any
order (`Grid.Ascending.eq_of_perm`).

* `Dataset.Comprises` says that a dataset holds measurements, each of them sound, and nothing else.
* `Dataset.ofMeasurements_eq_ok_iff`: a dataset is made of measurements exactly if it comprises
  them. Nothing in that depends on the order of the measurements, so no permutation of them makes
  another dataset, another compilation or another artifact (`artifact_of_perm`).
-/

namespace Binaural

variable {α β : Type}

/-! ## Entries with their angles -/

namespace Grid

/-- The entries of rows, each with its elevation and azimuth. -/
def entriesOf (rows : List (Row β)) : List ((Int × Int) × β) :=
  rows.flatMap fun row => row.entries.map fun entry => ((row.elevation, entry.1), entry.2)

/-- The entries of a grid, each with its elevation and azimuth. -/
def entries (g : Grid β) : List ((Int × Int) × β) := entriesOf g.rows

theorem entriesOf_cons (row : Row β) (rest : List (Row β)) :
    entriesOf (row :: rest) =
      (row.entries.map fun entry => ((row.elevation, entry.1), entry.2)) ++ entriesOf rest :=
  List.flatMap_cons

theorem entries_map {γ : Type} (k : β → γ) (g : Grid β) :
    (g.map k).entries = g.entries.map fun entry => (entry.1, k entry.2) := by
  obtain ⟨rows⟩ := g
  change entriesOf (rows.map _) = (entriesOf rows).map _
  induction rows with
  | nil => rfl
  | cons row rest ih =>
      rw [List.map_cons, entriesOf_cons, entriesOf_cons, ih, List.map_append, List.map_map,
        List.map_map]
      rfl

theorem map_snd_entries (g : Grid β) : g.entries.map Prod.snd = g.values := by
  rw [entries, entriesOf, List.map_flatMap, values]
  refine List.flatMap_congr fun row _ => ?_
  rw [List.map_map]
  rfl

theorem mem_map_fst_entriesOf {rows : List (Row β)} {elevation azimuth : Int} :
    (elevation, azimuth) ∈ (entriesOf rows).map Prod.fst ↔
      ∃ row ∈ rows, row.elevation = elevation ∧ azimuth ∈ row.entries.map Prod.fst := by
  simp only [entriesOf, List.map_flatMap, List.map_map, List.mem_flatMap, List.mem_map,
    Function.comp_apply, Prod.mk.injEq]
  constructor
  · rintro ⟨row, member, entry, place, rfl, rfl⟩
    exact ⟨row, member, rfl, entry, place, rfl⟩
  · rintro ⟨row, member, rfl, entry, place, rfl⟩
    exact ⟨row, member, entry, place, rfl, rfl⟩

theorem RowsAscend.tail {row : Row β} {rest : List (Row β)} (ascend : RowsAscend (row :: rest)) :
    RowsAscend rest :=
  ⟨(List.pairwise_cons.mp ascend.1).2,
    fun row member => ascend.2 row (List.mem_cons_of_mem _ member)⟩

/-! ## Insertion -/

/-- An inserted entry joins the others. -/
theorem perm_of_insertAngle? {elevation azimuth : Int} {x : β} {rows more : List (Row β)}
    (inserted : insertAngle? elevation azimuth x rows = some more) :
    (entriesOf more).Perm (((elevation, azimuth), x) :: entriesOf rows) := by
  fun_induction insertAngle? elevation azimuth x rows generalizing more with
  | case1 =>
      cases inserted
      exact .refl _
  | case2 =>
      cases inserted
      exact .refl _
  | case3 row rest _ same =>
      obtain ⟨entries, insertedEntry, rfl⟩ := Option.map_eq_some_iff.mp inserted
      have joined := (Row.perm_of_insertAzimuth? insertedEntry).map fun entry =>
        ((elevation, entry.1), entry.2)
      rw [entriesOf_cons, entriesOf_cons, ← same]
      exact joined.append_right _
  | case4 row rest _ _ ih =>
      obtain ⟨tail, insertedTail, rfl⟩ := Option.map_eq_some_iff.mp inserted
      rw [entriesOf_cons, entriesOf_cons]
      exact ((ih insertedTail).append_left _).trans List.perm_middle

end Grid

/-- Insertion into ascending entries fails exactly if the azimuth has an entry. -/
theorem Row.insertAzimuth?_eq_none_iff {azimuth : Int} {x : β} {entries : List (Int × β)}
    (ascending : entries.Pairwise fun a b => a.1 < b.1) :
    insertAzimuth? azimuth x entries = none ↔ azimuth ∈ entries.map Prod.fst := by
  fun_induction insertAzimuth? azimuth x entries with
  | case1 => simp
  | case2 a y rest below =>
      have above : azimuth ∉ rest.map Prod.fst := by
        intro member
        obtain ⟨entry, place, rfl⟩ := List.mem_map.mp member
        exact lt_asymm below ((List.pairwise_cons.mp ascending).1 entry place)
      simp [below.ne, above]
  | case3 => simp
  | case4 a y rest notBelow different ih =>
      rw [Option.map_eq_none_iff, ih (List.pairwise_cons.mp ascending).2, List.map_cons,
        List.mem_cons]
      simp [different]

namespace Grid

/-- Insertion into ascending rows fails exactly if the angle has an entry. -/
theorem insertAngle?_eq_none_iff {elevation azimuth : Int} {x : β} {rows : List (Row β)}
    (ascend : RowsAscend rows) :
    insertAngle? elevation azimuth x rows = none ↔
      (elevation, azimuth) ∈ (entriesOf rows).map Prod.fst := by
  rw [mem_map_fst_entriesOf]
  fun_induction insertAngle? elevation azimuth x rows with
  | case1 => simp
  | case2 row rest below =>
      simp only [reduceCtorEq, false_iff, not_exists, not_and]
      intro other member same
      rcases List.mem_cons.mp member with rfl | later
      · omega
      · have := (List.pairwise_cons.mp ascend.1).1 other later
        omega
  | case3 row rest _ same =>
      rw [Option.map_eq_none_iff,
        Row.insertAzimuth?_eq_none_iff (ascend.2 row List.mem_cons_self).1]
      constructor
      · exact fun place => ⟨row, List.mem_cons_self, same.symm, place⟩
      · rintro ⟨other, member, equal, place⟩
        rcases List.mem_cons.mp member with rfl | later
        · exact place
        · have := (List.pairwise_cons.mp ascend.1).1 other later
          omega
  | case4 row rest notBelow different ih =>
      rw [Option.map_eq_none_iff, ih ascend.tail]
      constructor
      · rintro ⟨other, later, found⟩
        exact ⟨other, List.mem_cons_of_mem _ later, found⟩
      · rintro ⟨other, member, same, place⟩
        rcases List.mem_cons.mp member with rfl | later
        · exact absurd same.symm different
        · exact ⟨other, later, same, place⟩

theorem perm_of_insert? {g h : Grid β} {elevation azimuth : Int} {x : β}
    (inserted : g.insert? elevation azimuth x = some h) :
    h.entries.Perm (((elevation, azimuth), x) :: g.entries) := by
  obtain ⟨rows, insertedRows, rfl⟩ := Option.map_eq_some_iff.mp inserted
  exact perm_of_insertAngle? insertedRows

theorem insert?_eq_none_iff {g : Grid β} {elevation azimuth : Int} {x : β}
    (ascending : g.Ascending) :
    g.insert? elevation azimuth x = none ↔
      (elevation, azimuth) ∈ g.entries.map Prod.fst := by
  rw [insert?, Option.map_eq_none_iff, insertAngle?_eq_none_iff (ascending_iff.mp ascending),
    entries]

/-! ## Ascending grids are determined by their entries -/

/-- The entries of ascending rows stand in the order of their angles. -/
theorem RowsAscend.pairwise_entriesOf {rows : List (Row β)} (ascend : RowsAscend rows) :
    (entriesOf rows).Pairwise fun a b => toLex a.1 < toLex b.1 := by
  induction rows with
  | nil => exact .nil
  | cons row rest ih =>
      obtain ⟨elevations, azimuths⟩ := ascend
      rw [List.pairwise_cons] at elevations
      rw [List.forall_mem_cons] at azimuths
      rw [entriesOf_cons, List.pairwise_append, List.pairwise_map]
      refine ⟨azimuths.1.1.imp fun below => ?_, ih ⟨elevations.2, azimuths.2⟩, ?_⟩
      · exact Prod.Lex.toLex_lt_toLex.mpr (.inr ⟨rfl, below⟩)
      · intro entry here other there
        obtain ⟨source, -, rfl⟩ := List.mem_map.mp here
        obtain ⟨row', row_mem, there⟩ := List.mem_flatMap.mp there
        obtain ⟨source', -, rfl⟩ := List.mem_map.mp there
        exact Prod.Lex.toLex_lt_toLex.mpr (.inl (elevations.1 row' row_mem))

theorem Ascending.pairwise_entries {g : Grid β} (ascending : g.Ascending) :
    g.entries.Pairwise fun a b => toLex a.1 < toLex b.1 :=
  (ascending_iff.mp ascending).pairwise_entriesOf

/-- No angle of an ascending grid has two entries. -/
theorem Ascending.nodup_angles {g : Grid β} (ascending : g.Ascending) :
    (g.entries.map Prod.fst).Nodup := by
  rw [List.nodup_iff_pairwise_ne, List.pairwise_map]
  exact ascending.pairwise_entries.imp fun below same => below.ne (congrArg toLex same)

/-- The entries of one elevation among those of ascending rows of which it is the first. -/
theorem filter_entriesOf_cons {row : Row β} {rest : List (Row β)}
    (ascend : RowsAscend (row :: rest)) :
    (entriesOf (row :: rest)).filter (fun entry => entry.1.1 == row.elevation) =
      row.entries.map fun entry => ((row.elevation, entry.1), entry.2) := by
  rw [entriesOf_cons, List.filter_append, List.filter_eq_self.mpr, List.filter_eq_nil_iff.mpr,
    List.append_nil]
  · intro entry later same
    obtain ⟨row', row_mem, later⟩ := List.mem_flatMap.mp later
    obtain ⟨source, -, rfl⟩ := List.mem_map.mp later
    have := (List.pairwise_cons.mp ascend.1).1 row' row_mem
    exact this.ne' (by simpa using same)
  · intro entry here
    obtain ⟨source, -, rfl⟩ := List.mem_map.mp here
    simp

/-- Ascending rows are determined by their entries. -/
theorem RowsAscend.eq_of_entriesOf {rows others : List (Row β)} (ascend : RowsAscend rows)
    (ascend' : RowsAscend others) (same : entriesOf rows = entriesOf others) : rows = others := by
  induction rows generalizing others with
  | nil =>
      cases others with
      | nil => rfl
      | cons row' rest' =>
          have inhabited := (ascend'.2 row' List.mem_cons_self).2
          rw [entriesOf_cons] at same
          simp [entriesOf, inhabited] at same
  | cons row rest ih =>
      cases others with
      | nil =>
          have inhabited := (ascend.2 row List.mem_cons_self).2
          rw [entriesOf_cons] at same
          simp [entriesOf, inhabited] at same
      | cons row' rest' =>
          -- the first entries agree, and with them the first elevations
          have elevation : row.elevation = row'.elevation := by
            have inhabited := (ascend.2 row List.mem_cons_self).2
            have inhabited' := (ascend'.2 row' List.mem_cons_self).2
            obtain ⟨entry, entries, first⟩ := List.exists_cons_of_ne_nil inhabited
            obtain ⟨entry', entries', first'⟩ := List.exists_cons_of_ne_nil inhabited'
            rw [entriesOf_cons, entriesOf_cons, first, first'] at same
            simp only [List.map_cons, List.cons_append, List.cons.injEq, Prod.mk.injEq] at same
            exact same.1.1.1
          have mapped := filter_entriesOf_cons ascend
          rw [same, elevation, filter_entriesOf_cons ascend'] at mapped
          have entries : row.entries = row'.entries := by
            refine List.map_injective_iff.mpr (fun a b equal => ?_) mapped.symm
            simp only [Prod.mk.injEq, true_and] at equal
            exact Prod.ext equal.1 equal.2
          rw [entriesOf_cons, entriesOf_cons, elevation, entries, List.append_cancel_left_eq]
            at same
          have rowEq : row = row' := by
            cases row
            cases row'
            cases elevation
            cases entries
            rfl
          rw [rowEq, ih ascend.tail ascend'.tail same]

/-- Ascending grids that hold the same entries are one. -/
theorem Ascending.eq_of_perm {g h : Grid β} (ascending : g.Ascending) (ascending' : h.Ascending)
    (same : g.entries.Perm h.entries) : g = h := by
  have entries : g.entries = h.entries :=
    same.eq_of_pairwise (fun a b _ _ below above => absurd above (lt_asymm below))
      ascending.pairwise_entries ascending'.pairwise_entries
  exact congrArg Grid.mk
    ((ascending_iff.mp ascending).eq_of_entriesOf (ascending_iff.mp ascending') entries)

end Grid

/-! ## Accepted measurements -/

/-- A measurement with its angle, as the entry of a grid. -/
def Measurement.entry (m : Measurement α) : (Int × Int) × List α :=
  ((m.elevation, m.azimuth), m.samples)

variable [Scalar α]

/-- A measurement of a length: it has samples, as many as the length says, and all of them lie
between -1 and 1. -/
structure Measurement.Sound (length : Nat) (m : Measurement α) : Prop where
  nonempty : m.samples ≠ []
  length_eq : m.samples.length = length
  inRange : ∀ x ∈ m.samples, -1 ≤ x ∧ x ≤ 1

namespace Dataset

theorem firstOutOfRange?_eq (start : Nat) (samples : List α) :
    firstOutOfRange? start samples =
      firstFailing? (fun x => decide (-1 ≤ x ∧ x ≤ 1)) start samples := by
  induction samples generalizing start with
  | nil => rfl
  | cons x rest ih =>
      rw [firstOutOfRange?, firstFailing?, ih]
      simp only [decide_eq_true_eq]

theorem firstOutOfRange?_eq_none_iff {start : Nat} {samples : List α} :
    firstOutOfRange? start samples = none ↔ ∀ x ∈ samples, -1 ≤ x ∧ x ≤ 1 := by
  simp only [firstOutOfRange?_eq, firstFailing?_eq_none_iff, decide_eq_true_eq]

/-- A measurement is taken if it is sound and its angle is new. -/
theorem add_eq_ok_iff {length : Nat} {g h : Grid (List α)} {m : Measurement α} :
    add length g m = .ok h ↔
      m.Sound length ∧ g.insert? m.elevation m.azimuth m.samples = some h := by
  constructor
  · intro added
    refine ⟨?_, insert?_of_add added⟩
    unfold add at added
    split at added
    · cases added
    · rename_i nonempty
      split at added
      · cases added
      · rename_i length_eq
        split at added
        · cases added
        · rename_i inRange
          exact ⟨by simpa using nonempty, not_not.mp length_eq,
            firstOutOfRange?_eq_none_iff.mp inRange⟩
  · rintro ⟨⟨nonempty, length_eq, inRange⟩, inserted⟩
    rw [add, if_neg (by simpa using nonempty), if_neg (not_not.mpr length_eq),
      firstOutOfRange?_eq_none_iff.mpr inRange]
    dsimp only
    rw [inserted]

/-- Measurements are taken in turn if each is sound; what they give is the ascending grid that holds
them besides what was there. -/
theorem addAll_eq_ok_iff {length : Nat} {g h : Grid (List α)} {ms : List (Measurement α)}
    (ascending : g.Ascending) :
    addAll length g ms = .ok h ↔
      (∀ m ∈ ms, m.Sound length) ∧ h.Ascending ∧
        h.entries.Perm (ms.map Measurement.entry ++ g.entries) := by
  induction ms generalizing g with
  | nil =>
      rw [addAll, Except.ok.injEq]
      constructor
      · rintro rfl
        exact ⟨by simp, ascending, .refl _⟩
      · rintro ⟨-, ascending', same⟩
        exact ascending.eq_of_perm ascending' same.symm
  | cons m rest ih =>
      rw [addAll, List.forall_mem_cons, List.map_cons, List.cons_append]
      constructor
      · intro added
        split at added
        · cases added
        · rename_i next addedFirst
          obtain ⟨sound, inserted⟩ := add_eq_ok_iff.mp addedFirst
          obtain ⟨sounds, ascending', same⟩ := (ih (ascending.of_insert? inserted)).mp added
          have joined := (Grid.perm_of_insert? inserted).append_left (rest.map Measurement.entry)
          exact ⟨⟨sound, sounds⟩, ascending', (same.trans joined).trans List.perm_middle⟩
      · rintro ⟨⟨sound, sounds⟩, ascending', same⟩
        -- all angles of the outcome differ, so the angle of the first measurement is new
        have angles := (same.map Prod.fst).nodup ascending'.nodup_angles
        rw [List.map_cons, List.nodup_cons, List.map_append, List.mem_append, not_or] at angles
        cases inserted : g.insert? m.elevation m.azimuth m.samples with
        | none => exact absurd ((Grid.insert?_eq_none_iff ascending).mp inserted) angles.1.2
        | some next =>
            have joined := (Grid.perm_of_insert? inserted).append_left (rest.map Measurement.entry)
            rw [add_eq_ok_iff.mpr ⟨sound, inserted⟩]
            exact (ih (ascending.of_insert? inserted)).mpr
              ⟨sounds, ascending', (same.trans List.perm_middle.symm).trans joined.symm⟩

theorem addAll_empty_eq_ok_iff {length : Nat} {grid : Grid (List α)}
    {ms : List (Measurement α)} :
    addAll length ⟨[]⟩ ms = .ok grid ↔
      (∀ m ∈ ms, m.Sound length) ∧ grid.Ascending ∧
        grid.entries.Perm (ms.map Measurement.entry) := by
  have noEntries : (⟨[]⟩ : Grid (List α)).entries = [] := rfl
  rw [addAll_eq_ok_iff Grid.ascending_empty, noEntries, List.append_nil]

/-- A dataset that holds measurements, all of them sound, and nothing else. -/
structure Comprises (d : Dataset α) (ms : List (Measurement α)) : Prop where
  ascending : d.grid.Ascending
  entries : d.grid.entries.Perm (ms.map Measurement.entry)
  sound : ∀ m ∈ ms, m.Sound d.measurementLength
  layout : ElevationLayout.ofAngles (α := α) d.grid.elevations = .ok d.layout

variable {d : Dataset α} {ms ms' : List (Measurement α)}

/-- The measurements may come in any order. -/
theorem Comprises.of_perm (comprises : d.Comprises ms) (permuted : ms.Perm ms') :
    d.Comprises ms' where
  ascending := comprises.ascending
  entries := comprises.entries.trans (permuted.map _)
  sound m member := comprises.sound m (permuted.mem_iff.mpr member)
  layout := comprises.layout

theorem comprises_iff_of_perm (permuted : ms.Perm ms') : d.Comprises ms ↔ d.Comprises ms' :=
  ⟨fun comprises => comprises.of_perm permuted, fun comprises => comprises.of_perm permuted.symm⟩

/-- There are measurements in a dataset, since it has elevations. -/
theorem Comprises.ne_nil (comprises : d.Comprises ms) : ms ≠ [] := by
  rintro rfl
  obtain ⟨first, second, rest, elevations, -⟩ := ElevationLayout.of_ofAngles comprises.layout
  cases rows : d.grid.rows with
  | nil => simp [Grid.elevations, rows] at elevations
  | cons row others =>
      have inhabited :=
        ((Grid.ascending_iff.mp comprises.ascending).2 row (by simp [rows])).2
      have empty := comprises.entries.eq_nil
      simp [Grid.entries, Grid.entriesOf, rows, inhabited] at empty

/-- All measurements are as long as the first. -/
theorem Comprises.commonLength_eq (comprises : d.Comprises ms) :
    commonLength ms = d.measurementLength := by
  cases ms with
  | nil => exact (comprises.ne_nil rfl).elim
  | cons m rest => exact (comprises.sound m List.mem_cons_self).length_eq

/-- The samples at an angle are those of a sound measurement. -/
theorem Comprises.inRange (comprises : d.Comprises ms) {entry : Position × List α}
    (member : entry ∈ d.grid.positioned) : ∀ x ∈ entry.2, -1 ≤ x ∧ x ≤ 1 := by
  have values : entry.2 ∈ d.grid.entries.map Prod.snd := by
    rw [Grid.map_snd_entries, ← Grid.map_snd_positioned]
    exact List.mem_map_of_mem member
  obtain ⟨found, inside, same⟩ := List.mem_map.mp values
  obtain ⟨m, measured, rfl⟩ := List.mem_map.mp (comprises.entries.mem_iff.mp inside)
  rw [← same]
  exact (comprises.sound m measured).inRange

/-- A dataset is made of measurements exactly if it comprises them. -/
theorem ofMeasurements_eq_ok_iff : ofMeasurements ms = .ok d ↔ d.Comprises ms := by
  constructor
  · intro accepted
    unfold ofMeasurements at accepted
    dsimp only at accepted
    split at accepted
    · cases accepted
    · rename_i grid added
      split at accepted
      · cases accepted
      · rename_i layout laidOut
        cases accepted
        obtain ⟨sound, ascending, entries⟩ := addAll_empty_eq_ok_iff.mp added
        exact ⟨ascending, entries, sound, laidOut⟩
  · intro comprises
    have added : addAll (commonLength ms) ⟨[]⟩ ms = .ok d.grid := by
      rw [addAll_empty_eq_ok_iff, comprises.commonLength_eq]
      exact ⟨comprises.sound, comprises.ascending, comprises.entries⟩
    unfold ofMeasurements
    dsimp only
    rw [added]
    dsimp only
    rw [comprises.layout, comprises.commonLength_eq]

/-- Measurements in another order make the same dataset, or none either. -/
theorem ofMeasurements_eq_ok_iff_of_perm (permuted : ms.Perm ms') :
    ofMeasurements ms = .ok d ↔ ofMeasurements ms' = .ok d := by
  rw [ofMeasurements_eq_ok_iff, ofMeasurements_eq_ok_iff, comprises_iff_of_perm permuted]

end Dataset

/-! ## Artifacts -/

/-- The text of the artifact of a dataset: compiled, and put into a format with the extras. -/
def Dataset.artifact (d : Dataset Float) (c : Config Float) (extras : Extras)
    (format : OutputFormat) : Except (Failure Float) String := do
  let table ← compile d c
  Failure.ofError (Artifact.render (some table) extras format)

/-- The order of measurements does not matter. Both orders are accepted or both are refused; and
what is accepted is one dataset, which compiles to one table of impulses or to one failure, and has
one artifact. -/
theorem artifact_of_perm {ms ms' : List (Measurement Float)} (permuted : ms.Perm ms') :
    ((∃ d, Dataset.ofMeasurements ms = .ok d) ↔ ∃ d, Dataset.ofMeasurements ms' = .ok d) ∧
      ∀ d d', Dataset.ofMeasurements ms = .ok d → Dataset.ofMeasurements ms' = .ok d' →
        d = d' ∧
          ∀ (c : Config Float) (extras : Extras) (format : OutputFormat),
            compile d c = compile d' c ∧
              d.artifact c extras format = d'.artifact c extras format := by
  have same := fun d => Dataset.ofMeasurements_eq_ok_iff_of_perm (d := d) permuted
  refine ⟨exists_congr same, fun d d' accepted accepted' => ?_⟩
  have one : d = d' := Except.ok.inj (((same d).mp accepted).symm.trans accepted')
  rw [one]
  exact ⟨rfl, fun c extras format => ⟨rfl, rfl⟩⟩

/-- Three measurements over two elevations, the highest first and the lowest azimuth last. -/
theorem artifact_of_perm_three :
    let m : Measurement Float := ⟨10, 0, [0.5, -0.0]⟩
    let m' : Measurement Float := ⟨0, 90, [-1, 1]⟩
    let m'' : Measurement Float := ⟨0, -90, [0.0, 0.25]⟩
    ∃ d, Dataset.ofMeasurements [m, m', m''] = .ok d ∧
      Dataset.ofMeasurements [m'', m, m'] = .ok d ∧
      d.grid.rows.map (·.elevation) = [0, 10] ∧
      ∀ d', Dataset.ofMeasurements [m'', m, m'] = .ok d' →
        ∀ c extras format, compile d c = compile d' c ∧
          d.artifact c extras format = d'.artifact c extras format := by
  intro m m' m''
  have permuted : [m, m', m''].Perm [m'', m, m'] := by
    exact @List.perm_append_comm _ [m, m'] [m'']
  have accepted : Dataset.ofMeasurements [m, m', m''] = .ok
      ⟨⟨[⟨0, [(-90, [0.0, 0.25]), (90, [-1, 1])]⟩, ⟨10, [(0, [0.5, -0.0])]⟩]⟩,
        ⟨[0, 10], 10, 0, 10⟩, 2⟩ := by rfl
  have accepted' : Dataset.ofMeasurements [m'', m, m'] = .ok
      ⟨⟨[⟨0, [(-90, [0.0, 0.25]), (90, [-1, 1])]⟩, ⟨10, [(0, [0.5, -0.0])]⟩]⟩,
        ⟨[0, 10], 10, 0, 10⟩, 2⟩ := by rfl
  refine ⟨_, accepted, accepted', rfl, fun d' given => ?_⟩
  exact ((artifact_of_perm permuted).2 _ d' accepted given).2

end Binaural
