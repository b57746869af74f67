import Binaural.Proofs.Rejections

/-!
Datasets hold their measurements in order, and places are ranks.

The indices of a place are positions in a list of rows and in a row. Where keys ascend, the position
of a key is the number of keys below it (`countP_lt_of_getElem?`), so in an ascending grid the
indices are counts that do not mention rows.

* `Grid.Ascending.find?_eq_some_iff`: the entry at an angle is the one among the entries.
* `Grid.Ascending.positioned_eq`: the places of an ascending grid are read off its entries.
* `Dataset.Presents` says how a dataset presents measurements: what its rows are, what is found at
  an angle, and in which order and with which ranks the entries come.
* `Dataset.presents_of_accepted`: accepted measurements are presented so.
-/

namespace Binaural

variable {α β : Type}

/-! ## Ascending keys -/

/-- In ascending numbers, as many are below one as stand before it. -/
theorem countP_lt_of_getElem? {xs : List Int} (ascending : xs.Pairwise (· < ·)) {i : Nat} {x : Int}
    (place : xs[i]? = some x) : xs.countP (· < x) = i := by
  induction xs generalizing i with
  | nil => cases place
  | cons y rest ih =>
      rw [List.pairwise_cons] at ascending
      cases i with
      | zero =>
          cases place
          refine List.countP_eq_zero.mpr fun z member => ?_
          rcases List.mem_cons.mp member with rfl | later
          · simp
          · simpa using (ascending.1 z later).le
      | succ i =>
          rw [List.getElem?_cons_succ] at place
          have below : y < x := ascending.1 x (List.mem_of_getElem? place)
          rw [List.countP_cons, ih ascending.2 place, if_pos (by simpa using below)]

/-- Where keys ascend, the one that is found is the one that has the key. -/
theorem find?_key_eq_some_iff {key : β → Int} {xs : List β}
    (ascending : xs.Pairwise fun a b => key a < key b) {k : Int} {x : β} :
    (xs.find? fun y => key y == k) = some x ↔ x ∈ xs ∧ key x = k := by
  constructor
  · intro found
    exact ⟨List.mem_of_find?_eq_some found, by simpa using List.find?_some found⟩
  · rintro ⟨member, rfl⟩
    induction xs with
    | nil => cases member
    | cons y rest ih =>
        rw [List.pairwise_cons] at ascending
        rcases List.mem_cons.mp member with rfl | later
        · rw [List.find?_cons_of_pos (by simp)]
        · have below := ascending.1 x later
          rw [List.find?_cons_of_neg (by simpa using below.ne), ih ascending.2 later]

namespace Grid

/-! ## Entries at an angle -/

theorem mem_entries {g : Grid β} {elevation azimuth : Int} {x : β} :
    ((elevation, azimuth), x) ∈ g.entries ↔
      ∃ row ∈ g.rows, row.elevation = elevation ∧ (azimuth, x) ∈ row.entries := by
  rw [entries, entriesOf, List.mem_flatMap]
  refine exists_congr fun row => and_congr_right fun _ => ?_
  rw [List.mem_map]
  constructor
  · rintro ⟨entry, member, same⟩
    cases same
    exact ⟨rfl, member⟩
  · rintro ⟨rfl, member⟩
    exact ⟨_, member, rfl⟩

/-- What is found at an angle is the entry that stands there. -/
theorem Ascending.find?_eq_some_iff {g : Grid β} (ascending : g.Ascending)
    {elevation azimuth : Int} {x : β} :
    g.find? elevation azimuth = some x ↔ ((elevation, azimuth), x) ∈ g.entries := by
  obtain ⟨rows, azimuths⟩ := ascending_iff.mp ascending
  rw [find?, Option.bind_eq_some_iff, mem_entries]
  refine exists_congr fun row => ?_
  rw [find?_key_eq_some_iff rows, and_assoc]
  refine and_congr_right fun member => and_congr_right fun _ => ?_
  rw [Option.map_eq_some_iff]
  simp only [find?_key_eq_some_iff (azimuths row member).1]
  constructor
  · rintro ⟨entry, ⟨inside, rfl⟩, rfl⟩
    exact inside
  · exact fun inside => ⟨(azimuth, x), ⟨inside, rfl⟩, rfl⟩

/-- Nothing is found at an angle without an entry. -/
theorem Ascending.find?_eq_none_iff {g : Grid β} (ascending : g.Ascending)
    {elevation azimuth : Int} :
    g.find? elevation azimuth = none ↔ (elevation, azimuth) ∉ g.entries.map Prod.fst := by
  simp only [Option.eq_none_iff_forall_ne_some, ne_eq, ascending.find?_eq_some_iff, List.mem_map,
    not_exists, not_and]
  constructor
  · rintro absent ⟨angle, x⟩ member rfl
    exact absent x member
  · exact fun absent x member => absent _ member rfl

/-- The entries of a row are those of its elevation. -/
theorem Ascending.filter_entries {g : Grid β} (ascending : g.Ascending) {row : Row β}
    (member : row ∈ g.rows) :
    g.entries.filter (fun entry => entry.1.1 == row.elevation) =
      row.entries.map fun entry => ((row.elevation, entry.1), entry.2) := by
  obtain ⟨rows⟩ := g
  have ascend := ascending_iff.mp ascending
  change (entriesOf rows).filter _ = _
  dsimp only at member ascend
  clear ascending
  induction rows with
  | nil => cases member
  | cons first rest ih =>
      rcases List.mem_cons.mp member with rfl | later
      · exact filter_entriesOf_cons ascend
      · have below := (List.pairwise_cons.mp ascend.1).1 row later
        have none : (first.entries.map fun entry => ((first.elevation, entry.1), entry.2)).filter
            (fun entry => entry.1.1 == row.elevation) = [] := by
          rw [List.filter_map, List.map_eq_nil_iff, List.filter_eq_nil_iff]
          exact fun _ _ => by simpa using below.ne
        rw [entriesOf_cons, List.filter_append, none, List.nil_append, ih later ascend.tail]

/-! ## Places as ranks -/

/-- The place of an angle among entries and their elevations, by counting. -/
def rank (elevations : List Int) (angles : List (Int × Int)) (angle : Int × Int) : Position where
  elevation := angle.1
  azimuth := angle.2
  elevationIndex := elevations.countP (· < angle.1)
  azimuthIndex := angles.countP fun other => other.2 < angle.2 && other.1 == angle.1
  azimuthCount := angles.countP fun other => other.1 == angle.1

theorem rank_of_perm {elevations : List Int} {angles angles' : List (Int × Int)}
    (permuted : angles.Perm angles') : rank elevations angles = rank elevations angles' := by
  funext angle
  rw [rank, rank, permuted.countP_eq, permuted.countP_eq]

/-- Every place is that of some entry of some row. -/
theorem exists_of_mem_positioned {g : Grid β} {place : Position × β}
    (member : place ∈ g.positioned) :
    ∃ (i : Nat) (row : Row β) (j : Nat) (entry : Int × β),
      g.rows[i]? = some row ∧ row.entries[j]? = some entry ∧
        place = (⟨row.elevation, entry.1, i, j, row.entries.length⟩, entry.2) := by
  obtain ⟨places, row_mem, place_mem⟩ := List.mem_flatten.mp member
  obtain ⟨i, inside, rfl⟩ := List.mem_mapIdx.mp row_mem
  obtain ⟨j, inside', rfl⟩ := List.mem_mapIdx.mp place_mem
  exact ⟨i, g.rows[i], j, g.rows[i].entries[j], List.getElem?_eq_getElem inside,
    List.getElem?_eq_getElem inside', rfl⟩

/-- In an ascending grid places are ranks. -/
theorem Ascending.eq_rank {g : Grid β} (ascending : g.Ascending) {place : Position × β}
    (member : place ∈ g.positioned) :
    place.1 = rank g.elevations (g.entries.map Prod.fst)
      (place.1.elevation, place.1.azimuth) := by
  obtain ⟨i, row, j, entry, row_place, entry_place, rfl⟩ := exists_of_mem_positioned member
  obtain ⟨rows, azimuths⟩ := ascending_iff.mp ascending
  have row_mem : row ∈ g.rows := List.mem_of_getElem? row_place
  have ofRow := ascending.filter_entries row_mem
  have elevationIndex : g.elevations.countP (· < row.elevation) = i := by
    refine countP_lt_of_getElem? ?_ ?_
    · exact List.pairwise_map.mpr rows
    · rw [Grid.elevations, List.getElem?_map, row_place, Option.map_some]
  have azimuthIndex : (g.entries.map Prod.fst).countP
      (fun other => other.2 < entry.1 && other.1 == row.elevation) = j := by
    rw [List.countP_map]
    change g.entries.countP (fun other => other.1.2 < entry.1 && other.1.1 == row.elevation) = j
    rw [← List.countP_filter, ofRow, List.countP_map]
    have place : (row.entries.map Prod.fst)[j]? = some entry.1 := by
      rw [List.getElem?_map, entry_place, Option.map_some]
    have ranked := countP_lt_of_getElem? (List.pairwise_map.mpr (azimuths row row_mem).1) place
    rwa [List.countP_map] at ranked
  have azimuthCount : (g.entries.map Prod.fst).countP (fun other => other.1 == row.elevation) =
      row.entries.length := by
    rw [List.countP_map, List.countP_eq_length_filter]
    exact (congrArg List.length ofRow).trans (List.length_map _)
  rw [rank, elevationIndex, azimuthIndex, azimuthCount]

end Grid

/-- An entry with the angle of its place. -/
def atAngle (place : Position × β) : (Int × Int) × β :=
  ((place.1.elevation, place.1.azimuth), place.2)

theorem Row.map_atAngle_placed {elevation : Int} {elevationIndex azimuthCount : Nat}
    (azimuthIndex : Nat) (entries : List (Int × β)) :
    (placed elevation elevationIndex azimuthCount azimuthIndex entries).map atAngle =
      entries.map fun entry => ((elevation, entry.1), entry.2) := by
  induction entries generalizing azimuthIndex with
  | nil => rfl
  | cons entry rest ih =>
      obtain ⟨azimuth, x⟩ := entry
      rw [placed, List.map_cons, List.map_cons, ih]
      rfl

namespace Grid

theorem map_atAngle_placed (elevationIndex : Nat) (rows : List (Row β)) :
    (placed elevationIndex rows).map atAngle = entriesOf rows := by
  induction rows generalizing elevationIndex with
  | nil => rfl
  | cons row rest ih =>
      rw [placed, List.map_append, Row.map_atAngle_placed, ih, entriesOf_cons]

theorem map_atAngle_positioned (g : Grid β) : g.positioned.map atAngle = g.entries := by
  rw [positioned_eq_placed, map_atAngle_placed, entries]

/-- The entries of an ascending grid and their ranks are all that its places say. -/
theorem Ascending.positioned_eq {g : Grid β} (ascending : g.Ascending) :
    g.positioned = g.entries.map fun entry =>
      (rank g.elevations (g.entries.map Prod.fst) entry.1, entry.2) := by
  conv_rhs => rw [← map_atAngle_positioned, List.map_map]
  refine (List.map_id' _).symm.trans (List.map_congr_left fun place member => ?_)
  exact Prod.ext (by rw [map_atAngle_positioned]; exact ascending.eq_rank member) rfl

end Grid

/-! ## Datasets in order -/

/-- The elevation and azimuth of a measurement. -/
def Measurement.angle (m : Measurement α) : Int × Int := (m.elevation, m.azimuth)

namespace Dataset

/-- Measurements ordered by their elevations, and by their azimuths at each elevation. -/
def inOrder (ms : List (Measurement α)) : List (Measurement α) :=
  ms.mergeSort fun m m' => toLex m.angle ≤ toLex m'.angle

/-- The measurements at an elevation as the row of a grid. -/
def rowAt (ms : List (Measurement α)) (elevation : Int) : Row (List α) :=
  ⟨elevation, ((inOrder ms).filter fun m => m.elevation == elevation).map fun m =>
    (m.azimuth, m.samples)⟩

/-- How a dataset presents the measurements that it is made of. -/
structure Presents (d : Dataset α) (ms : List (Measurement α)) : Prop where
  /-- Elevations ascend, and so do the azimuths of each, of which there is at least one. -/
  ascending : d.grid.Ascending
  rows : d.grid.rows = (elevationsOf ms).map (rowAt ms)
  layout : d.layout.angles = elevationsOf ms
  size : d.size = ms.length
  length : ∀ m ∈ ms, m.samples.length = d.measurementLength
  find : ∀ elevation azimuth samples,
    d.find? elevation azimuth = some samples ↔ ⟨elevation, azimuth, samples⟩ ∈ ms
  missing : ∀ elevation azimuth,
    d.find? elevation azimuth = none ↔ ∀ m ∈ ms, m.angle ≠ (elevation, azimuth)
  /-- In order no measurement is lost or comes twice. -/
  order : (inOrder ms).Perm ms ∧
    (inOrder ms).Pairwise fun m m' => toLex m.angle < toLex m'.angle
  entries : d.grid.positioned = (inOrder ms).map fun m =>
    (Grid.rank (elevationsOf ms) (ms.map Measurement.angle) m.angle, m.samples)

variable [Scalar α] {d : Dataset α} {ms : List (Measurement α)}

omit [Scalar α] in
theorem perm_inOrder (ms : List (Measurement α)) : (inOrder ms).Perm ms :=
  List.mergeSort_perm _ _

omit [Scalar α] in
theorem mem_map_entry {elevation azimuth : Int} {samples : List α} :
    ((elevation, azimuth), samples) ∈ ms.map Measurement.entry ↔
      ⟨elevation, azimuth, samples⟩ ∈ ms := by
  rw [List.mem_map]
  constructor
  · rintro ⟨m, member, same⟩
    cases same
    exact member
  · exact fun member => ⟨_, member, rfl⟩

/-- No two measurements of a dataset are at one angle, so that their order is strict. -/
theorem Comprises.pairwise_inOrder (comprises : d.Comprises ms) :
    (inOrder ms).Pairwise fun m m' => toLex m.angle < toLex m'.angle := by
  have sorted : (inOrder ms).Pairwise fun m m' => toLex m.angle ≤ toLex m'.angle := by
    have sorted : (inOrder ms).Pairwise fun m m' => decide (toLex m.angle ≤ toLex m'.angle) :=
      List.pairwise_mergeSort (fun a b c => by simpa using le_trans)
        (fun a b => by simpa using le_total _ _) ms
    exact sorted.imp of_decide_eq_true
  have angles : ((inOrder ms).map Measurement.angle).Nodup := by
    have permuted := comprises.entries.trans ((perm_inOrder ms).symm.map Measurement.entry)
    have nodup := (permuted.map Prod.fst).nodup comprises.ascending.nodup_angles
    rwa [List.map_map] at nodup
  rw [List.nodup_iff_pairwise_ne, List.pairwise_map] at angles
  exact (sorted.and angles).imp fun both => lt_of_le_of_ne both.1 fun same =>
    both.2 (toLex_inj.mp same)

/-- The entries of a dataset are its measurements in order. -/
theorem Comprises.entries_eq (comprises : d.Comprises ms) :
    d.grid.entries = (inOrder ms).map Measurement.entry := by
  refine (comprises.entries.trans ((perm_inOrder ms).symm.map _)).eq_of_pairwise
    (fun a b _ _ below above => absurd above (lt_asymm below))
    comprises.ascending.pairwise_entries ?_
  exact List.pairwise_map.mpr comprises.pairwise_inOrder

/-- The rows of a dataset are its measurements in order, elevation by elevation. -/
theorem Comprises.rows_eq (comprises : d.Comprises ms) :
    d.grid.rows = (elevationsOf ms).map (rowAt ms) := by
  rw [← comprises.ascending.elevations_eq comprises.entries, Grid.elevations, List.map_map]
  refine (List.map_id' _).symm.trans (List.map_congr_left fun row member => ?_)
  have ofRow := comprises.ascending.filter_entries member
  rw [comprises.entries_eq, List.filter_map] at ofRow
  have entries := congrArg (List.map fun entry => (entry.1.2, entry.2)) ofRow
  rw [List.map_map, List.map_map] at entries
  have same : row.entries = (rowAt ms row.elevation).entries :=
    (List.map_id' _).symm.trans entries.symm
  exact congrArg (Row.mk row.elevation) same

/-- Accepted measurements are all in the dataset, once and in order, at the places of their
ranks. -/
theorem presents_of_accepted (accepted : ofMeasurements ms = .ok d) : d.Presents ms := by
  have comprises := ofMeasurements_eq_ok_iff.mp accepted
  have elevations := comprises.ascending.elevations_eq comprises.entries
  refine ⟨comprises.ascending, comprises.rows_eq, ?_, ?_, fun m member => ?_, ?_, ?_,
    ⟨perm_inOrder ms, comprises.pairwise_inOrder⟩, ?_⟩
  · obtain ⟨-, -, -, -, angles, -⟩ := ElevationLayout.of_ofAngles comprises.layout
    rw [angles, elevations]
  · rw [size, Grid.size, ← Grid.map_snd_entries, List.length_map, comprises.entries.length_eq,
      List.length_map]
  · exact (comprises.sound m member).length_eq
  · intro elevation azimuth samples
    rw [find?, comprises.ascending.find?_eq_some_iff, comprises.entries.mem_iff, mem_map_entry]
  · intro elevation azimuth
    rw [find?, comprises.ascending.find?_eq_none_iff, (comprises.entries.map Prod.fst).mem_iff,
      List.map_map, List.mem_map]
    exact ⟨fun absent m member same => absent ⟨m, member, same⟩,
      fun absent ⟨m, member, same⟩ => absent m member same⟩
  · have angles : (d.grid.entries.map Prod.fst).Perm (ms.map Measurement.angle) := by
      have permuted := comprises.entries.map Prod.fst
      rwa [List.map_map] at permuted
    rw [comprises.ascending.positioned_eq, Grid.rank_of_perm angles, elevations,
      comprises.entries_eq, List.map_map]
    rfl

/-- Four measurements, the highest elevation and the largest azimuths first. -/
theorem presents_four :
    let ms : List (Measurement Float) :=
      [⟨10, 90, [0.1]⟩, ⟨0, 180, [0.2]⟩, ⟨10, 0, [0.3]⟩, ⟨0, 0, [0.4]⟩]
    ∃ d, ofMeasurements ms = .ok d ∧ d.Presents ms ∧
      d.grid.positioned.map Prod.fst =
        [⟨0, 0, 0, 0, 2⟩, ⟨0, 180, 0, 1, 2⟩, ⟨10, 0, 1, 0, 2⟩, ⟨10, 90, 1, 1, 2⟩] := by
  intro ms
  have accepted : ofMeasurements ms = .ok
      ⟨⟨[⟨0, [(0, [0.4]), (180, [0.2])]⟩, ⟨10, [(0, [0.3]), (90, [0.1])]⟩]⟩,
        ⟨[0, 10], 10, 0, 10⟩, 1⟩ := by rfl
  exact ⟨_, accepted, presents_of_accepted accepted, rfl⟩

end Dataset

end Binaural
