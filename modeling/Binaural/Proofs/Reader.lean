import Binaural.ImpulseTable
import Binaural.Proofs.Elevations
import Mathlib.Algebra.Order.BigOperators.Group.List
import Mathlib.Data.Nat.Basic

/-!
What a renderer recovers from the seven arrays.

A `Reader` has nothing but the arrays: it looks them up by name, places the elevations on an
arithmetic progression, and cuts the samples into stretches by the starts and the common length.

* The starts number the pairs of a row and a place in it, row after row: every number below the size
  belongs to exactly one pair (`ImpulseTable.existsUnique_pair`).
* `ImpulseTable.reader_of_arrays` computes the reader of a compiled dataset.
* `Reader.Recovers` says that a reader finds every elevation and every impulse, and that the
  stretches of different angles divide all samples among them.
-/

namespace Binaural

/-! ## Reading arrays by name -/

/-- The values of the array of unsigned numbers with a name. -/
def ArrayTable.unsigned? (t : ArrayTable) (name : String) : Option (List Nat) :=
  match t.find? name with
  | some (.unsignedInt values) => some (values.map UInt32.toNat)
  | _ => none

/-- The values of the array of signed numbers with a name. -/
def ArrayTable.int? (t : ArrayTable) (name : String) : Option (List Int) :=
  match t.find? name with
  | some (.int values) => some (values.map Int32.toInt)
  | _ => none

/-- The values of the array of floats with a name. -/
def ArrayTable.float? (t : ArrayTable) (name : String) : Option (List Float32) :=
  match t.find? name with
  | some (.float values) => some values
  | _ => none

/-- The one element of a list of one. -/
def only? {β : Type} : List β → Option β
  | [x] => some x
  | _ => none

/-- What a renderer holds of a dataset. -/
structure Reader where
  elevationCount : Nat
  increment : Int
  least : Int
  azimuthCounts : List Nat
  starts : List Nat
  impulseLength : Nat
  impulses : List Float32

namespace Reader

/-- The reader of a table that has the seven arrays. -/
def ofTable? (t : ArrayTable) : Option Reader :=
  (t.unsigned? "hrtf_num_elevs").bind only? |>.bind fun elevationCount =>
  (t.int? "hrtf_elev_increment").bind only? |>.bind fun increment =>
  (t.int? "hrtf_elev_min").bind only? |>.bind fun least =>
  (t.unsigned? "hrtf_num_azimuths").bind fun azimuthCounts =>
  (t.unsigned? "hrtf_azimuth_starts").bind fun starts =>
  (t.unsigned? "hrtf_impulse_length").bind only? |>.bind fun impulseLength =>
  (t.float? "hrtf_impulses").map fun impulses =>
    ⟨elevationCount, increment, least, azimuthCounts, starts, impulseLength, impulses⟩

/-- The `e`-th elevation. -/
def elevation (r : Reader) (e : Nat) : Int := r.least + e * r.increment

/-- Whether elevation `e` has an azimuth `i`. -/
def Has (r : Reader) (e i : Nat) : Prop := ∃ count, r.azimuthCounts[e]? = some count ∧ i < count

/-- Where the impulse at azimuth `i` of elevation `e` begins. -/
def offset (r : Reader) (e i : Nat) : Nat := (r.starts.getD e 0 + i) * r.impulseLength

/-- The impulse at azimuth `i` of elevation `e`. -/
def impulse (r : Reader) (e i : Nat) : List Float32 :=
  (r.impulses.drop (r.offset e i)).take r.impulseLength

/-- The reader finds all that is in a grid. -/
structure Recovers (r : Reader) (g : Grid (List Float)) : Prop where
  /-- The number of elevations, which has 32 bits among the arrays. -/
  elevationCount : g.elevations.length < UInt32.size → r.elevationCount = g.elevations.length
  elevation : ∀ e < r.elevationCount, g.elevations[e]? = some (r.elevation e)
  azimuthCounts : r.azimuthCounts = g.azimuthCounts
  /-- Each stretch has the full length and holds the samples of its own entry. -/
  impulse : ∀ e i, r.Has e i → ∃ row entry,
    g.rows[e]? = some row ∧ row.entries[i]? = some entry ∧
      r.impulse e i = entry.2.map narrow ∧ (r.impulse e i).length = r.impulseLength
  /-- Each sample is in the stretch of one angle and of no other. -/
  stretches : ∀ k < r.impulses.length, ∃! p : Nat × Nat,
    r.Has p.1 p.2 ∧ r.offset p.1 p.2 ≤ k ∧ k < r.offset p.1 p.2 + r.impulseLength

end Reader

/-! ## Rows laid end to end -/

namespace ImpulseTable

/-- A row starts after all entries of the rows before it. -/
theorem startsFrom_eq_map (start : Nat) (counts : List Nat) :
    startsFrom start counts =
      (List.range counts.length).map fun e => start + (counts.take e).sum := by
  induction counts generalizing start with
  | nil => rfl
  | cons count rest ih =>
      rw [startsFrom, ih, List.length_cons, List.range_succ_eq_map, List.map_cons, List.map_map]
      apply congrArg₂ List.cons rfl
      apply List.map_congr_left
      intro e _
      change start + count + _ = start + ((count :: rest).take (e + 1)).sum
      rw [List.take_succ_cons, List.sum_cons, Nat.add_assoc]

theorem getD_startsFrom (start : Nat) {counts : List Nat} {e : Nat} (inside : e < counts.length) :
    (startsFrom start counts).getD e 0 = start + (counts.take e).sum := by
  rw [startsFrom_eq_map, List.getD_eq_getElem?_getD, List.getElem?_map,
    List.getElem?_range inside]
  rfl

/-- All starts are at most the number of entries. -/
theorem le_of_mem_startsFrom {start s : Nat} {counts : List Nat}
    (member : s ∈ startsFrom start counts) : s ≤ start + counts.sum := by
  rw [startsFrom_eq_map] at member
  rcases List.mem_map.mp member with ⟨e, -, rfl⟩
  have fewer : (counts.take e).sum ≤ counts.sum :=
    (List.take_sublist e counts).sum_le_sum fun count _ => count.zero_le
  omega

/-- Every number from the start on and below the end belongs to exactly one place of one row. -/
theorem existsUnique_pair {start : Nat} {counts : List Nat} {k : Nat}
    (lower : start ≤ k) (upper : k < start + counts.sum) :
    ∃! p : Nat × Nat,
      (∃ count, counts[p.1]? = some count ∧ p.2 < count) ∧
        (startsFrom start counts).getD p.1 0 + p.2 = k := by
  induction counts generalizing start with
  | nil => simp at upper; omega
  | cons count rest ih =>
      rw [List.sum_cons] at upper
      rcases Nat.lt_or_ge k (start + count) with first | later
      · refine ⟨(0, k - start), ⟨⟨count, rfl, by simp; omega⟩, by simp [startsFrom]; omega⟩, ?_⟩
        rintro ⟨e, i⟩ ⟨⟨n, row, place⟩, sum⟩
        cases e with
        | zero =>
            simp only [startsFrom, List.getD_cons_zero] at sum
            exact Prod.ext rfl (by simp; omega)
        | succ e =>
            rw [List.getElem?_cons_succ] at row
            have inside : e < rest.length := (List.getElem?_eq_some_iff.mp row).1
            simp only [startsFrom, List.getD_cons_succ] at sum
            rw [getD_startsFrom _ inside] at sum
            omega
      · obtain ⟨⟨e, i⟩, ⟨⟨n, row, place⟩, sum⟩, unique⟩ := ih later (by omega)
        refine ⟨(e + 1, i), ⟨⟨n, by simpa using row, place⟩, by simpa [startsFrom] using sum⟩, ?_⟩
        rintro ⟨e', i'⟩ ⟨⟨n', row', place'⟩, sum'⟩
        cases e' with
        | zero =>
            simp only [List.getElem?_cons_zero, Option.some.injEq] at row'
            simp only [startsFrom, List.getD_cons_zero] at sum' place'
            omega
        | succ e' =>
            have same := unique (e', i')
              ⟨⟨n', by simpa using row', place'⟩, by simpa [startsFrom] using sum'⟩
            simp only [Prod.mk.injEq] at same ⊢
            exact ⟨by omega, same.2⟩

end ImpulseTable

/-! ## Signals laid end to end -/

/-- Where `k` signals of one length end. -/
theorem sum_take_length_of_uniform {β : Type} {length k : Nat} {signals : List (List β)}
    (uniform : ∀ signal ∈ signals, signal.length = length) (inside : k ≤ signals.length) :
    ((signals.map List.length).take k).sum = k * length := by
  have lengths : signals.map List.length = List.replicate signals.length length := by
    rw [List.eq_replicate_iff]
    refine ⟨by simp, fun n member => ?_⟩
    obtain ⟨signal, signalMember, rfl⟩ := List.mem_map.mp member
    exact uniform signal signalMember
  rw [lengths, List.take_replicate, Nat.min_eq_left inside, List.sum_replicate_nat]

/-- Signals of one length that are laid end to end can be cut out again. -/
theorem take_drop_flatten_of_uniform {β : Type} {length k : Nat} {signals : List (List β)}
    (uniform : ∀ signal ∈ signals, signal.length = length) (inside : k < signals.length) :
    (signals.flatten.drop (k * length)).take length = signals[k] := by
  have cut : signals[k].length = length := uniform _ (List.getElem_mem inside)
  rw [← sum_take_length_of_uniform uniform inside.le, List.drop_sum_flatten,
    List.drop_eq_getElem_cons inside, List.flatten_cons, List.take_left' cut]

theorem length_flatten_of_uniform {β : Type} {length : Nat} {signals : List (List β)}
    (uniform : ∀ signal ∈ signals, signal.length = length) :
    signals.flatten.length = signals.length * length := by
  have whole := sum_take_length_of_uniform uniform (Nat.le_refl _)
  rw [← List.length_map List.length, List.take_length] at whole
  rw [List.length_flatten, whole, List.length_map]

/-! ## Entries of a grid -/

namespace Grid

variable {β : Type}

theorem size_eq_sum_azimuthCounts (g : Grid β) : g.size = g.azimuthCounts.sum := by
  unfold size values azimuthCounts
  rw [List.length_flatMap]
  simp

/-- Where all signals have one length, it is the length of the entries. -/
theorem length_eq_entryLength {g : Grid (List β)} {length : Nat}
    (uniform : ∀ signal ∈ g.values, signal.length = length) :
    ∀ signal ∈ g.values, signal.length = g.entryLength := by
  intro signal member
  unfold entryLength
  cases values_eq : g.values with
  | nil => rw [values_eq] at member; cases member
  | cons first rest =>
      rw [uniform signal member]
      exact (uniform first (by simp [values_eq])).symm

theorem entryLength_le {g : Grid (List β)} {length : Nat}
    (uniform : ∀ signal ∈ g.values, signal.length = length) : g.entryLength ≤ length := by
  unfold entryLength
  cases values_eq : g.values with
  | nil => exact Nat.zero_le _
  | cons first rest => exact (uniform first (by simp [values_eq])).le

/-- The entries of a row stand together among all entries, after those of the rows before it. -/
theorem getElem?_values (g : Grid β) {e i : Nat} {row : Row β}
    (row_at : g.rows[e]? = some row) (place : i < row.entries.length) :
    g.values[(g.azimuthCounts.take e).sum + i]? = (row.entries[i]?).map Prod.snd := by
  have values_eq : g.values = (g.rows.map fun r => r.entries.map Prod.snd).flatten :=
    List.flatMap_def ..
  have counts_eq :
      g.azimuthCounts = (g.rows.map fun r => r.entries.map Prod.snd).map List.length := by
    simp [azimuthCounts]
  obtain ⟨inside, row_eq⟩ := List.getElem?_eq_some_iff.mp row_at
  rw [values_eq, counts_eq, ← List.getElem?_drop, List.drop_sum_flatten,
    List.drop_eq_getElem_cons (by simpa using inside), List.flatten_cons,
    List.getElem?_append_left (by simpa [row_eq] using place), List.getElem_map, row_eq,
    List.getElem?_map]

end Grid

/-! ## The arrays of a compiled dataset -/

/-- Arrays of new and different names are all taken, in order. -/
theorem ArraySink.addAll_of_new {t : ArrayTable} {entries : List (String × ArrayValues)}
    (new : ∀ entry ∈ entries, entry.1 ∉ t.names)
    (distinct : (entries.map Prod.fst).Nodup) :
    ArraySink.addAll t entries = (.ok (), ⟨t.arrays ++ entries⟩) := by
  induction entries generalizing t with
  | nil => simp [ArraySink.addAll]
  | cons entry rest ih =>
      obtain ⟨name, values⟩ := entry
      rw [List.map_cons, List.nodup_cons] at distinct
      have absent : t.find? name = none := by
        have notIn : name ∉ t.names := new (name, values) (by simp)
        simp only [ArrayTable.find?, Option.map_eq_none_iff, List.find?_eq_none]
        intro e member same
        exact notIn (List.mem_map.mpr ⟨e, member, by simpa using same⟩)
      have added : ArraySink.add t name values =
          .ok (⟨t.arrays ++ [(name, values)]⟩ : ArrayTable) := by
        change ArrayTable.add t name values = _
        rw [ArrayTable.add, absent]
      have newRest : ∀ e ∈ rest, e.1 ∉ (⟨t.arrays ++ [(name, values)]⟩ : ArrayTable).names := by
        intro e member
        simp only [ArrayTable.names, List.map_append, List.mem_append, not_or]
        refine ⟨new e (by simp [member]), fun same => distinct.1 ?_⟩
        have same_name : e.1 = name := by simpa using same
        rw [← same_name]
        exact List.mem_map.mpr ⟨e, member, rfl⟩
      rw [ArraySink.addAll, added]
      dsimp only
      rw [ih newRest distinct.2, List.append_assoc, List.singleton_append]

namespace ImpulseTable

/-- An empty sink takes all seven arrays. -/
theorem writeTo_empty (t : ImpulseTable Float) :
    t.writeTo ArrayTable.empty = (.ok (), ⟨t.arrays⟩) := by
  have taken : ArraySink.addAll ArrayTable.empty t.arrays = (.ok (), ⟨t.arrays⟩) :=
    ArraySink.addAll_of_new (by simp [ArrayTable.empty, ArrayTable.names])
      (by simp [arrays])
  rw [writeTo, taken]

/-- The reader of the arrays of a compiled dataset holds its numbers modulo 2^32. -/
theorem reader_of_arrays (t : ImpulseTable Float) :
    Reader.ofTable? ⟨t.arrays⟩ = some
      { elevationCount := (UInt32.ofNat t.layout.count).toNat
        increment := (Int32.ofInt t.layout.increment).toInt
        least := (Int32.ofInt t.layout.least).toInt
        azimuthCounts := t.azimuthCounts.map fun n => (UInt32.ofNat n).toNat
        starts := t.azimuthStarts.map fun n => (UInt32.ofNat n).toNat
        impulseLength := (UInt32.ofNat t.impulseLength).toNat
        impulses := t.impulses } := by
  simp [Reader.ofTable?, ArrayTable.unsigned?, ArrayTable.int?, ArrayTable.float?,
    ArrayTable.find?, arrays, unsigned, only?]

/-- Numbers below 2^32 survive the conversion to 32 bits. -/
theorem map_toNat_ofNat {values : List Nat} (fit : ∀ n ∈ values, n < UInt32.size) :
    values.map (fun n => (UInt32.ofNat n).toNat) = values := by
  conv_rhs => rw [← List.map_id values]
  exact List.map_congr_left fun n member => UInt32.toNat_ofNat_of_lt' (fit n member)

end ImpulseTable

/-- Whether an integer has 32 bits. -/
def FitsInt32 (z : Int) : Prop := Int32.minValue.toInt ≤ z ∧ z ≤ Int32.maxValue.toInt

theorem FitsInt32.toInt_ofInt {z : Int} (fits : FitsInt32 z) : (Int32.ofInt z).toInt = z := by
  obtain ⟨lower, upper⟩ := fits
  rw [Int32.toInt_minValue] at lower
  rw [Int32.toInt_maxValue] at upper
  exact Int32.toInt_ofInt_of_le lower (by omega)

namespace ImpulseTable

variable {angles : List Int} {layout : ElevationLayout} {g : Grid (List Float)} {length : Nat}

/-- The reader of a dataset whose numbers have 32 bits holds these numbers. -/
theorem reader_of_fitting
    (increment32 : FitsInt32 layout.increment)
    (least32 : FitsInt32 layout.least)
    (few : g.size < UInt32.size)
    (short : g.entryLength < UInt32.size) :
    Reader.ofTable? ⟨(ImpulseTable.mk layout g).arrays⟩ = some
      { elevationCount := (UInt32.ofNat layout.count).toNat
        increment := layout.increment
        least := layout.least
        azimuthCounts := g.azimuthCounts
        starts := startsFrom 0 g.azimuthCounts
        impulseLength := g.entryLength
        impulses := (g.values.map (List.map narrow)).flatten } := by
  rw [g.size_eq_sum_azimuthCounts] at few
  have counts : g.azimuthCounts.map (fun n => (UInt32.ofNat n).toNat) = g.azimuthCounts :=
    map_toNat_ofNat fun n member => (List.le_sum_of_mem member).trans_lt few
  have starts : (startsFrom 0 g.azimuthCounts).map (fun n => (UInt32.ofNat n).toNat) =
      startsFrom 0 g.azimuthCounts :=
    map_toNat_ofNat fun n member =>
      (le_of_mem_startsFrom member).trans_lt (by rwa [Nat.zero_add])
  rw [reader_of_arrays]
  simp only [azimuthCounts, azimuthStarts, impulseLength, impulses, increment32.toInt_ofInt,
    least32.toInt_ofInt, counts, starts, UInt32.toNat_ofNat_of_lt' short, List.map_flatten]

/-- A sample is in the stretch of a length that begins at a multiple of it, if the multiple is its
own quotient by the length. -/
theorem mem_stretch_iff {m k : Nat} (positive : 0 < length) :
    m * length ≤ k ∧ k < m * length + length ↔ m = k / length := by
  rw [eq_comm, Nat.div_eq_iff positive]
  omega

/-- The reader law: the arrays of a dataset, put into an empty sink, give back all of it. -/
theorem reader_recovers
    (angles32 : ∀ angle ∈ angles, FitsInt32 angle)
    (differences32 : List.IsChain (fun lower upper => FitsInt32 (upper - lower)) angles)
    (accepted : ElevationLayout.ofAngles (α := Float) angles = .ok layout)
    (elevations : g.elevations = angles)
    (uniform : ∀ signal ∈ g.values, signal.length = length)
    (few : g.size < UInt32.size)
    (short : length < UInt32.size) :
    ∃ table reader,
      (ImpulseTable.mk layout g).writeTo ArrayTable.empty = (.ok (), table) ∧
      table.arrays.length = 7 ∧
      Reader.ofTable? table = some reader ∧
      reader.Recovers g := by
  obtain ⟨first, second, rest, angles_eq, layout_angles, increment_eq, least_eq, -, -⟩ :=
    ElevationLayout.of_ofAngles accepted
  have increment32 : FitsInt32 layout.increment := by
    rw [angles_eq, List.isChain_cons_cons] at differences32
    rw [increment_eq]
    exact differences32.1
  have least32 : FitsInt32 layout.least := by
    rw [least_eq]
    exact angles32 first (by simp [angles_eq])
  have uniform' := Grid.length_eq_entryLength uniform
  have narrowed : ∀ signal ∈ g.values.map (List.map narrow), signal.length = g.entryLength := by
    intro signal member
    obtain ⟨source, sourceMember, rfl⟩ := List.mem_map.mp member
    rw [List.length_map, uniform' source sourceMember]
  have short' : g.entryLength < UInt32.size := (Grid.entryLength_le uniform).trans_lt short
  refine ⟨_, _, writeTo_empty _, rfl, reader_of_fitting increment32 least32 few short',
    ⟨?count, ?elevation, rfl, ?impulse, ?stretches⟩⟩
  case count =>
    rw [elevations]
    intro fits
    rw [ElevationLayout.count, layout_angles]
    exact UInt32.toNat_ofNat_of_lt' fits
  case elevation =>
    intro e inside
    have inside' : e < angles.length := by
      rw [ElevationLayout.count, layout_angles, UInt32.toNat_ofNat'] at inside
      exact inside.trans_le (Nat.mod_le _ _)
    rw [elevations]
    exact ElevationLayout.getElem?_of_ofAngles accepted inside'
  case impulse =>
    rintro e i ⟨count, count_at, place⟩
    obtain ⟨row, row_at, rfl⟩ : ∃ row, g.rows[e]? = some row ∧ row.entries.length = count := by
      simpa [Grid.azimuthCounts, List.getElem?_map] using count_at
    have inside : e < g.azimuthCounts.length := (List.getElem?_eq_some_iff.mp count_at).1
    have value_at := g.getElem?_values row_at place
    rw [List.getElem?_eq_getElem place, Option.map_some] at value_at
    obtain ⟨flat, value_eq⟩ := List.getElem?_eq_some_iff.mp value_at
    have cut : (((g.values.map (List.map narrow)).flatten.drop
        (((startsFrom 0 g.azimuthCounts).getD e 0 + i) * g.entryLength)).take g.entryLength) =
          (row.entries[i]).2.map narrow := by
      rw [getD_startsFrom 0 inside, Nat.zero_add,
        take_drop_flatten_of_uniform narrowed (by simpa using flat), List.getElem_map, value_eq]
    refine ⟨row, row.entries[i], row_at, List.getElem?_eq_getElem place, cut, ?_⟩
    rw [Reader.impulse, Reader.offset, cut, List.length_map, ← value_eq]
    exact uniform' _ (List.getElem_mem flat)
  case stretches =>
    intro k inside
    dsimp only [Reader.Has, Reader.offset] at inside ⊢
    rw [length_flatten_of_uniform narrowed, List.length_map] at inside
    have positive : 0 < g.entryLength := Nat.pos_of_mul_pos_left (Nat.zero_lt_of_lt inside)
    have quotient : k / g.entryLength < 0 + g.azimuthCounts.sum := by
      rw [Nat.zero_add, ← g.size_eq_sum_azimuthCounts]
      exact Nat.div_lt_of_lt_mul (by rwa [Nat.mul_comm])
    simp only [mem_stretch_iff positive]
    exact existsUnique_pair (Nat.zero_le _) quotient

/-- Three elevations, the middle one without any azimuth. -/
theorem reader_recovers_ragged :
    ∃ table reader,
      (ImpulseTable.mk ⟨[-10, 5, 20], 15, -10, 20⟩
        ⟨[⟨-10, [(0, [1.0, 0.5]), (180, [0.25, 0.0])]⟩, ⟨5, []⟩,
          ⟨20, [(90, [-1.0, 0.1])]⟩]⟩).writeTo ArrayTable.empty = (.ok (), table) ∧
      table.arrays.length = 7 ∧
      Reader.ofTable? table = some reader ∧
      reader.Recovers
        ⟨[⟨-10, [(0, [1.0, 0.5]), (180, [0.25, 0.0])]⟩, ⟨5, []⟩, ⟨20, [(90, [-1.0, 0.1])]⟩]⟩ := by
  have angles32 : ∀ angle ∈ ([-10, 5, 20] : List Int), FitsInt32 angle := by
    unfold FitsInt32
    decide
  have differences32 : List.IsChain (fun lower upper => FitsInt32 (upper - lower))
      ([-10, 5, 20] : List Int) := by
    unfold FitsInt32
    decide
  exact @reader_recovers _ _ _ 2 angles32 differences32 rfl rfl (by decide) (by decide) (by decide)

end ImpulseTable

end Binaural
