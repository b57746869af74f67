import Binaural.Proofs.IntegerSamples
import Binaural.Proofs.Measurements
import Mathlib.Data.Finset.Sort

/-!
Which measurements are refused, and why.

Measurements are taken in turn, and each has to fit to those before it: it has samples, as many as
the first, all of them in the range, and its angle is new. `Dataset.Misfit` says why one does not,
by the first test that it fails. If all fit, the elevations have to be a layout.

* `Dataset.addAll_eq_error_iff`: what ends the taking is the first measurement that does not fit,
  whatever was taken before.
* `Dataset.Usable` lists what makes measurements a dataset, and `Dataset.Fault` what is wrong with
  those that are none.
* `Dataset.refusals`: measurements make a dataset exactly if they are usable, and the error is that
  of the fault. A sample is in the range exactly if it is a finite number in [-1, 1].
-/

namespace Binaural

/-! ## The range of samples -/

namespace Binary64

open Float.Model Float.Model.UnpackedFloat

/-- A magnitude is at most one if its exponent is below that of one, or if it is one. -/
theorem magnitude_le_one_iff {m : Nat} {e : Int} (fits : Fits m e) :
    (m : ℚ) * 2 ^ e ≤ 1 ↔ e < -52 ∨ e = -52 ∧ m ≤ 2 ^ 52 := by
  have upper : m < 2 ^ 53 := (Nat.log2_lt fits.positive.ne').mp (Nat.lt_succ_of_le fits.bits)
  constructor
  · intro small
    refine or_iff_not_imp_left.mpr fun large => ?_
    -- a number of this exponent has all of its 53 bits
    have bits : m.log2 = 52 := fits.normal.resolve_right (by omega)
    have lower : 2 ^ 52 ≤ m := bits ▸ Nat.log2_self_le fits.positive.ne'
    obtain ⟨k, rfl⟩ : ∃ k : Nat, e = k - 52 := ⟨(e + 52).toNat, by omega⟩
    have scaled : (m : ℚ) * 2 ^ k ≤ 2 ^ 52 := by
      rwa [sub_eq_add_neg, zpow_add₀ two_ne_zero, zpow_neg, ← mul_assoc, ← div_eq_mul_inv,
        div_le_one (by positivity), zpow_natCast] at small
    have product : m * 2 ^ k ≤ 2 ^ 52 := by exact_mod_cast scaled
    have one : k = 0 := by
      by_contra positive
      have double : 2 ≤ 2 ^ k := Nat.le_self_pow positive 2
      have := Nat.mul_le_mul lower double
      omega
    subst one
    exact ⟨rfl, by omega⟩
  · rintro (small | ⟨rfl, exact⟩)
    · calc (m : ℚ) * 2 ^ e ≤ 2 ^ 53 * 2 ^ (-53 : Int) := by
            gcongr
            · exact_mod_cast upper.le
            · exact one_le_two
            · omega
        _ = 1 := by norm_num
    · calc (m : ℚ) * 2 ^ (-52 : Int) ≤ 2 ^ 52 * 2 ^ (-52 : Int) := by
            gcongr
            exact_mod_cast exact
        _ = 1 := by norm_num

theorem isLE_compare_iff {m m' : Nat} {e e' : Int} :
    ((compare e e').then (compare m m')).isLE = true ↔ e < e' ∨ e = e' ∧ m ≤ m' := by
  rw [Ordering.isLE_then_iff_or, Int.compare_eq_lt, Int.compare_eq_eq, Nat.isLE_compare]

/-- As floats are compared, those in [-1, 1] are the finite ones that lie there. -/
theorem mem_unit_iff {x : Float} :
    -1 ≤ x ∧ x ≤ 1 ↔ x.isFinite = true ∧ (BinaryNumber.ofFloat x).magnitude ≤ 1 := by
  change -Float.ofNat 1 ≤ x ∧ x ≤ Float.ofNat 1 ↔ _
  rw [le_iff, le_iff, unpack_neg_one, unpack_ofNat_one, ← BinaryNumber.isFinite_ofFloat,
    BinaryNumber.ofFloat_eq]
  cases unpacked : x.toModel.unpack with
  | notANumber =>
      exact ⟨fun inside => absurd inside.1 Bool.false_ne_true,
        fun finite => absurd finite.1 Bool.false_ne_true⟩
  | infinity s =>
      refine ⟨fun inside => ?_, fun finite => absurd finite.1 Bool.false_ne_true⟩
      cases s with
      | negative => exact absurd inside.1 Bool.false_ne_true
      | positive => exact absurd inside.2 Bool.false_ne_true
  | zero s =>
      refine ⟨fun _ => ⟨rfl, ?_⟩, fun _ => ⟨rfl, rfl⟩⟩
      rw [BinaryNumber.ofUnpacked, BinaryNumber.magnitude, Nat.cast_zero, zero_mul]
      exact zero_le_one
  | finite s m e positive =>
      -- only the bound on the side of the sign matters
      change _ ↔ true = true ∧ (m : ℚ) * 2 ^ e ≤ 1
      rw [magnitude_le_one_iff (fits_of_unpack unpacked), ← isLE_compare_iff]
      cases s with
      | negative =>
          change ((compare (-52) e).then (compare (2 ^ 52) m)).swap.isLE = true ∧ true = true ↔ _
          rw [Ordering.swap_then, Int.compare_swap, Nat.compare_swap, and_comm]
      | positive => exact Iff.rfl

end Binary64

variable {α : Type}

/-! ## Elevations -/

/-- The distinct elevations of measurements, ascending. -/
def Dataset.elevationsOf (ms : List (Measurement α)) : List Int :=
  (ms.map (·.elevation)).toFinset.sort

theorem Dataset.mem_elevationsOf {ms : List (Measurement α)} {elevation : Int} :
    elevation ∈ elevationsOf ms ↔ ∃ m ∈ ms, m.elevation = elevation := by
  rw [elevationsOf, Finset.mem_sort, List.mem_toFinset, List.mem_map]

/-- An ascending grid has the elevations of its entries. -/
theorem Grid.Ascending.mem_elevations_iff {β : Type} {g : Grid β} (ascending : g.Ascending)
    {elevation : Int} :
    elevation ∈ g.elevations ↔ ∃ entry ∈ g.entries, entry.1.1 = elevation := by
  constructor
  · intro member
    obtain ⟨row, row_mem, rfl⟩ := List.mem_map.mp member
    obtain ⟨entry, entry_mem⟩ := List.exists_mem_of_ne_nil _
      ((ascending_iff.mp ascending).2 row row_mem).2
    exact ⟨((row.elevation, entry.1), entry.2),
      List.mem_flatMap.mpr ⟨row, row_mem, List.mem_map_of_mem entry_mem⟩, rfl⟩
  · rintro ⟨entry, member, rfl⟩
    obtain ⟨row, row_mem, entry_mem⟩ := List.mem_flatMap.mp member
    obtain ⟨source, -, rfl⟩ := List.mem_map.mp entry_mem
    exact List.mem_map_of_mem row_mem

/-- A grid of measurements has their elevations. -/
theorem Grid.Ascending.elevations_eq {g : Grid (List α)} {ms : List (Measurement α)}
    (ascending : g.Ascending) (holds : g.entries.Perm (ms.map Measurement.entry)) :
    g.elevations = Dataset.elevationsOf ms := by
  have sorted : g.elevations.SortedLT := by
    rw [List.sortedLT_iff_pairwise, Grid.elevations, List.pairwise_map]
    exact (ascending_iff.mp ascending).1
  refine sorted.eq_of_mem_iff (Finset.sortedLT_sort _) fun elevation => ?_
  rw [ascending.mem_elevations_iff]
  refine Iff.trans ?_ Dataset.mem_elevationsOf.symm
  constructor
  · rintro ⟨entry, member, rfl⟩
    obtain ⟨m, measured, rfl⟩ := List.mem_map.mp (holds.mem_iff.mp member)
    exact ⟨m, measured, rfl⟩
  · rintro ⟨m, measured, rfl⟩
    exact ⟨m.entry, holds.mem_iff.mpr (List.mem_map_of_mem measured), rfl⟩

/-! ## One measurement after others -/

namespace Dataset

variable [Scalar α]

/-- The first sample that is not in the range stands where all before it are. -/
theorem firstOutOfRange?_eq_some_iff {start index : Nat} {samples : List α} {value : α} :
    firstOutOfRange? start samples = some (index, value) ↔
      ∃ before after, samples = before ++ value :: after ∧ index = start + before.length ∧
        (∀ x ∈ before, -1 ≤ x ∧ x ≤ 1) ∧ ¬ (-1 ≤ value ∧ value ≤ 1) := by
  simp only [firstOutOfRange?_eq, firstFailing?_eq_some_iff, decide_eq_true_eq,
    decide_eq_false_iff_not]

/-- Why a measurement does not fit to those before it, of which the first has so many samples: by
the first of these tests that it fails. -/
inductive Misfit (length : Nat) (before : List (Measurement α)) (m : Measurement α) :
    IntegrityError α → Prop
  | empty (none : m.samples = []) :
    Misfit length before m (.emptyMeasurement m.elevation m.azimuth)
  | length (nonempty : m.samples ≠ []) (differs : m.samples.length ≠ length) :
    Misfit length before m (.lengthMismatch m.elevation m.azimuth length m.samples.length)
  /-- The first sample that is out of the range is reported. -/
  | range {front back : List α} {value : α} (nonempty : m.samples ≠ [])
    (length_eq : m.samples.length = length) (samples : m.samples = front ++ value :: back)
    (inRange : ∀ x ∈ front, -1 ≤ x ∧ x ≤ 1) (outside : ¬ (-1 ≤ value ∧ value ≤ 1)) :
    Misfit length before m (.sampleOutOfRange m.elevation m.azimuth front.length value)
  | angle (sound : m.Sound length)
    (repeated : ∃ m' ∈ before, m'.elevation = m.elevation ∧ m'.azimuth = m.azimuth) :
    Misfit length before m (.duplicateAngle m.elevation m.azimuth)

variable {length : Nat} {g : Grid (List α)} {before ms : List (Measurement α)}
  {m : Measurement α} {e : IntegrityError α}

omit [Scalar α] in
/-- An angle is among the entries of a grid of measurements if one of them has it. -/
theorem mem_angles_iff (holds : g.entries.Perm (before.map Measurement.entry)) :
    (m.elevation, m.azimuth) ∈ g.entries.map Prod.fst ↔
      ∃ m' ∈ before, m'.elevation = m.elevation ∧ m'.azimuth = m.azimuth := by
  rw [(holds.map Prod.fst).mem_iff, List.map_map, List.mem_map]
  refine exists_congr fun m' => and_congr_right fun _ => ?_
  exact Prod.mk_inj

/-- A measurement is refused for the first test that it fails. -/
theorem add_eq_error_iff (ascending : g.Ascending)
    (holds : g.entries.Perm (before.map Measurement.entry)) :
    add length g m = .error e ↔ Misfit length before m e := by
  constructor
  · intro refused
    unfold add at refused
    split at refused
    · rename_i none
      cases refused
      exact .empty (List.isEmpty_iff.mp none)
    · rename_i some
      have nonempty : m.samples ≠ [] := fun none => some (List.isEmpty_iff.mpr none)
      split at refused
      · rename_i differs
        cases refused
        exact .length nonempty differs
      · rename_i same
        have length_eq : m.samples.length = length := not_not.mp same
        split at refused
        · rename_i found
          cases refused
          obtain ⟨front, back, samples, rfl, inRange, outside⟩ :=
            firstOutOfRange?_eq_some_iff.mp found
          rw [Nat.zero_add]
          exact .range nonempty length_eq samples inRange outside
        · rename_i inRange
          split at refused
          · cases refused
          · rename_i taken
            cases refused
            refine .angle ⟨nonempty, length_eq, firstOutOfRange?_eq_none_iff.mp inRange⟩ ?_
            exact (mem_angles_iff holds).mp ((Grid.insert?_eq_none_iff ascending).mp taken)
  · intro misfit
    cases misfit with
    | empty none => rw [add, if_pos (List.isEmpty_iff.mpr none)]
    | length nonempty differs => rw [add, if_neg (by simpa using nonempty), if_pos differs]
    | range nonempty length_eq samples inRange outside =>
        have found := firstOutOfRange?_eq_some_iff.mpr
          ⟨_, _, samples, (Nat.zero_add _).symm, inRange, outside⟩
        rw [add, if_neg (by simpa using nonempty), if_neg (not_not.mpr length_eq), found]
    | angle sound repeated =>
        have taken := (Grid.insert?_eq_none_iff ascending (x := m.samples)).mpr
          ((mem_angles_iff holds).mpr repeated)
        rw [add, if_neg (by simpa using sound.nonempty), if_neg (not_not.mpr sound.length_eq),
          firstOutOfRange?_eq_none_iff.mpr sound.inRange]
        dsimp only
        rw [taken]

/-- A measurement fits if it is sound and its angle is new. -/
theorem not_misfit_iff :
    (∀ e, ¬ Misfit length before m e) ↔
      m.Sound length ∧
        ∀ m' ∈ before, ¬ (m'.elevation = m.elevation ∧ m'.azimuth = m.azimuth) := by
  constructor
  · intro fits
    have nonempty : m.samples ≠ [] := fun none => fits _ (.empty none)
    have length_eq : m.samples.length = length :=
      not_not.mp fun differs => fits _ (.length nonempty differs)
    have inRange : ∀ x ∈ m.samples, -1 ≤ x ∧ x ≤ 1 := by
      suffices unfound : firstOutOfRange? 0 m.samples = none from
        firstOutOfRange?_eq_none_iff.mp unfound
      refine Option.eq_none_iff_forall_ne_some.mpr ?_
      rintro ⟨index, value⟩ found
      obtain ⟨front, back, samples, -, inside, outside⟩ := firstOutOfRange?_eq_some_iff.mp found
      exact fits _ (.range nonempty length_eq samples inside outside)
    have sound : m.Sound length := ⟨nonempty, length_eq, inRange⟩
    exact ⟨sound, fun m' member same => fits _ (.angle sound ⟨m', member, same⟩)⟩
  · rintro ⟨sound, new⟩ e misfit
    cases misfit with
    | empty none => exact sound.nonempty none
    | length _ differs => exact differs sound.length_eq
    | range _ _ samples _ outside =>
        exact outside (sound.inRange _ (samples ▸ List.mem_append_right _ List.mem_cons_self))
    | angle _ repeated =>
        obtain ⟨m', member, same⟩ := repeated
        exact new m' member same

/-! ## All measurements in turn -/

/-- Each of the measurements fits to those before it, if still others come before all of them. -/
def AllFit (length : Nat) (before ms : List (Measurement α)) : Prop :=
  ∀ earlier m later, ms = earlier ++ m :: later → ∀ e, ¬ Misfit length (before ++ earlier) m e

theorem allFit_cons {rest : List (Measurement α)} :
    AllFit length before (m :: rest) ↔
      (∀ e, ¬ Misfit length before m e) ∧ AllFit length (before ++ [m]) rest := by
  constructor
  · intro fit
    refine ⟨fun e => ?_, fun earlier m' later split e => ?_⟩
    · rw [← List.append_nil before]
      exact fit [] m rest rfl e
    · rw [List.append_assoc]
      exact fit (m :: earlier) m' later (by rw [split, List.cons_append]) e
  · rintro ⟨first, fit⟩ earlier m' later split e
    cases earlier with
    | nil =>
        cases split
        rw [List.append_nil]
        exact first e
    | cons start earlier =>
        cases split
        rw [← List.singleton_append, ← List.append_assoc]
        exact fit earlier m' later rfl e

/-- Taken in turn, measurements are refused for the first that does not fit to those before it. -/
theorem addAll_eq_error_iff (ascending : g.Ascending)
    (holds : g.entries.Perm (before.map Measurement.entry)) :
    addAll length g ms = .error e ↔
      ∃ front m back, ms = front ++ m :: back ∧ AllFit length before front ∧
        Misfit length (before ++ front) m e := by
  induction ms generalizing g before with
  | nil => simp [addAll]
  | cons m rest ih =>
      rw [addAll]
      cases added : add length g m with
      | error e' =>
          have misfit := (add_eq_error_iff ascending holds).mp added
          dsimp only
          constructor
          · rintro ⟨⟩
            refine ⟨[], m, rest, rfl, fun earlier _ _ split => by simp at split, ?_⟩
            rwa [List.append_nil]
          · rintro ⟨front, m', back, split, fit, misfit'⟩
            cases front with
            | nil =>
                cases split
                rw [List.append_nil] at misfit'
                rw [← added]
                exact (add_eq_error_iff ascending holds).mpr misfit'
            | cons start front =>
                cases split
                exact absurd misfit ((allFit_cons.mp fit).1 e')
      | ok next =>
          have fits : ∀ e', ¬ Misfit length before m e' := by
            intro e' misfit
            cases added.symm.trans ((add_eq_error_iff ascending holds).mpr misfit)
          have inserted := (add_eq_ok_iff.mp added).2
          have holds' : next.entries.Perm ((before ++ [m]).map Measurement.entry) := by
            rw [List.map_append]
            exact ((Grid.perm_of_insert? inserted).trans (holds.cons _)).trans
              (List.perm_append_singleton _ _).symm
          dsimp only
          rw [ih (ascending.of_insert? inserted) holds']
          constructor
          · rintro ⟨front, m', back, rfl, fit, misfit⟩
            refine ⟨m :: front, m', back, rfl, allFit_cons.mpr ⟨fits, fit⟩, ?_⟩
            rwa [← List.singleton_append, ← List.append_assoc]
          · rintro ⟨front, m', back, split, fit, misfit⟩
            cases front with
            | nil =>
                cases split
                rw [List.append_nil] at misfit
                exact absurd misfit (fits e)
            | cons start front =>
                cases split
                refine ⟨front, m', back, rfl, (allFit_cons.mp fit).2, ?_⟩
                rwa [List.append_assoc]

/-- Measurements fit if all are sound and no two are at one angle. -/
theorem allFit_iff :
    AllFit length before ms ↔
      (∀ m ∈ ms, m.Sound length) ∧
        (∀ m ∈ ms, ∀ m' ∈ before, ¬ (m'.elevation = m.elevation ∧ m'.azimuth = m.azimuth)) ∧
        ms.Pairwise fun m m' => ¬ (m.elevation = m'.elevation ∧ m.azimuth = m'.azimuth) := by
  induction ms generalizing before with
  | nil => simp [AllFit]
  | cons m rest ih =>
      rw [allFit_cons, not_misfit_iff, ih]
      simp only [List.forall_mem_cons, List.pairwise_cons, List.mem_append, List.mem_singleton]
      constructor
      · rintro ⟨⟨sound, new⟩, sounds, others, distinct⟩
        exact ⟨⟨sound, sounds⟩, ⟨new, fun m' member k old => others m' member k (.inl old)⟩,
          fun m' member => others m' member m (.inr rfl), distinct⟩
      · rintro ⟨⟨sound, sounds⟩, ⟨new, others⟩, first, distinct⟩
        refine ⟨⟨sound, new⟩, sounds, fun m' member k old => ?_, distinct⟩
        rcases old with old | rfl
        · exact others m' member k old
        · exact first m' member

/-! ## Datasets -/

/-- What makes measurements a dataset. -/
structure Usable (ms : List (Measurement α)) : Prop where
  nonempty : ∀ m ∈ ms, m.samples ≠ []
  oneLength : ∀ m ∈ ms, ∀ m' ∈ ms, m.samples.length = m'.samples.length
  inRange : ∀ m ∈ ms, ∀ x ∈ m.samples, -1 ≤ x ∧ x ≤ 1
  /-- No two are at one angle. -/
  distinct : ms.Pairwise fun m m' => ¬ (m.elevation = m'.elevation ∧ m.azimuth = m'.azimuth)
  several : 2 ≤ (elevationsOf ms).length
  even : ∃ increment,
    List.IsChain (fun lower upper => upper - lower = increment) (elevationsOf ms)

/-- What is wrong with measurements that make no dataset: the first that does not fit to those
before it, or, if all fit, their elevations. -/
inductive Fault (ms : List (Measurement α)) : IntegrityError α → Prop
  | measurement {before after : List (Measurement α)} {m : Measurement α} {e : IntegrityError α}
    (split : ms = before ++ m :: after) (fit : AllFit (commonLength ms) [] before)
    (misfit : Misfit (commonLength ms) before m e) : Fault ms e
  | layout {e : IntegrityError α} (fit : AllFit (commonLength ms) [] ms)
    (flaw : ElevationLayout.Flaw (elevationsOf ms) e) : Fault ms e

theorem addAll_empty_eq_error_iff :
    addAll length ⟨[]⟩ ms = .error e ↔
      ∃ front m back, ms = front ++ m :: back ∧ AllFit length [] front ∧
        Misfit length front m e := by
  have holds : (⟨[]⟩ : Grid (List α)).entries.Perm (([] : List (Measurement α)).map
      Measurement.entry) := .refl _
  rw [addAll_eq_error_iff Grid.ascending_empty holds]
  simp only [List.nil_append]

/-- Sound measurements that a grid holds fit, since no two entries of it are at one angle. -/
theorem allFit_of_entries {grid : Grid (List α)} (sounds : ∀ m ∈ ms, m.Sound length)
    (ascending : grid.Ascending) (entries : grid.entries.Perm (ms.map Measurement.entry)) :
    AllFit length [] ms := by
  have angles := (entries.map Prod.fst).nodup ascending.nodup_angles
  rw [List.map_map, List.nodup_iff_pairwise_ne, List.pairwise_map] at angles
  exact allFit_iff.mpr ⟨sounds, by simp,
    angles.imp fun differ same => differ (Prod.ext same.1 same.2)⟩

/-- Measurements that all fit are taken, and their elevations decide. -/
theorem ofMeasurements_of_allFit (fit : AllFit (commonLength ms) [] ms) :
    ∃ grid, ofMeasurements ms = (ElevationLayout.ofAngles (elevationsOf ms)).map fun layout =>
      ⟨grid, layout, commonLength ms⟩ := by
  cases added : addAll (commonLength ms) ⟨[]⟩ ms with
  | error e =>
      obtain ⟨front, m, back, split, -, misfit⟩ :=
        addAll_empty_eq_error_iff.mp added
      exact absurd misfit (fit front m back split e)
  | ok grid =>
      obtain ⟨-, ascending, entries⟩ := addAll_empty_eq_ok_iff.mp added
      refine ⟨grid, ?_⟩
      unfold ofMeasurements
      dsimp only
      rw [added, ← ascending.elevations_eq entries]
      dsimp only
      cases ElevationLayout.ofAngles grid.elevations with
      | error e => rfl
      | ok layout => rfl

theorem usable_iff :
    Usable ms ↔ AllFit (commonLength ms) [] ms ∧ 2 ≤ (elevationsOf ms).length ∧
      ∃ increment,
        List.IsChain (fun lower upper => upper - lower = increment) (elevationsOf ms) := by
  constructor
  · rintro ⟨nonempty, oneLength, inRange, distinct, several, even⟩
    refine ⟨allFit_iff.mpr ⟨fun m member => ⟨nonempty m member, ?_, inRange m member⟩, by simp,
      distinct⟩, several, even⟩
    cases ms with
    | nil => cases member
    | cons first rest => exact oneLength m member first List.mem_cons_self
  · rintro ⟨fit, several, even⟩
    obtain ⟨sounds, -, distinct⟩ := allFit_iff.mp fit
    exact ⟨fun m member => (sounds m member).nonempty,
      fun m member m' member' =>
        (sounds m member).length_eq.trans (sounds m' member').length_eq.symm,
      fun m member => (sounds m member).inRange, distinct, several, even⟩

/-- Measurements are refused for what is wrong with them. -/
theorem ofMeasurements_eq_error_iff : ofMeasurements ms = .error e ↔ Fault ms e := by
  constructor
  · intro refused
    unfold ofMeasurements at refused
    dsimp only at refused
    split at refused
    · rename_i failed
      cases refused
      obtain ⟨front, m, back, split, fit, misfit⟩ :=
        addAll_empty_eq_error_iff.mp failed
      exact .measurement split fit misfit
    · rename_i grid added
      obtain ⟨sounds, ascending, entries⟩ := addAll_empty_eq_ok_iff.mp added
      split at refused
      · rename_i failed
        cases refused
        rw [ascending.elevations_eq entries] at failed
        exact .layout (allFit_of_entries sounds ascending entries)
          (ElevationLayout.ofAngles_eq_error_iff.mp failed)
      · cases refused
  · intro fault
    cases fault with
    | measurement split fit misfit =>
        have failed := addAll_empty_eq_error_iff.mpr ⟨_, _, _, split, fit, misfit⟩
        unfold ofMeasurements
        dsimp only
        rw [failed]
    | layout fit flaw =>
        obtain ⟨grid, made⟩ := ofMeasurements_of_allFit fit
        rw [made, ElevationLayout.ofAngles_eq_error_iff.mpr flaw]
        rfl

/-- Measurements make a dataset exactly if they are usable. -/
theorem exists_ofMeasurements_iff : (∃ d, ofMeasurements ms = .ok d) ↔ Usable ms := by
  rw [usable_iff, ← ElevationLayout.exists_ofAngles_iff (α := α)]
  constructor
  · rintro ⟨d, accepted⟩
    have comprises := ofMeasurements_eq_ok_iff.mp accepted
    rw [comprises.commonLength_eq, ← comprises.ascending.elevations_eq comprises.entries]
    exact ⟨allFit_of_entries comprises.sound comprises.ascending comprises.entries, d.layout,
      comprises.layout⟩
  · rintro ⟨fit, layout, laidOut⟩
    obtain ⟨grid, made⟩ := ofMeasurements_of_allFit fit
    rw [made, laidOut]
    exact ⟨_, rfl⟩

/-- Measurements make a dataset exactly if they are usable, and else the error is that of the first
measurement that does not fit to those before it, or of the elevations if all fit. What is not
finite is out of the range, as is what is larger than one. -/
theorem refusals (ms : List (Measurement Float)) :
    ((∃ d, ofMeasurements ms = .ok d) ↔ Usable ms) ∧
      (∀ e, ofMeasurements ms = .error e ↔ Fault ms e) ∧
      ∀ x : Float, -1 ≤ x ∧ x ≤ 1 ↔
        x.isFinite = true ∧ (BinaryNumber.ofFloat x).magnitude ≤ 1 :=
  ⟨exists_ofMeasurements_iff, fun _ => ofMeasurements_eq_error_iff,
    fun _ => Binary64.mem_unit_iff⟩

/-- Two elevations make a dataset. A sample out of the range is reported before it is seen that the
angle is not new. -/
theorem refusals_two :
    let m : Measurement Float := ⟨10, 0, [0.5]⟩
    let m' : Measurement Float := ⟨0, 90, [-1]⟩
    let m'' : Measurement Float := ⟨0, 90, [1.5]⟩
    Usable [m, m'] ∧ Fault [m, m', m''] (.sampleOutOfRange 0 90 0 1.5) := by
  intro m m' m''
  have accepted : ∃ d, ofMeasurements [m, m'] = .ok d := ⟨_, rfl⟩
  have refused : ofMeasurements [m, m', m''] = .error (.sampleOutOfRange 0 90 0 1.5) := by rfl
  exact ⟨(refusals [m, m']).1.mp accepted, ((refusals [m, m', m'']).2.1 _).mp refused⟩

end Dataset

end Binaural
