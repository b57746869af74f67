import Binaural.Proofs.Ascending
import Binaural.Proofs.Demands
import Binaural.Proofs.Guarded
import Binaural.Proofs.Lengths
import Binaural.Proofs.Stages

/-!
No compilation panics.

* `Agrees` relates a computation to its guarded form: both have one result, or one error. Nothing
  that agrees panics, and steps that agree do so in turn (`Agrees.bind`, `Agrees.tryMap`).
* Each guarded operation is defined where a compilation uses it. What makes it so is established
  stages before: there is an entry, all spectra are as long as the analysis is large
  (`Grid.Uniform`), and the settings meet all demands (`Config.Meets`).
* `compile_agrees` puts the stages together: a compilation of accepted recordings agrees with its
  guarded form, whatever the settings are.
-/

namespace Binaural

/-! ## Agreement -/

/-- A computation and its guarded form have one result, of which `Q` holds, or one error. -/
inductive Agrees {α β : Type} (Q : β → Prop) : Except (Failure α) β → Except (Stop α) β → Prop
  | ok {x : β} : Q x → Agrees Q (.ok x) (.ok x)
  | error {e : CompileError α} : Agrees Q (.error (.error e)) (.error (.error e))

namespace Agrees

variable {α β γ : Type} {Q R : β → Prop} {S : γ → Prop}
  {r : Except (Failure α) β} {s : Except (Stop α) β}

theorem holds {x : β} (agrees : Agrees Q r s) (given : r = .ok x) : Q x := by
  cases agrees with
  | ok holds =>
      cases given
      exact holds
  | error => cases given

theorem eq_ok {x : β} (agrees : Agrees Q r s) (given : r = .ok x) : s = .ok x := by
  cases agrees with
  | ok _ =>
      cases given
      rfl
  | error => cases given

theorem eq_error {e : Failure α} (agrees : Agrees Q r s) (fails : r = .error e) :
    ∃ err, e = .error err ∧ s = .error (.error err) := by
  cases agrees with
  | ok _ => cases fails
  | error =>
      cases fails
      exact ⟨_, rfl, rfl⟩

theorem mono (weaker : ∀ x, Q x → R x) (agrees : Agrees Q r s) : Agrees R r s := by
  cases agrees with
  | ok holds => exact .ok (weaker _ holds)
  | error => exact .error

theorem bind {f : β → Except (Failure α) γ} {k : β → Except (Stop α) γ} (first : Agrees Q r s)
    (next : ∀ x, Q x → Agrees S (f x) (k x)) : Agrees S (r >>= f) (s >>= k) := by
  cases first with
  | ok holds => exact next _ holds
  | error => exact .error

/-- An operation that may fail but makes no promise agrees with itself. -/
theorem ofError (r : Except (CompileError α) β) :
    Agrees (fun x => r = .ok x) (Failure.ofError r) (Stop.ofError r) := by
  cases r with
  | ok x => exact .ok rfl
  | error e => exact .error

/-- An operation that keeps all promises agrees with its guarded form if that gives the same. -/
theorem ofViolation {r : Except Violation β} {s : Except Panic β} {x : β} (given : r = .ok x)
    (guarded : s = .ok x) (holds : Q x) :
    Agrees (α := α) Q (Failure.ofViolation r) (Stop.ofPanic s) := by
  rw [given, guarded]
  exact .ok holds

section Traversal

variable {f : Position → β → Except (Failure α) γ} {k : Position → β → Except (Stop α) γ}
  {places : List (Position × β)}

theorem images {found : List (Position × γ)}
    (entries : ∀ entry ∈ places, Agrees S (f entry.1 entry.2) (k entry.1 entry.2))
    (result : Images f places found) : Images k places found := by
  induction result with
  | nil => exact .nil
  | cons head _ ih =>
      rw [List.forall_mem_cons] at entries
      exact .cons ⟨head.1, entries.1.eq_ok head.2⟩ (ih entries.2)

theorem firstError {e : Failure α}
    (entries : ∀ entry ∈ places, Agrees S (f entry.1 entry.2) (k entry.1 entry.2))
    (first : FirstError f places e) :
    ∃ err, e = .error err ∧ FirstError k places (.error err) := by
  induction first with
  | here fails =>
      obtain ⟨err, rfl, failsGuarded⟩ := (entries _ List.mem_cons_self).eq_error fails
      exact ⟨err, rfl, .here failsGuarded⟩
  | later given _ ih =>
      rw [List.forall_mem_cons] at entries
      obtain ⟨err, rfl, firstGuarded⟩ := ih entries.2
      exact ⟨err, rfl, .later (entries.1.eq_ok given) firstGuarded⟩

/-- Functions that agree at every entry agree in a traversal. -/
theorem traverse {g : Grid β}
    (entries : ∀ entry ∈ g.positioned, Agrees S (f entry.1 entry.2) (k entry.1 entry.2)) :
    Agrees (fun h => h.outline = g.outline ∧ Images f g.positioned h.positioned)
      (g.traverse f) (g.traverse k) := by
  rcases Grid.traverse_spec g f with ⟨h, walk, outline, result⟩ | ⟨e, walk, first⟩
  · rw [walk, Grid.traverse_eq_ok_iff.mpr ⟨outline, images entries result⟩]
    exact .ok ⟨outline, result⟩
  · obtain ⟨err, rfl, firstGuarded⟩ := firstError entries first
    rw [walk, Grid.traverse_eq_error_iff.mpr firstGuarded]
    exact .error

end Traversal

end Agrees

variable {α : Type} [Scalar α]

/-- What a stage gives at an entry also agrees after the check that all of it is finite. -/
theorem Agrees.tryMap {g : Grid (List α)} {stage : Stage} {length : Nat}
    {f : Position → List α → Except (Failure α) (List α)}
    {k : Position → List α → Except (Stop α) (List α)} (nonempty : g.positioned ≠ [])
    (entries : ∀ entry ∈ g.positioned,
      Agrees (fun y => y.length = length) (f entry.1 entry.2) (k entry.1 entry.2)) :
    Agrees (fun h => h.outline = g.outline ∧ h.Uniform length) (g.tryMap stage f)
      (Guarded.tryMap g stage k) := by
  have settled : ∀ entry ∈ g.positioned,
      Agrees (fun y => y.length = length) (Grid.settled stage f entry.1 entry.2)
        (k entry.1 entry.2 >>= fun y =>
          Stop.ofError (Grid.checkFinite stage entry.1.location y) >>= fun () => .ok y) := by
    intro entry member
    have agrees := entries entry member
    unfold Grid.settled
    cases given : f entry.1 entry.2 with
    | error e =>
        obtain ⟨err, rfl, guarded⟩ := agrees.eq_error given
        rw [guarded]
        exact .error
    | ok y =>
        rw [agrees.eq_ok given]
        dsimp only
        change Agrees _ _ (Stop.ofError (Grid.checkFinite stage entry.1.location y) >>=
          fun () => .ok y)
        cases Grid.checkFinite stage entry.1.location y with
        | error e => exact .error
        | ok _ => exact .ok (agrees.holds given)
  refine (Agrees.traverse settled).mono fun h ⟨outline, images⟩ =>
    ⟨outline, images.ne_nil nonempty, fun image member => ?_⟩
  obtain ⟨source, source_mem, -, given⟩ := images.exists_source member
  exact (settled source source_mem).holds given

/-! ## Guarded operations that are defined -/

namespace Guarded

theorem subtract_eq {m n : Nat} (le : n ≤ m) : subtract m n = .ok (m - n) :=
  if_pos le

theorem put_eq {β : Type} {index : Nat} {x : β} {xs : List β} (inside : index < xs.length) :
    put index x xs = .ok (xs.set index x) :=
  if_pos inside

theorem sliceFrom_eq {β : Type} {start : Nat} {xs : List β} (inside : start ≤ xs.length) :
    sliceFrom start xs = .ok (xs.drop start) :=
  if_pos inside

theorem updateRange_eq {β : Type} {start stop : Nat} {f : β → β} {xs : List β}
    (ordered : start ≤ stop) (inside : stop ≤ xs.length) :
    updateRange start stop f xs =
      .ok (xs.mapIdx fun k x => if start ≤ k ∧ k < stop then f x else x) :=
  if_pos ⟨ordered, inside⟩

theorem forward_eq {t : Transform α} {x : List (Complex α)} (length : x.length = t.size) :
    asserted (t.forward x) = .ok (t.bins x) := by
  rw [Transform.forward, if_pos length]
  rfl

theorem inverse_eq {t : Transform α} {x : List (Complex α)} (length : x.length = t.size) :
    asserted (t.inverse x) = .ok (t.points x) := by
  rw [Transform.inverse, if_pos length]
  rfl

theorem magnitudes_eq (t : Transform α) (signal : List α) :
    magnitudes t signal = .ok (t.magnitudes signal) := by
  unfold magnitudes
  rw [forward_eq (by rw [List.length_map, Transform.length_fit])]
  rfl

/-- Doubling the bins of one half in place and then clearing the other makes the analytic signal. -/
theorem mapIdx_analyticBin (size : Nat) (bins : List (Complex α)) :
    ((bins.mapIdx fun k z => if 1 ≤ k ∧ k < (size + 1) / 2 then z.scale 2 else z).mapIdx fun k z =>
        if size / 2 + 1 ≤ k ∧ k < bins.length then ⟨0, 0⟩ else z) =
      bins.mapIdx fun k z => MinimumPhase.analyticBin size k z := by
  refine List.ext_getElem (by simp) fun k inside _ => ?_
  have inside : k < bins.length := by simpa using inside
  simp only [List.getElem_mapIdx, MinimumPhase.analyticBin]
  by_cases edge : k = 0 ∨ 2 * k = size
  · rw [if_pos edge, if_neg (by omega), if_neg (by omega)]
  · rw [if_neg edge]
    by_cases positive : 2 * k < size
    · rw [if_pos positive, if_neg (by omega), if_pos (by omega)]
    · rw [if_neg positive, if_pos (by omega)]

theorem hilbert_eq {mp : MinimumPhase α} {x : List α} (length : x.length = mp.transform.size) :
    hilbert mp x = .ok (mp.hilbertOf x) := by
  have positive := mp.transform.size_pos
  have bins := mp.transform.length_bins (x.map Complex.ofReal)
  unfold hilbert
  dsimp only
  rw [if_neg (not_not_intro length), forward_eq (by rw [List.length_map, length])]
  dsimp only [bind, Except.bind]
  rw [updateRange_eq (by omega) (by rw [bins]; omega)]
  dsimp only
  rw [updateRange_eq (by rw [List.length_mapIdx, bins]; omega) (Nat.le_refl _), List.length_mapIdx,
    mapIdx_analyticBin]
  dsimp only
  rw [inverse_eq (by rw [List.length_mapIdx, bins])]
  rfl

theorem spectrum_eq {mp : MinimumPhase α} {magnitudes : List α}
    (length : magnitudes.length = mp.transform.size) :
    spectrum mp magnitudes = .ok (mp.spectrumOf magnitudes) := by
  have positive := mp.transform.size_pos
  unfold spectrum
  dsimp only
  rw [if_neg (not_not_intro length), hilbert_eq (by rw [List.length_map, List.length_map, length])]
  dsimp only [bind, Except.bind]
  rw [put_eq (by rw [MinimumPhase.length_hilbertOf]; exact positive)]
  dsimp only
  unfold MinimumPhase.spectrumOf MinimumPhase.pinPhase
  by_cases even : mp.transform.size % 2 = 0
  · rw [if_pos even, put_eq (by rw [List.length_set, MinimumPhase.length_hilbertOf]; omega)]
    simp only [if_pos even]
  · simp only [if_neg even]

theorem reconstruct_eq {mp : MinimumPhase α} {magnitudes : List α}
    (length : magnitudes.length = mp.transform.size) :
    ∃ impulse, reconstruct mp magnitudes = .ok impulse ∧
      mp.reconstruct magnitudes = .ok impulse := by
  refine ⟨(mp.transform.points (mp.spectrumOf magnitudes)).map Complex.re, ?_, ?_⟩
  · unfold reconstruct
    rw [spectrum_eq length]
    dsimp only [bind, Except.bind]
    rw [inverse_eq (MinimumPhase.length_spectrumOf length)]
  · rw [MinimumPhase.reconstruct, MinimumPhase.spectrum, if_pos length]
    rfl

theorem fullWindow_eq (length : Nat) (positive : 0 < length) :
    fullWindow length = .ok (Window.full (α := α) length) := by
  unfold fullWindow Window.full
  by_cases single : length = 1
  · rw [if_pos single, if_pos single]
  · rw [if_neg single, if_neg single, subtract_eq positive]
    rfl

theorem tailWindow_eq (length : Nat) : tailWindow length = .ok (Window.tail (α := α) length) := by
  unfold tailWindow
  by_cases empty : length = 0
  · rw [if_pos empty, empty]
    rfl
  · have full := Window.length_full (α := α) (2 * length - 1)
    rw [if_neg empty, subtract_eq (by omega)]
    dsimp only [bind, Except.bind]
    rw [fullWindow_eq _ (by omega)]
    dsimp only
    rw [subtract_eq (by omega)]
    dsimp only
    rw [sliceFrom_eq (by rw [full]; omega)]
    dsimp only
    rw [put_eq (by rw [List.length_drop, full]; omega)]
    rfl

theorem averagesFrom_eq {size cutoff : Nat} (count : α) (bin : Nat) (powers : List α)
    (inside : bin + powers.length ≤ size) :
    averagesFrom size cutoff count bin powers =
      .ok (powers.mapIdx fun k p =>
        (!Binaural.isPreservedBin α (bin + k) size cutoff, p / count)) := by
  induction powers generalizing bin with
  | nil => rfl
  | cons p rest ih =>
      rw [List.length_cons] at inside
      unfold averagesFrom isPreservedBin
      rw [subtract_eq (by omega), ih (bin + 1) (by omega), List.mapIdx_cons]
      simp only [Nat.add_zero, Nat.add_assoc, Nat.add_comm 1]
      rfl

theorem clampAll_eq {low high : α} (ordered : low ≤ high) (xs : List α) :
    clampAll low high xs = .ok (xs.map (Scalar.clamp low high)) := by
  induction xs with
  | nil => rfl
  | cons x rest ih =>
      rw [clampAll, clampValue, if_pos ordered, ih]
      rfl

theorem equalizer_eq (g : Grid (List α)) (cutoff : Nat) :
    equalizer g cutoff = Stop.ofError (Equalizer.ofGrid g cutoff) := by
  have powers : averagesFrom g.entryLength cutoff (Scalar.ofNat g.size) 0
      (Equalizer.totalPower g) = .ok (Equalizer.averagePower g cutoff) := by
    rw [averagesFrom_eq _ 0 _ (by rw [Nat.zero_add, Equalizer.length_totalPower])]
    simp only [Nat.zero_add, Equalizer.averagePower]
  unfold equalizer Equalizer.ofGrid
  rw [powers]
  dsimp only [Stop.ofPanic, bind, Except.bind]
  cases Equalizer.firstWithoutLevel? 0 (Equalizer.averagePower g cutoff) with
  | some found => rfl
  | none =>
      dsimp only
      cases Grid.checkFinite .equalize .everywhere
        (Equalizer.gainsOf (Equalizer.averagePower g cutoff)) with
      | error e => rfl
      | ok _ => rfl

end Guarded

/-! ## Stages -/

section Stages

variable {g : Grid (List α)} {length : Nat}

theorem analyze_agrees (nonempty : g.positioned ≠ []) :
    Agrees (fun h => h.outline = g.outline ∧ h.Uniform Spectrum.analysisSize)
      (Spectrum.analyze g) (Guarded.analyze g) := by
  obtain ⟨t, made⟩ := @Transform.ofSize_isOk α _ Spectrum.analysisSize (by decide)
  have size := Transform.size_of_ofSize made
  unfold Spectrum.analyze Guarded.analyze
  rw [made]
  change Agrees _ (g.tryMap .analyze fun _ signal => .ok (t.magnitudes signal))
    (Guarded.tryMap g .analyze fun _ signal => Stop.ofPanic (Guarded.magnitudes t signal))
  refine Agrees.tryMap nonempty fun entry _ => ?_
  rw [Guarded.magnitudes_eq]
  refine .ok ?_
  rw [Transform.length_magnitudes, size]

theorem equalize_agrees (cutoff : Nat) (uniform : g.Uniform length) :
    Agrees (fun h => h.outline = g.outline ∧ h.Uniform length)
      (equalize cutoff g) (Guarded.equalize cutoff g) := by
  unfold equalize Guarded.equalize
  rw [Guarded.equalizer_eq]
  refine (Agrees.ofError _).bind fun eq reduced => ?_
  unfold Equalizer.apply Grid.mapSignals
  refine Agrees.tryMap uniform.nonempty fun entry member => ?_
  refine Agrees.ok ?_
  rw [Equalizer.length_applyTo, Equalizer.length_gains reduced, uniform.entryLength,
    uniform.length entry member, Nat.min_self]

theorem clamp_agrees {low high : α} (ordered : low ≤ high) (uniform : g.Uniform length) :
    Agrees (fun h => h.outline = g.outline ∧ h.Uniform length)
      (Spectrum.clamp low high g) (Guarded.clamp low high g) := by
  refine Agrees.tryMap uniform.nonempty fun entry member => ?_
  refine Agrees.ofViolation (if_pos (.inl ordered)) (Guarded.clampAll_eq ordered _) ?_
  rw [List.length_map, uniform.length entry member]

theorem synthesize_agrees {floor : α} (floor_pos : 0 < floor) (positive : 0 < length)
    (uniform : g.Uniform length) :
    Agrees (fun h => h.outline = g.outline ∧ h.Uniform length)
      (Impulse.synthesize floor g) (Guarded.synthesize floor g) := by
  obtain ⟨mp, made⟩ : ∃ mp, MinimumPhase.ofSize g.entryLength floor = .ok mp := by
    rw [← uniform.entryLength] at positive
    obtain ⟨t, made⟩ := @Transform.ofSize_isOk α _ _ positive
    rw [MinimumPhase.ofSize, dif_pos floor_pos, made]
    exact ⟨_, rfl⟩
  have size : mp.transform.size = length := by
    rw [MinimumPhase.size_of_ofSize made, uniform.entryLength]
  unfold Impulse.synthesize Guarded.synthesize
  rw [made]
  refine Agrees.tryMap uniform.nonempty fun entry member => ?_
  obtain ⟨impulse, guarded, given⟩ :=
    @Guarded.reconstruct_eq _ _ mp _ (by rw [uniform.length entry member, size])
  refine Agrees.ofViolation given guarded ?_
  rw [MinimumPhase.length_of_reconstruct given, size]

theorem removeRumble_agrees (order : Nat) (cutoff : α) (uniform : g.Uniform length) :
    Agrees (fun h => h.outline = g.outline ∧ h.Uniform length)
      (Impulse.removeRumble order cutoff g) (Guarded.removeRumble order cutoff g) := by
  refine (Agrees.ofError _).bind fun highpass _ => ?_
  refine Agrees.tryMap uniform.nonempty fun entry member => .ok ?_
  rw [Cascade.length_filter, uniform.length entry member]

theorem truncate_agrees (finalLength : Nat) (uniform : g.Uniform length) :
    Agrees (fun h => h.outline = g.outline ∧ h.Uniform finalLength)
      (Impulse.truncate finalLength g) (Guarded.truncate finalLength g) := by
  unfold Impulse.truncate Guarded.truncate
  rw [Guarded.tailWindow_eq]
  refine Agrees.tryMap uniform.nonempty fun entry _ => .ok ?_
  rw [Impulse.length_truncateOne, Window.length_tail]

theorem emphasize_agrees (c : EmphasisConfig α) (uniform : g.Uniform length) :
    Agrees (fun h => h.outline = g.outline ∧ h.Uniform length)
      (Emphasis.emphasize c g) (Guarded.emphasize c g) := by
  refine Agrees.tryMap uniform.nonempty fun entry member => ?_
  dsimp only
  cases Emphasis.treatment
    (Emphasis.backRelative entry.1.azimuthIndex entry.1.azimuthCount) c with
  | error e => exact .error
  | ok t =>
    refine .ok ?_
    rw [Emphasis.Treatment.length_apply, uniform.length entry member]

theorem finish_agrees (c : Config α) (uniform : g.Uniform length) :
    Agrees (fun h => h.outline = g.outline ∧ h.Uniform c.finalLength)
      (c.finish g) (Guarded.finish c g) := by
  unfold Config.finish Guarded.finish
  cases c.placement with
  | beforeTruncation =>
    refine (emphasize_agrees c.emphasis uniform).bind fun darker reached => ?_
    exact (truncate_agrees c.finalLength reached.2).mono fun h final =>
      ⟨final.1.trans reached.1, final.2⟩
  | afterTruncation =>
    refine (truncate_agrees c.finalLength uniform).bind fun short reached => ?_
    exact (emphasize_agrees c.emphasis reached.2).mono fun h final =>
      ⟨final.1.trans reached.1, final.2⟩

/-- All stages agree, since each leaves entries of a length that the next can take. -/
theorem process_agrees {c : Config α} (meets : c.Meets) (nonempty : g.positioned ≠ []) :
    Agrees (fun h => h.outline = g.outline ∧ h.Uniform c.finalLength)
      (c.process g) (Guarded.process c g) := by
  refine (analyze_agrees nonempty).bind fun spectra analyzed => ?_
  refine (equalize_agrees c.equalizationCutoff analyzed.2).bind fun equalized even => ?_
  refine (clamp_agrees meets.minGain_le even.2).bind fun clamped bounded => ?_
  refine (synthesize_agrees meets.minPhaseFloor_pos (by decide) bounded.2).bind
    fun impulses causal => ?_
  refine (removeRumble_agrees c.rumbleOrder c.rumbleCutoff causal.2).bind fun filtered quiet => ?_
  refine (finish_agrees c quiet.2).mono fun final finished => ⟨?_, finished.2⟩
  calc final.outline
    _ = filtered.outline := finished.1
    _ = impulses.outline := quiet.1
    _ = clamped.outline := causal.1
    _ = equalized.outline := bounded.1
    _ = spectra.outline := even.1
    _ = g.outline := analyzed.1

end Stages

/-! ## Compilations -/

theorem Grid.elevations_eq_map_outline {β : Type} (g : Grid β) :
    g.elevations = g.outline.map Prod.fst := by
  unfold elevations outline
  rw [List.map_map]
  rfl

theorem compile_agrees {ms : List (Measurement α)} {d : Dataset α}
    (accepted : Dataset.ofMeasurements ms = .ok d) (c : Config α) :
    Agrees (fun t => t.grid.Uniform c.finalLength) (compile d c) (Guarded.compile d c) := by
  unfold compile Guarded.compile
  cases checked : c.validate with
  | error e => exact .error
  | ok _ =>
      obtain ⟨-, laidOut⟩ := Dataset.of_ofMeasurements accepted
      obtain ⟨-, -, -, -, angles, -⟩ := ElevationLayout.of_ofAngles laidOut
      change Agrees _ (c.process d.grid >>= fun grid => .ok ⟨d.layout, grid⟩)
        (Guarded.process c d.grid >>= fun grid => Stop.ofPanic (Guarded.assemble d.layout grid))
      refine (process_agrees (Config.validate_eq_ok_iff.mp checked)
        (Dataset.positioned_ne_nil accepted)).bind fun grid processed => ?_
      have elevations : d.layout.angles = grid.elevations := by
        rw [angles, Grid.elevations_eq_map_outline, Grid.elevations_eq_map_outline, processed.1]
      rw [Guarded.assemble, if_pos elevations]
      exact .ok processed.2

/-- No operation of a compilation is undefined for what it is given, whatever the settings are: the
guarded compilation of an accepted dataset has the outcome of the unguarded one, which is a compiled
dataset or an error. -/
theorem guarded_compile_never_panics {ms : List (Measurement α)} {d : Dataset α}
    (accepted : Dataset.ofMeasurements ms = .ok d) (c : Config α) :
    ∃ outcome : Except (CompileError α) (ImpulseTable α),
      compile d c = Failure.ofError outcome ∧ Guarded.compile d c = Stop.ofError outcome := by
  have agrees := compile_agrees accepted c
  generalize compile d c = plain at agrees ⊢
  generalize Guarded.compile d c = guarded at agrees ⊢
  cases agrees with
  | @ok t _ => exact ⟨.ok t, rfl, rfl⟩
  | @error e => exact ⟨.error e, rfl, rfl⟩

/-- The settings of the shipped dataset, with other bounds of the gains. -/
def Config.withGains (minGain maxGain : Float) : Config Float :=
  { Config.default with minGain, maxGain }

/-- An impulse at each of two elevations. Settings that are accepted take it through the stages, and
those with a least gain that is not a number are refused. -/
theorem guarded_compile_never_panics_impulses :
    let ms : List (Measurement Float) := [⟨0, 0, [1]⟩, ⟨15, 0, [0.5]⟩]
    let d : Dataset Float :=
      ⟨⟨[⟨0, [(0, [1])]⟩, ⟨15, [(0, [0.5])]⟩]⟩, ⟨[0, 15], 15, 0, 15⟩, 1⟩
    Dataset.ofMeasurements ms = .ok d ∧
      (Config.withGains 0 2).validate = .ok () ∧
      (∃ outcome : Except (CompileError Float) (ImpulseTable Float),
        compile d (.withGains 0 2) = Failure.ofError outcome ∧
          Guarded.compile d (.withGains 0 2) = Stop.ofError outcome) ∧
      (Config.withGains (0 / 0) 2).validate = .error (.invalid (.gains (0 / 0) 2)) ∧
      ∃ outcome : Except (CompileError Float) (ImpulseTable Float),
        compile d (.withGains (0 / 0) 2) = Failure.ofError outcome ∧
          Guarded.compile d (.withGains (0 / 0) 2) = Stop.ofError outcome := by
  intro ms d
  have accepted : Dataset.ofMeasurements ms = .ok d := by rfl
  exact ⟨accepted, rfl, guarded_compile_never_panics accepted _, rfl,
    guarded_compile_never_panics accepted _⟩

end Binaural
