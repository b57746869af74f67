import Binaural.Proofs.Binary64
import Binaural.Proofs.Demands
import Binaural.Proofs.Designs
import Binaural.Proofs.Refinement
import Binaural.Proofs.Streaming

/-!
The two placements of the emphasis compared.

Filters are causal: the first samples that come out of a cascade are those that come out for the
first samples alone (`Cascade.filter_take`). So darkening and then shortening an impulse needs only
the samples that are kept (`Config.darkenKept_of_finishOne`), and the first sample, which the
window leaves alone, does not depend on which of the two comes first.

`Config.filtered` is a compilation up to the impulses without rumble, which settings that differ in
the placement alone have in common (`Config.process_eq_bind`).
-/

namespace Binaural

variable {α : Type} [Scalar α]

/-! ## Causal treatments -/

theorem Emphasis.Treatment.apply_take (t : Treatment α) (n : Nat) (impulse : List α) :
    t.apply (impulse.take n) = (t.apply impulse).take n := by
  cases t with
  | unchanged => rfl
  | lowpass _ design => exact design.filter.filter_take n impulse

/-! ## Windows -/

/-- A window on a longer impulse needs no more than the samples that it covers. -/
theorem Impulse.truncateOne_eq_zipWith {impulse window : List α}
    (long : window.length ≤ impulse.length) :
    truncateOne impulse window =
      List.zipWith (fun x w => x * w) (impulse.take window.length) window := by
  have covered : List.zipWith (fun x w => x * w) (impulse.take window.length) window =
      List.zipWith (fun x w => x * w) impulse window := by
    rw [@List.zipWith_eq_zipWith_take_min _ _ _ _ impulse, Nat.min_eq_right long,
      List.take_length]
  rw [truncateOne, Nat.sub_eq_zero_of_le long, List.replicate_zero, List.append_nil, covered]

/-- The window begins with exactly 1. -/
theorem Window.exists_tail {length : Nat} (positive : 0 < length) :
    ∃ rest, tail (α := α) length = 1 :: rest := by
  have some := length_tail (α := α) length
  unfold tail at some ⊢
  generalize (full (α := α) (2 * length - 1)).drop (length - 1) = half at some ⊢
  cases half with
  | nil =>
      rw [List.set_nil, List.length_nil] at some
      omega
  | cons w rest => exact ⟨rest, rfl⟩

/-! ## The last two steps -/

namespace Emphasis

/-- A treatment and a window on an impulse, in the order of a placement. -/
def Treatment.finish (t : Treatment α) (placement : EmphasisPlacement) (window impulse : List α) :
    List α :=
  match placement with
  | .beforeTruncation => Impulse.truncateOne (t.apply impulse) window
  | .afterTruncation => t.apply (Impulse.truncateOne impulse window)

theorem emphasizeOne_eq_ok_iff {c : EmphasisConfig α} {index count : Nat}
    {impulse darker : List α} :
    emphasizeOne c index count impulse = .ok darker ↔
      ∃ t, treatment (backRelative index count) c = .ok t ∧ t.apply impulse = darker := by
  rw [emphasizeOne]
  cases treatment (backRelative index count) c with
  | error e => simp
  | ok t => simp

end Emphasis

theorem Config.finishOne_eq_ok_iff {c : Config α} {index count : Nat} {impulse short : List α} :
    c.finishOne index count impulse = .ok short ↔
      ∃ t, Emphasis.treatment (Emphasis.backRelative index count) c.emphasis = .ok t ∧
        t.finish c.placement (Window.tail c.finalLength) impulse = short := by
  unfold finishOne Emphasis.Treatment.finish
  cases c.placement with
  | beforeTruncation =>
      dsimp only
      rw [bind_eq_ok_iff]
      constructor
      · rintro ⟨darker, emphasized, truncated⟩
        obtain ⟨t, treated, rfl⟩ := Emphasis.emphasizeOne_eq_ok_iff.mp emphasized
        exact ⟨t, treated, Except.ok.inj truncated⟩
      · rintro ⟨t, treated, rfl⟩
        exact ⟨_, Emphasis.emphasizeOne_eq_ok_iff.mpr ⟨t, treated, rfl⟩, rfl⟩
  | afterTruncation => exact Emphasis.emphasizeOne_eq_ok_iff

/-! ## Compilations up to the impulses without rumble -/

/-- All stages but the last two. -/
def Config.filtered (c : Config α) (recordings : Grid (List α)) :
    Except (Failure α) (Grid (List α)) := do
  let spectra ← Spectrum.analyze recordings
  let equalized ← equalize c.equalizationCutoff spectra
  let clamped ← Spectrum.clamp c.minGain c.maxGain equalized
  let impulses ← Impulse.synthesize c.minPhaseFloor clamped
  Impulse.removeRumble c.rumbleOrder c.rumbleCutoff impulses

namespace Config

variable (c : Config α)

/-- A compilation is what leads to the impulses without rumble, and then the last two stages. -/
theorem process_eq_bind (g : Grid (List α)) : c.process g = c.filtered g >>= c.finish := by
  simp only [process, filtered, bind_assoc]

/-- What `filtered` runs. -/
def filtering : List (GridStage (Failure α) α) :=
  [Spectrum.analysis, Equalizer.equalization c.equalizationCutoff,
    Spectrum.clamping c.minGain c.maxGain, Impulse.synthesis c.minPhaseFloor,
    Impulse.rumbleRemoval c.rumbleOrder c.rumbleCutoff]

theorem filtered_eq_runAll (g : Grid (List α)) : c.filtered g = GridStage.runAll c.filtering g := by
  simp only [filtered, filtering, GridStage.runAll, Spectrum.run_analysis,
    Equalizer.run_equalization, Spectrum.run_clamping, Impulse.run_synthesis,
    Impulse.run_rumbleRemoval]
  have last (h : Grid (List α)) : Impulse.removeRumble c.rumbleOrder c.rumbleCutoff h =
      (Impulse.removeRumble c.rumbleOrder c.rumbleCutoff h).bind .ok :=
    (bind_pure _).symm
  simp only [← last]
  rfl

theorem filtered_eq_ok_iff {c : Config α} {g filtered : Grid (List α)} :
    c.filtered g = .ok filtered ↔ GridStage.Passes c.filtering g filtered := by
  rw [filtered_eq_runAll, GridStage.runAll_eq_ok_iff]

/-- Impulses are a second long before they are shortened. -/
theorem length_of_filtered {c : Config α} {g filtered : Grid (List α)}
    (given : c.filtered g = .ok filtered) :
    ∀ entry ∈ filtered.positioned, entry.2.length = Spectrum.analysisSize := by
  have passes := filtered_eq_ok_iff.mp given
  obtain ⟨transform, spectra, made, -, analysis, passes⟩ := GridStage.passes_of_cons_iff.mp passes
  obtain ⟨equalizer, equalized, reduced, -, equalization, passes⟩ :=
    GridStage.passes_of_cons_iff.mp passes
  obtain ⟨-, clamped, -, -, clamping, passes⟩ := GridStage.passes_of_cons_iff.mp passes
  obtain ⟨mp, impulses, prepared, -, synthesis, passes⟩ := GridStage.passes_of_cons_iff.mp passes
  obtain ⟨highpass, last, -, -, filtering, passes⟩ := GridStage.passes_of_cons_iff.mp passes
  cases passes
  intro entry member
  obtain ⟨impulse, impulse_mem, -, filters⟩ := filtering.of_settled.exists_source member
  obtain ⟨magnitudes, magnitudes_mem, -, reconstructs⟩ :=
    synthesis.of_settled.exists_source impulse_mem
  obtain ⟨gains, gains_mem, -, -⟩ := clamping.of_settled.exists_source magnitudes_mem
  obtain ⟨spectrum, spectrum_mem, -, -⟩ := equalization.of_settled.exists_source gains_mem
  obtain ⟨samples, samples_mem, -, -⟩ := analysis.of_settled.exists_source spectrum_mem
  have bounded := uniform_of_images (List.ne_nil_of_mem samples_mem)
    (Transform.size_of_ofSize (Failure.ofViolation_eq_ok_iff.mp made))
    (Failure.ofError_eq_ok_iff.mp reduced) analysis.of_settled equalization.of_settled
    clamping.of_settled
  rw [bounded.entryLength, Failure.ofViolation_eq_ok_iff] at prepared
  rw [← Except.ok.inj filters, Cascade.length_filter,
    MinimumPhase.length_of_reconstruct (Failure.ofViolation_eq_ok_iff.mp reconstructs),
    MinimumPhase.size_of_ofSize prepared]

end Config

/-- A compilation shortens and darkens each impulse without rumble. -/
theorem exists_filtered_of_compile {d : Dataset α} {c : Config α} {t : ImpulseTable α}
    (compiled : compile d c = .ok t) :
    ∃ filtered, c.filtered d.grid = .ok filtered ∧
      Images (fun p x => c.finishOne p.azimuthIndex p.azimuthCount x) filtered.positioned
        t.grid.positioned := by
  obtain ⟨-, -, passes⟩ := compile_eq_ok_iff.mp compiled
  rw [← GridStage.runAll_eq_ok_iff, ← Config.process_eq_runAll, Config.process_eq_bind,
    bind_eq_ok_iff] at passes
  obtain ⟨filtered, given, finished⟩ := passes
  rw [Config.finish_eq_runAll, GridStage.runAll_eq_ok_iff] at finished
  exact ⟨filtered, given, (Config.images_of_finishing finished).1⟩

/-! ## Darkening before shortening -/

/-- An impulse darkened over the samples that are kept, times the window. -/
def Config.darkenKept (c : Config α) (index count : Nat) (impulse : List α) :
    Except (Failure α) (List α) := do
  let darker ← Emphasis.emphasizeOne c.emphasis index count (impulse.take c.finalLength)
  .ok (List.zipWith (fun x w => x * w) darker (Window.tail c.finalLength))

/-- Before impulses are shortened, only the samples that are kept matter to the emphasis. -/
theorem Config.darkenKept_of_finishOne {c : Config α} {index count : Nat} {impulse short : List α}
    (placed : c.placement = .beforeTruncation) (long : c.finalLength ≤ impulse.length)
    (finished : c.finishOne index count impulse = .ok short) :
    c.darkenKept index count impulse = .ok short := by
  obtain ⟨t, treated, rfl⟩ := finishOne_eq_ok_iff.mp finished
  have length := Window.length_tail (α := α) c.finalLength
  have covered : (Window.tail (α := α) c.finalLength).length ≤ (t.apply impulse).length := by
    rw [length, Emphasis.Treatment.length_apply]
    exact long
  have darker := Impulse.truncateOne_eq_zipWith covered
  rw [length, ← Emphasis.Treatment.apply_take] at darker
  rw [placed, Emphasis.Treatment.finish, darker, darkenKept,
    Emphasis.emphasizeOne_eq_ok_iff.mpr ⟨t, treated, rfl⟩]
  rfl

/-! ## Both placements -/

namespace Emphasis.Treatment

/-- The window leaves the first sample alone, and that sample is all that the first one depends
on. -/
theorem take_one_finish (t : Treatment Float) (placement : EmphasisPlacement) {length : Nat}
    (positive : 0 < length) {impulse : List Float} (some : impulse ≠ []) :
    (t.finish placement (Window.tail length) impulse).take 1 = (t.apply impulse).take 1 := by
  obtain ⟨rest, window⟩ := Window.exists_tail (α := Float) positive
  have untouched {xs : List Float} (some : xs ≠ []) :
      (Impulse.truncateOne xs (Window.tail length)).take 1 = xs.take 1 := by
    obtain ⟨x, others, rfl⟩ := List.exists_cons_of_ne_nil some
    rw [window, Impulse.truncateOne, List.zipWith_cons_cons, List.cons_append]
    exact congrArg (fun y => [y]) (Binary64.mul_ofNat_one x)
  cases placement with
  | beforeTruncation =>
      refine untouched (List.ne_nil_of_length_pos ?_)
      rw [length_apply]
      exact List.length_pos_of_ne_nil some
  | afterTruncation => rw [finish, ← apply_take, untouched some, apply_take]

/-- In front, where nothing is darkened, the order is of no account. -/
theorem finish_of_front {back : α} {c : EmphasisConfig α} (front : c.frontThreshold ≤ back)
    {t : Treatment α} (treated : treatment back c = .ok t) (placement : EmphasisPlacement)
    (window impulse : List α) :
    t.finish placement window impulse = Impulse.truncateOne impulse window := by
  rw [treatment_of_front front] at treated
  cases treated
  cases placement with
  | beforeTruncation => rfl
  | afterTruncation => rfl

end Emphasis.Treatment

/-- The settings with another placement. -/
def Config.placing (c : Config α) (placement : EmphasisPlacement) : Config α :=
  { c with placement := placement }

/-- Two impulses at one place begin with the same sample, and in front they are the same. -/
def AgreeAt (e : EmphasisConfig Float) (place : Position) (impulse impulse' : List Float) : Prop :=
  impulse.head? = impulse'.head? ∧
    (e.frontThreshold ≤ Emphasis.backRelative place.azimuthIndex place.azimuthCount →
      impulse = impulse')

/-- What compilations with settings that differ in nothing but the placement have in common. -/
structure Agree (c : Config Float) (t t' : ImpulseTable Float) : Prop where
  layout : t.layout = t'.layout
  outline : t.grid.outline = t'.grid.outline
  positive : 0 < c.finalLength
  lengths : ∀ impulse ∈ t.grid.values ++ t'.grid.values, impulse.length = c.finalLength
  entries : List.Forall₂
    (fun entry entry' => entry.1 = entry'.1 ∧ AgreeAt c.emphasis entry.1 entry.2 entry'.2)
    t.grid.positioned t'.grid.positioned

theorem agree_of_compile {d : Dataset Float} {c : Config Float}
    {placement placement' : EmphasisPlacement} {t t' : ImpulseTable Float}
    (compiled : compile d (c.placing placement) = .ok t)
    (compiled' : compile d (c.placing placement') = .ok t') : Agree c t t' := by
  obtain ⟨valid, layout, passes⟩ := compile_eq_ok_iff.mp compiled
  obtain ⟨-, layout', passes'⟩ := compile_eq_ok_iff.mp compiled'
  obtain ⟨filtered, given, images⟩ := exists_filtered_of_compile compiled
  obtain ⟨_, given', images'⟩ := exists_filtered_of_compile compiled'
  cases Except.ok.inj (given.symm.trans given')
  have positive : 0 < c.finalLength :=
    Nat.pos_of_ne_zero (Config.validate_eq_ok_iff.mp valid).finalLength_ne
  have lengths {placement : EmphasisPlacement} {t : ImpulseTable Float}
      (images : Images (fun p x => (c.placing placement).finishOne p.azimuthIndex p.azimuthCount x)
        filtered.positioned t.grid.positioned) :
      ∀ impulse ∈ t.grid.values, impulse.length = c.finalLength := by
    intro impulse member
    rw [← Grid.map_snd_positioned] at member
    obtain ⟨image, image_mem, rfl⟩ := List.mem_map.mp member
    obtain ⟨source, -, -, finished⟩ := images.exists_source image_mem
    exact Config.length_of_finishOne (c := c.placing placement) finished
  refine ⟨layout.trans layout'.symm, passes.outline.trans passes'.outline.symm, positive,
    fun impulse member => ?_, images.forall₂ images' fun place member short short' one other => ?_⟩
  · exact (List.mem_append.mp member).elim (lengths images impulse) (lengths images' impulse)
  · obtain ⟨treatment, treated, rfl⟩ := Config.finishOne_eq_ok_iff.mp one
    obtain ⟨_, treated', rfl⟩ := Config.finishOne_eq_ok_iff.mp other
    cases Except.ok.inj (treated.symm.trans treated')
    have some : place.2 ≠ [] := by
      refine List.ne_nil_of_length_pos ?_
      rw [Config.length_of_filtered given place member]
      decide
    have first := (treatment.take_one_finish placement positive some).trans
      (treatment.take_one_finish placement' positive some).symm
    refine ⟨?_, fun front => ?_⟩
    · have head (xs : List Float) : (xs.take 1).head? = xs.head? := by
        rw [List.head?_take, if_neg Nat.one_ne_zero]
      exact (head _).symm.trans ((congrArg List.head? first).trans (head _))
    · exact (Emphasis.Treatment.finish_of_front front treated placement _ _).trans
        (Emphasis.Treatment.finish_of_front front treated placement' _ _).symm

/-- Settings that differ in the placement alone give impulses of one shape, with the same first
samples everywhere, and all the same in front. If impulses are darkened before they are shortened,
each is the window times what the emphasis makes of the samples that are kept. -/
theorem placements_agree (d : Dataset Float) (c : Config Float) :
    (∀ placement placement' t t', compile d (c.placing placement) = .ok t →
        compile d (c.placing placement') = .ok t' → Agree c t t') ∧
      ∀ t, compile d (c.placing .beforeTruncation) = .ok t →
        ∃ filtered, c.filtered d.grid = .ok filtered ∧
          Images (fun p x => c.darkenKept p.azimuthIndex p.azimuthCount x) filtered.positioned
            t.grid.positioned := by
  refine ⟨fun _ _ _ _ => agree_of_compile, fun t compiled => ?_⟩
  obtain ⟨valid, -, -⟩ := compile_eq_ok_iff.mp compiled
  obtain ⟨filtered, given, images⟩ := exists_filtered_of_compile compiled
  have long := (Config.validate_eq_ok_iff.mp valid).finalLength_le
  refine ⟨filtered, given, images.mono_of_mem fun place member short finished => ?_⟩
  refine Config.darkenKept_of_finishOne (c := c.placing .beforeTruncation) rfl ?_ finished
  rw [Config.length_of_filtered given place member]
  exact long

end Binaural
