import Binaural.Compile
import Binaural.Proofs.Stages

/-!
The stages of a compilation, as a list.

* `GridStage.of` builds a stage out of what is made from a whole grid and of what is done with it at
  each angle. Every stage of a compilation has this form.
* `Config.stages` lists the stages that a configuration asks for, and `Config.process_eq_runAll`
  says that these are what a compilation runs.
* `compile_eq_ok_iff` and `compile_eq_error_iff` say when a compilation succeeds and with what, and
  which of the competing errors it reports.
-/

namespace Binaural

variable {α : Type}

/-! ## Results in the presence of all failures -/

/-- Steps in turn succeed only if each does. -/
theorem bind_eq_ok_iff {ε β γ : Type} {x : Except ε β} {f : β → Except ε γ} {y : γ} :
    (x >>= f) = .ok y ↔ ∃ z, x = .ok z ∧ f z = .ok y := by
  cases x with
  | error e => simp [bind, Except.bind]
  | ok z => simp [bind, Except.bind]

namespace Failure

variable {β : Type} {x : β}

theorem ofViolation_eq_ok_iff {r : Except Violation β} :
    ofViolation (α := α) r = .ok x ↔ r = .ok x := by
  cases r with
  | ok y => simp [ofViolation]
  | error v => simp [ofViolation]

theorem ofError_eq_ok_iff {r : Except (CompileError α) β} : ofError r = .ok x ↔ r = .ok x := by
  cases r with
  | ok y => simp [ofError]
  | error e => simp [ofError]

end Failure

/-! ## Stages of one form -/

variable [Scalar α]

namespace GridStage

/-- A stage that makes a tool for the whole grid and uses it at each angle, where what comes out
must be finite. -/
def of {σ : Type} (stage : Stage) (make : Grid (List α) → Except (Failure α) σ)
    (use : σ → Position → List α → Except (Failure α) (List α)) : GridStage (Failure α) α where
  prepare g := (make g).map fun tool => Grid.settled stage (use tool)

variable {σ : Type} {stage : Stage} {make : Grid (List α) → Except (Failure α) σ}
  {use : σ → Position → List α → Except (Failure α) (List α)} {g : Grid (List α)}

theorem prepare_of :
    (of stage make use).prepare g = (make g).map fun tool => Grid.settled stage (use tool) :=
  rfl

theorem run_of :
    (of stage make use).run g = (make g).bind fun tool => g.tryMap stage (use tool) := by
  rw [run, prepare_of]
  cases make g with
  | error e => rfl
  | ok tool => rfl

theorem prepare_of_eq_ok_iff {f : Position → List α → Except (Failure α) (List α)} :
    (of stage make use).prepare g = .ok f ↔
      ∃ tool, make g = .ok tool ∧ Grid.settled stage (use tool) = f := by
  rw [prepare_of]
  cases make g with
  | error e => simp [Except.map]
  | ok tool => simp [Except.map]

theorem prepare_of_eq_error_iff {e : Failure α} :
    (of stage make use).prepare g = .error e ↔ make g = .error e := by
  rw [prepare_of]
  cases make g with
  | error e => simp [Except.map]
  | ok tool => simp [Except.map]

/-- Stages pass if the first makes its tool, the tool works at every angle, and the others pass. -/
theorem passes_of_cons_iff {rest : List (GridStage (Failure α) α)} {final : Grid (List α)} :
    Passes (of stage make use :: rest) g final ↔
      ∃ tool h, make g = .ok tool ∧ h.outline = g.outline ∧
        Images (Grid.settled stage (use tool)) g.positioned h.positioned ∧
        Passes rest h final := by
  constructor
  · intro passes
    cases passes with
    | step prepared outline result passes =>
        obtain ⟨tool, made, rfl⟩ := prepare_of_eq_ok_iff.mp prepared
        exact ⟨tool, _, made, outline, result, passes⟩
  · rintro ⟨tool, h, made, outline, result, passes⟩
    exact .step (prepare_of_eq_ok_iff.mpr ⟨tool, made, rfl⟩) outline result passes

end GridStage

/-! ## The stages of a compilation -/

/-- Recordings to magnitudes. -/
def Spectrum.analysis : GridStage (Failure α) α :=
  .of .analyze (fun _ => Failure.ofViolation (Transform.ofSize analysisSize))
    fun transform _ samples => .ok (transform.magnitudes samples)

/-- Magnitudes to equalized ones, by an equalizer that is made of them all. -/
def Equalizer.equalization (cutoff : Nat) : GridStage (Failure α) α :=
  .of .equalize (fun spectra => Failure.ofError (ofGrid spectra cutoff))
    fun equalizer _ magnitudes => .ok (equalizer.applyTo magnitudes)

/-- Magnitudes to bounded ones. -/
def Spectrum.clamping (low high : α) : GridStage (Failure α) α :=
  .of .clamp (fun _ => .ok ()) fun _ _ magnitudes =>
    Failure.ofViolation (clampAll low high magnitudes)

/-- Magnitudes to impulses. -/
def Impulse.synthesis (floor : α) : GridStage (Failure α) α :=
  .of .minimumPhase
    (fun spectra => Failure.ofViolation (MinimumPhase.ofSize spectra.entryLength floor))
    fun mp _ magnitudes => Failure.ofViolation (mp.reconstruct magnitudes)

/-- Impulses to those without rumble. -/
def Impulse.rumbleRemoval (order : Nat) (cutoff : α) : GridStage (Failure α) α :=
  .of .rumble (fun _ => Failure.ofError (rumbleFilter order cutoff))
    fun highpass _ impulse => .ok (highpass.filter impulse)

/-- Impulses to short ones. -/
def Impulse.truncation (length : Nat) : GridStage (Failure α) α :=
  .of .truncate (fun _ => .ok (Window.tail length)) fun window _ impulse =>
    .ok (truncateOne impulse window)

/-- What directional emphasis makes of an impulse, by the rank of its azimuth. -/
def Emphasis.emphasizeOne (c : EmphasisConfig α) (index count : Nat) (impulse : List α) :
    Except (Failure α) (List α) :=
  match treatment (backRelative index count) c with
  | .error e => .error (.error (.design .emphasis e))
  | .ok t => .ok (t.apply impulse)

/-- Impulses to those that are darker behind the listener. -/
def Emphasis.emphasis (c : EmphasisConfig α) : GridStage (Failure α) α :=
  .of .emphasis (fun _ => .ok ()) fun _ position =>
    emphasizeOne c position.azimuthIndex position.azimuthCount

theorem Spectrum.run_analysis (g : Grid (List α)) : analysis.run g = analyze g := by
  rw [analysis, GridStage.run_of, analyze]
  rfl

theorem Equalizer.run_equalization (cutoff : Nat) (g : Grid (List α)) :
    (equalization cutoff).run g = equalize cutoff g := by
  rw [equalization, GridStage.run_of, equalize]
  rfl

theorem Spectrum.run_clamping (low high : α) (g : Grid (List α)) :
    (clamping low high).run g = clamp low high g := by
  rw [clamping, GridStage.run_of, clamp]
  rfl

theorem Impulse.run_synthesis (floor : α) (g : Grid (List α)) :
    (synthesis floor).run g = synthesize floor g := by
  rw [synthesis, GridStage.run_of, synthesize]
  rfl

theorem Impulse.run_rumbleRemoval (order : Nat) (cutoff : α) (g : Grid (List α)) :
    (rumbleRemoval order cutoff).run g = removeRumble order cutoff g := by
  rw [rumbleRemoval, GridStage.run_of, removeRumble]
  rfl

theorem Impulse.run_truncation (length : Nat) (g : Grid (List α)) :
    (truncation length).run g = truncate length g := by
  rw [truncation, GridStage.run_of, truncate]
  rfl

theorem Emphasis.run_emphasis (c : EmphasisConfig α) (g : Grid (List α)) :
    (emphasis c).run g = emphasize c g := by
  rw [emphasis, GridStage.run_of, emphasize]
  rfl

namespace Config

/-- The last two stages, in the order that is asked for. -/
def finishing (c : Config α) : List (GridStage (Failure α) α) :=
  match c.placement with
  | .beforeTruncation => [Emphasis.emphasis c.emphasis, Impulse.truncation c.finalLength]
  | .afterTruncation => [Impulse.truncation c.finalLength, Emphasis.emphasis c.emphasis]

/-- All stages in order. -/
def stages (c : Config α) : List (GridStage (Failure α) α) :=
  [Spectrum.analysis, Equalizer.equalization c.equalizationCutoff,
    Spectrum.clamping c.minGain c.maxGain, Impulse.synthesis c.minPhaseFloor,
    Impulse.rumbleRemoval c.rumbleOrder c.rumbleCutoff] ++ c.finishing

theorem mem_stages_iff {c : Config α} {s : GridStage (Failure α) α} :
    s ∈ c.stages ↔
      s = Spectrum.analysis ∨ s = Equalizer.equalization c.equalizationCutoff ∨
        s = Spectrum.clamping c.minGain c.maxGain ∨ s = Impulse.synthesis c.minPhaseFloor ∨
        s = Impulse.rumbleRemoval c.rumbleOrder c.rumbleCutoff ∨
        s = Impulse.truncation c.finalLength ∨ s = Emphasis.emphasis c.emphasis := by
  unfold stages finishing
  cases c.placement with
  | beforeTruncation =>
      simp only [List.cons_append, List.nil_append, List.mem_cons, List.not_mem_nil, or_false]
      rw [@or_comm (s = Emphasis.emphasis c.emphasis)]
  | afterTruncation =>
      simp only [List.cons_append, List.nil_append, List.mem_cons, List.not_mem_nil, or_false]

variable (c : Config α) (g : Grid (List α))

theorem finish_eq_runAll : c.finish g = GridStage.runAll c.finishing g := by
  rw [finish, finishing]
  cases c.placement with
  | beforeTruncation =>
      simp only [GridStage.runAll, Emphasis.run_emphasis, Impulse.run_truncation]
      cases Emphasis.emphasize c.emphasis g with
      | error e => rfl
      | ok h => exact (bind_pure (Impulse.truncate c.finalLength h)).symm
  | afterTruncation =>
      simp only [GridStage.runAll, Emphasis.run_emphasis, Impulse.run_truncation]
      cases Impulse.truncate c.finalLength g with
      | error e => rfl
      | ok h => exact (bind_pure (Emphasis.emphasize c.emphasis h)).symm

/-- A compilation runs the stages of its configuration. -/
theorem process_eq_runAll : c.process g = GridStage.runAll c.stages g := by
  simp only [process, stages, List.cons_append, List.nil_append, GridStage.runAll,
    Spectrum.run_analysis, Equalizer.run_equalization, Spectrum.run_clamping,
    Impulse.run_synthesis, Impulse.run_rumbleRemoval, finish_eq_runAll]
  rfl

end Config

/-! ## Compilations -/

section Compile

variable {d : Dataset α} {c : Config α}

theorem compile_of_validate (valid : c.validate = .ok ()) :
    compile d c = (GridStage.runAll c.stages d.grid).map fun grid => ⟨d.layout, grid⟩ := by
  rw [compile, valid, ← Config.process_eq_runAll]

/-- A compilation succeeds if the settings meet all demands and all stages pass. -/
theorem compile_eq_ok_iff {t : ImpulseTable α} :
    compile d c = .ok t ↔
      c.validate = .ok () ∧ t.layout = d.layout ∧ GridStage.Passes c.stages d.grid t.grid := by
  cases checked : c.validate with
  | error e => simp [compile, checked]
  | ok _ =>
      rw [compile_of_validate checked, ← GridStage.runAll_eq_ok_iff]
      obtain ⟨layout, grid⟩ := t
      cases GridStage.runAll c.stages d.grid with
      | error e => simp [Except.map]
      | ok h => simp [Except.map, eq_comm]

/-- With settings that meet all demands, a compilation reports the error at which its stages
break. -/
theorem compile_eq_error_iff {f : Failure α} (valid : c.validate = .ok ()) :
    compile d c = .error f ↔ GridStage.Breaks c.stages d.grid f := by
  rw [compile_of_validate valid, ← GridStage.runAll_eq_error_iff]
  cases GridStage.runAll c.stages d.grid with
  | error e => simp [Except.map]
  | ok h => simp [Except.map]

end Compile

end Binaural
