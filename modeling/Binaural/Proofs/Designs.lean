import Binaural.Proofs.Binary64
import Binaural.Proofs.Demands
import Binaural.Proofs.Pipeline

/-!
Which filters can be designed with settings that meet all demands.

Validation looks at the settings, and the design of a filter at a cutoff and at losses that are
computed from them. For the rumble filter the two agree. For the emphasis they do not: at angles
that are farther than one half from the back, and yet below the threshold, the gain of the stopband
can come out positive; and a loss at the passband edge that is tiny or infinite puts the cutoff on
the border of what can be designed.

* `Emphasis.Designable` is what is left to ask for at a distance from the back, and
  `Emphasis.treatment_isOk_iff` says that with it there is a treatment, and without it none.
* `Emphasis.attenuation_pos`: nearer than one half to the back the attenuation is positive.
* `place_of_design_error`: the stages other than the emphasis never fail to design a filter.
-/

namespace Binaural

variable {α : Type} [Scalar α]

/-! ## The rumble filter -/

theorem Butterworth.cutoffFault?_eq_none_iff {order : Nat} {cutoff : α} :
    cutoffFault? order cutoff = none ↔
      order ≠ 0 ∧ 0 < cutoff ∧ cutoff < Scalar.ofNat nyquist := by
  unfold cutoffFault?
  split
  · rename_i zero
    simp [zero]
  · rename_i nonzero
    split
    · rename_i inside
      simp [nonzero, inside]
    · rename_i outside
      simp [nonzero, outside]

/-- The demands on the rumble filter are those of its design. -/
theorem Impulse.rumbleFilter_isOk {c : Config α} (meets : c.Meets) :
    ∃ highpass, rumbleFilter c.rumbleOrder c.rumbleCutoff = .ok highpass := by
  have inside := Butterworth.cutoffFault?_eq_none_iff.mpr
    ⟨meets.rumbleOrder_ne, meets.rumbleCutoff_pos, meets.rumbleCutoff_lt⟩
  rw [rumbleFilter, Butterworth.highpass, inside]
  exact ⟨_, rfl⟩

/-! ## The emphasis -/

namespace Butterworth

variable {passband stopband loss attenuation : α}

/-- The cutoff that a lowpass is designed with. -/
def designCutoff (passband stopband loss attenuation : α) : α :=
  let warped := Section.prewarp passband
  cutoffFor (leastOrder warped (Section.prewarp stopband) loss attenuation) warped loss

theorem leastOrder_ne_zero : leastOrder passband stopband loss attenuation ≠ 0 := by
  unfold leastOrder
  dsimp only
  omega

/-- Between band edges in order, a lowpass can be designed for positive losses if its cutoff is
inside of the range. -/
theorem designLowpass_isOk_iff
    (edges : 0 < passband ∧ passband < stopband ∧ stopband ≤ Scalar.ofNat nyquist) :
    (∃ design, designLowpass passband stopband loss attenuation = .ok design) ↔
      (0 < loss ∧ 0 < attenuation) ∧ 0 < designCutoff passband stopband loss attenuation ∧
        designCutoff passband stopband loss attenuation < Scalar.ofNat nyquist := by
  unfold designLowpass
  rw [if_neg (not_not_intro edges)]
  split
  · rename_i refused
    constructor
    · rintro ⟨design, given⟩
      cases given
    · rintro ⟨losses, -⟩
      exact absurd losses refused
  · rename_i accepted
    rw [Decidable.not_not] at accepted
    have order_ne :
        leastOrder (Section.prewarp passband) (Section.prewarp stopband) loss attenuation ≠ 0 :=
      leastOrder_ne_zero
    unfold lowpass designCutoff
    dsimp only
    split
    · rename_i e fault
      constructor
      · rintro ⟨design, given⟩
        cases given
      · rintro ⟨-, inside⟩
        cases fault.symm.trans (cutoffFault?_eq_none_iff.mpr ⟨order_ne, inside⟩)
    · rename_i fault
      obtain ⟨-, inside⟩ := cutoffFault?_eq_none_iff.mp fault
      exact iff_of_true ⟨_, rfl⟩ ⟨accepted, inside⟩

end Butterworth

namespace Emphasis

/-- What the design of the emphasis asks for at a distance from the back, beyond the demands on the
settings. -/
structure Designable (back : α) (c : EmphasisConfig α) : Prop where
  attenuation_pos : 0 < -stopbandGain back c
  cutoff_pos :
    0 < Butterworth.designCutoff c.passband c.stopband c.passbandLoss (-stopbandGain back c)
  cutoff_lt :
    Butterworth.designCutoff c.passband c.stopband c.passbandLoss (-stopbandGain back c) <
      Scalar.ofNat nyquist

theorem treatment_of_front {back : α} {c : EmphasisConfig α} (front : c.frontThreshold ≤ back) :
    treatment back c = .ok .unchanged := by
  rw [treatment, if_pos front]

/-- There is a treatment exactly where the angle is left alone or the design is possible. -/
theorem treatment_isOk_iff {back : α} {c : EmphasisConfig α} (meets : c.Meets) :
    (∃ t, treatment back c = .ok t) ↔ c.frontThreshold ≤ back ∨ Designable back c := by
  by_cases front : c.frontThreshold ≤ back
  · exact iff_of_true ⟨_, treatment_of_front front⟩ (.inl front)
  · have design := @Butterworth.designLowpass_isOk_iff _ _ c.passband c.stopband c.passbandLoss
      (-stopbandGain back c) ⟨meets.passband_pos, meets.passband_lt, meets.stopband_le⟩
    rw [treatment, if_neg front]
    constructor
    · rintro ⟨t, given⟩
      dsimp only at given
      cases designed : Butterworth.designLowpass c.passband c.stopband c.passbandLoss
          (-stopbandGain back c) with
      | error e =>
          rw [designed] at given
          cases given
      | ok d =>
          obtain ⟨⟨-, attenuation⟩, positive, below⟩ := design.mp ⟨d, designed⟩
          exact .inr ⟨attenuation, positive, below⟩
    · rintro (other | ⟨attenuation, positive, below⟩)
      · exact absurd other front
      · obtain ⟨d, designed⟩ := design.mpr
          ⟨⟨meets.passbandLoss_pos, attenuation⟩, positive, below⟩
        dsimp only
        rw [designed]
        exact ⟨_, rfl⟩

/-- No distance from the back is negative. -/
theorem not_backRelative_neg (index count : Nat) :
    ¬ (backRelative index count : Float) < Float.ofNat 0 :=
  Binary64.two_mul_abs_nonneg _

/-- Nearer than one half to the back, the stopband is attenuated. -/
theorem attenuation_pos {c : EmphasisConfig Float} (meets : c.Meets) {index count : Nat}
    (near : (backRelative index count : Float) < 0.5) :
    0 < -stopbandGain (backRelative index count) c := by
  obtain ⟨scale_pos, scale_finite⟩ :=
    Binary64.one_sub_div_half_pos (not_backRelative_neg index count) near
  have deeper := Binary64.mul_nonpos scale_pos scale_finite meets.maxStopband_nonpos
  exact Binary64.neg_pos (Binary64.add_neg meets.stopbandOffset_neg deeper)

end Emphasis

/-! ## Errors of design in a compilation -/

section Errors

variable {g : Grid (List α)} {stage : Stage} {e : DesignError α}

/-- An error of design comes from what a stage makes for the grid, or from its use at an angle. -/
theorem GridStage.reports_of {σ : Type} {own : Stage} {make : Grid (List α) → Except (Failure α) σ}
    {use : σ → Position → List α → Except (Failure α) (List α)}
    (reports : (of own make use).Reports g (.error (.design stage e))) :
    make g = .error (.error (.design stage e)) ∨
      ∃ tool, make g = .ok tool ∧ ∃ entry ∈ g.positioned,
        use tool entry.1 entry.2 = .error (.error (.design stage e)) := by
  rcases reports with prepared | ⟨f, prepared, entry, member, fails⟩
  · exact .inl (prepare_of_eq_error_iff.mp prepared)
  · obtain ⟨tool, made, rfl⟩ := prepare_of_eq_ok_iff.mp prepared
    rcases Grid.settled_eq_error_iff.mp fails with used | ⟨y, index, value, -, -, numerical⟩
    · exact .inr ⟨tool, made, entry, member, used⟩
    · cases numerical

omit [Scalar α] in
theorem Failure.ofViolation_ne_error {β : Type} {r : Except Violation β} {f : CompileError α} :
    ofViolation r ≠ .error (.error f) := by
  cases r with
  | ok x => exact nofun
  | error v => exact nofun

theorem Spectrum.not_reports_analysis : ¬ analysis.Reports g (.error (.design stage e)) := by
  intro reports
  rcases GridStage.reports_of reports with made | ⟨transform, -, entry, -, used⟩
  · exact Failure.ofViolation_ne_error made
  · cases used

theorem Equalizer.not_reports_equalization {cutoff : Nat} :
    ¬ (equalization cutoff).Reports g (.error (.design stage e)) := by
  intro reports
  rcases GridStage.reports_of reports with made | ⟨equalizer, -, entry, -, used⟩
  · unfold ofGrid Grid.checkFinite at made
    dsimp only at made
    split at made
    · cases made
    · split at made
      · cases made
      · cases made
  · cases used

theorem Spectrum.not_reports_clamping {low high : α} :
    ¬ (clamping low high).Reports g (.error (.design stage e)) := by
  intro reports
  rcases GridStage.reports_of reports with made | ⟨-, -, entry, -, used⟩
  · cases made
  · exact Failure.ofViolation_ne_error used

theorem Impulse.not_reports_synthesis {floor : α} :
    ¬ (synthesis floor).Reports g (.error (.design stage e)) := by
  intro reports
  rcases GridStage.reports_of reports with made | ⟨mp, -, entry, -, used⟩
  · exact Failure.ofViolation_ne_error made
  · exact Failure.ofViolation_ne_error used

theorem Impulse.not_reports_rumbleRemoval {order : Nat} {cutoff : α} {highpass : Cascade α}
    (designed : rumbleFilter order cutoff = .ok highpass) :
    ¬ (rumbleRemoval order cutoff).Reports g (.error (.design stage e)) := by
  intro reports
  rcases GridStage.reports_of reports with made | ⟨tool, -, entry, -, used⟩
  · rw [designed] at made
    cases made
  · cases used

theorem Impulse.not_reports_truncation {length : Nat} :
    ¬ (truncation length).Reports g (.error (.design stage e)) := by
  intro reports
  rcases GridStage.reports_of reports with made | ⟨window, -, entry, -, used⟩
  · cases made
  · cases used

theorem Emphasis.reports_emphasis {c : EmphasisConfig α}
    (reports : (emphasis c).Reports g (.error (.design stage e))) :
    stage = .emphasis ∧ ∃ place ∈ g.positioned.map Prod.fst,
      treatment (backRelative place.azimuthIndex place.azimuthCount) c = .error e := by
  rcases GridStage.reports_of reports with made | ⟨-, -, entry, member, used⟩
  · cases made
  · dsimp only [emphasizeOne] at used
    split at used
    · rename_i fault failed
      cases used
      exact ⟨rfl, entry.1, List.mem_map_of_mem member, failed⟩
    · cases used

/-- With settings that meet all demands, a compilation can fail to design a filter only for the
emphasis at one of the angles. -/
theorem place_of_design_error {d : Dataset α} {c : Config α} (meets : c.Meets)
    (failed : compile d c = .error (.error (.design stage e))) :
    stage = .emphasis ∧ ∃ place ∈ d.grid.positioned.map Prod.fst,
      Emphasis.treatment (Emphasis.backRelative place.azimuthIndex place.azimuthCount)
        c.emphasis = .error e := by
  have breaks := (compile_eq_error_iff (Config.validate_eq_ok_iff.mpr meets)).mp failed
  obtain ⟨s, member, h, places, reports⟩ := breaks.exists_stage
  rcases Config.mem_stages_iff.mp member with rfl | rfl | rfl | rfl | rfl | rfl | rfl
  · exact absurd reports Spectrum.not_reports_analysis
  · exact absurd reports Equalizer.not_reports_equalization
  · exact absurd reports Spectrum.not_reports_clamping
  · exact absurd reports Impulse.not_reports_synthesis
  · obtain ⟨highpass, designed⟩ := Impulse.rumbleFilter_isOk meets
    exact absurd reports (Impulse.not_reports_rumbleRemoval designed)
  · exact absurd reports Impulse.not_reports_truncation
  · rw [← places]
    exact Emphasis.reports_emphasis reports

end Errors

/-! ## What validation ensures -/

/-- Settings that are accepted give a rumble filter, and an emphasis at exactly the angles that are
left alone or where it is designable; nearer than one half to the back the gain of the stopband is
never what fails. A compilation with them reports no error of design but that of the emphasis at one
of its angles. -/
theorem designs_of_validate {c : Config Float} (valid : c.validate = .ok ()) :
    (∃ highpass, Impulse.rumbleFilter c.rumbleOrder c.rumbleCutoff = .ok highpass) ∧
      (∀ index count : Nat,
        ((∃ t, Emphasis.treatment (Emphasis.backRelative index count) c.emphasis = .ok t) ↔
          c.emphasis.frontThreshold ≤ Emphasis.backRelative index count ∨
            Emphasis.Designable (Emphasis.backRelative index count) c.emphasis) ∧
          ((Emphasis.backRelative index count : Float) < 0.5 →
            0 < -Emphasis.stopbandGain (Emphasis.backRelative index count) c.emphasis)) ∧
      ∀ (d : Dataset Float) (stage : Stage) (e : DesignError Float),
        compile d c = .error (.error (.design stage e)) →
          stage = .emphasis ∧ ∃ place ∈ d.grid.positioned.map Prod.fst,
            Emphasis.treatment (Emphasis.backRelative place.azimuthIndex place.azimuthCount)
              c.emphasis = .error e := by
  have meets := Config.validate_eq_ok_iff.mp valid
  refine ⟨Impulse.rumbleFilter_isOk meets, fun index count => ⟨?_, ?_⟩, fun d stage e failed => ?_⟩
  · exact Emphasis.treatment_isOk_iff meets.emphasis
  · exact Emphasis.attenuation_pos meets.emphasis
  · exact place_of_design_error meets failed

/-- The settings of the shipped dataset, with another threshold and a gain of at most 2. -/
def Config.withThreshold (threshold : Float) : Config Float :=
  { Config.default with
    maxGain := 2
    emphasis := { EmphasisConfig.default with frontThreshold := threshold } }

/-- With the threshold of the shipped dataset. -/
theorem designs_of_validate_default :
    (Config.withThreshold 0.49).validate = .ok () ∧
      (∃ highpass, Impulse.rumbleFilter 2 (100 : Float) = .ok highpass) ∧
      ∀ (d : Dataset Float) (stage : Stage) (e : DesignError Float),
        compile d (.withThreshold 0.49) = .error (.error (.design stage e)) →
          stage = .emphasis := by
  have valid : (Config.withThreshold 0.49).validate = .ok () := rfl
  obtain ⟨highpass, -, errors⟩ := designs_of_validate valid
  exact ⟨valid, highpass, fun d stage e failed => (errors d stage e failed).1⟩

/-- All angles but the one in front are to be darkened. The settings are accepted, and there is no
treatment at the first of eight azimuths after the front, which is three quarters from the back. -/
theorem not_treatment_of_validate :
    (Config.withThreshold 1).validate = .ok () ∧
      ¬ ∃ t, Emphasis.treatment (Emphasis.backRelative 1 8) (Config.withThreshold 1).emphasis =
        .ok t := by
  have valid : (Config.withThreshold 1).validate = .ok () := rfl
  have beside : ¬ (Config.withThreshold 1).emphasis.frontThreshold ≤ Emphasis.backRelative 1 8 := by
    decide +kernel
  have louder : ¬ 0 < -Emphasis.stopbandGain (Emphasis.backRelative 1 8)
      (Config.withThreshold 1).emphasis := by
    decide +kernel
  refine ⟨valid, fun treated => ?_⟩
  have meets := Config.validate_eq_ok_iff.mp valid
  rcases (Emphasis.treatment_isOk_iff meets.emphasis).mp treated with front | designable
  · exact beside front
  · exact louder designable.attenuation_pos

end Binaural
