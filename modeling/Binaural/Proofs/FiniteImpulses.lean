import Binaural.Proofs.Narrowing
import Binaural.Proofs.NumeralText
import Binaural.Proofs.Reader
import Binaural.Proofs.Refinement
import Binaural.Proofs.Sinks

/-!
Which impulses of a compiled dataset are finite in the artifact.

Every stage checks that what it computed is finite in 64 bits, so all samples of a compiled dataset
are (`finite_of_compile`). The artifact has them in 32 bits. Narrowing keeps numbers numbers, but it
makes large ones infinite, and nothing is checked after it: all impulses are finite exactly if all
samples lie below half a unit beyond the largest number of 32 bits
(`ImpulseTable.handed_of_allFinite`). Only then are they all literals in Rust and numbers in JSON.
-/

namespace Binaural

/-! ## Texts of numbers -/

namespace RustSource

variable {y : Float32}

theorem literal_ne_nan (number : y.isNaN = false) : floatNotation.ofFloat32 y ≠ "NaN" := by
  rw [← Bool.not_eq_true, ← BinaryNumber.ofFloat32_eq_nan_iff] at number
  rw [Notation.ofFloat32]
  cases given : BinaryNumber.ofFloat32 y with
  | nan => exact absurd given number
  | infinite negative =>
      cases negative with
      | false => decide
      | true => decide
  | finite negative significand exponent =>
      exact (Notation.allNumeral_text _).ne (c := 'N') (by decide) (by decide)

/-- Of numbers, the infinite ones are those that are written as words. -/
theorem literal_ne_infinity_iff (number : y.isNaN = false) :
    floatNotation.ofFloat32 y ≠ "inf" ∧ floatNotation.ofFloat32 y ≠ "-inf" ↔
      y.isFinite = true := by
  rw [← Bool.not_eq_true, ← BinaryNumber.ofFloat32_eq_nan_iff] at number
  rw [← BinaryNumber.isFinite_ofFloat32, Notation.ofFloat32]
  cases given : BinaryNumber.ofFloat32 y with
  | nan => exact absurd given number
  | infinite negative =>
      cases negative with
      | false => decide
      | true => decide
  | finite negative significand exponent =>
      have text : AllNumeral (floatNotation.text .single (.finite negative significand exponent)) :=
        Notation.allNumeral_text _
      exact iff_of_true ⟨text.ne (c := 'i') (by decide) (by decide),
        text.ne (c := 'i') (by decide) (by decide)⟩ rfl

end RustSource

/-- What is not finite is null in JSON, and nothing else. Widened to 64 bits a finite number of 32
bits stays finite. -/
theorem JsonText.floatText_ne_null_iff {y : Float32} :
    floatText y ≠ "null" ↔ y.isFinite = true := by
  have holds : BinaryFormat.single.Holds (BinaryNumber.ofFloat32 y) :=
    BinaryFormat.holds_decode BinaryFormat.proper_single _
  rw [← BinaryNumber.isFinite_ofFloat32, floatText]
  cases given : BinaryNumber.ofFloat32 y with
  | nan => decide
  | infinite negative =>
      cases negative with
      | false => decide
      | true => decide
  | finite negative significand exponent =>
      rw [given] at holds
      have widened := (BinaryFormat.isFinite_round_iff BinaryFormat.proper_double _).mpr
        ⟨rfl, holds.magnitude_lt.trans_le BinaryFormat.limit_single_le_limit_double⟩
      dsimp only
      cases rounded : BinaryFormat.double.round (.finite negative significand exponent) with
      | nan =>
          rw [rounded] at widened
          cases widened
      | infinite negative' =>
          rw [rounded] at widened
          cases widened
      | finite negative' significand' exponent' =>
          exact iff_of_true
            ((Notation.allNumeral_text _).ne (c := 'n') (by decide) (by decide)) rfl

/-! ## Arrays in texts -/

/-- Each of several texts is in what they make with separators. -/
theorem exists_append_of_mem {separator s : String} {texts : List String} (member : s ∈ texts) :
    ∃ before after, separator.intercalate texts = before ++ s ++ after := by
  induction texts with
  | nil => cases member
  | cons t rest ih =>
      cases rest with
      | nil =>
          rw [List.mem_singleton.mp member, String.intercalate_singleton]
          exact ⟨"", "", by rw [String.empty_append, String.append_empty]⟩
      | cons u rest =>
          rw [String.intercalate_cons_cons]
          rcases List.mem_cons.mp member with rfl | later
          · exact ⟨"", separator ++ separator.intercalate (u :: rest),
              by rw [String.empty_append, String.append_assoc]⟩
          · obtain ⟨before, after, whole⟩ := ih later
            exact ⟨t ++ separator ++ before, after, by rw [whole]; simp only [String.append_assoc]⟩

theorem RustSource.exists_append_of_text {t : ArrayTable} {entry : String × ArrayValues}
    (member : entry ∈ t.arrays) :
    ∃ before after, text t = before ++ item entry.1 entry.2 ++ after := by
  obtain ⟨before, after, items⟩ := @exists_append_of_mem "\n" _ _
    (List.mem_map_of_mem (f := fun entry => item entry.1 entry.2) member)
  refine ⟨header ++ before, after, ?_⟩
  rw [text, items]
  simp only [String.append_assoc]

theorem JsonText.exists_append_of_text {t : ArrayTable} {entry : String × ArrayValues}
    (member : entry ∈ t.arrays) :
    ∃ before after, text t = before ++ entryText entry ++ after := by
  obtain ⟨before, after, entries⟩ := @exists_append_of_mem "," _ _
    (List.mem_map_of_mem (f := entryText) (List.mem_mergeSort.mpr member))
  refine ⟨"\x7b" ++ before, after ++ "\x7d\n", ?_⟩
  unfold text
  dsimp only
  rw [entries]
  simp only [String.append_assoc]

/-- A sink for an artifact holds the arrays of the dataset. -/
theorem Artifact.mem_arrays_of_fill {σ : Type} [ArraySink σ] {table : σ → ArrayTable}
    (views : ArraySink.Views table) {data : ImpulseTable Float} {extras : Extras}
    {output : ArraySink.Output σ} (filled : fill σ (some data) extras = .ok output) :
    ∃ sink, ArraySink.finish sink = output ∧
      ∀ entry ∈ data.arrays, entry ∈ (table sink).arrays := by
  obtain ⟨sink, added, finished⟩ := addAll_of_fill filled
  refine ⟨sink, finished, fun entry member => ?_⟩
  rw [views.arrays_of_addAll added]
  exact List.mem_append_right _ (List.mem_append_left _ member)

/-! ## Compiled samples -/

/-- All samples that a compilation gives are finite, whatever dataset it was given. -/
theorem finite_of_compile {α : Type} [Scalar α] {d : Dataset α} {c : Config α} {t : ImpulseTable α}
    (compiled : compile d c = .ok t) :
    ∀ impulse ∈ t.grid.values, ∀ x ∈ impulse, Scalar.isFinite x = true := by
  obtain ⟨-, -, passes⟩ := compile_eq_ok_iff.mp compiled
  unfold Config.stages at passes
  simp only [List.cons_append, List.nil_append] at passes
  obtain ⟨_, _, -, -, -, passes⟩ := GridStage.passes_of_cons_iff.mp passes
  obtain ⟨_, _, -, -, -, passes⟩ := GridStage.passes_of_cons_iff.mp passes
  obtain ⟨_, _, -, -, -, passes⟩ := GridStage.passes_of_cons_iff.mp passes
  obtain ⟨_, _, -, -, -, passes⟩ := GridStage.passes_of_cons_iff.mp passes
  obtain ⟨_, _, -, -, -, passes⟩ := GridStage.passes_of_cons_iff.mp passes
  intro impulse member
  rw [← Grid.map_snd_positioned] at member
  obtain ⟨image, image_mem, rfl⟩ := List.mem_map.mp member
  exact (Config.images_of_finishing passes).2 image image_mem

namespace ImpulseTable

/-- Whether all samples are finite, as every compilation checks. -/
def AllFinite (t : ImpulseTable Float) : Prop :=
  ∀ impulse ∈ t.grid.values, ∀ x ∈ impulse, x.isFinite = true

/-- Whether all samples are below half a unit beyond the largest number of 32 bits. -/
def WithinSingle (t : ImpulseTable Float) : Prop :=
  ∀ impulse ∈ t.grid.values, ∀ x ∈ impulse,
    (BinaryNumber.ofFloat x).magnitude < 2 ^ 128 - 2 ^ 103

instance (t : ImpulseTable Float) : Decidable t.AllFinite :=
  inferInstanceAs (Decidable (∀ impulse ∈ t.grid.values, ∀ x ∈ impulse, x.isFinite = true))

instance (t : ImpulseTable Float) : Decidable t.WithinSingle :=
  inferInstanceAs (Decidable (∀ impulse ∈ t.grid.values, ∀ x ∈ impulse,
    (BinaryNumber.ofFloat x).magnitude < 2 ^ 128 - 2 ^ 103))

/-! ## Impulses in the artifact -/

/-- What the impulses of a dataset are in an artifact. -/
structure Handed (t : ImpulseTable Float) : Prop where
  /-- The impulses are put into a sink, and their array is in the artifact of either format. -/
  array : (t.writeTo ArrayTable.empty).2.find? "hrtf_impulses" = some (.float t.impulses)
  source : ∀ extras text, Artifact.render (some t) extras .rust = .ok text →
    ∃ before after,
      text = before ++ RustSource.item "hrtf_impulses" (.float t.impulses) ++ after
  json : ∀ extras text, Artifact.render (some t) extras .json = .ok text →
    ∃ before after,
      text = before ++ JsonText.entryText ("hrtf_impulses", .float t.impulses) ++ after
  numbers : ∀ y ∈ t.impulses, y.isNaN = false
  finite_iff : (∀ y ∈ t.impulses, y.isFinite = true) ↔ t.WithinSingle
  no_nan : "NaN" ∉ RustSource.literals (.float t.impulses)
  no_infinity_iff :
    "inf" ∉ RustSource.literals (.float t.impulses) ∧
        "-inf" ∉ RustSource.literals (.float t.impulses) ↔ t.WithinSingle
  no_null_iff :
    "null" ∉ (ArrayValues.float t.impulses).texts JsonText.floatText ↔ t.WithinSingle

variable {t : ImpulseTable Float}

theorem mem_impulses_iff {y : Float32} :
    y ∈ t.impulses ↔ ∃ impulse ∈ t.grid.values, ∃ x ∈ impulse, narrow x = y := by
  rw [impulses, List.mem_map]
  constructor
  · rintro ⟨x, member, narrowed⟩
    obtain ⟨impulse, impulse_mem, x_mem⟩ := List.mem_flatten.mp member
    exact ⟨impulse, impulse_mem, x, x_mem, narrowed⟩
  · rintro ⟨impulse, impulse_mem, x, x_mem, narrowed⟩
    exact ⟨x, List.mem_flatten.mpr ⟨impulse, impulse_mem, x_mem⟩, narrowed⟩

theorem isNaN_of_mem_impulses (finite : t.AllFinite) {y : Float32} (member : y ∈ t.impulses) :
    y.isNaN = false := by
  obtain ⟨impulse, impulse_mem, x, x_mem, rfl⟩ := mem_impulses_iff.mp member
  exact isNaN_narrow_of_finite x (finite impulse impulse_mem x x_mem)

theorem finite_impulses_iff (finite : t.AllFinite) :
    (∀ y ∈ t.impulses, y.isFinite = true) ↔ t.WithinSingle := by
  constructor
  · intro all impulse impulse_mem x x_mem
    exact ((isFinite_narrow_iff x).mp
      (all _ (mem_impulses_iff.mpr ⟨impulse, impulse_mem, x, x_mem, rfl⟩))).2
  · intro within y member
    obtain ⟨impulse, impulse_mem, x, x_mem, rfl⟩ := mem_impulses_iff.mp member
    exact (isFinite_narrow_iff x).mpr
      ⟨finite impulse impulse_mem x x_mem, within impulse impulse_mem x x_mem⟩

theorem find?_impulses (t : ImpulseTable Float) :
    (t.writeTo ArrayTable.empty).2.find? "hrtf_impulses" = some (.float t.impulses) := by
  rw [writeTo_empty]
  simp [ArrayTable.find?, arrays]

theorem impulses_mem_arrays (t : ImpulseTable Float) :
    ("hrtf_impulses", .float t.impulses) ∈ t.arrays := by
  simp [arrays]

/-- A word is missing among the texts of floats if it is the text of none. -/
theorem notMem_texts_iff {ys : List Float32} {float : Float32 → String} {word : String} :
    word ∉ (ArrayValues.float ys).texts float ↔ ∀ y ∈ ys, float y ≠ word := by
  rw [ArrayValues.texts, List.mem_map]
  constructor
  · intro absent y member same
    exact absent ⟨y, member, same⟩
  · rintro none ⟨y, member, same⟩
    exact none y member same

theorem exists_append_of_rust {extras : Extras} {text : String}
    (rendered : Artifact.render (some t) extras .rust = .ok text) :
    ∃ before after,
      text = before ++ RustSource.item "hrtf_impulses" (.float t.impulses) ++ after := by
  obtain ⟨sink, finished, arrays⟩ :=
    Artifact.mem_arrays_of_fill ArraySink.views_rustSource rendered
  obtain ⟨before, after, whole⟩ := RustSource.exists_append_of_text (arrays _ t.impulses_mem_arrays)
  exact ⟨before, after, finished.symm.trans whole⟩

theorem exists_append_of_json {extras : Extras} {text : String}
    (rendered : Artifact.render (some t) extras .json = .ok text) :
    ∃ before after,
      text = before ++ JsonText.entryText ("hrtf_impulses", .float t.impulses) ++ after := by
  obtain ⟨sink, finished, arrays⟩ :=
    Artifact.mem_arrays_of_fill ArraySink.views_jsonText rendered
  obtain ⟨before, after, whole⟩ := JsonText.exists_append_of_text (arrays _ t.impulses_mem_arrays)
  exact ⟨before, after, finished.symm.trans whole⟩

theorem handed_of_allFinite (finite : t.AllFinite) : t.Handed where
  array := t.find?_impulses
  source _ _ := exists_append_of_rust
  json _ _ := exists_append_of_json
  numbers _ := isNaN_of_mem_impulses finite
  finite_iff := finite_impulses_iff finite
  no_nan := notMem_texts_iff.mpr fun _ member =>
    RustSource.literal_ne_nan (isNaN_of_mem_impulses finite member)
  no_infinity_iff := by
    rw [← finite_impulses_iff finite, RustSource.literals, notMem_texts_iff, notMem_texts_iff,
      ← forall₂_and]
    refine forall₂_congr fun y member => ?_
    exact RustSource.literal_ne_infinity_iff (isNaN_of_mem_impulses finite member)
  no_null_iff := by
    rw [← finite_impulses_iff finite, notMem_texts_iff]
    exact forall₂_congr fun _ _ => JsonText.floatText_ne_null_iff

/-- The impulses of a dataset of finite samples, as every compiled one is, are numbers in an
artifact. They are finite there, and so literals in Rust and numbers in JSON, exactly if all samples
are below half a unit beyond the largest number of 32 bits. -/
theorem impulses_of_finite (t : ImpulseTable Float) :
    (t.AllFinite → t.Handed) ∧
      ∀ (d : Dataset Float) (c : Config Float), compile d c = .ok t → t.AllFinite ∧ t.Handed := by
  refine ⟨handed_of_allFinite, fun d c compiled => ?_⟩
  have finite : t.AllFinite := finite_of_compile compiled
  exact ⟨finite, handed_of_allFinite finite⟩

theorem impulses_of_finite_half :
    let t : ImpulseTable Float :=
      ⟨⟨[0, 10], 10, 0, 10⟩, ⟨[⟨0, [(0, [0.5])]⟩, ⟨10, [(0, [-0.5])]⟩]⟩⟩
    t.AllFinite ∧ t.WithinSingle ∧ (∀ y ∈ t.impulses, y.isFinite = true) ∧
      "null" ∉ (ArrayValues.float t.impulses).texts JsonText.floatText := by
  intro t
  have finite : t.AllFinite := by decide +kernel
  have within : t.WithinSingle := by decide +kernel
  have handed := (impulses_of_finite t).1 finite
  exact ⟨finite, within, handed.finite_iff.mpr within, handed.no_null_iff.mpr within⟩

/-- A finite sample too large for 32 bits becomes infinite, is no literal in Rust, and null in
JSON. -/
theorem not_finite_impulses :
    let t : ImpulseTable Float := ⟨⟨[0, 10], 10, 0, 10⟩, ⟨[⟨0, [(0, [1e39])]⟩]⟩⟩
    t.AllFinite ∧ (¬ ∀ y ∈ t.impulses, y.isFinite = true) ∧
      RustSource.literals (.float t.impulses) = ["inf"] ∧
      (ArrayValues.float t.impulses).texts JsonText.floatText = ["null"] := by
  intro t
  have infinite : (narrow 1e39).isFinite = false := by decide +kernel
  refine ⟨by decide +kernel, fun all => ?_, by decide +kernel, by decide +kernel⟩
  rw [all (narrow 1e39) List.mem_cons_self] at infinite
  cases infinite

end ImpulseTable

end Binaural
