import Binaural.Proofs.Elementary
import Binaural.Proofs.Refinement

/-!
Spectra in which opposite frequencies are alike.

Bins `k` and `size - k` of a spectrum stand for opposite frequencies, which real samples do not tell
apart. Equalization and bounds treat the two alike: each step either looks at one bin only, or
depends on its place through `isPreservedBin`, which folds the place about the middle
(`isPreservedBin_mirror`). So spectra stay `Mirrored` from the analysis to the synthesis
(`Grid.Mirrored.of_equalize`, `Grid.Mirrored.of_clamp`), in any arithmetic whatsoever;
`Grid.Mirrored.stays` puts the two together.
-/

namespace Binaural

/-- Bins of opposite frequencies hold the same. The bin at zero has no other. -/
def Mirrored {β : Type} (xs : List β) : Prop :=
  ∀ k, 0 < k → k < xs.length → xs[xs.length - k]? = xs[k]?

namespace Mirrored

variable {β γ δ : Type} {xs : List β} {ys : List γ}

theorem map (mirrored : Mirrored xs) (f : β → γ) : Mirrored (xs.map f) := by
  intro k positive inside
  rw [List.length_map] at inside ⊢
  rw [List.getElem?_map, List.getElem?_map, mirrored k positive inside]

/-- A list is mirrored if what follows its first element reads alike from both ends. -/
theorem of_reverse {x : β} (palindrome : xs.reverse = xs) : Mirrored (x :: xs) := by
  intro k positive inside
  obtain ⟨i, rfl⟩ : ∃ i, k = i + 1 := ⟨k - 1, by omega⟩
  have small : i < xs.length := by
    rw [List.length_cons] at inside
    omega
  have opposite : (x :: xs).length - (i + 1) = (xs.length - 1 - i) + 1 := by
    rw [List.length_cons]
    omega
  rw [opposite, List.getElem?_cons_succ, List.getElem?_cons_succ, ← List.getElem?_reverse small,
    palindrome]

theorem of_map {f : β → γ} (injective : Function.Injective f) (mirrored : Mirrored (xs.map f)) :
    Mirrored xs := by
  intro k positive inside
  have same := mirrored k positive (by rwa [List.length_map])
  rw [List.length_map, List.getElem?_map, List.getElem?_map] at same
  exact Option.map_injective injective same

theorem mapIdx {f : ℕ → β → γ} (mirrored : Mirrored xs)
    (alike : ∀ k, 0 < k → k < xs.length → f (xs.length - k) = f k) : Mirrored (xs.mapIdx f) := by
  intro k positive inside
  rw [List.length_mapIdx] at inside ⊢
  rw [List.getElem?_mapIdx, List.getElem?_mapIdx, mirrored k positive inside,
    alike k positive inside]

theorem zipWith (mirrored : Mirrored xs) (mirrored' : Mirrored ys)
    (length : xs.length = ys.length) (f : β → γ → δ) : Mirrored (List.zipWith f xs ys) := by
  have both : (List.zipWith f xs ys).length = xs.length := by
    rw [List.length_zipWith, ← length, Nat.min_self]
  intro k positive inside
  rw [both] at inside ⊢
  rw [List.getElem?_zipWith, List.getElem?_zipWith, mirrored k positive inside, length,
    mirrored' k positive (length ▸ inside)]

theorem replicate (n : ℕ) (x : β) : Mirrored (List.replicate n x) := by
  intro k positive inside
  rw [List.length_replicate] at inside ⊢
  rw [List.getElem?_replicate_of_lt (by omega), List.getElem?_replicate_of_lt inside]

/-- The bin at zero is nothing to the others. -/
theorem set_zero (mirrored : Mirrored xs) (x : β) : Mirrored (xs.set 0 x) := by
  intro k positive inside
  rw [List.length_set] at inside ⊢
  rw [List.getElem?_set_ne (by omega), List.getElem?_set_ne (by omega),
    mirrored k positive inside]

end Mirrored

/-! ## Equalization and bounds -/

variable {α : Type} [Scalar α]

/-- Opposite frequencies are on the same side of a cutoff. -/
theorem isPreservedBin_mirror {bin size : ℕ} (inside : bin ≤ size) (cutoff : ℕ) :
    isPreservedBin α (size - bin) size cutoff = isPreservedBin α bin size cutoff := by
  rw [isPreservedBin, isPreservedBin, Nat.sub_sub_self inside, Nat.min_comm]

namespace Equalizer

theorem addPower_eq_zipWith {power magnitudes : List α}
    (length : magnitudes.length = power.length) :
    addPower power magnitudes = List.zipWith (fun p m => p + m * m) power magnitudes := by
  rw [addPower, length, List.drop_length, List.append_nil]

theorem mirrored_foldl {spectra : List (List α)} {power : List α}
    (lengths : ∀ xs ∈ spectra, xs.length = power.length)
    (spectraMirrored : ∀ xs ∈ spectra, Mirrored xs) (mirrored : Mirrored power) :
    Mirrored (spectra.foldl addPower power) := by
  induction spectra generalizing power with
  | nil => exact mirrored
  | cons magnitudes rest ih =>
      rcases List.forall_mem_cons.mp lengths with ⟨length, lengths⟩
      rcases List.forall_mem_cons.mp spectraMirrored with ⟨head, tail⟩
      have sum : Mirrored (addPower power magnitudes) := by
        rw [addPower_eq_zipWith length]
        exact mirrored.zipWith head length.symm _
      refine ih (fun xs member => ?_) tail sum
      rw [length_addPower, lengths xs member]

variable {g : Grid (List α)} {eq : Equalizer α} {cutoff : ℕ}

/-- The gains of opposite frequencies are made by the same steps from the same powers. -/
theorem mirrored_gainsOf (lengths : ∀ xs ∈ g.values, xs.length = g.entryLength)
    (mirrored : ∀ xs ∈ g.values, Mirrored xs) (cutoff : ℕ) :
    Mirrored (gainsOf (averagePower g cutoff)) := by
  have total : Mirrored (totalPower g) := by
    refine mirrored_foldl (fun xs member => ?_) mirrored (.replicate _ _)
    rw [List.length_replicate, lengths xs member]
  -- only the choice of the equalized bins looks at their places
  refine Mirrored.map (total.mapIdx fun k _ inside => ?_) _
  rw [length_totalPower] at inside ⊢
  rw [isPreservedBin_mirror inside.le]

theorem mirrored_applyTo {magnitudes : List α} (mirrored : Mirrored magnitudes)
    (gains : Mirrored eq.gains) (length : magnitudes.length = eq.gains.length) :
    Mirrored (eq.applyTo magnitudes) :=
  (mirrored.zipWith gains length _).set_zero 1

end Equalizer

theorem Spectrum.mirrored_of_clampAll {low high : α} {xs ys : List α}
    (mirrored : Mirrored xs) (clamped : clampAll low high xs = .ok ys) : Mirrored ys := by
  unfold clampAll at clamped
  split at clamped
  · cases clamped
    exact mirrored.map _
  · cases clamped

/-! ## Grids -/

/-- All entries are of one length and mirrored. -/
structure Grid.Mirrored {β : Type} (g : Grid (List β)) (length : ℕ) : Prop where
  length : ∀ entry ∈ g.positioned, entry.2.length = length
  mirrored : ∀ entry ∈ g.positioned, Binaural.Mirrored entry.2

namespace Grid.Mirrored

variable {g h : Grid (List α)} {length : ℕ}

/-- Grids are mirrored if all that a step gives at their places is. -/
theorem of_images {β γ ε : Type} {g : Grid (List β)} {h : Grid (List γ)}
    {f : Position → List β → Except ε (List γ)}
    (step : ∀ entry ∈ g.positioned, ∀ y, f entry.1 entry.2 = .ok y →
      y.length = length ∧ Binaural.Mirrored y)
    (result : Images f g.positioned h.positioned) : h.Mirrored length := by
  have kept : ∀ image ∈ h.positioned,
      image.2.length = length ∧ Binaural.Mirrored image.2 := by
    intro image member
    rcases result.exists_source member with ⟨entry, entryMember, -, given⟩
    exact step entry entryMember _ given
  exact ⟨fun image member => (kept image member).1, fun image member => (kept image member).2⟩

omit [Scalar α] in
/-- The length of the first entry is that of each. -/
theorem entryLength_eq (mirrored : g.Mirrored length) {entry : Position × List α}
    (member : entry ∈ g.positioned) : g.entryLength = length := by
  have uniform : g.Uniform length := ⟨List.ne_nil_of_mem member, mirrored.length⟩
  exact uniform.entryLength

/-- The gains of an equalizer are mirrored if the spectra are. -/
theorem gains {cutoff : ℕ} {eq : Equalizer α} (mirrored : g.Mirrored length)
    (made : Equalizer.ofGrid g cutoff = .ok eq) : Binaural.Mirrored eq.gains := by
  have entries : ∀ xs ∈ g.values, ∃ entry ∈ g.positioned, entry.2 = xs := by
    intro xs member
    rwa [← map_snd_positioned, List.mem_map] at member
  rw [Equalizer.gains_of_ofGrid made]
  refine Equalizer.mirrored_gainsOf (fun xs member => ?_) (fun xs member => ?_) cutoff
  · rcases entries xs member with ⟨entry, place, rfl⟩
    rw [mirrored.length entry place, mirrored.entryLength_eq place]
  · rcases entries xs member with ⟨entry, place, rfl⟩
    exact mirrored.mirrored entry place

/-- Equalized spectra are mirrored if the spectra are. -/
theorem of_equalize {cutoff : ℕ} (mirrored : g.Mirrored length)
    (equalized : equalize cutoff g = .ok h) : h.Mirrored length := by
  rcases bind_eq_ok_iff.mp equalized with ⟨eq, made, applied⟩
  have made := Failure.ofError_eq_ok_iff.mp made
  rw [Equalizer.apply, mapSignals] at applied
  have result := Images.of_settled (tryMap_eq_ok_iff.mp applied).2
  refine of_images (fun entry member y given => ?_) result
  have count : entry.2.length = eq.gains.length := by
    rw [Equalizer.length_gains made, mirrored.length entry member, mirrored.entryLength_eq member]
  cases given
  constructor
  · rw [Equalizer.length_applyTo, ← count, Nat.min_self, mirrored.length entry member]
  · exact Equalizer.mirrored_applyTo (mirrored.mirrored entry member) (mirrored.gains made) count

/-- Bounded spectra are mirrored if the spectra are. -/
theorem of_clamp {low high : α} (mirrored : g.Mirrored length)
    (clamped : Spectrum.clamp low high g = .ok h) : h.Mirrored length := by
  have result := Images.of_settled (tryMap_eq_ok_iff.mp clamped).2
  refine of_images (fun entry member y given => ?_) result
  have clamped := Failure.ofViolation_eq_ok_iff.mp given
  constructor
  · rw [Spectrum.length_of_clampAll clamped, mirrored.length entry member]
  · exact Spectrum.mirrored_of_clampAll (mirrored.mirrored entry member) clamped

/-- Bounds that are in order can be asked for of any value. -/
theorem clamp_ne_violation {low high : α} (ordered : low ≤ high) (v : Violation) :
    Spectrum.clamp low high g ≠ .error (.violation v) := by
  intro violated
  have walk : g.traverse (settled .clamp fun _ magnitudes =>
      Failure.ofViolation (Spectrum.clampAll low high magnitudes)) =
        .error (.violation v) := violated
  rcases (traverse_eq_error_iff.mp walk).exists_place with ⟨entry, -, fails⟩
  have bounded : Failure.ofViolation (α := α) (Spectrum.clampAll low high entry.2) =
      .ok (entry.2.map (Scalar.clamp low high)) := by
    rw [Spectrum.clampAll, if_pos (.inl ordered)]
    rfl
  rcases settled_eq_error_iff.mp fails with unordered | ⟨_, _, _, -, -, infinite⟩
  · cases bounded.symm.trans unordered
  · cases infinite

/-- Spectra in which opposite frequencies are alike have gains that are, and stay so when they are
equalized and then bounded. -/
theorem stays (mirrored : g.Mirrored length) (cutoff : ℕ) {low high : α} (ordered : low ≤ high) :
    (∀ eq, Equalizer.ofGrid g cutoff = .ok eq →
      ∀ bin, 0 < bin → bin < length → eq.gains[length - bin]? = eq.gains[bin]?) ∧
    ∀ equalized, equalize cutoff g = .ok equalized → equalized.Mirrored length ∧
      (∀ v, Spectrum.clamp low high equalized ≠ .error (.violation v)) ∧
      ∀ clamped, Spectrum.clamp low high equalized = .ok clamped → clamped.Mirrored length := by
  constructor
  · intro eq made bin positive inside
    have count := Equalizer.length_gains made
    cases places : g.positioned with
    | nil =>
        have none : eq.gains = [] := by
          rw [← List.length_eq_zero_iff, count, entryLength, ← map_snd_positioned, places]
          rfl
        rw [none]
        rfl
    | cons entry rest =>
        rw [mirrored.entryLength_eq (places ▸ List.mem_cons_self)] at count
        have alike := mirrored.gains made bin positive (count ▸ inside)
        rwa [count] at alike
  · intro equalized corrected
    have alike := mirrored.of_equalize corrected
    exact ⟨alike, clamp_ne_violation ordered, fun clamped bounded => alike.of_clamp bounded⟩

/-- Three bins, of which the first is equalized and then cut. -/
theorem stays_three :
    let g : Grid (List Elementary.sparse.Number) := ⟨[⟨0, [(0, [1, 0.5, 0.5])]⟩]⟩
    g.Mirrored 3 ∧ ∃ equalized clamped, equalize 5000 g = .ok equalized ∧
      Spectrum.clamp 0.25 0.75 equalized = .ok clamped ∧ clamped.values = [[0.75, 0.5, 0.5]] ∧
        equalized.Mirrored 3 ∧ clamped.Mirrored 3 := by
  intro g
  have entries : g.positioned = [(⟨0, 0, 0, 0, 1⟩, [1, 0.5, 0.5])] := rfl
  have alike : g.Mirrored 3 := by
    constructor
    · simp [entries]
    · simp only [entries, List.mem_singleton, forall_eq]
      intro k positive inside
      have bound : k < 3 := inside
      obtain rfl | rfl : k = 1 ∨ k = 2 := by omega
      · rfl
      · rfl
  have ordered : (0.25 : Elementary.sparse.Number) ≤ 0.75 := by decide +kernel
  have values : ((equalize 5000 g).bind (Spectrum.clamp 0.25 0.75)).toOption.map Grid.values =
      some [[0.75, 0.5, 0.5]] := by decide +kernel
  rcases stays alike 5000 ordered with ⟨-, kept⟩
  cases corrected : equalize 5000 g with
  | error e =>
      rw [corrected] at values
      cases values
  | ok equalized =>
      rw [corrected] at values
      rcases kept equalized corrected with ⟨here, -, later⟩
      cases bounded : Spectrum.clamp (0.25 : Elementary.sparse.Number) 0.75 equalized with
      | error e =>
          change (Spectrum.clamp 0.25 0.75 equalized).toOption.map Grid.values = _ at values
          rw [bounded] at values
          cases values
      | ok clamped =>
          change (Spectrum.clamp 0.25 0.75 equalized).toOption.map Grid.values = _ at values
          rw [bounded] at values
          exact ⟨alike, equalized, clamped, rfl, bounded, Option.some.inj values, here,
            later clamped bounded⟩

end Grid.Mirrored

end Binaural
