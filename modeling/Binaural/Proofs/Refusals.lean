import Binaural.Proofs.Elementary

/-!
Which grids have no equalizer.

An equalizer is refused in two places: while the levels of the average powers are taken, and when
the gains are there. `Equalizer.Settles` says what becomes of a grid, in any arithmetic; the least
bin at which something is amiss is the one that is reported (`Equalizer.settles`). Of 64-bit numbers
it is known besides which average powers have no level: a zero, an infinite one, or what is no
number (`Equalizer.settles_number`), since a sum of squares has no minus sign.
-/

namespace Binaural.Equalizer

section Scalar

variable {α : Type} [Scalar α]

/-- What becomes of the equalizer of a grid. -/
structure Settles (g : Grid (List α)) (cutoff : ℕ) : Prop where
  refused_iff : (∃ e, ofGrid g cutoff = .error e) ↔
    (∃ bin, Unlevelled g cutoff bin) ∨
      (∀ bin, ¬ Unlevelled g cutoff bin) ∧ ∃ bin, Unbounded g cutoff bin
  /-- The first bin that has no level is reported with its average power. -/
  unlevelled : ∀ bin, IsLeast {k | Unlevelled g cutoff k} bin →
    ofGrid g cutoff = .error (.numerical .equalize .everywhere bin (average g bin))
  /-- If all have levels, the first gain that is not finite is reported. -/
  unbounded : (∀ bin, ¬ Unlevelled g cutoff bin) → ∀ bin, IsLeast {k | Unbounded g cutoff k} bin →
    ofGrid g cutoff = .error (.numerical .equalize .everywhere bin (gain g cutoff bin))
  /-- Otherwise there is a finite gain for each bin of the first entry. -/
  made : ∀ eq, ofGrid g cutoff = .ok eq →
    eq.gains = (List.range g.entryLength).map (gain g cutoff) ∧
      (∀ x ∈ eq.gains, Scalar.isFinite x = true) ∧
      eq.gains.length = (g.values.head?.map List.length).getD 0

omit [Scalar α] in
theorem entryLength_eq (g : Grid (List α)) :
    g.entryLength = (g.values.head?.map List.length).getD 0 := by
  rw [Grid.entryLength]
  cases g.values with
  | nil => rfl
  | cons first rest => rfl

theorem settles (g : Grid (List α)) (cutoff : ℕ) : Settles g cutoff where
  refused_iff := by
    rcases ofGrid_cases g cutoff with
      ⟨bin, least, refused⟩ | ⟨levelled, ⟨bin, least, refused⟩ | ⟨bounded, made⟩⟩
    · exact iff_of_true ⟨_, refused⟩ (.inl ⟨bin, least.1⟩)
    · exact iff_of_true ⟨_, refused⟩ (.inr ⟨levelled, bin, least.1⟩)
    · refine iff_of_false (fun ⟨e, refused⟩ => ?_) ?_
      · cases made.symm.trans refused
      · rintro (⟨bin, unlevelled⟩ | ⟨-, bin, unbounded⟩)
        · exact levelled bin unlevelled
        · exact bounded bin unbounded
  unlevelled _ := ofGrid_of_unlevelled
  unbounded levelled _ := ofGrid_of_unbounded levelled
  made eq made := by
    refine ⟨gains_of_made made, ?_, by rw [length_gains made, entryLength_eq]⟩
    rcases ofGrid_cases g cutoff with
      ⟨bin, -, refused⟩ | ⟨-, ⟨bin, -, refused⟩ | ⟨bounded, -⟩⟩
    · cases made.symm.trans refused
    · cases made.symm.trans refused
    · rw [gains_of_made made]
      intro x member
      rcases List.mem_map.mp member with ⟨bin, inside, rfl⟩
      by_contra infinite
      exact bounded bin ⟨List.mem_range.mp inside, Bool.eq_false_iff.mpr infinite⟩

end Scalar

/-- With 64-bit numbers, an equalizer is refused exactly if the average power of some bin below the
cutoff is zero, infinite or no number, or else if some gain is not finite. -/
theorem settles_number {f : Elementary} (log : f.Logarithm) (g : Grid (List f.Number))
    (cutoff : ℕ) :
    Settles g cutoff ∧ ∀ bin, Unlevelled g cutoff bin ↔ Equalized g cutoff bin ∧
      ((average g bin == 0) = true ∨ Scalar.isInfinite (average g bin) = true ∨
        (average g bin == average g bin) = false) := by
  refine ⟨settles g cutoff, fun bin => and_congr_right fun _ => ?_⟩
  rw [Elementary.ofGain?_eq_none_iff log]
  exact (Elementary.unsigned_average g bin).not_moderate_iff

/-- Of three bins below the cutoff, the second and the third have no power. -/
theorem settles_number_silent :
    let g : Grid (List Elementary.sparse.Number) := ⟨[⟨0, [(0, [1, 0, 0])]⟩]⟩
    Elementary.sparse.Logarithm ∧
      ofGrid g 20000 = .error (.numerical .equalize .everywhere 1 0) := by
  intro g
  refine ⟨Elementary.logarithm_sparse, ?_⟩
  rcases settles_number Elementary.logarithm_sparse g 20000 with ⟨settled, unlevelled_iff⟩
  have silent : average g 1 = 0 := by decide +kernel
  have least : IsLeast {k | Unlevelled g 20000 k} 1 := by
    constructor
    · refine (unlevelled_iff 1).mpr ⟨⟨by decide +kernel, by decide +kernel⟩, .inl ?_⟩
      decide +kernel
    · intro k member
      by_contra before
      obtain rfl : k = 0 := by omega
      have levelled : Decibel.ofGain? (average g 0) ≠ none := by decide +kernel
      exact levelled member.2
  rw [settled.unlevelled 1 least, silent]

end Binaural.Equalizer
