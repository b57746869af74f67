import Binaural.Text.UpperCase
import Mathlib

/-!
What upper-casing does to the characters of a name.

Every capital that is not the character itself stands at or after the letter A, so signs and breaks
come from nowhere but the name (`UpperCase.eq_or_le_of_mem_ofChar`). Many letters share a capital,
but not the small ones of ASCII, and neither with its digits and signs
(`UpperCase.ofString_injective_of_uncased`).
-/

namespace Binaural.UpperCase

/-! ## Where capitals are -/

/-- Whether a number is the code point of a character from the letter A on. -/
def FromA (code : Nat) : Prop := 65 ≤ code ∧ code.isValidChar

instance (code : Nat) : Decidable (FromA code) := inferInstanceAs (Decidable (_ ∧ _))

theorem FromA.le_toNat_ofNat {code : Nat} (fromA : FromA code) : 65 ≤ (Char.ofNat code).toNat := by
  rw [Char.toNat_ofNat, if_pos fromA.2]
  exact fromA.1

theorem fromA_of_mem_expansions :
    ∀ entry ∈ expansions, ∀ code ∈ entry.2, FromA code := by
  decide +kernel

/-- The capitals of a run lie from the letter A on and on one side of the gap in the code points. -/
theorem range_of_mem_runs :
    ∀ r ∈ runs, 65 ≤ r.first + r.shift ∧
      (r.last + r.shift < 0xd800 ∨ 0xdfff < r.first + r.shift ∧ r.last + r.shift < 0x110000) := by
  decide +kernel

theorem fromA_of_covers {r : Run} {code : Nat} (member : r ∈ runs)
    (covers : r.covers code = true) : FromA (code + r.shift).toNat := by
  have range := range_of_mem_runs r member
  simp only [Run.covers, Bool.and_eq_true, decide_eq_true_eq] at covers
  unfold FromA Nat.isValidChar
  omega

/-- A character of a capital is the character itself, or stands from the letter A on. -/
theorem eq_or_le_of_mem_ofChar {c x : Char} (member : x ∈ ofChar c) : x = c ∨ 65 ≤ x.toNat := by
  unfold ofChar at member
  split at member
  · rename_i code codes found
    obtain ⟨capital, capital_mem, rfl⟩ := List.mem_map.mp member
    have expansion := List.mem_of_find?_eq_some found
    exact .inr (fromA_of_mem_expansions _ expansion _ capital_mem).le_toNat_ofNat
  · split at member
    · rename_i r found
      rw [List.mem_singleton.mp member]
      have covers := List.find?_some found
      exact .inr (fromA_of_covers (List.mem_of_find?_eq_some found) covers).le_toNat_ofNat
    · exact .inl (List.mem_singleton.mp member)

/-- What stands before the letter A is in capitals only if it is in the text. -/
theorem mem_of_mem_ofString {s : String} {x : Char} (before : x.toNat < 65)
    (member : x ∈ (ofString s).toList) : x ∈ s.toList := by
  rw [ofString, String.toList_ofList] at member
  obtain ⟨c, source, capital⟩ := List.mem_flatMap.mp member
  rcases eq_or_le_of_mem_ofChar capital with rfl | fromA
  · exact source
  · omega

/-! ## Texts without capitals -/

/-- Whether a character belongs to ASCII and is no capital letter. -/
def Uncased (c : Char) : Prop := c.toNat < 128 ∧ ¬ (65 ≤ c.toNat ∧ c.toNat ≤ 90)

instance (c : Char) : Decidable (Uncased c) := inferInstanceAs (Decidable (_ ∧ _))

/-- The capital of a character of ASCII, by its code point. -/
def asciiCapital (code : Nat) : Nat := if 97 ≤ code ∧ code ≤ 122 then code - 32 else code

theorem le_code_of_mem_expansions : ∀ entry ∈ expansions, 128 ≤ entry.1 := by
  decide +kernel

/-- All runs but the first lie beyond ASCII. -/
theorem le_first_of_mem_tail_runs : ∀ r ∈ runs.tail, 128 ≤ r.first := by
  decide +kernel

theorem ofChar_of_ascii {c : Char} (ascii : c.toNat < 128) :
    ofChar c = [Char.ofNat (asciiCapital c.toNat)] := by
  have noExpansion : (expansions.find? fun entry => entry.1 == c.toNat) = none := by
    refine List.find?_eq_none.mpr fun entry member => ?_
    have beyond := le_code_of_mem_expansions entry member
    simp only [beq_iff_eq]
    omega
  have noOther : (runs.tail.find? fun r => r.covers c.toNat) = none := by
    refine List.find?_eq_none.mpr fun r member => ?_
    have beyond := le_first_of_mem_tail_runs r member
    simp only [Run.covers, Bool.and_eq_true, decide_eq_true_eq]
    omega
  have first : runs = ⟨97, 122, 1, -32⟩ :: runs.tail := rfl
  unfold ofChar asciiCapital
  rw [noExpansion, first, List.find?_cons, noOther]
  by_cases small : 97 ≤ c.toNat ∧ c.toNat ≤ 122
  · have covers : Run.covers ⟨97, 122, 1, -32⟩ c.toNat = true := by
      simp [Run.covers, small, Nat.mod_one]
    rw [covers, if_pos small]
    dsimp only
    congr 2
    omega
  · have covers : Run.covers ⟨97, 122, 1, -32⟩ c.toNat = false := by
      simpa [Run.covers, Nat.mod_one] using small
    rw [covers, if_neg small, Char.ofNat_toNat]

/-- Characters of ASCII that are no capitals have capitals of their own. -/
theorem ofChar_injective_of_uncased {c d : Char} (uncased : Uncased c) (uncased' : Uncased d)
    (same : ofChar c = ofChar d) : c = d := by
  rw [ofChar_of_ascii uncased.1, ofChar_of_ascii uncased'.1, List.singleton_inj] at same
  have codes := congrArg Char.toNat same
  have valid : ∀ {code : Nat}, code < 128 → (asciiCapital code).isValidChar := by
    intro code small
    unfold asciiCapital Nat.isValidChar
    split
    · omega
    · omega
  rw [Char.toNat_ofNat, Char.toNat_ofNat, if_pos (valid uncased.1), if_pos (valid uncased'.1)]
    at codes
  have equal : c.toNat = d.toNat := by
    obtain ⟨-, noCapital⟩ := uncased
    obtain ⟨-, noCapital'⟩ := uncased'
    unfold asciiCapital at codes
    split at codes
    · split at codes
      · omega
      · omega
    · split at codes
      · omega
      · omega
  exact Char.toNat_inj.mp equal

theorem flatMap_ofChar_of_ascii {cs : List Char} (ascii : ∀ c ∈ cs, c.toNat < 128) :
    cs.flatMap ofChar = cs.map fun c => Char.ofNat (asciiCapital c.toNat) := by
  induction cs with
  | nil => rfl
  | cons c rest ih =>
      rw [List.forall_mem_cons] at ascii
      rw [List.flatMap_cons, List.map_cons, ofChar_of_ascii ascii.1, ih ascii.2]
      rfl

/-- Different texts of ASCII without capital letters are different in capitals. -/
theorem ofString_injective_of_uncased {s t : String} (uncased : ∀ c ∈ s.toList, Uncased c)
    (uncased' : ∀ c ∈ t.toList, Uncased c) (same : ofString s = ofString t) : s = t := by
  have lists := congrArg String.toList same
  rw [ofString, ofString, String.toList_ofList, String.toList_ofList,
    flatMap_ofChar_of_ascii fun c member => (uncased c member).1,
    flatMap_ofChar_of_ascii fun c member => (uncased' c member).1] at lists
  refine String.toList_inj.mp ?_
  generalize s.toList = cs at lists uncased
  generalize t.toList = ds at lists uncased'
  induction cs generalizing ds with
  | nil => simpa using lists.symm
  | cons c rest ih =>
      cases ds with
      | nil => simp at lists
      | cons d rest' =>
          rw [List.forall_mem_cons] at uncased uncased'
          rw [List.map_cons, List.map_cons, List.cons.injEq] at lists
          have first : c = d := by
            refine ofChar_injective_of_uncased uncased.1 uncased'.1 ?_
            rw [ofChar_of_ascii uncased.1.1, ofChar_of_ascii uncased'.1.1, lists.1]
          rw [first, ih uncased.2 rest' lists.2 uncased'.2]

end Binaural.UpperCase
