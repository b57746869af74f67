import Binaural.Proofs.Bins
import Binaural.Proofs.IntegerSamples

/-!
64-bit numbers with their elementary functions as a parameter.

Sums, products, quotients and square roots of 64-bit numbers are determined by rounding. Logarithms,
powers and the functions of angles are not: every mathematical library has its own. `Elementary` is
such a library, and `Elementary.Number` the 64-bit numbers together with it, so that a statement
about them names the little that it needs of logarithms and powers
(`Elementary.ZerothPower`, `Elementary.Logarithm`) and holds with every library that gives it.

* `Elementary.correction_zero`: a level of 0 is corrected by a gain of exactly 1.
* `Elementary.ofGain?_eq_none_iff`: a gain has a finite level exactly if it is positive and finite.
* `Elementary.unsigned_average`: an average power has no minus sign.
-/

namespace Binaural

/-- The functions of 64-bit numbers that rounding does not determine. -/
structure Elementary where
  exp : Float → Float
  ln : Float → Float
  log10 : Float → Float
  sin : Float → Float
  cos : Float → Float
  tan : Float → Float
  atan : Float → Float
  pow : Float → Float → Float

namespace Elementary

/-- The functions of the machine. -/
def native : Elementary where
  exp := Float.exp
  ln := Float.log
  log10 := Float.log10
  sin := Float.sin
  cos := Float.cos
  tan := Float.tan
  atan := Float.atan
  pow := Float.pow

/-- The 64-bit numbers, in the presence of a library of functions. -/
def Number (_ : Elementary) : Type := Float

instance (f : Elementary) : DecidableEq f.Number := inferInstanceAs (DecidableEq Float)

instance (f : Elementary) : Scalar f.Number :=
  { (inferInstance : Scalar Float) with
    exp := f.exp
    ln := f.ln
    log10 := f.log10
    sin := f.sin
    cos := f.cos
    tan := f.tan
    atan := f.atan
    pow := f.pow }

/-- With the functions of the machine, these are the numbers that the program runs on. -/
example : (inferInstance : Scalar native.Number) = (inferInstance : Scalar Float) := rfl

end Elementary

/-! ## Numbers without a minus sign -/

namespace Binary64

open Float.Model Float.Model.UnpackedFloat

/-- Not negative, and not a negative zero; it may be no number at all. -/
inductive Unsigned : UnpackedFloat → Prop
  | notANumber : Unsigned .notANumber
  | zero : Unsigned (.zero .positive)
  | infinity : Unsigned (.infinity .positive)
  | finite {m : Nat} {e : Int} (positive : 0 < m) : Unsigned (.finite .positive m e positive)

theorem Signed.unsigned {u : UnpackedFloat} (signed : Signed .positive u) : Unsigned u := by
  cases signed with
  | infinity => exact .infinity
  | finite positive => exact .finite positive

theorem unsigned_round (m : Nat) (e : Int) (a : Accuracy) :
    Unsigned (stored (roundWithAccuracy Format.binary64 .positive m e a)) := by
  rcases zero_or_signed_round .positive m e a with zero | signed
  · rw [zero]
    exact .zero
  · exact signed.unsigned

theorem unsigned_stored_infinity : Unsigned (stored (.infinity .positive)) := by
  rw [stored_infinity]
  exact .infinity

theorem unsigned_stored_zero : Unsigned (stored (.zero .positive)) := by
  rw [stored_zero]
  exact .zero

theorem unsigned_stored_notANumber : Unsigned (stored .notANumber) := by
  have same : stored .notANumber = .notANumber := rfl
  rw [same]
  exact .notANumber

theorem Fits.unsigned {m : Nat} {e : Int} (fits : Fits m e) :
    Unsigned (stored (.finite .positive m e fits.positive)) := by
  rw [stored_of_fits fits]
  exact .finite _

theorem unsigned_mul_self (x : Float) : Unsigned (x * x).toModel.unpack := by
  have square (s : Sign) : s * s = .positive := by
    cases s with
    | positive => rfl
    | negative => rfl
  rw [unpack_mul]
  cases x.toModel.unpack with
  | notANumber => exact unsigned_stored_notANumber
  | zero s =>
      change Unsigned (stored (.zero (s * s)))
      rw [square]
      exact unsigned_stored_zero
  | infinity s =>
      change Unsigned (stored (.infinity (s * s)))
      rw [square]
      exact unsigned_stored_infinity
  | finite s m e positive =>
      change Unsigned (stored (roundWithAccuracy _ (s * s) _ _ _))
      rw [square]
      exact unsigned_round _ _ _

section Operations

variable {x y : Float}

theorem unsigned_add (left : Unsigned x.toModel.unpack) (right : Unsigned y.toModel.unpack) :
    Unsigned (x + y).toModel.unpack := by
  rw [unpack_add]
  generalize unpacked : x.toModel.unpack = u at left ⊢
  generalize unpacked' : y.toModel.unpack = w at right ⊢
  cases left with
  | notANumber => exact unsigned_stored_notANumber
  | zero =>
      cases right with
      | notANumber => exact unsigned_stored_notANumber
      | zero => exact unsigned_stored_zero
      | infinity => exact unsigned_stored_infinity
      | finite => exact (fits_of_unpack unpacked').unsigned
  | infinity =>
      cases right with
      | notANumber => exact unsigned_stored_notANumber
      | zero => exact unsigned_stored_infinity
      | infinity => exact unsigned_stored_infinity
      | finite => exact unsigned_stored_infinity
  | @finite m e positive =>
      have fits := fits_of_unpack unpacked
      cases right with
      | notANumber => exact unsigned_stored_notANumber
      | zero => exact fits.unsigned
      | infinity => exact unsigned_stored_infinity
      | @finite m' e' positive' =>
          have fits' := fits_of_unpack unpacked'
          refine (signed_normalize_pos ?_ ?_).1.unsigned
          · change 0 < ((m <<< _ : Nat) : Int) + ((m' <<< _ : Nat) : Int)
            have := shiftLeft_pos positive (e - min e e').toNat
            have := shiftLeft_pos positive' (e' - min e e').toNat
            omega
          · have := fits.least
            have := fits'.least
            omega

theorem unsigned_div (left : Unsigned x.toModel.unpack) (right : Unsigned y.toModel.unpack) :
    Unsigned (x / y).toModel.unpack := by
  rw [unpack_div]
  generalize x.toModel.unpack = u at left ⊢
  generalize y.toModel.unpack = w at right ⊢
  cases left with
  | notANumber => exact unsigned_stored_notANumber
  | zero =>
      cases right with
      | notANumber => exact unsigned_stored_notANumber
      | zero => exact unsigned_stored_notANumber
      | infinity => exact unsigned_stored_zero
      | finite => exact unsigned_stored_zero
  | infinity =>
      cases right with
      | notANumber => exact unsigned_stored_notANumber
      | zero => exact unsigned_stored_infinity
      | infinity => exact unsigned_stored_notANumber
      | finite => exact unsigned_stored_infinity
  | finite =>
      cases right with
      | notANumber => exact unsigned_stored_notANumber
      | zero => exact unsigned_stored_infinity
      | infinity => exact unsigned_stored_zero
      | finite => exact unsigned_round _ _ _

end Operations

theorem unsigned_mul_finite {m m' : Nat} {e e' : Int} (positive : 0 < m) (positive' : 0 < m') :
    Unsigned (stored (UnpackedFloat.mul Format.binary64 (.finite .positive m e positive)
      (.finite .positive m' e' positive'))) :=
  unsigned_round _ _ _

theorem unsigned_ofNat (n : Nat) : Unsigned (Float.ofNat n).toModel.unpack := by
  by_cases small : n < 2 ^ 53
  · by_cases positive : 0 < n
    · rw [unpack_ofNat positive small]
      exact .finite _
    · obtain rfl : n = 0 := by omega
      exact unpack_ofNat_zero ▸ .zero
  · have large : n ≠ 0 := by omega
    change Unsigned (Float.ofScientific n false 0).toModel.unpack
    rw [Float.ofScientific, dif_neg (fun both => small both.1)]
    have power : (0 : Int) ≤ 2 ^ Format.binary64.exponentBits := by positivity
    change Unsigned (stored (UnpackedFloat.ofScientific Format.binary64 n 0))
    unfold UnpackedFloat.ofScientific
    rw [dif_neg large, if_neg (by omega), if_neg (by omega), if_pos le_rfl]
    exact unsigned_mul_finite _ _

theorem unsigned_foldl_add {xs : List Float} {start : Float}
    (unsigned : Unsigned start.toModel.unpack) (all : ∀ x ∈ xs, Unsigned x.toModel.unpack) :
    Unsigned (xs.foldl (· + ·) start).toModel.unpack := by
  induction xs generalizing start with
  | nil => exact unsigned
  | cons x xs ih =>
      rcases List.forall_mem_cons.mp all with ⟨head, tail⟩
      exact ih (unsigned_add unsigned head) tail

theorem unsigned_sum {xs : List Float} (all : ∀ x ∈ xs, Unsigned x.toModel.unpack) :
    Unsigned (Scalar.sum xs).toModel.unpack :=
  unsigned_foldl_add (unsigned_ofNat 0) all

/-- A number without a minus sign is positive and finite unless it is a zero, infinite or no number
at all. -/
theorem Unsigned.not_moderate_iff {x : Float} (unsigned : Unsigned x.toModel.unpack) :
    ¬ (Float.ofNat 0 < x ∧ x.isFinite = true) ↔
      (x == Float.ofNat 0) = true ∨ Scalar.isInfinite x = true ∨ (x == x) = false := by
  have same : (x == x) = UnpackedFloat.beq x.toModel.unpack x.toModel.unpack := rfl
  have zero : (x == Float.ofNat 0) =
      UnpackedFloat.beq x.toModel.unpack (Float.ofNat 0).toModel.unpack := rfl
  have infinite : Scalar.isInfinite x = (UnpackedFloat.beq x.toModel.unpack x.toModel.unpack &&
      !x.toModel.unpack.isFinite) := rfl
  have finite : x.isFinite = x.toModel.unpack.isFinite := rfl
  rw [zero_lt_iff, infinite, same, zero, finite, unpack_ofNat_zero]
  generalize x.toModel.unpack = u at unsigned
  cases unsigned with
  | notANumber => exact iff_of_true (fun both => nomatch both.2) (.inr (.inr rfl))
  | zero => exact iff_of_true (fun both => nomatch both.1) (.inl rfl)
  | infinity => exact iff_of_true (fun both => nomatch both.2) (.inr (.inl rfl))
  | @finite m e positive =>
      have equal : UnpackedFloat.beq (.finite .positive m e positive)
          (.finite .positive m e positive) = true := by
        change (some ((compare e e).then (compare m m)) == some Ordering.eq) = true
        rw [Int.compare_eq_eq.mpr rfl, Nat.compare_eq_eq.mpr rfl]
        rfl
      refine iff_of_false (fun neither => neither ⟨.finite positive, rfl⟩) ?_
      rintro (zero | infinite | undefined)
      · cases zero
      · rw [equal] at infinite
        cases infinite
      · rw [equal] at undefined
        cases undefined

/-! ## Twenty times a number -/

theorem unpack_twenty :
    (Float.ofNat 20).toModel.unpack =
      .finite .positive 5629499534213120 (-48) (by decide) := by
  rfl

theorem unpack_1024 :
    (Float.ofNat 1024).toModel.unpack =
      .finite .positive 4503599627370496 (-42) (by decide) := by
  rfl

/-- Twenty times what is no finite number is none either. -/
theorem not_finite_twenty_mul {y : Float} (infinite : y.isFinite = false) :
    (Float.ofNat 20 * y).isFinite = false := by
  change y.toModel.unpack.isFinite = false at infinite
  change (Float.ofNat 20 * y).toModel.unpack.isFinite = false
  rw [unpack_mul, unpack_twenty]
  cases unpacked : y.toModel.unpack with
  | notANumber => rfl
  | infinity s =>
      change (stored (.infinity _)).isFinite = false
      rw [stored_infinity]
      rfl
  | zero s =>
      rw [unpacked] at infinite
      cases infinite
  | finite s m e positive =>
      rw [unpacked] at infinite
      cases infinite

/-- Twenty times a number of moderate size is far from an overflow. -/
theorem finite_twenty_mul {y : Float} (small : y.abs ≤ Float.ofNat 1024) :
    (Float.ofNat 20 * y).isFinite = true := by
  change (Float.ofNat 20 * y).toModel.unpack.isFinite = true
  rw [le_iff, unpack_abs, unpack_1024] at small
  rw [unpack_mul, unpack_twenty]
  generalize unpacked : y.toModel.unpack = u at small ⊢
  cases u with
  | notANumber => cases small
  | infinity s =>
      have infinite : stored (UnpackedFloat.infinity s).abs = .infinity .positive :=
        stored_infinity .positive
      rw [infinite] at small
      cases small
  | zero s =>
      change (stored (.zero _)).isFinite = true
      rw [stored_zero]
      rfl
  | finite s m e positive =>
      have fits := fits_of_unpack unpacked
      have same : stored (UnpackedFloat.finite s m e positive).abs =
          .finite .positive m e positive := stored_of_fits fits
      rw [same] at small
      have exponent : e ≤ -42 := by
        by_contra above
        have order : compare e (-42) = .gt := Int.compare_eq_gt.mpr (by omega)
        change ((compare e (-42)).then (compare m 4503599627370496)).isLE = true at small
        rw [order] at small
        cases small
      change (stored (roundWithAccuracy _ (.positive * s) (5629499534213120 * m) (-48 + e)
        .exact)).isFinite = true
      obtain ⟨m', e', rounded, bits, least, greatest, -⟩ :=
        roundWithAccuracy_spec (.positive * s) (5629499534213120 * m) (-48 + e) .exact
      have width : (5629499534213120 * m).log2 ≤ 107 := by
        have narrow : m < 2 ^ 53 := by
          have := fits.bits
          exact (Nat.log2_lt (by omega)).mp (by omega)
        refine Nat.le_of_lt_succ ((Nat.log2_lt (by omega)).mpr ?_)
        omega
      rw [rounded, ofParts]
      by_cases nonzero : 0 < m'
      · rw [dif_pos nonzero]
        exact (signed_stored nonzero bits least).2 (by omega)
      · rw [dif_neg nonzero, stored_zero]
        rfl

end Binary64

/-! ## Levels and gains -/

namespace Elementary

variable {f : Elementary}

/-- Ten to the power of either zero is 1. -/
structure ZerothPower (f : Elementary) : Prop where
  positive : f.pow (Float.ofNat 10) (Float.ofNat 0) = Float.ofNat 1
  negative : f.pow (Float.ofNat 10) (-Float.ofNat 0) = Float.ofNat 1

/-- The decimal logarithm is a number of moderate size where it is defined, and not finite
elsewhere. -/
structure Logarithm (f : Elementary) : Prop where
  moderate : ∀ x : Float, Float.ofNat 0 < x → x.isFinite = true →
    (f.log10 x).abs ≤ Float.ofNat 1024
  elsewhere : ∀ x : Float, ¬ (Float.ofNat 0 < x ∧ x.isFinite = true) →
    (f.log10 x).isFinite = false

/-- A level of 0 is corrected by a gain of exactly 1. -/
theorem correction_zero (zeroth : f.ZerothPower) : Equalizer.correction (0 : f.Number) = 1 := by
  have level : -Float.ofNat 0 / Float.ofNat 20 = -Float.ofNat 0 := by decide +kernel
  have root : (Float.ofNat 1).sqrt = Float.ofNat 1 := by decide +kernel
  change (f.pow (Float.ofNat 10) (-Float.ofNat 0 / Float.ofNat 20)).sqrt = Float.ofNat 1
  rw [level, zeroth.negative, root]

theorem mul_one (x : f.Number) : x * 1 = x :=
  Binary64.mul_ofNat_one x

/-- A gain has a finite level exactly if it is positive and finite. -/
theorem ofGain?_eq_none_iff (log : f.Logarithm) {x : f.Number} :
    Decibel.ofGain? x = none ↔ ¬ (0 < x ∧ Scalar.isFinite x = true) := by
  have level : Decibel.ofGain? x = none ↔ (Float.ofNat 20 * f.log10 x).isFinite = false := by
    change (if (Float.ofNat 20 * f.log10 x).isFinite = true then _ else none) = none ↔ _
    cases (Float.ofNat 20 * f.log10 x).isFinite with
    | false => simp
    | true => simp
  rw [level]
  by_cases moderate : Float.ofNat 0 < (x : Float) ∧ (x : Float).isFinite = true
  · refine iff_of_false ?_ (fun neither => neither moderate)
    rw [Binary64.finite_twenty_mul (log.moderate x moderate.1 moderate.2)]
    exact nofun
  · exact iff_of_true (Binary64.not_finite_twenty_mul (log.elsewhere x moderate)) moderate

/-- A share of a sum of squares is not negative. -/
theorem unsigned_average (g : Grid (List f.Number)) (bin : Nat) :
    Binary64.Unsigned (Equalizer.average g bin : Float).toModel.unpack := by
  refine Binary64.unsigned_div (Binary64.unsigned_sum fun x member => ?_) (Binary64.unsigned_ofNat _)
  rcases List.mem_map.mp member with ⟨m, -, rfl⟩
  exact Binary64.unsigned_mul_self m

/-- A library that is right at 1 and wherever a logarithm is not finite. -/
def sparse : Elementary :=
  { native with
    log10 := fun x =>
      if Float.ofNat 0 < x ∧ x.isFinite = true then Float.ofNat 0
      else if x == Float.ofNat 0 then -Float.ofNat 1 / Float.ofNat 0
      else if Float.ofNat 0 < x then x
      else Float.ofNat 0 / Float.ofNat 0
    pow := fun _ _ => Float.ofNat 1 }

theorem zerothPower_sparse : sparse.ZerothPower :=
  ⟨rfl, rfl⟩

theorem logarithm_sparse : sparse.Logarithm := by
  constructor
  · intro x positive finite
    have defined : sparse.log10 x = Float.ofNat 0 := if_pos ⟨positive, finite⟩
    rw [defined]
    decide +kernel
  · intro x elsewhere
    have undefined : sparse.log10 x =
        if x == Float.ofNat 0 then -Float.ofNat 1 / Float.ofNat 0
        else if Float.ofNat 0 < x then x
        else Float.ofNat 0 / Float.ofNat 0 := if_neg elsewhere
    rw [undefined]
    by_cases zero : (x == Float.ofNat 0) = true
    · rw [if_pos zero]
      decide +kernel
    · rw [if_neg zero]
      by_cases positive : Float.ofNat 0 < x
      · rw [if_pos positive]
        exact Bool.eq_false_iff.mpr fun finite => elsewhere ⟨positive, finite⟩
      · rw [if_neg positive]
        decide +kernel

end Elementary

end Binaural
