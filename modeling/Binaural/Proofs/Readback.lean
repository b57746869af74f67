import Binaural.Decimal.Numeral
import Binaural.Proofs.NumeralText
import Binaural.Proofs.Representable

/-!
Texts of numbers read back.

* `Decimal.nearest_shortest`: the fewest digits of a number are rounded to the number. They were
  tested when they were looked for, and what is left without a test is the exact value.
* `Numeral.toBinary_eq_nearest`: a numeral is rounded to the nearest number, although numerals far
  out are not multiplied out.
* `Notation.writes_decimalText`: in every notation the text of a decimal is a numeral of the same
  value, wherever the point stands and whether or not an exponent is written.
* `Notation.toBinary_of_text`: so the text of a number is read as that number, in every notation.
-/

namespace Binaural

/-! ## Decimals -/

namespace Decimal

/-- The number that a decimal stands for. -/
def value (d : Decimal) : ℚ := d.digits * 10 ^ d.exponent

theorem den_pos (d : Decimal) : 0 < d.den := Nat.pow_pos (by decide)

theorem num_eq (d : Decimal) : (d.num : ℚ) = d.den * d.value := by
  change ((d.digits * 10 ^ d.exponent.toNat : Nat) : ℚ) = (10 ^ (-d.exponent).toNat : Nat) * _
  push_cast
  rw [value, ← zpow_mul_pow_toNat (by norm_num : (10 : ℚ) ≠ 0) d.exponent]
  ring

variable {f : BinaryFormat} {d d' : Decimal}

/-- Decimals of one value are rounded to one number. -/
theorem nearest_congr (negative : Bool) (same : d.value = d'.value) :
    f.nearest negative d.num d.den = f.nearest negative d'.num d'.den := by
  refine BinaryFormat.nearest_congr negative d.den_pos d'.den_pos ?_
  rw [← Nat.cast_inj (R := ℚ), Nat.cast_mul, Nat.cast_mul, num_eq, num_eq, same]
  ring

theorem value_strip (digits : Nat) (exponent : Int) :
    (strip digits exponent).value = digits * 10 ^ exponent := by
  fun_induction strip digits exponent with
  | case1 digits exponent zero ih =>
      have tens : ((digits / 10 : Nat) : ℚ) * 10 = digits := by
        exact_mod_cast Nat.div_mul_cancel (Nat.dvd_of_mod_eq_zero zero.2)
      rw [ih, zpow_add_one₀ (by norm_num), ← tens]
      ring
  | case2 => rfl

theorem value_ofBinary (significand : Nat) (exponent : Int) :
    (ofBinary significand exponent).value = significand * 2 ^ exponent := by
  unfold ofBinary
  split
  · rename_i whole
    obtain ⟨k, rfl⟩ := Int.eq_ofNat_of_zero_le whole
    change ((significand * 2 ^ k : Nat) : ℚ) * 10 ^ (0 : Int) = _
    push_cast
    rw [mul_one, zpow_natCast]
  · rename_i negative
    obtain ⟨k, rfl⟩ : ∃ k : Nat, exponent = -k := ⟨(-exponent).toNat, by omega⟩
    change ((significand * 5 ^ (- -(k : Int)).toNat : Nat) : ℚ) * 10 ^ (-(k : Int)) = _
    rw [neg_neg, Int.toNat_natCast, zpow_neg, zpow_neg, zpow_natCast, zpow_natCast]
    push_cast
    rw [show (10 : ℚ) = 5 * 2 by norm_num, mul_pow]
    field_simp

/-- Of two decimals the first that reads back is taken. -/
theorem readsBack_of_first {significand : Nat} {exponent : Int} {first second : Decimal}
    (found : (if first.readsBack f significand exponent then some first
      else if second.readsBack f significand exponent then some second else none) = some d) :
    d.readsBack f significand exponent = true := by
  split at found
  · rename_i reads
    rwa [← Option.some.inj found]
  · split at found
    · rename_i reads
      rwa [← Option.some.inj found]
    · cases found

theorem nearest_of_onGrid? {tie : Tie} {significand num den : Nat} {exponent grid : Int}
    (found : onGrid? f tie significand exponent num den grid = some d) :
    f.nearest false d.num d.den = .finite false significand exponent := by
  refine of_decide_eq_true (?_ : d.readsBack f significand exponent = true)
  unfold onGrid? at found
  dsimp only at found
  by_cases far : num < 2 * (if tie.prefersLower (num % den) den (num / den) = true
      then num % den else den - num % den) * significand
  · rw [if_pos far] at found
    cases found
  · rw [if_neg far] at found
    exact readsBack_of_first found

section Shortest

variable {significand : Nat} {exponent : Int} (fits : f.Fits significand exponent) (tie : Tie)
include fits

/-- Whatever grid the search ends on, it ends with what is rounded to the number. -/
theorem nearest_search (num den : Nat) (grid : Int) (count : Nat) :
    f.nearest false (search f tie significand exponent num den grid count).num
        (search f tie significand exponent num den grid count).den =
      .finite false significand exponent := by
  induction count generalizing num grid with
  | zero =>
      rw [search]
      refine BinaryFormat.nearest_of_fits false fits (den_pos _) ?_
      rw [num_eq, value_ofBinary]
  | succ count ih =>
      rw [search]
      split
      · rename_i d found
        rw [nearest_congr false (value_strip d.digits d.exponent)]
        exact nearest_of_onGrid? found
      · exact ih _ _

/-- The fewest digits of a number are rounded to the number. -/
theorem nearest_shortest :
    f.nearest false (shortest f tie significand exponent).num
        (shortest f tie significand exponent).den =
      .finite false significand exponent := by
  unfold shortest
  split
  · rename_i zero
    refine BinaryFormat.nearest_of_fits false fits (den_pos _) ?_
    rw [num_eq, value, zero]
    simp
  · exact nearest_search fits tie _ _ _ _

end Shortest

end Decimal

/-! ## Numbers far out -/

namespace BinaryFormat

variable {f : BinaryFormat} {num den : Nat}

theorem nearest_of_false {significand : Nat} {exponent : Int} (negative : Bool)
    (rounded : f.nearest false num den = .finite false significand exponent) :
    f.nearest negative num den = .finite negative significand exponent := by
  rcases Nat.eq_zero_or_pos num with rfl | num_pos
  · rw [nearest, if_pos rfl] at rounded ⊢
    obtain ⟨-, rfl, rfl⟩ := BinaryNumber.finite.inj rounded
    rfl
  · rw [nearest_eq _ num_pos] at rounded ⊢
    split at rounded
    · split at rounded
      · cases rounded
      · rename_i carried small
        obtain ⟨-, rfl, rfl⟩ := BinaryNumber.finite.inj rounded
        rw [if_pos carried, if_neg small]
    · split at rounded
      · cases rounded
      · rename_i carried small
        obtain ⟨-, rfl, rfl⟩ := BinaryNumber.finite.inj rounded
        rw [if_neg carried, if_neg small]

theorem nearest_of_large (proper : f.Proper) (negative : Bool) (den_pos : 0 < den)
    (large : den * f.limit ≤ num) : f.nearest negative num den = .infinite negative := by
  have num_pos : 0 < num := by
    have product : (0 : ℚ) < num :=
      (mul_pos (by exact_mod_cast den_pos) f.limit_pos).trans_le large
    exact_mod_cast product
  rcases nearest_cases num_pos den_pos proper negative with ⟨-, rounded⟩ | ⟨small, -⟩
  · exact rounded
  · exact absurd large small.not_ge

theorem nearest_of_small (least : f.leastExponent ≤ f.greatestExponent) (negative : Bool)
    (den_pos : 0 < den)
    (small : (num : ℚ) < den * 2 ^ (f.leastExponent - 1)) :
    f.nearest negative num den = .finite negative 0 f.leastExponent := by
  rcases Nat.eq_zero_or_pos num with rfl | num_pos
  · rw [nearest, if_pos rfl]
  · have positive : (0 : ℚ) < den := by exact_mod_cast den_pos
    have digits : floorLog2 num den < f.leastExponent - 1 := by
      have low := (floorLog2_spec num_pos den_pos).1.trans_lt small
      rwa [mul_lt_mul_iff_of_pos_left positive, zpow_lt_zpow_iff_right₀ one_lt_two] at low
    have lowest : f.roundingExponent num den = f.leastExponent := by
      unfold roundingExponent
      omega
    have vanishes : f.roundedSignificand num den = 0 := by
      refine roundDiv_eq_zero ?_
      rw [lowest, ← Nat.mul_assoc, ← not_le, mul_pow_le_iff, not_le]
      push_cast
      calc (2 : ℚ) * num < 2 * (den * 2 ^ (f.leastExponent - 1)) := by gcongr
        _ = den * 2 ^ f.leastExponent := by
          rw [zpow_sub_one₀ two_ne_zero]
          ring
    have short := Nat.two_pow_pos f.precision
    rw [nearest_eq negative num_pos, vanishes, lowest, if_neg short.ne, if_neg least.not_gt]

/-- A format whose numbers other than 0 lie between the two powers of ten beyond which numerals are
not multiplied out. -/
structure Moderate (f : BinaryFormat) : Prop where
  proper : f.Proper
  limit_le : f.limit ≤ 10 ^ 400
  le_least : 1 ≤ (10 : ℚ) ^ 400 * 2 ^ (f.leastExponent - 1)

theorem moderate_double : double.Moderate where
  proper := proper_double
  limit_le := by
    calc double.limit ≤ 2 ^ ((1024 : Nat) : Int) := limit_le_two_zpow (by decide)
      _ ≤ 10 ^ 400 := by
        rw [zpow_natCast]
        exact_mod_cast (by decide +kernel : 2 ^ 1024 ≤ 10 ^ 400)
  le_least := by
    have exponent : double.leastExponent - 1 = -((1075 : Nat) : Int) := by decide
    rw [exponent, zpow_neg, zpow_natCast, le_mul_inv_iff₀ (by positivity), one_mul]
    exact_mod_cast (by decide +kernel : 2 ^ 1075 ≤ 10 ^ 400)

theorem moderate_single : single.Moderate where
  proper := proper_single
  limit_le := limit_single_le_limit_double.trans moderate_double.limit_le
  le_least := by
    refine moderate_double.le_least.trans ?_
    have exponents : double.leastExponent - 1 ≤ single.leastExponent - 1 := by decide
    gcongr
    exact one_le_two

end BinaryFormat

/-! ## Digits -/

section Digits

variable {n : Nat}

theorem digitsValue_eq (cs : List Char) : Numeral.digitsValue cs = Nat.ofDigitChars 10 cs 0 := by
  simp only [Numeral.digitsValue, Nat.ofDigitChars, Nat.mul_comm]

theorem digitsValue_toDigits : Numeral.digitsValue (Nat.toDigits 10 n) = n := by
  rw [digitsValue_eq, Nat.ofDigitChars_ten_toDigits]

theorem isDigit_of_mem_toDigits {c : Char} (member : c ∈ Nat.toDigits 10 n) : c.isDigit = true :=
  Nat.isDigit_of_mem_toDigits (by decide) (by decide) member

theorem lt_ten_pow_length_toDigits : n < 10 ^ (Nat.toDigits 10 n).length :=
  (Nat.length_toDigits_le_iff (by decide) Nat.length_toDigits_pos).mp le_rfl

theorem ten_pow_le_of_toDigits (positive : 0 < n) :
    10 ^ ((Nat.toDigits 10 n).length - 1) ≤ n := by
  rcases Nat.eq_zero_or_pos ((Nat.toDigits 10 n).length - 1) with one | more
  · rwa [one, Nat.pow_zero]
  · refine Nat.le_of_not_lt fun short => ?_
    have := (Nat.length_toDigits_le_iff (by decide) more).mpr short
    omega

/-- Only the number 0 is written with a zero in front. -/
theorem exists_cons_of_toDigits (positive : 0 < n) :
    ∃ c rest, Nat.toDigits 10 n = c :: rest ∧ c ≠ '0' := by
  induction n using Nat.strongRecOn with
  | ind n ih =>
      by_cases small : n < 10
      · refine ⟨n.digitChar, [], Nat.toDigits_of_lt_base small, ?_⟩
        interval_cases n
        all_goals decide
      · obtain ⟨c, rest, digits, nonzero⟩ := ih (n / 10) (by omega) (by omega)
        refine ⟨c, rest ++ [(n % 10).digitChar], ?_, nonzero⟩
        rw [Nat.toDigits_of_base_le (by decide) (by omega), digits, List.cons_append]

end Digits

/-! ## Numerals -/

namespace Decimal

variable {f : BinaryFormat} {d : Decimal}

/-- The number of digits before the point, by which numerals are told that are not multiplied
out. -/
def order (d : Decimal) : Int := (Nat.toDigits 10 d.digits).length + d.exponent

theorem value_bounds (positive : 0 < d.digits) :
    (10 : ℚ) ^ (d.order - 1) ≤ d.value ∧ d.value < 10 ^ d.order := by
  have low : (10 : ℚ) ^ ((Nat.toDigits 10 d.digits).length - 1) ≤ d.digits := by
    exact_mod_cast ten_pow_le_of_toDigits positive
  have high : (d.digits : ℚ) < 10 ^ (Nat.toDigits 10 d.digits).length := by
    exact_mod_cast lt_ten_pow_length_toDigits
  have nonempty : 0 < (Nat.toDigits 10 d.digits).length := Nat.length_toDigits_pos
  have exponent : d.order - 1 =
      (((Nat.toDigits 10 d.digits).length - 1 : Nat) : Int) + d.exponent := by
    unfold order
    omega
  constructor
  · rw [value, exponent, zpow_add₀ (by norm_num), zpow_natCast]
    gcongr
  · rw [value, order, zpow_add₀ (by norm_num), zpow_natCast]
    gcongr

theorem nearest_of_tiny (moderate : f.Moderate) (negative : Bool)
    (tiny : d.digits = 0 ∨ d.order < -400) :
    f.nearest negative d.num d.den = f.nearest negative 0 1 := by
  have zero : f.nearest negative 0 1 = .finite negative 0 f.leastExponent := by
    rw [BinaryFormat.nearest, if_pos rfl]
  have positive : (0 : ℚ) < d.den := by exact_mod_cast d.den_pos
  rw [zero]
  refine BinaryFormat.nearest_of_small (BinaryFormat.least_lt_greatest moderate.proper).le _
    d.den_pos ?_
  rw [num_eq, mul_lt_mul_iff_of_pos_left positive]
  rcases Nat.eq_zero_or_pos d.digits with none | some
  · rw [value, none, Nat.cast_zero, zero_mul]
    exact zpow_pos two_pos _
  · have low : d.order ≤ -(400 : Nat) := by omega
    calc d.value < 10 ^ d.order := (value_bounds some).2
      _ ≤ 10 ^ (-(400 : Nat) : Int) := zpow_le_zpow_right₀ (by norm_num) low
      _ ≤ 2 ^ (f.leastExponent - 1) := by
        rw [zpow_neg, zpow_natCast, inv_le_iff_one_le_mul₀' (by positivity)]
        exact moderate.le_least

theorem nearest_of_huge (moderate : f.Moderate) (negative : Bool) (some : 0 < d.digits)
    (huge : 400 < d.order) : f.nearest negative d.num d.den = .infinite negative := by
  have positive : (0 : ℚ) < d.den := by exact_mod_cast d.den_pos
  have high : ((400 : Nat) : Int) ≤ d.order - 1 := by omega
  refine BinaryFormat.nearest_of_large moderate.proper _ d.den_pos ?_
  rw [num_eq, mul_le_mul_iff_of_pos_left positive]
  calc f.limit ≤ 10 ^ 400 := moderate.limit_le
    _ = 10 ^ ((400 : Nat) : Int) := (zpow_natCast _ _).symm
    _ ≤ 10 ^ (d.order - 1) := zpow_le_zpow_right₀ (by norm_num) high
    _ ≤ d.value := (value_bounds some).1

end Decimal

namespace Numeral

/-- A numeral as a decimal, without its sign. -/
def decimal (n : Numeral) : Decimal := ⟨digitsValue n.digits, n.exponent⟩

/-- A numeral is rounded to the nearest number, also where it is not multiplied out. -/
theorem toBinary_eq_nearest {f : BinaryFormat} (moderate : f.Moderate) (n : Numeral) :
    n.toBinary f = f.nearest n.negative n.decimal.num n.decimal.den := by
  have cases : n.toBinary f =
      if decide (n.decimal.digits = 0) || decide (n.decimal.order < -400) then
        f.nearest n.negative 0 1
      else if 400 < n.decimal.order then .infinite n.negative
      else f.nearest n.negative n.decimal.num n.decimal.den := rfl
  rw [cases]
  split
  · rename_i tiny
    rw [Bool.or_eq_true, decide_eq_true_iff, decide_eq_true_iff] at tiny
    exact (Decimal.nearest_of_tiny moderate _ tiny).symm
  · rename_i large
    rw [Bool.or_eq_true, decide_eq_true_iff, decide_eq_true_iff] at large
    split
    · rename_i huge
      exact (Decimal.nearest_of_huge moderate _ (by omega) huge).symm
    · rfl

/-! ## Numerals as they are written -/

/-- A point and the digits after it, if there are any. -/
def pointed : List Char → List Char
  | [] => []
  | c :: rest => '.' :: c :: rest

/-- A text of a numeral and its parts: digits before and after the point, and the exponent. There is
no zero before other digits. -/
structure Written (text whole fraction tail : List Char) (exponent : Int) : Prop where
  text_eq : text = whole ++ (pointed fraction ++ tail)
  whole_digits : ∀ c ∈ whole, c.isDigit = true
  whole_head : whole = ['0'] ∨ ∃ c rest, whole = c :: rest ∧ c ≠ '0'
  fraction_digits : ∀ c ∈ fraction, c.isDigit = true
  tail_head : tail = [] ∨ ∃ rest, tail = 'e' :: rest
  exponent_eq : exponentOf? tail = some exponent

/-- Whether a text is a numeral of this value. -/
def Writes (text : List Char) (value : ℚ) : Prop :=
  ∃ whole fraction tail exponent, Written text whole fraction tail exponent ∧
    (digitsValue (whole ++ fraction) : ℚ) * 10 ^ (exponent - fraction.length) = value

theorem takeSign_of_digit {cs : List Char} (digit : ∀ c ∈ cs.head?, c.isDigit = true) :
    takeSign cs = (false, cs) := by
  unfold takeSign
  split
  · exact absurd (digit _ rfl) (by decide)
  · exact absurd (digit _ rfl) (by decide)
  · rfl

/-- Digits of any kind end where the text goes on with something else. -/
theorem takeWhile_append_of_digits {isDigit : Char → Bool} {cs rest : List Char}
    (digits : ∀ c ∈ cs, isDigit c = true) (stops : ∀ c ∈ rest.head?, isDigit c = false) :
    (cs ++ rest).takeWhile isDigit = cs ∧ (cs ++ rest).dropWhile isDigit = rest := by
  rw [List.takeWhile_append_of_pos digits, List.dropWhile_append_of_pos digits]
  cases rest with
  | nil => simp
  | cons c rest =>
      have stop := stops c (by simp)
      simp [stop]

section Written

variable {text whole fraction tail : List Char} {exponent : Int}
  (written : Written text whole fraction tail exponent)
include written

/-- The head of a tail is no digit. -/
theorem Written.tail_stops : ∀ c ∈ tail.head?, c.isDigit = false := by
  rcases written.tail_head with rfl | ⟨rest, rfl⟩
  · simp
  · simp

theorem Written.pointed_stops : ∀ c ∈ (pointed fraction ++ tail).head?, c.isDigit = false := by
  cases fraction with
  | nil => exact written.tail_stops
  | cons c rest => simp [pointed]

theorem Written.whole_ne : whole ≠ [] := by
  rcases written.whole_head with rfl | ⟨c, rest, rfl, -⟩
  · exact List.cons_ne_nil _ _
  · exact List.cons_ne_nil _ _

theorem Written.head_isDigit : ∀ c ∈ text.head?, c.isDigit = true := by
  obtain ⟨first, rest, rfl⟩ := List.exists_cons_of_ne_nil written.whole_ne
  rw [written.text_eq]
  rintro c ⟨rfl⟩
  exact written.whole_digits _ List.mem_cons_self

/-- A text that is written like a numeral is read as that numeral, also after a minus. -/
theorem Written.ofChars? (negative : Bool) :
    Numeral.ofChars? ((if negative then ['-'] else []) ++ text) =
      some ⟨negative, whole ++ fraction, exponent - fraction.length⟩ := by
  have sign : takeSign ((if negative then ['-'] else []) ++ text) = (negative, text) := by
    cases negative with
    | true => rfl
    | false => exact takeSign_of_digit written.head_isDigit
  have nonempty : whole.isEmpty = false := List.isEmpty_eq_false_iff.mpr written.whole_ne
  obtain ⟨taken, left⟩ := takeWhile_append_of_digits written.whole_digits written.pointed_stops
  unfold Numeral.ofChars?
  rw [sign]
  dsimp only
  rw [written.text_eq, taken, left, nonempty]
  cases fraction with
  | nil =>
      have exponent_eq := written.exponent_eq
      rcases written.tail_head with rfl | ⟨rest, rfl⟩
      · change (exponentOf? []).map (fun e => Numeral.mk negative (whole ++ []) (e - (0 : Nat))) = _
        rw [exponent_eq]
        rfl
      · change (exponentOf? ('e' :: rest)).map
          (fun e => Numeral.mk negative (whole ++ []) (e - (0 : Nat))) = _
        rw [exponent_eq]
        rfl
  | cons c more =>
      obtain ⟨taken', left'⟩ :=
        takeWhile_append_of_digits written.fraction_digits written.tail_stops
      change (if false && (((c :: more) ++ tail).takeWhile Char.isDigit).isEmpty then none
        else (exponentOf? (((c :: more) ++ tail).dropWhile Char.isDigit)).map fun exponent =>
          Numeral.mk negative (whole ++ ((c :: more) ++ tail).takeWhile Char.isDigit)
            (exponent - (((c :: more) ++ tail).takeWhile Char.isDigit).length)) = _
      rw [taken', left', Bool.false_and, if_neg Bool.false_ne_true, written.exponent_eq]
      rfl

end Written

/-- A text of a value that is rounded to a number is read as that number. -/
theorem Writes.toBinary {f : BinaryFormat} (moderate : f.Moderate) {text : List Char} {d : Decimal}
    {significand : Nat} {exponent : Int} (writes : Writes text d.value) (negative : Bool)
    (rounded : f.nearest false d.num d.den = .finite false significand exponent) :
    ∃ n, ofChars? ((if negative then ['-'] else []) ++ text) = some n ∧
      n.toBinary f = .finite negative significand exponent := by
  obtain ⟨whole, fraction, tail, exponent', written, value⟩ := writes
  refine ⟨_, written.ofChars? negative, ?_⟩
  have same : (⟨negative, whole ++ fraction, exponent' - fraction.length⟩ : Numeral).decimal.value =
      d.value := value
  rw [toBinary_eq_nearest moderate, Decimal.nearest_congr _ same]
  exact BinaryFormat.nearest_of_false negative rounded

/-! ## Exponents -/

theorem exponentOf?_of_digits {digits sign : List Char} (nonempty : digits ≠ [])
    (all : ∀ c ∈ digits, c.isDigit = true) {negative : Bool}
    (taken : takeSign (sign ++ digits) = (negative, digits)) :
    exponentOf? ('e' :: (sign ++ digits)) =
      some (if negative then -(digitsValue digits : Int) else digitsValue digits) := by
  have some : digits.isEmpty = false := List.isEmpty_eq_false_iff.mpr nonempty
  have every : digits.all Char.isDigit = true := List.all_eq_true.mpr all
  unfold exponentOf?
  dsimp only
  rw [if_pos (by decide), taken]
  dsimp only
  rw [some, every]
  rfl

theorem exponentOf?_toDigits (n : Nat) (sign : List Char) {negative : Bool}
    (taken : takeSign (sign ++ Nat.toDigits 10 n) = (negative, Nat.toDigits 10 n)) :
    exponentOf? ('e' :: (sign ++ Nat.toDigits 10 n)) =
      some (if negative then -(n : Int) else n) := by
  rw [exponentOf?_of_digits Nat.toDigits_ne_nil (fun c => isDigit_of_mem_toDigits) taken,
    digitsValue_toDigits]

/-- An exponent is read as it is written, with or without a plus. -/
theorem exponentOf?_toString (plus : Bool) (e : Int) :
    exponentOf? ('e' :: ((if plus && decide (0 ≤ e) then "+" else "").toList ++
      (toString e).toList)) = some e := by
  cases e with
  | ofNat n =>
      have unsigned : (toString (Int.ofNat n)).toList = Nat.toDigits 10 n := by
        change (toString n).toList = _
        rw [Nat.toString_eq_ofList_toDigits, String.toList_ofList]
      rw [unsigned]
      cases plus with
      | true =>
          have sign : (if (true && decide (0 ≤ Int.ofNat n)) = true then "+" else "").toList =
              ['+'] := by simp
          rw [sign]
          exact exponentOf?_toDigits n ['+'] rfl
      | false =>
          refine exponentOf?_toDigits n [] (takeSign_of_digit fun c first => ?_)
          exact isDigit_of_mem_toDigits (List.mem_of_mem_head? first)
  | negSucc n =>
      have signed : (toString (Int.negSucc n)).toList = '-' :: Nat.toDigits 10 (n + 1) := by
        change ("-" ++ toString (n + 1)).toList = _
        rw [String.toList_append, Nat.toString_eq_ofList_toDigits]
        change '-' :: (String.ofList _).toList = _
        rw [String.toList_ofList]
      have none : (plus && decide (0 ≤ Int.negSucc n)) = false := by simp
      rw [signed, none]
      exact exponentOf?_toDigits (n + 1) ['-'] rfl

end Numeral

/-! ## Layouts -/

namespace Notation

open Numeral

variable (n : Notation) (d : Decimal)

theorem digitsValue_append_zeros (cs : List Char) (k : Nat) :
    digitsValue (cs ++ List.replicate k '0') = digitsValue cs * 10 ^ k := by
  rw [digitsValue_eq, digitsValue_eq, Nat.ofDigitChars_append, Nat.ofDigitChars_replicate_zero,
    Nat.mul_comm]

theorem digitsValue_zeros_append (cs : List Char) (k : Nat) :
    digitsValue (List.replicate k '0' ++ cs) = digitsValue cs := by
  rw [digitsValue_eq, digitsValue_eq, Nat.ofDigitChars_append, Nat.ofDigitChars_replicate_zero,
    Nat.mul_zero]

theorem pointed_of_ne_nil {fraction : List Char} (nonempty : fraction ≠ []) :
    pointed fraction = '.' :: fraction := by
  obtain ⟨c, rest, rfl⟩ := List.exists_cons_of_ne_nil nonempty
  rfl

theorem isDigit_of_mem_zeros {c : Char} {k : Nat} (member : c ∈ List.replicate k '0') :
    c.isDigit = true := by
  rw [List.eq_of_mem_replicate member]
  rfl

/-- Digits are a numeral, with or without a point and a zero behind them. -/
theorem writes_whole (point : Bool) (whole : List Char) (digits : ∀ c ∈ whole, c.isDigit = true)
    (head : whole = ['0'] ∨ ∃ c rest, whole = c :: rest ∧ c ≠ '0') :
    Writes (whole ++ (if point then ".0" else "").toList) (digitsValue whole) := by
  cases point with
  | false =>
      refine ⟨whole, [], [], 0, ⟨rfl, digits, head, by simp, .inl rfl, rfl⟩, ?_⟩
      simp
  | true =>
      refine ⟨whole, ['0'], [], 0, ⟨rfl, digits, head, by simp, .inl rfl, rfl⟩, ?_⟩
      have shifted := digitsValue_append_zeros whole 1
      rw [List.replicate_one] at shifted
      rw [shifted]
      simp

theorem writes_positionalText : Writes (n.positionalText d).toList d.value := by
  have all : ∀ k, ∀ c ∈ List.replicate k '0' ++ Nat.toDigits 10 d.digits, c.isDigit = true := by
    intro k c member
    rcases List.mem_append.mp member with zero | digit
    · exact isDigit_of_mem_zeros zero
    · exact isDigit_of_mem_toDigits digit
  unfold positionalText
  dsimp only
  split
  · rename_i zero
    rw [Decimal.value, zero, Nat.cast_zero, zero_mul, String.toList_append]
    have written := writes_whole n.wholePoint ['0'] (by simp) (.inl rfl)
    have value : ((digitsValue ['0'] : Nat) : ℚ) = 0 := by rfl
    rwa [value] at written
  · rename_i nonzero
    obtain ⟨c, rest, digits_eq, head⟩ := exists_cons_of_toDigits (Nat.pos_of_ne_zero nonzero)
    split
    · rename_i whole
      obtain ⟨k, exponent⟩ := Int.eq_ofNat_of_zero_le whole
      have written := writes_whole n.wholePoint (Nat.toDigits 10 d.digits ++ List.replicate k '0')
        (fun c member => (List.mem_append.mp member).elim isDigit_of_mem_toDigits
          isDigit_of_mem_zeros)
        (.inr ⟨c, rest ++ List.replicate k '0', by rw [digits_eq, List.cons_append], head⟩)
      rw [digitsValue_append_zeros, digitsValue_toDigits] at written
      rw [Decimal.value, exponent, Int.toNat_natCast, zpow_natCast, String.toList_append,
        String.toList_ofList]
      exact_mod_cast written
    · rename_i below
      obtain ⟨places, exponent⟩ : ∃ k : Nat, d.exponent = -k := ⟨(-d.exponent).toNat, by omega⟩
      have some : 0 < places := by omega
      rw [exponent, neg_neg, Int.toNat_natCast]
      generalize padded_eq : List.replicate (places + 1 - (Nat.toDigits 10 d.digits).length) '0' ++
        Nat.toDigits 10 d.digits = padded
      have length : places + 1 ≤ padded.length := by
        rw [← padded_eq, List.length_append, List.length_replicate]
        omega
      have digits : ∀ c ∈ padded, c.isDigit = true := padded_eq ▸ all _
      have fraction_length : (padded.drop (padded.length - places)).length = places := by
        rw [List.length_drop]
        omega
      refine ⟨padded.take (padded.length - places), padded.drop (padded.length - places), [], 0,
        ⟨?_, fun c member => digits c (List.mem_of_mem_take member), ?_,
          fun c member => digits c (List.mem_of_mem_drop member), .inl rfl, rfl⟩, ?_⟩
      · have nonempty : padded.drop (padded.length - places) ≠ [] := by
          rw [← List.length_pos_iff, fraction_length]
          exact some
        rw [pointed_of_ne_nil nonempty, List.append_nil]
        simp
      · rcases Nat.lt_or_ge places (Nat.toDigits 10 d.digits).length with long | short
        · -- the digits reach beyond the point
          have unpadded : padded = c :: rest := by
            rw [← padded_eq, Nat.sub_eq_zero_of_le long, ← digits_eq]
            rfl
          obtain ⟨k, cut⟩ : ∃ k, padded.length - places = k + 1 :=
            ⟨padded.length - places - 1, by omega⟩
          rw [cut, unpadded]
          exact .inr ⟨c, rest.take k, rfl, head⟩
        · -- a single zero stands before the point
          obtain ⟨k, zeros⟩ : ∃ k, places + 1 - (Nat.toDigits 10 d.digits).length = k + 1 :=
            ⟨places - (Nat.toDigits 10 d.digits).length, by omega⟩
          have cut : padded.length - places = 1 := by
            rw [← padded_eq, List.length_append, List.length_replicate]
            omega
          rw [cut, ← padded_eq, zeros]
          exact .inl rfl
      · rw [List.take_append_drop, fraction_length, ← padded_eq, digitsValue_zeros_append,
          digitsValue_toDigits, Decimal.value, exponent, zero_sub]

theorem writes_scientificText (some : 0 < d.digits) :
    Writes (n.scientificText d).toList d.value := by
  obtain ⟨c, rest, digits_eq, head⟩ := exists_cons_of_toDigits some
  have digits : ∀ x ∈ c :: rest, x.isDigit = true := fun x member =>
    isDigit_of_mem_toDigits (n := d.digits) (digits_eq ▸ member)
  have value : digitsValue (c :: rest) = d.digits := by rw [← digits_eq, digitsValue_toDigits]
  refine ⟨[c], rest, _, _, ⟨?_, fun x member => ?_, .inr ⟨c, [], rfl, head⟩, fun x member => ?_,
    .inr ⟨_, rfl⟩, exponentOf?_toString n.exponentSign (d.exponent + rest.length)⟩, ?_⟩
  · unfold scientificText
    rw [digits_eq]
    cases rest with
    | nil => simp [pointed]
    | cons y rest => simp [pointed]
  · exact digits x (List.mem_of_mem_head? (List.mem_singleton.mp member ▸ rfl))
  · exact digits x (List.mem_cons_of_mem _ member)
  · rw [List.singleton_append, value, Decimal.value, add_sub_cancel_right]

/-- In every notation the text of a decimal is a numeral of its value. -/
theorem writes_decimalText : Writes (n.decimalText d).toList d.value := by
  unfold decimalText
  dsimp only
  split
  · exact writes_positionalText n d
  · split
    · exact writes_positionalText n d
    · rename_i large
      refine writes_scientificText n d ?_
      rw [Bool.or_eq_true, decide_eq_true_iff] at large
      omega

/-- The text of a number is read as that number. -/
theorem toBinary_of_text {f : BinaryFormat} (moderate : f.Moderate) (negative : Bool)
    {significand : Nat} {exponent : Int} (fits : f.Fits significand exponent) :
    ∃ numeral, ofChars? (n.text f (.finite negative significand exponent)).toList = some numeral ∧
      numeral.toBinary f = .finite negative significand exponent := by
  have sign : (text.sign negative).toList = if negative then ['-'] else [] := by
    cases negative with
    | true => rfl
    | false => rfl
  rw [text, String.toList_append, sign]
  exact (writes_decimalText n _).toBinary moderate negative
    (Decimal.nearest_shortest fits n.tie)

/-- The text of a finite float is read as that float. -/
theorem toFloat32?_ofFloat32 {x : Float32} (finite : x.isFinite = true) :
    toFloat32? (n.ofFloat32 x) = some x := by
  have holds := BinaryNumber.holds_ofFloat32 x
  rw [← BinaryNumber.isFinite_ofFloat32, BinaryNumber.isFinite_iff_exists] at finite
  obtain ⟨negative, significand, exponent, number⟩ := finite
  have back := @BinaryNumber.toFloat32_ofFloat32 x (number ▸ nofun)
  rw [number] at holds back
  cases holds with
  | finite _ fits =>
      obtain ⟨numeral, read, rounded⟩ :=
        n.toBinary_of_text BinaryFormat.moderate_single negative fits
      rw [toFloat32?, ofFloat32, number, read, Option.map_some, rounded, back]

end Notation

end Binaural
