import Binaural.Proofs.NativePaths
import Binaural.Proofs.Reader
import Binaural.Proofs.Readback
import Binaural.Recording.FileName

/-!
Which angles the names of recordings tell.

The form of a name is matched from left to right, and a numeral takes all digits that follow. No
digit can be the letter behind a numeral, so a name has the form in one way or in none
(`FileName.angleTexts?_eq_some_iff`).

* `FileName.Spells` says that a path ends in the name of a recording, and `FileName.Denotes` that a
  numeral in it is an integer of 32 bits.
* `FileName.parse_tells`: what is told of a path depends on nothing else (`FileName.Tells`), be the
  path text or not, and the name that is written for two angles tells them.
-/

namespace Binaural.FileName

/-! ## Numerals -/

/-- What a name may have in the place of an angle: an optional minus sign and decimal digits of any
script. -/
inductive IsNumeral : List Char → Prop
  | unsigned {digits : List Char} (nonempty : digits ≠ [])
    (decimal : ∀ c ∈ digits, DecimalDigit.isDecimalDigit c = true) : IsNumeral digits
  | minus {digits : List Char} (nonempty : digits ≠ [])
    (decimal : ∀ c ∈ digits, DecimalDigit.isDecimalDigit c = true) : IsNumeral ('-' :: digits)

/-- The integers of 32 bits that numerals of ASCII digits denote. -/
inductive Denotes : List Char → Int → Prop
  | unsigned {digits : List Char} (nonempty : digits ≠ []) (ascii : ∀ c ∈ digits, c.isDigit = true)
    (fits : FitsInt32 (Nat.ofDigitChars 10 digits 0)) :
    Denotes digits (Nat.ofDigitChars 10 digits 0)
  | minus {digits : List Char} (nonempty : digits ≠ []) (ascii : ∀ c ∈ digits, c.isDigit = true)
    (fits : FitsInt32 (-(Nat.ofDigitChars 10 digits 0 : Int))) :
    Denotes ('-' :: digits) (-(Nat.ofDigitChars 10 digits 0 : Int))

theorem isDecimalDigit_of_isDigit {c : Char} (ascii : c.isDigit = true) :
    DecimalDigit.isDecimalDigit c = true := by
  refine List.any_eq_true.mpr ⟨0x30, List.mem_cons_self, ?_⟩
  obtain ⟨lower, upper⟩ := Char.isDigit_iff_toNat.mp ascii
  have zero : '0'.toNat = 48 := rfl
  have nine : '9'.toNat = 57 := rfl
  simpa using ⟨by omega, by omega⟩

theorem Denotes.isNumeral {text : List Char} {z : Int} (denotes : Denotes text z) :
    IsNumeral text := by
  cases denotes with
  | unsigned nonempty ascii =>
      exact .unsigned nonempty fun c member => isDecimalDigit_of_isDigit (ascii c member)
  | minus nonempty ascii =>
      exact .minus nonempty fun c member => isDecimalDigit_of_isDigit (ascii c member)

/-- Decimal digits are no minus sign. -/
theorem head?_ne_minus {digits : List Char}
    (decimal : ∀ c ∈ digits, DecimalDigit.isDecimalDigit c = true) (rest : List Char) :
    digits ≠ '-' :: rest := by
  rintro rfl
  exact absurd (decimal '-' List.mem_cons_self) (by decide)

/-! ## The form of names -/

/-- The numeral at the head of a text takes all of its digits. -/
theorem takeAngle?_eq_some_iff {text angle rest : List Char} :
    takeAngle? text = some (angle, rest) ↔
      text = angle ++ rest ∧ IsNumeral angle ∧
        ∀ c ∈ rest.head?, DecimalDigit.isDecimalDigit c = false := by
  have digits_of (text : List Char) : ∀ c ∈ text.takeWhile DecimalDigit.isDecimalDigit,
      DecimalDigit.isDecimalDigit c = true := fun c => List.mem_takeWhile_imp
  have stops_of (text : List Char) : ∀ c ∈ (text.dropWhile DecimalDigit.isDecimalDigit).head?,
      DecimalDigit.isDecimalDigit c = false := fun c head => by
    have stops := List.head?_dropWhile_not DecimalDigit.isDecimalDigit text
    rw [head] at stops
    exact stops
  constructor
  · intro taken
    unfold takeAngle? at taken
    dsimp only at taken
    split at taken
    · split at taken
      · cases taken
      · rename_i tail nonempty
        cases taken
        refine ⟨?_, .minus (by simpa using nonempty) (digits_of _), stops_of _⟩
        simp
    · split at taken
      · cases taken
      · rename_i nonempty
        cases taken
        refine ⟨?_, .unsigned (by simpa using nonempty) (digits_of _), stops_of _⟩
        simp
  · rintro ⟨rfl, numeral, stops⟩
    cases numeral with
    | minus nonempty decimal =>
        obtain ⟨taken, left⟩ := Numeral.takeWhile_append_of_digits decimal stops
        rw [List.cons_append, takeAngle?, taken, left, if_neg (by simpa using nonempty)]
        rfl
    | unsigned nonempty decimal =>
        obtain ⟨taken, left⟩ := Numeral.takeWhile_append_of_digits decimal stops
        unfold takeAngle?
        dsimp only
        split
        · rename_i tail minus
          cases angle with
          | nil => exact absurd rfl nonempty
          | cons c digits =>
              cases minus
              exact absurd rfl (head?_ne_minus decimal digits)
        · dsimp only
          rw [taken, left, if_neg (by simpa using nonempty)]
          rfl

/-- What a name has behind the letter of the azimuth. -/
def ending : List Char := ['a', '.', 'w', 'a', 'v']

/-- The name of a recording with two numerals. -/
def spelling (elevation azimuth : List Char) : List Char :=
  'L' :: (elevation ++ 'e' :: (azimuth ++ ending))

theorem angleTexts?_eq_some_iff {name elevation azimuth : List Char} :
    angleTexts? name = some (elevation, azimuth) ↔
      name = spelling elevation azimuth ∧ IsNumeral elevation ∧ IsNumeral azimuth := by
  constructor
  · intro matched
    unfold angleTexts? at matched
    split at matched
    · rename_i text
      split at matched
      · rename_i first behind taken
        obtain ⟨rfl, numeral, -⟩ := takeAngle?_eq_some_iff.mp taken
        split at matched
        · rename_i second taken'
          obtain ⟨rfl, numeral', -⟩ := takeAngle?_eq_some_iff.mp taken'
          cases matched
          exact ⟨rfl, numeral, numeral'⟩
        · cases matched
      · cases matched
    · cases matched
  · rintro ⟨rfl, numeral, numeral'⟩
    have first : takeAngle? (elevation ++ 'e' :: (azimuth ++ ending)) =
        some (elevation, 'e' :: (azimuth ++ ending)) := by
      refine takeAngle?_eq_some_iff.mpr ⟨rfl, numeral, fun c head => ?_⟩
      cases head
      decide
    have second : takeAngle? (azimuth ++ ending) = some (azimuth, ending) := by
      refine takeAngle?_eq_some_iff.mpr ⟨rfl, numeral', fun c head => ?_⟩
      cases head
      decide
    rw [spelling, angleTexts?, first]
    simp only [second]
    rfl

/-! ## Angles -/

theorem natValue_eq (digits : List Char) : natValue digits = Nat.ofDigitChars 10 digits 0 :=
  digitsValue_eq digits

theorem fitsInt32_iff {z : Int} : FitsInt32 z ↔ -2147483648 ≤ z ∧ z < 2147483648 := by
  have lower : Int32.minValue.toInt = -2147483648 := rfl
  have upper : Int32.maxValue.toInt = 2147483647 := rfl
  rw [FitsInt32, lower, upper]
  omega

theorem denotes_minus_iff {digits : List Char} (nonempty : digits ≠ []) {z : Int} :
    Denotes ('-' :: digits) z ↔
      ((∀ c ∈ digits, c.isDigit = true) ∧ FitsInt32 (-(Nat.ofDigitChars 10 digits 0 : Int))) ∧
        -(Nat.ofDigitChars 10 digits 0 : Int) = z := by
  constructor
  · intro denotes
    cases denotes with
    | unsigned _ ascii => exact absurd (ascii '-' List.mem_cons_self) (by decide)
    | minus _ ascii fits => exact ⟨⟨ascii, fits⟩, rfl⟩
  · rintro ⟨⟨ascii, fits⟩, rfl⟩
    exact .minus nonempty ascii fits

theorem denotes_unsigned_iff {digits : List Char} (nonempty : digits ≠ [])
    (decimal : ∀ c ∈ digits, DecimalDigit.isDecimalDigit c = true) {z : Int} :
    Denotes digits z ↔
      ((∀ c ∈ digits, c.isDigit = true) ∧ FitsInt32 (Nat.ofDigitChars 10 digits 0)) ∧
        (Nat.ofDigitChars 10 digits 0 : Int) = z := by
  constructor
  · intro denotes
    cases denotes with
    | unsigned _ ascii fits => exact ⟨⟨ascii, fits⟩, rfl⟩
    | minus => exact absurd rfl (head?_ne_minus decimal _)
  · rintro ⟨⟨ascii, fits⟩, rfl⟩
    exact .unsigned nonempty ascii fits

/-- A numeral is read as the integer that it denotes. -/
theorem angle?_eq_some_iff {text : List Char} (numeral : IsNumeral text) {z : Int} :
    angle? text = some z ↔ Denotes text z := by
  cases numeral with
  | @minus digits nonempty decimal =>
      rw [denotes_minus_iff nonempty, angle?, natValue_eq, Option.ite_none_right_eq_some,
        List.all_eq_true, Option.some.injEq, if_pos rfl, fitsInt32_iff]
  | unsigned nonempty decimal =>
      rw [denotes_unsigned_iff nonempty decimal]
      unfold angle?
      split
      rename_i sign
      split at sign
      · exact absurd rfl (head?_ne_minus decimal _)
      · cases sign
        rw [natValue_eq, Option.ite_none_right_eq_some, List.all_eq_true, Option.some.injEq,
          if_neg Bool.false_ne_true, fitsInt32_iff]

/-! ## Paths -/

/-- A path ends in the name of a recording with two numerals. -/
structure Spells (path : NativePath) (elevation azimuth : List Char) : Prop where
  last : EndsIn NativePath.slash NativePath.dot path.bytes (utf8 (spelling elevation azimuth))
  elevation : IsNumeral elevation
  azimuth : IsNumeral azimuth

/-- The first of two numerals that denotes no integer. -/
inductive Unfit (elevation azimuth : List Char) : String → Prop
  | elevation (unfit : ∀ z, ¬ Denotes elevation z) :
    Unfit elevation azimuth (String.ofList elevation)
  | azimuth {e : Int} (denotes : Denotes elevation e) (unfit : ∀ z, ¬ Denotes azimuth z) :
    Unfit elevation azimuth (String.ofList azimuth)

/-- What is told of a path. -/
structure Tells (path : NativePath) (answer : Except Fault (Int × Int)) : Prop where
  angles : ∀ e a, answer = .ok (e, a) ↔
    ∃ elevation azimuth, Spells path elevation azimuth ∧ Denotes elevation e ∧ Denotes azimuth a
  unfit : ∀ text, answer = .error (.angle text) ↔
    ∃ elevation azimuth, Spells path elevation azimuth ∧ Unfit elevation azimuth text
  other : answer = .error .form ↔ ∀ elevation azimuth, ¬ Spells path elevation azimuth

theorem spells_iff {path : NativePath} {elevation azimuth : List Char} :
    Spells path elevation azimuth ↔
      ∃ name, path.fileName? = some name ∧ angleTexts? name.toList = some (elevation, azimuth) := by
  simp only [NativePath.fileName?_eq_some_iff, angleTexts?_eq_some_iff]
  constructor
  · rintro ⟨last, numeral, numeral'⟩
    refine ⟨String.ofList (spelling elevation azimuth), ?_, ?_, numeral, numeral'⟩
    · rwa [String.toList_ofList]
    · rw [String.toList_ofList]
  · rintro ⟨name, last, spelled, numeral, numeral'⟩
    rw [spelled] at last
    exact ⟨last, numeral, numeral'⟩

/-- A path tells angles in one way at most. -/
theorem Spells.unique {path : NativePath} {elevation azimuth elevation' azimuth' : List Char}
    (spells : Spells path elevation azimuth) (spells' : Spells path elevation' azimuth') :
    elevation' = elevation ∧ azimuth' = azimuth := by
  obtain ⟨name, last, matched⟩ := spells_iff.mp spells
  obtain ⟨_, last', matched'⟩ := spells_iff.mp spells'
  cases Option.some.inj (last.symm.trans last')
  exact Prod.mk.inj (Option.some.inj (matched'.symm.trans matched))

/-- What is told of a path that spells two numerals. -/
theorem tells_of_spells {path : NativePath} {elevation azimuth : List Char}
    (spells : Spells path elevation azimuth) :
    (∃ e a, Denotes elevation e ∧ Denotes azimuth a ∧ parseNative path = .ok (e, a)) ∨
      ∃ text, Unfit elevation azimuth text ∧ parseNative path = .error (.angle text) := by
  obtain ⟨name, last, matched⟩ := spells_iff.mp spells
  rw [parseNative, last, readLast, read, matched]
  dsimp only
  cases first : angle? elevation with
  | none =>
      refine .inr ⟨_, .elevation fun z denotes => ?_, rfl⟩
      rw [(angle?_eq_some_iff spells.elevation).mpr denotes] at first
      cases first
  | some e =>
      have denotes := (angle?_eq_some_iff spells.elevation).mp first
      dsimp only
      cases second : angle? azimuth with
      | none =>
          refine .inr ⟨_, .azimuth denotes fun z denotes' => ?_, rfl⟩
          rw [(angle?_eq_some_iff spells.azimuth).mpr denotes'] at second
          cases second
      | some a =>
          exact .inl ⟨e, a, denotes, (angle?_eq_some_iff spells.azimuth).mp second, rfl⟩

theorem Denotes.unique {text : List Char} {z z' : Int} (denotes : Denotes text z)
    (denotes' : Denotes text z') : z' = z := by
  have read := (angle?_eq_some_iff denotes.isNumeral).mpr denotes
  have read' := (angle?_eq_some_iff denotes.isNumeral).mpr denotes'
  exact Option.some.inj (read'.symm.trans read)

section Unfit

variable {elevation azimuth : List Char} {text : String}

theorem Unfit.not_denotes (unfit : Unfit elevation azimuth text) {e a : Int}
    (denotes : Denotes elevation e) (denotes' : Denotes azimuth a) : False := by
  cases unfit with
  | elevation none => exact none e denotes
  | azimuth _ none => exact none a denotes'

theorem Unfit.unique (unfit : Unfit elevation azimuth text) {text' : String}
    (unfit' : Unfit elevation azimuth text') : text' = text := by
  cases unfit with
  | elevation none =>
      cases unfit' with
      | elevation => rfl
      | azimuth denotes => exact absurd denotes (none _)
  | azimuth denotes _ =>
      cases unfit' with
      | elevation none => exact absurd denotes (none _)
      | azimuth => rfl

end Unfit

theorem parseNative_of_not_spells {path : NativePath}
    (otherwise : ∀ elevation azimuth, ¬ Spells path elevation azimuth) :
    parseNative path = .error .form := by
  unfold parseNative
  cases last : path.fileName? with
  | none => rfl
  | some name =>
      rw [readLast, read]
      cases matched : angleTexts? name.toList with
      | none => rfl
      | some angles =>
          exact absurd (spells_iff.mpr ⟨name, last, matched⟩) (otherwise angles.1 angles.2)

/-- What is told of a path is told by its last component alone. -/
theorem tells_parseNative (path : NativePath) : Tells path (parseNative path) := by
  by_cases spelled : ∃ elevation azimuth, Spells path elevation azimuth
  · obtain ⟨elevation, azimuth, spells⟩ := spelled
    have one {elevation' azimuth' : List Char} (spells' : Spells path elevation' azimuth') :=
      spells.unique spells'
    rcases tells_of_spells spells with ⟨e, a, denotes, denotes', told⟩ | ⟨text, unfit, told⟩
    · rw [told]
      refine ⟨fun e' a' => ?_, fun text => ?_, ?_⟩
      · constructor
        · rintro ⟨⟩
          exact ⟨elevation, azimuth, spells, denotes, denotes'⟩
        · rintro ⟨_, _, spells', first, second⟩
          obtain ⟨rfl, rfl⟩ := one spells'
          rw [denotes.unique first, denotes'.unique second]
      · simp only [reduceCtorEq, false_iff]
        rintro ⟨_, _, spells', unfit⟩
        obtain ⟨rfl, rfl⟩ := one spells'
        exact unfit.not_denotes denotes denotes'
      · simp only [reduceCtorEq, false_iff]
        exact fun none => none _ _ spells
    · rw [told]
      refine ⟨fun e' a' => ?_, fun text' => ?_, ?_⟩
      · simp only [reduceCtorEq, false_iff]
        rintro ⟨_, _, spells', first, second⟩
        obtain ⟨rfl, rfl⟩ := one spells'
        exact unfit.not_denotes first second
      · constructor
        · rintro ⟨⟩
          exact ⟨elevation, azimuth, spells, unfit⟩
        · rintro ⟨_, _, spells', unfit'⟩
          obtain ⟨rfl, rfl⟩ := one spells'
          rw [unfit.unique unfit']
      · simp only [Except.error.injEq, reduceCtorEq, false_iff]
        exact fun none => none _ _ spells
  · have none : ∀ elevation azimuth, ¬ Spells path elevation azimuth :=
      fun elevation azimuth spells => spelled ⟨elevation, azimuth, spells⟩
    rw [parseNative_of_not_spells none]
    refine ⟨fun e a => ?_, fun text => ?_, ⟨fun _ => none, fun _ => rfl⟩⟩
    · simp only [reduceCtorEq, false_iff]
      rintro ⟨_, _, spells, -⟩
      exact none _ _ spells
    · simp only [Except.error.injEq, reduceCtorEq, false_iff]
      rintro ⟨_, _, spells, -⟩
      exact none _ _ spells

/-! ## Written names -/

/-- An integer in decimal, with zeros in front of its digits. -/
def written (zeros : Nat) (z : Int) : List Char :=
  (if z < 0 then ['-'] else []) ++ (List.replicate zeros '0' ++ Nat.toDigits 10 z.natAbs)

theorem denotes_written (zeros : Nat) {z : Int} (fits : FitsInt32 z) :
    Denotes (written zeros z) z := by
  have nonempty : List.replicate zeros '0' ++ Nat.toDigits 10 z.natAbs ≠ [] := by
    have := @Nat.length_toDigits_pos 10 z.natAbs
    exact List.append_ne_nil_of_right_ne_nil _ (List.ne_nil_of_length_pos this)
  have ascii : ∀ c ∈ List.replicate zeros '0' ++ Nat.toDigits 10 z.natAbs,
      c.isDigit = true := by
    intro c member
    rcases List.mem_append.mp member with zero | digit
    · exact Notation.isDigit_of_mem_zeros zero
    · exact isDigit_of_mem_toDigits digit
  have value : Nat.ofDigitChars 10 (List.replicate zeros '0' ++ Nat.toDigits 10 z.natAbs) 0 =
      z.natAbs := by
    rw [← digitsValue_eq, Notation.digitsValue_zeros_append, digitsValue_toDigits]
  by_cases negative : z < 0
  · have magnitude : -(z.natAbs : Int) = z := by omega
    rw [written, if_pos negative, List.singleton_append]
    refine (denotes_minus_iff nonempty).mpr ?_
    rw [value, magnitude]
    exact ⟨⟨ascii, fits⟩, rfl⟩
  · have magnitude : (z.natAbs : Int) = z := by omega
    rw [written, if_neg negative, List.nil_append]
    refine (denotes_unsigned_iff nonempty fun c member =>
      isDecimalDigit_of_isDigit (ascii c member)).mpr ?_
    rw [value, magnitude]
    exact ⟨⟨ascii, fits⟩, rfl⟩

theorem IsNumeral.slash_not_mem {text : List Char} (numeral : IsNumeral text) : '/' ∉ text := by
  have digit {digits : List Char} (decimal : ∀ c ∈ digits, DecimalDigit.isDecimalDigit c = true) :
      '/' ∉ digits := fun member => absurd (decimal '/' member) (by decide)
  cases numeral with
  | unsigned _ decimal => exact digit decimal
  | minus _ decimal =>
      exact List.not_mem_cons_of_ne_of_not_mem (by decide) (digit decimal)

/-- A directory with the name of a recording behind it spells the numerals of the name. -/
theorem spells_append {elevation azimuth : List Char} (numeral : IsNumeral elevation)
    (numeral' : IsNumeral azimuth) {directory : List UInt8}
    (closed : directory = [] ∨ directory.getLast? = some NativePath.slash) :
    Spells ⟨directory ++ utf8 (spelling elevation azimuth)⟩ elevation azimuth := by
  have absent : '/' ∉ spelling elevation azimuth := by
    simp [spelling, ending, numeral.slash_not_mem, numeral'.slash_not_mem]
  refine ⟨⟨⟨directory, [], by rw [List.append_nil], closed, .nil⟩, fun member => ?_, ?_, ?_, ?_⟩,
    numeral, numeral'⟩
  · obtain ⟨c, inside, slash⟩ := List.mem_flatMap.mp member
    rw [slash_mem_utf8EncodeChar.mp slash] at inside
    exact absent inside
  · exact mt (@utf8_inj _ []).mp (by simp [spelling])
  · exact mt (@utf8_inj _ ['.']).mp (by simp [spelling])
  · exact mt (@utf8_inj _ ['.', '.']).mp (by simp [spelling])

/-- The name that is written for two angles tells them. -/
theorem parseNative_written {e a : Int} (fits : FitsInt32 e) (fits' : FitsInt32 a)
    (zeros zeros' : Nat) {directory : List UInt8}
    (closed : directory = [] ∨ directory.getLast? = some NativePath.slash) :
    parseNative ⟨directory ++ utf8 (spelling (written zeros e) (written zeros' a))⟩ =
      .ok (e, a) := by
  have denotes := denotes_written zeros fits
  have denotes' := denotes_written zeros' fits'
  exact ((tells_parseNative _).angles e a).mpr
    ⟨_, _, spells_append denotes.isNumeral denotes'.isNumeral closed, denotes, denotes'⟩

/-! ## Paths of text -/

/-- A path of text is parsed as its bytes are. -/
theorem parse_eq (path : Path) :
    parse path = (parseNative path.native).mapError (Fault.report path) := by
  rw [parse, parseNative, NativePath.fileName?_native]

theorem native_append (directory : String) (name : List Char) :
    (⟨directory ++ String.ofList name⟩ : Path).native = ⟨utf8 directory.toList ++ utf8 name⟩ := by
  rw [Path.native, String.toList_append, String.toList_ofList, utf8_append]

theorem parse_written {e a : Int} (fits : FitsInt32 e) (fits' : FitsInt32 a)
    (zeros zeros' : Nat) {directory : String}
    (closed : directory = "" ∨ directory.toList.getLast? = some '/') :
    parse ⟨directory ++ String.ofList (spelling (written zeros e) (written zeros' a))⟩ =
      .ok (e, a) := by
  have closed' : utf8 directory.toList = [] ∨
      (utf8 directory.toList).getLast? = some NativePath.slash := by
    rcases closed with rfl | last
    · exact .inl rfl
    · obtain ⟨front, text⟩ := List.getLast?_eq_some_iff.mp last
      have slash : utf8 ['/'] = [NativePath.slash] := rfl
      rw [text, utf8_append, slash, List.getLast?_concat]
      exact .inr rfl
  rw [parse_eq, native_append, parseNative_written fits fits' zeros zeros' closed']
  rfl

/-- What is told of a path depends on the angles that its last component spells, and on nothing
else. A path that is text is parsed as its bytes are, and the name that is written for two angles
tells them, in whatever directory and with whatever zeros in front of the digits. -/
theorem parse_tells :
    (∀ path : NativePath, Tells path (parseNative path)) ∧
      (∀ path : Path, parse path = (parseNative path.native).mapError (Fault.report path)) ∧
      ∀ (e a : Int) (zeros zeros' : Nat), FitsInt32 e → FitsInt32 a →
        (∀ directory : List UInt8,
          directory = [] ∨ directory.getLast? = some NativePath.slash →
          parseNative ⟨directory ++ utf8 (spelling (written zeros e) (written zeros' a))⟩ =
            .ok (e, a)) ∧
        ∀ directory : String, directory = "" ∨ directory.toList.getLast? = some '/' →
          parse ⟨directory ++ String.ofList (spelling (written zeros e) (written zeros' a))⟩ =
            .ok (e, a) :=
  ⟨tells_parseNative, parse_eq, fun _ _ zeros zeros' fits fits' =>
    ⟨fun _ => parseNative_written fits fits' zeros zeros',
      fun _ => parse_written fits fits' zeros zeros'⟩⟩

/-- The least and the greatest integer, the second with two zeros in front. -/
theorem parse_tells_limits :
    FitsInt32 (-2147483648) ∧ FitsInt32 2147483647 ∧
      parse ⟨"elev-90/L-2147483648e002147483647a.wav"⟩ = .ok (-2147483648, 2147483647) := by
  have least : FitsInt32 (-2147483648) := fitsInt32_iff.mpr (by decide)
  have greatest : FitsInt32 2147483647 := fitsInt32_iff.mpr (by decide)
  have closed : "elev-90/".toList.getLast? = some '/' := by decide
  exact ⟨least, greatest,
    (parse_tells.2.2 _ _ 0 2 least greatest).2 "elev-90/" (.inr closed)⟩

/-- Digits of another script have the form of a numeral, but denote no integer. -/
example : parse ⟨"L٣e0a.wav"⟩ = .error (.angle ⟨"L٣e0a.wav"⟩ "٣") := by decide

end Binaural.FileName
