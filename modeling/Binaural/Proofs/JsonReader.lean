import Binaural.Arrays.JsonText
import Binaural.Proofs.Readback
import Binaural.Yaml.Cursor

/-!
A reader of JSON.

`Json.ofText?` reads a text as one value. It knows all of JSON: blanks between everything, all
escapes in strings, pairs of surrogates included, and numbers in their strict form. Numbers with
neither point nor exponent are integers and exact; others are the nearest float.

A parser `Reads` a text if it takes just that text and goes no further, whatever comes next that is
no part of a number. There is one such lemma for each form of text that is written here: strings
(`reads_quote`), integers (`reads_integer`), floats (`reads_float`), arrays (`reads_array`) and
objects (`reads_object`).
-/

namespace Binaural

/-- A value of JSON. The members of an object are in the order in which they are written. -/
inductive Json
  | null
  | bool (value : Bool)
  | integer (value : Int)
  | float (value : Float)
  | string (value : String)
  | array (items : List Json)
  | object (members : List (String × Json))

namespace Json

/-! ## The reader -/

/-- Something that takes a value from the front of a text. -/
abbrev Parser (α : Type) := List Char → Option (α × List Char)

/-- Whether a character may stand between any two parts of a value. -/
def isBlank (c : Char) : Bool := c == ' ' || c == '\t' || c == '\n' || c == '\r'

/-- The text without the blanks in front. -/
def skip (text : List Char) : List Char := text.dropWhile isBlank

/-- The character that a letter after a backslash stands for. -/
def unescape? : Char → Option Char
  | '"' => some '"'
  | '\\' => some '\\'
  | '/' => some '/'
  | 'b' => some '\x08'
  | 'f' => some '\x0c'
  | 'n' => some '\n'
  | 'r' => some '\r'
  | 't' => some '\t'
  | _ => none

/-- Four hexadecimal digits. -/
def unit? : Parser Nat
  | a :: b :: c :: d :: rest => (Yaml.hexValue? [a, b, c, d]).map (·, rest)
  | _ => none

/-- The character of one code, or of two that are a pair of surrogates. -/
def coded? : Parser Char := fun text =>
  (unit? text).bind fun (code, rest) =>
    if 0xD800 ≤ code ∧ code < 0xDC00 then
      match rest with
      | '\\' :: 'u' :: rest =>
        (unit? rest).bind fun (low, rest) =>
          if 0xDC00 ≤ low ∧ low < 0xE000 then
            some (Char.ofNat (0x10000 + (code - 0xD800) * 0x400 + (low - 0xDC00)), rest)
          else none
      | _ => none
    else if code.isValidChar then some (Char.ofNat code, rest)
    else none

/-- What follows a backslash. -/
def escaped? : Parser Char
  | 'u' :: rest => coded? rest
  | c :: rest => (unescape? c).map (·, rest)
  | [] => none

/-- One character inside a string. -/
def char? : Parser Char
  | [] => none
  | c :: rest =>
    if c = '\\' then escaped? rest
    else if c = '"' ∨ c.toNat < 32 then none
    else some (c, rest)

/-- At most so many characters up to the quote that ends a string, and that quote. -/
def chars? : Nat → Parser (List Char)
  | 0, _ => none
  | _ + 1, '"' :: rest => some ([], rest)
  | fuel + 1, text =>
    (char? text).bind fun (c, rest) => (chars? fuel rest).map fun (cs, rest) => (c :: cs, rest)

/-- A string with its quotes. -/
def string? : Parser String
  | '"' :: rest => (chars? rest.length rest).map fun (cs, rest) => (String.ofList cs, rest)
  | _ => none

/-- Whether a number may have the character. -/
def isNumberChar (c : Char) : Bool := c.isDigit || ['.', 'e', 'E', '+', '-'].contains c

/-- Whether a text is a number: no sign but a minus, no zero before other digits, and digits on both
sides of the point if there is one. -/
def isNumber (token : List Char) : Bool :=
  let unsigned := if token.head? = some '-' then token.tail else token
  let whole := unsigned.takeWhile Char.isDigit
  let (complete, rest) :=
    match unsigned.dropWhile Char.isDigit with
    | '.' :: rest => (!(rest.takeWhile Char.isDigit).isEmpty, rest.dropWhile Char.isDigit)
    | rest => (true, rest)
  (whole == ['0'] || whole.head?.any (· != '0')) && complete && (Numeral.exponentOf? rest).isSome

/-- The value of a number. What is too large for a float has none. -/
def numberOf? (token : List Char) : Option Json :=
  if isNumber token then
    (Numeral.ofChars? token).bind fun n =>
      if token.all fun c => c.isDigit || c == '-' then
        let magnitude : Int := Numeral.digitsValue n.digits
        some (.integer (if n.negative then -magnitude else magnitude))
      else if (n.toBinary .double).isFinite then some (.float (n.toBinary .double).toFloat)
      else none
  else none

/-- A number. -/
def number? : Parser Json := fun text =>
  (numberOf? (text.takeWhile isNumberChar)).map (·, text.dropWhile isNumberChar)

/-- The values that are words. -/
def words : List (List Char × Json) :=
  [("null".toList, .null), ("true".toList, .bool true), ("false".toList, .bool false)]

/-- A word or a number. -/
def plain? : Parser Json := fun text =>
  (words.findSome? fun word => (word.1.isPrefixOf? text).map (word.2, ·)).or (number? text)

section Lists

variable {α : Type} (parse : Parser α)

/-- At most so many items between commas, and the bracket that closes them. -/
def items? (close : Char) : Nat → Parser (List α)
  | 0, _ => none
  | fuel + 1, text =>
    (parse text).bind fun (x, rest) =>
      match skip rest with
      | [] => none
      | c :: rest =>
        if c = ',' then (items? close fuel rest).map fun (xs, rest) => (x :: xs, rest)
        else if c = close then some ([x], rest)
        else none

/-- Items between commas up to a bracket, if there are any. -/
def list? (close : Char) : Parser (List α) := fun text =>
  if (skip text).head? = some close then some ([], (skip text).tail)
  else items? parse close text.length text

/-- A member of an object. -/
def member? : Parser (String × α) := fun text =>
  (string? (skip text)).bind fun (name, rest) =>
    if (skip rest).head? = some ':' then
      (parse (skip rest).tail).map fun (x, rest) => ((name, x), rest)
    else none

end Lists

/-- A value, of which the parts are taken by a parser of their own. -/
def node? (part : Parser Json) : Parser Json := fun text =>
  match skip text with
  | [] => none
  | c :: rest =>
    if c = '"' then (string? (c :: rest)).map fun (s, rest) => (.string s, rest)
    else if c = '[' then (list? part ']' rest).map fun (xs, rest) => (.array xs, rest)
    else if c = '\x7b' then
      (list? (member? part) '\x7d' rest).map fun (xs, rest) => (.object xs, rest)
    else plain? (c :: rest)

/-- A value in which others are nested less deep than the bound. -/
def value? : Nat → Parser Json
  | 0 => fun _ => none
  | depth + 1 => node? (value? depth)

/-- The value that a whole text is, of any depth below 128. -/
def ofText? (text : String) : Option Json :=
  (value? 128 text.toList).bind fun (x, rest) => if (skip rest).isEmpty then some x else none

/-! ## What a parser reads -/

/-- Whether no number goes on here. -/
def Ends (rest : List Char) : Prop := ∀ c ∈ rest.head?, isNumberChar c = false

/-- A parser takes a text and nothing after it. The text starts with what is neither blank nor the
end of a list. -/
structure Reads {α : Type} (parse : Parser α) (text : String) (x : α) : Prop where
  starts : ∃ c rest, text.toList = c :: rest ∧ isBlank c = false ∧ c ≠ ']' ∧ c ≠ '\x7d'
  parses : ∀ rest, Ends rest → parse (text.toList ++ rest) = some (x, rest)

theorem skip_cons {c : Char} (solid : isBlank c = false) (rest : List Char) :
    skip (c :: rest) = c :: rest := by
  rw [skip, List.dropWhile_cons_of_neg (by rw [solid]; exact Bool.false_ne_true)]

theorem ends_cons {c : Char} (other : isNumberChar c = false) (rest : List Char) :
    Ends (c :: rest) := by
  rintro d ⟨rfl⟩
  exact other

/-! ### Strings -/

theorem unit?_hexPair {n : Nat} (small : n < 32) (rest : List Char) :
    unit? ('0' :: '0' :: (JsonText.hexPair n ++ rest)) = some (n, rest) := by
  have value : Yaml.hexValue? ('0' :: '0' :: JsonText.hexPair n) = some n := by
    revert n
    decide
  change (Yaml.hexValue? ('0' :: '0' :: JsonText.hexPair n)).map (·, rest) = _
  rw [value, Option.map_some]

theorem coded?_hexPair {c : Char} (control : c.toNat < 32) (rest : List Char) :
    coded? ('0' :: '0' :: (JsonText.hexPair c.toNat ++ rest)) = some (c, rest) := by
  have valid : c.toNat.isValidChar := .inl (by omega)
  rw [coded?, unit?_hexPair control, Option.bind_some]
  dsimp only
  rw [if_neg (by omega), if_pos valid, Char.ofNat_toNat]

/-- An escaped character is read as that character, and does not look like the end. -/
theorem char?_escapeChar (c : Char) (rest : List Char) :
    char? (JsonText.escapeChar c ++ rest) = some (c, rest) ∧
      ∃ first more, JsonText.escapeChar c = first :: more ∧ first ≠ '"' := by
  unfold JsonText.escapeChar
  split
  iterate 7 exact ⟨rfl, _, _, rfl, by decide⟩
  rename_i quote backslash _ _ _ _ _
  split
  · rename_i control
    exact ⟨coded?_hexPair control rest, _, _, rfl, by decide⟩
  · rename_i printable
    have ordinary : ¬ (c = '"' ∨ c.toNat < 32) := not_or.mpr ⟨quote, printable⟩
    refine ⟨?_, _, _, rfl, quote⟩
    rw [List.singleton_append, char?, if_neg backslash, if_neg ordinary]

theorem chars?_cons {c : Char} {text rest rest' cs : List Char} {fuel : Nat}
    (other : ∀ more, text ≠ '"' :: more) (read : char? text = some (c, rest))
    (others : chars? fuel rest = some (cs, rest')) :
    chars? (fuel + 1) text = some (c :: cs, rest') := by
  rw [chars?, read, Option.bind_some]
  · dsimp only
    rw [others, Option.map_some]
  · exact fun more => other more

/-- Escaped characters are read up to the quote behind them. -/
theorem chars?_escaped {cs rest : List Char} {fuel : Nat} (enough : cs.length < fuel) :
    chars? fuel (cs.flatMap JsonText.escapeChar ++ '"' :: rest) = some (cs, rest) := by
  induction cs generalizing fuel with
  | nil =>
      obtain ⟨k, rfl⟩ := Nat.exists_eq_add_of_lt enough
      rfl
  | cons c others ih =>
      obtain ⟨k, rfl⟩ : ∃ k, fuel = k + 1 := ⟨fuel - 1, by omega⟩
      obtain ⟨read, first, more, text, different⟩ :=
        char?_escapeChar c (others.flatMap JsonText.escapeChar ++ '"' :: rest)
      rw [List.flatMap_cons, List.append_assoc]
      refine chars?_cons (fun _ => ?_) read (ih (Nat.lt_of_succ_lt_succ enough))
      rw [text]
      exact fun same => different (List.cons.inj same).1

theorem length_le_length_escaped (cs : List Char) :
    cs.length ≤ (cs.flatMap JsonText.escapeChar).length := by
  induction cs with
  | nil => exact le_rfl
  | cons c others ih =>
      obtain ⟨-, first, more, text, -⟩ := char?_escapeChar c []
      rw [List.flatMap_cons, text, List.length_append, List.length_cons, List.length_cons]
      omega

theorem quote_eq (s : String) :
    (JsonText.quote s).toList = '"' :: (s.toList.flatMap JsonText.escapeChar ++ ['"']) :=
  String.toList_ofList

theorem string?_quote (s : String) (rest : List Char) :
    string? ((JsonText.quote s).toList ++ rest) = some (s, rest) := by
  have enough := length_le_length_escaped s.toList
  have read := @chars?_escaped s.toList rest (s.toList.flatMap JsonText.escapeChar ++
    '"' :: rest).length (by rw [List.length_append, List.length_cons]; omega)
  rw [quote_eq, List.cons_append, List.append_assoc, List.singleton_append, string?, read,
    Option.map_some]
  dsimp only
  rw [String.ofList_toList]

/-- A string is read, whatever is in it. -/
theorem reads_quote (s : String) (part : Parser Json) :
    Reads (node? part) (JsonText.quote s) (.string s) where
  starts := ⟨_, _, quote_eq s, by decide⟩
  parses rest _ := by
    have read := string?_quote s rest
    rw [quote_eq, List.cons_append] at read ⊢
    rw [node?, skip_cons (by decide)]
    dsimp only
    rw [if_pos rfl, read, Option.map_some]

/-! ### Numbers -/

/-- A text of a number, with what comes before a minus. -/
def signed (negative : Bool) (text : List Char) : List Char :=
  (if negative then ['-'] else []) ++ text

theorem isNumber_signed {text whole fraction tail : List Char} {exponent : Int}
    (written : Numeral.Written text whole fraction tail exponent) (negative : Bool) :
    isNumber (signed negative text) = true := by
  have unsigned : (if (signed negative text).head? = some '-' then (signed negative text).tail
      else signed negative text) = text := by
    cases negative with
    | true => rfl
    | false =>
        refine if_neg fun minus => ?_
        exact absurd (written.head_isDigit '-' minus) (by decide)
  obtain ⟨taken, left⟩ :=
    Numeral.takeWhile_append_of_digits written.whole_digits written.pointed_stops
  have head : (whole == ['0'] || whole.head?.any (· != '0')) = true := by
    rcases written.whole_head with rfl | ⟨c, rest, rfl, nonzero⟩
    · rfl
    · rw [List.head?_cons, Option.any_some, bne_iff_ne.mpr nonzero, Bool.or_true]
  unfold isNumber
  dsimp only
  rw [unsigned, written.text_eq, taken, left, head]
  cases fraction with
  | nil =>
      have ends := written.exponent_eq
      rcases written.tail_head with rfl | ⟨rest, rfl⟩
      · rfl
      · change (true && true && (Numeral.exponentOf? ('e' :: rest)).isSome) = true
        rw [ends]
        rfl
  | cons c more =>
      obtain ⟨taken', left'⟩ :=
        Numeral.takeWhile_append_of_digits written.fraction_digits written.tail_stops
      change (true && !(((c :: more) ++ tail).takeWhile Char.isDigit).isEmpty &&
        (Numeral.exponentOf? (((c :: more) ++ tail).dropWhile Char.isDigit)).isSome) = true
      rw [taken', left', written.exponent_eq]
      rfl

theorem isNumberChar_of_isNumeral {c : Char} (numeral : IsNumeral c) : isNumberChar c = true := by
  rw [isNumberChar, Bool.or_eq_true]
  refine numeral.imp id fun member => ?_
  simp only [List.mem_cons, List.not_mem_nil, or_false] at member
  rcases member with rfl | rfl | rfl | rfl
  iterate 4 rfl

theorem number?_of_allNumeral {text : String} (all : AllNumeral text) {x : Json}
    (value : numberOf? text.toList = some x) {rest : List Char} (ends : Ends rest) :
    number? (text.toList ++ rest) = some (x, rest) := by
  have before : ∀ c ∈ text.toList, isNumberChar c = true := fun c member =>
    isNumberChar_of_isNumeral (all c member)
  have none_taken : rest.takeWhile isNumberChar = [] ∧ rest.dropWhile isNumberChar = rest := by
    cases rest with
    | nil => exact ⟨rfl, rfl⟩
    | cons c rest =>
        have stop := ends c rfl
        simp [stop]
  rw [number?, List.takeWhile_append_of_pos before, List.dropWhile_append_of_pos before,
    none_taken.1, none_taken.2, List.append_nil, value, Option.map_some]

/-- A text of a number is read as its value. -/
theorem reads_of_numberOf? {text : String} (all : AllNumeral text) {x : Json}
    (value : numberOf? text.toList = some x) (part : Parser Json) : Reads (node? part) text x := by
  have some : ∃ c rest, text.toList = c :: rest := by
    refine List.exists_cons_of_ne_nil fun empty => ?_
    rw [empty] at value
    cases value
  obtain ⟨c, rest, text_eq⟩ := some
  have first : isNumberChar c = true :=
    isNumberChar_of_isNumeral (all c (text_eq ▸ List.mem_cons_self))
  have other : ∀ d, isNumberChar d = false → c ≠ d := by
    rintro d no rfl
    rw [first] at no
    cases no
  have solid : isBlank c = false := by
    simp [isBlank, other ' ' rfl, other '\t' rfl, other '\n' rfl, other '\r' rfl]
  refine ⟨⟨c, rest, text_eq, solid, other _ rfl, other _ rfl⟩, fun after ends => ?_⟩
  have read := number?_of_allNumeral all value ends
  rw [text_eq, List.cons_append] at read ⊢
  have no_word : (words.findSome? fun word =>
      (word.1.isPrefixOf? (c :: (rest ++ after))).map (word.2, ·)) = none := by
    have letters : ('n' == c) = false ∧ ('t' == c) = false ∧ ('f' == c) = false := by
      simp [(other 'n' rfl).symm, (other 't' rfl).symm, (other 'f' rfl).symm]
    simp [words, List.isPrefixOf?, letters]
  rw [node?, skip_cons solid]
  dsimp only
  rw [if_neg (other _ rfl), if_neg (other _ rfl), if_neg (other _ rfl), plain?, no_word,
    Option.none_or, read]

theorem written_toDigits (n : Nat) :
    Numeral.Written (Nat.toDigits 10 n) (Nat.toDigits 10 n) [] [] 0 where
  text_eq := (List.append_nil _).symm
  whole_digits _ := isDigit_of_mem_toDigits
  whole_head := by
    rcases Nat.eq_zero_or_pos n with rfl | positive
    · exact .inl rfl
    · exact .inr (exists_cons_of_toDigits positive)
  fraction_digits := by simp
  tail_head := .inl rfl
  exponent_eq := rfl

theorem toList_toString_int (z : Int) :
    (toString z).toList = signed (decide (z < 0)) (Nat.toDigits 10 z.natAbs) := by
  cases z with
  | ofNat n =>
      change (toString n).toList = _
      rw [Nat.toString_eq_ofList_toDigits, String.toList_ofList]
      simp [signed]
  | negSucc n =>
      change ("-" ++ toString (n + 1)).toList = _
      rw [String.toList_append, Nat.toString_eq_ofList_toDigits]
      change '-' :: (String.ofList _).toList = _
      rw [String.toList_ofList, decide_eq_true (Int.negSucc_lt_zero n)]
      rfl

theorem numberOf?_toString_int (z : Int) : numberOf? (toString z).toList = some (.integer z) := by
  have written := written_toDigits z.natAbs
  have plain : (signed (decide (z < 0)) (Nat.toDigits 10 z.natAbs)).all
      (fun c => c.isDigit || c == '-') = true := by
    rw [signed, List.all_append, Bool.and_eq_true]
    refine ⟨?_, List.all_eq_true.mpr fun c member => ?_⟩
    · split
      · rfl
      · rfl
    · rw [isDigit_of_mem_toDigits member, Bool.true_or]
  have read := written.ofChars? (decide (z < 0))
  rw [List.append_nil] at read
  rw [toList_toString_int, numberOf?, if_pos (isNumber_signed written _), signed, read,
    Option.bind_some, ← signed, if_pos plain]
  dsimp only
  rw [digitsValue_toDigits]
  congr 2
  by_cases negative : z < 0
  · rw [decide_eq_true negative, if_pos rfl]
    omega
  · rw [decide_eq_false negative, if_neg Bool.false_ne_true]
    omega

/-- An integer is read exactly. -/
theorem reads_integer (z : Int) (part : Parser Json) :
    Reads (node? part) (toString z) (.integer z) :=
  reads_of_numberOf? (allNumeral_toString_int z) (numberOf?_toString_int z) part

theorem reads_natural (n : Nat) (part : Parser Json) :
    Reads (node? part) (toString n) (.integer n) :=
  reads_integer (Int.ofNat n) part

/-- A number with a point or an exponent, which is no integer for a reader. -/
theorem exists_mark_decimalText {n : Notation} (point : n.wholePoint = true) (d : Decimal) :
    ∃ c ∈ (n.decimalText d).toList, c = '.' ∨ c = 'e' := by
  have positional : ∃ c ∈ (n.positionalText d).toList, c = '.' ∨ c = 'e' := by
    refine ⟨'.', ?_, .inl rfl⟩
    unfold Notation.positionalText
    simp only [point, if_true]
    split
    · simp
    · split
      · simp
      · simp
  have scientific : ∃ c ∈ (n.scientificText d).toList, c = '.' ∨ c = 'e' := by
    refine ⟨'e', ?_, .inr rfl⟩
    unfold Notation.scientificText
    simp
  unfold Notation.decimalText
  dsimp only
  split
  · exact positional
  · split
    · exact positional
    · exact scientific

theorem numberOf?_text {n : Notation} (point : n.wholePoint = true) {negative : Bool}
    {significand : Nat} {exponent : Int} (fits : BinaryFormat.double.Fits significand exponent) :
    numberOf? (n.text .double (.finite negative significand exponent)).toList =
      some (.float (BinaryNumber.finite negative significand exponent).toFloat) := by
  obtain ⟨numeral, read, value⟩ :=
    n.toBinary_of_text BinaryFormat.moderate_double negative fits
  generalize shortest : Decimal.shortest .double n.tie significand exponent = d
  have text : (n.text .double (.finite negative significand exponent)).toList =
      signed negative (n.decimalText d).toList := by
    rw [Notation.text, String.toList_append, shortest]
    cases negative with
    | true => rfl
    | false => rfl
  obtain ⟨_, _, _, _, written, -⟩ := n.writes_decimalText d
  have marked : (signed negative (n.decimalText d).toList).all
      (fun c => c.isDigit || c == '-') = false := by
    obtain ⟨c, member, mark⟩ := exists_mark_decimalText point d
    refine List.all_eq_false.mpr ⟨c, List.mem_append_right _ member, ?_⟩
    rcases mark with rfl | rfl
    · decide
    · decide
  rw [text] at read ⊢
  rw [numberOf?, if_pos (isNumber_signed written _), read, Option.bind_some, marked,
    if_neg Bool.false_ne_true, value]
  rfl

/-- A finite float is read as itself. -/
theorem reads_float {n : Notation} (point : n.wholePoint = true) {x : Float}
    (finite : x.isFinite = true) (part : Parser Json) :
    Reads (node? part) (n.ofFloat x) (.float x) := by
  have holds := BinaryNumber.holds_ofFloat x
  rw [← BinaryNumber.isFinite_ofFloat, BinaryNumber.isFinite_iff_exists] at finite
  obtain ⟨negative, significand, exponent, number⟩ := finite
  have back := @BinaryNumber.toFloat_ofFloat x (number ▸ nofun)
  rw [number] at holds back
  cases holds with
  | finite _ fits =>
      rw [Notation.ofFloat, number, ← back]
      exact reads_of_numberOf? n.allNumeral_text (numberOf?_text point fits) part

theorem reads_null (part : Parser Json) : Reads (node? part) "null" .null where
  starts := ⟨_, _, rfl, by decide⟩
  parses _ _ := rfl

/-! ### Arrays and objects -/

section Lists

variable {α β : Type} {parse : Parser α} {close : Char}

theorem items?_cons {text rest : List Char} {x : α} {c : Char} {fuel : Nat}
    (read : parse text = some (x, c :: rest)) (solid : isBlank c = false) :
    items? parse close (fuel + 1) text =
      if c = ',' then (items? parse close fuel rest).map fun (xs, rest) => (x :: xs, rest)
      else if c = close then some ([x], rest)
      else none := by
  rw [items?, read, Option.bind_some]
  dsimp only
  rw [skip_cons solid]

/-- The brackets that close lists. -/
def IsClose (close : Char) : Prop := close = ']' ∨ close = '\x7d'

/-- What closes a list is nothing else. -/
theorem IsClose.facts (closes : IsClose close) :
    isBlank close = false ∧ isNumberChar close = false ∧ close ≠ ',' := by
  rcases closes with rfl | rfl
  · decide
  · decide

theorem items?_intercalate (closes : IsClose close) {write : β → String} {value : β → α}
    {bs : List β} (nonempty : bs ≠ []) (reads : ∀ b ∈ bs, Reads parse (write b) (value b))
    {fuel : Nat} (enough : bs.length ≤ fuel) (rest : List Char) :
    items? parse close fuel ((",".intercalate (bs.map write)).toList ++ close :: rest) =
      some (bs.map value, rest) := by
  obtain ⟨solid, ends, different⟩ := closes.facts
  induction bs generalizing fuel with
  | nil => exact absurd rfl nonempty
  | cons b others ih =>
      obtain ⟨first, later⟩ := List.forall_mem_cons.mp reads
      obtain ⟨k, rfl⟩ : ∃ k, fuel = k + 1 :=
        ⟨fuel - 1, by rw [List.length_cons] at enough; omega⟩
      cases others with
      | nil =>
          rw [List.map_singleton, String.intercalate_singleton,
            items?_cons (first.parses _ (ends_cons ends rest)) solid, if_neg different,
            if_pos rfl, List.map_singleton]
      | cons b' others =>
          have text : (",".intercalate ((b :: b' :: others).map write)).toList ++ close :: rest =
              (write b).toList ++ ',' ::
                ((",".intercalate ((b' :: others).map write)).toList ++ close :: rest) := by
            rw [List.map_cons, List.map_cons, String.intercalate_cons_cons, ← List.map_cons]
            simp
          rw [text, items?_cons (first.parses _ (ends_cons rfl _)) rfl, if_pos rfl,
            ih (List.cons_ne_nil _ _) later (Nat.le_of_succ_le_succ enough), Option.map_some]
          rfl

theorem length_le_length_intercalate {write : β → String} {value : β → α} {bs : List β}
    (reads : ∀ b ∈ bs, Reads parse (write b) (value b)) :
    bs.length ≤ (",".intercalate (bs.map write)).toList.length := by
  induction bs with
  | nil => exact Nat.zero_le _
  | cons b others ih =>
      obtain ⟨first, later⟩ := List.forall_mem_cons.mp reads
      obtain ⟨c, more, text, -⟩ := first.starts
      cases others with
      | nil => simp [text]
      | cons b' others =>
          have short := ih later
          rw [List.map_cons, List.map_cons, String.intercalate_cons_cons, ← List.map_cons]
          simp only [String.toList_append, text, List.length_append, List.length_cons] at short ⊢
          omega

theorem starts_intercalate {write : β → String} {value : β → α} {b : β} {others : List β}
    (reads : ∀ b' ∈ b :: others, Reads parse (write b') (value b')) :
    ∃ c rest, (",".intercalate ((b :: others).map write)).toList = c :: rest ∧
      isBlank c = false ∧ c ≠ ']' ∧ c ≠ '\x7d' := by
  obtain ⟨c, more, text, first⟩ := (reads b List.mem_cons_self).starts
  cases others with
  | nil =>
      rw [List.map_singleton, String.intercalate_singleton]
      exact ⟨c, more, text, first⟩
  | cons b' others =>
      refine ⟨c, more ++ (",".intercalate ((b' :: others).map write)).toList.cons ',', ?_, first⟩
      rw [List.map_cons, List.map_cons, String.intercalate_cons_cons]
      simp [text]

/-- A list is read up to the bracket that closes it, also if it is empty. -/
theorem list?_intercalate (closes : IsClose close) {write : β → String} {value : β → α}
    {bs : List β} (reads : ∀ b ∈ bs, Reads parse (write b) (value b)) (rest : List Char) :
    list? parse close ((",".intercalate (bs.map write)).toList ++ close :: rest) =
      some (bs.map value, rest) := by
  cases bs with
  | nil =>
      change list? parse close (close :: rest) = _
      rw [list?, skip_cons closes.facts.1, List.head?_cons, if_pos rfl]
      rfl
  | cons b others =>
      obtain ⟨c, more, text, solid, noBracket, noBrace⟩ := starts_intercalate reads
      have other : ¬ (skip ((",".intercalate ((b :: others).map write)).toList ++
          close :: rest)).head? = some close := by
        rw [text, List.cons_append, skip_cons solid, List.head?_cons]
        rintro ⟨rfl⟩
        exact closes.elim noBracket noBrace
      have enough := length_le_length_intercalate reads
      rw [list?, if_neg other]
      refine items?_intercalate closes (List.cons_ne_nil _ _) reads ?_ rest
      rw [List.length_append]
      omega

end Lists

section Nested

variable {β : Type} {part : Parser Json} {write : β → String}

/-- An array is read if its items are. -/
theorem reads_array {value : β → Json} {bs : List β}
    (reads : ∀ b ∈ bs, Reads part (write b) (value b)) :
    Reads (node? part) ("[" ++ ",".intercalate (bs.map write) ++ "]") (.array (bs.map value)) where
  starts := ⟨'[', _, by rw [String.append_assoc, String.toList_append]; rfl, by decide⟩
  parses rest _ := by
    have text : ("[" ++ ",".intercalate (bs.map write) ++ "]").toList ++ rest =
        '[' :: ((",".intercalate (bs.map write)).toList ++ ']' :: rest) := by simp
    rw [text, node?, skip_cons (by decide)]
    dsimp only
    rw [if_neg (by decide), if_pos rfl, list?_intercalate (.inl rfl) reads, Option.map_some]

/-- A member is read if its value is, whatever it is called. -/
theorem reads_member {text : String} {x : Json} (reads : Reads part text x) (name : String) :
    Reads (member? part) (JsonText.quote name ++ ":" ++ text) (name, x) where
  starts := ⟨'"', _, by rw [String.append_assoc, String.toList_append, quote_eq]; rfl, by decide⟩
  parses rest ends := by
    have split : (JsonText.quote name ++ ":" ++ text).toList ++ rest =
        (JsonText.quote name).toList ++ ':' :: (text.toList ++ rest) := by simp
    have front : skip ((JsonText.quote name).toList ++ ':' :: (text.toList ++ rest)) =
        (JsonText.quote name).toList ++ ':' :: (text.toList ++ rest) := by
      rw [quote_eq, List.cons_append, skip_cons (by decide)]
    rw [split, member?, front, string?_quote, Option.bind_some]
    dsimp only
    rw [skip_cons (by decide), List.head?_cons, if_pos rfl, List.tail_cons,
      reads.parses rest ends, Option.map_some]

/-- An object is read if its members are. -/
theorem reads_object {value : β → String × Json} {bs : List β}
    (reads : ∀ b ∈ bs, Reads (member? part) (write b) (value b)) :
    Reads (node? part) ("\x7b" ++ ",".intercalate (bs.map write) ++ "\x7d")
      (.object (bs.map value)) where
  starts := ⟨'\x7b', _, by rw [String.append_assoc, String.toList_append]; rfl, by decide⟩
  parses rest _ := by
    have text : ("\x7b" ++ ",".intercalate (bs.map write) ++ "\x7d").toList ++ rest =
        '\x7b' :: ((",".intercalate (bs.map write)).toList ++ '\x7d' :: rest) := by simp
    rw [text, node?, skip_cons (by decide)]
    dsimp only
    rw [if_neg (by decide), if_neg (by decide), if_pos rfl, list?_intercalate (.inr rfl) reads,
      Option.map_some]

end Nested

/-- A text that is read as a value is the text of that value, also with a line end behind it. -/
theorem ofText?_of_reads {text : String} {x : Json} (reads : Reads (value? 128) text x) :
    ofText? text = some x ∧ ofText? (text ++ "\n") = some x := by
  have alone := reads.parses [] (by rintro _ ⟨⟩)
  have line := reads.parses ['\n'] (ends_cons rfl _)
  rw [List.append_nil] at alone
  constructor
  · rw [ofText?, alone, Option.bind_some]
    rfl
  · rw [ofText?, String.toList_append]
    change (value? 128 (text.toList ++ ['\n'])).bind _ = _
    rw [line, Option.bind_some]
    rfl

example : ofText? " [-12, \"\\uD83D\\uDE00\\n\", \x7b\"a\" : null\x7d ]\n" =
    some (.array [.integer (-12), .string "😀\n", .object [("a", .null)]]) := by
  cbv

end Json

end Binaural
