import Binaural.Proofs.Readback
import Binaural.Proofs.Statics

/-!
Generated Rust source read back.

`RustSource.readStatics` reads a source text line by line: a line opens an item, others hold its
literals, and one closes it; comments and empty lines stand between items. `Static.values?` reads
the literals as numbers of the type of the item.

Of a text that a sink gives, this reads the arrays that were added, each under its name in capitals
(`RustSource.readStatics_text`). The words for what is no number are no literals, so this is so for
finite floats. Hence different arrays have different texts, up to the case of their names.
-/

namespace Binaural

/-! ## The reader -/

/-- A static item as it is written. -/
structure Static where
  name : String
  elementType : ElementType
  /-- The length that is written in the type of the item. -/
  declared : Nat
  literals : List String
  deriving DecidableEq

namespace Static

/-- The number of 32 bits that a literal denotes. -/
def unsigned? (literal : String) : Option UInt32 :=
  literal.toNat?.bind fun n => if n < UInt32.size then some (UInt32.ofNat n) else none

/-- The signed number of 32 bits that a literal denotes. -/
def int? (literal : String) : Option Int32 :=
  literal.toInt?.bind fun z =>
    if Int32.minValue.toInt ≤ z ∧ z ≤ Int32.maxValue.toInt then some (Int32.ofInt z) else none

/-- The values of an item. -/
def values? (s : Static) : Option ArrayValues :=
  match s.elementType with
  | .unsignedInt => (s.literals.mapM unsigned?).map .unsignedInt
  | .int => (s.literals.mapM int?).map .int
  | .float => (s.literals.mapM Numeral.toFloat32?).map .float

end Static

/-- The type that Rust calls by a name. -/
def ElementType.ofRustName? : String → Option ElementType
  | "u32" => some .unsignedInt
  | "i32" => some .int
  | "f32" => some .float
  | _ => none

namespace RustSource

/-- What a line says that opens an item. -/
def readOpening? (line : List Char) : Option Static := do
  let rest ← keyword.isPrefixOf? line
  let name := rest.takeWhile (· != ':')
  let rest ← [':', ' ', '['].isPrefixOf? (rest.dropWhile (· != ':'))
  let elementType ← ElementType.ofRustName? (String.ofList (rest.takeWhile (· != ';')))
  let rest ← [';', ' '].isPrefixOf? (rest.dropWhile (· != ';'))
  if rest.dropWhile Char.isDigit = "] = [".toList then
    some ⟨String.ofList name, elementType, Numeral.digitsValue (rest.takeWhile Char.isDigit), []⟩
  else none

/-- The literal on a line, if there is one: it is indented and ends before a comma. -/
def readLiteral? (line : List Char) : Option (List String) :=
  ("    ".toList.isPrefixOf? line).map fun rest =>
    let literal := rest.takeWhile (· != ',')
    if literal.isEmpty then [] else [String.ofList literal]

/-- The items on lines, the first of which belong to an item that is open, if one is. -/
def readLines : Option Static → List (List Char) → Option (List Static)
  | none, [] => some []
  | none, line :: rest =>
    if line.isEmpty ∨ "//".toList.isPrefixOf line then readLines none rest
    else (readOpening? line).bind fun item => readLines (some item) rest
  | some _, [] => none
  | some item, line :: rest =>
    if line = "];".toList then (readLines none rest).map (item :: ·)
    else (readLiteral? line).bind fun more =>
      readLines (some { item with literals := item.literals ++ more }) rest

/-- The items of a source text, in order. -/
def readStatics (source : String) : Option (List Static) :=
  readLines none (source.toList.splitOn '\n')

end RustSource

/-! ## Literals -/

/-- Whether all floats of an array are finite. -/
def ArrayValues.AllFinite : ArrayValues → Prop
  | .float values => ∀ x ∈ values, x.isFinite = true
  | _ => True

instance (values : ArrayValues) : Decidable values.AllFinite := by
  cases values with
  | unsignedInt values => exact inferInstanceAs (Decidable True)
  | int values => exact inferInstanceAs (Decidable True)
  | float values => exact inferInstanceAs (Decidable (∀ x ∈ values, x.isFinite = true))

/-- What is read one by one is all read. -/
theorem mapM_map_eq_some {β γ : Type} {write : β → γ} {read : γ → Option β} (xs : List β)
    (reads : ∀ x ∈ xs, read (write x) = some x) : (xs.map write).mapM read = some xs := by
  induction xs with
  | nil => rfl
  | cons x rest ih =>
      obtain ⟨first, others⟩ := List.forall_mem_cons.mp reads
      rw [List.map_cons, List.mapM_cons, first, ih others]
      rfl

namespace Static

theorem unsigned?_toString (x : UInt32) : unsigned? (toString x.toNat) = some x := by
  have number : (toString x.toNat).toNat? = some x.toNat := Nat.toNat?_repr x.toNat
  rw [unsigned?, number, Option.bind_some, if_pos x.toNat_lt, UInt32.ofNat_toNat]

theorem int?_toString (x : Int32) : int? (toString x.toInt) = some x := by
  have number : (toString x.toInt).toInt? = some x.toInt := Int.toInt?_repr x.toInt
  have bounds : Int32.minValue.toInt ≤ x.toInt ∧ x.toInt ≤ Int32.maxValue.toInt :=
    ⟨x.minValue_le_toInt, x.toInt_le⟩
  rw [int?, number, Option.bind_some, if_pos bounds, Int32.ofInt_toInt]

end Static

namespace RustSource

/-- Literals are read as the values that they were written for. -/
theorem values?_of_literals {values : ArrayValues} (finite : values.AllFinite) (name : String)
    (declared : Nat) :
    (Static.mk name values.elementType declared (literals values)).values? = some values := by
  cases values with
  | unsignedInt values =>
      have read := mapM_map_eq_some values fun x _ => Static.unsigned?_toString x
      exact congrArg (Option.map ArrayValues.unsignedInt) read
  | int values =>
      have read := mapM_map_eq_some values fun x _ => Static.int?_toString x
      exact congrArg (Option.map ArrayValues.int) read
  | float values =>
      have read := mapM_map_eq_some values fun x member =>
        floatNotation.toFloat32?_ofFloat32 (finite x member)
      exact congrArg (Option.map ArrayValues.float) read

theorem length_literals (values : ArrayValues) : (literals values).length = values.length := by
  cases values with
  | unsignedInt values => exact List.length_map _
  | int values => exact List.length_map _
  | float values => exact List.length_map _

/-- A text of a literal: it is not empty, and nothing but a number. -/
structure IsLiteral (text : String) : Prop where
  nonempty : text.toList ≠ []
  numeral : AllNumeral text

theorem isLiteral_of_mem_literals {values : ArrayValues} (finite : values.AllFinite)
    {literal : String} (member : literal ∈ literals values) : IsLiteral literal := by
  cases values with
  | unsignedInt values =>
      obtain ⟨x, -, rfl⟩ := List.mem_map.mp member
      refine ⟨?_, allNumeral_toString_nat _⟩
      rw [Nat.toString_eq_ofList_toDigits, String.toList_ofList]
      exact Nat.toDigits_ne_nil
  | int values =>
      obtain ⟨x, -, rfl⟩ := List.mem_map.mp member
      refine ⟨fun empty => ?_, allNumeral_toString_int _⟩
      have none : Static.int? "" = none := by cbv
      have read := Static.int?_toString x
      rw [String.toList_eq_nil_iff.mp empty, none] at read
      cases read
  | float values =>
      obtain ⟨x, x_mem, rfl⟩ := List.mem_map.mp member
      have real := finite x x_mem
      have read := floatNotation.toFloat32?_ofFloat32 real
      refine ⟨fun empty => ?_, ?_⟩
      · rw [String.toList_eq_nil_iff.mp empty] at read
        cases read
      · rw [← BinaryNumber.isFinite_ofFloat32, BinaryNumber.isFinite_iff_exists] at real
        obtain ⟨negative, significand, exponent, number⟩ := real
        rw [Notation.ofFloat32, number]
        exact Notation.allNumeral_text _

/-! ## Reading lines -/

theorem readLiteral?_of_isLiteral {literal : String} (isLiteral : IsLiteral literal)
    {rest : List Char} (ends : rest = [] ∨ ∃ more, rest = ',' :: more) :
    readLiteral? ("    ".toList ++ (literal.toList ++ rest)) = some [literal] := by
  have before : ∀ c ∈ literal.toList, (c != ',') = true := by
    intro c member
    refine bne_iff_ne.mpr fun comma => ?_
    exact absurd (isLiteral.numeral c member) (comma ▸ by decide)
  have taken : (literal.toList ++ rest).takeWhile (· != ',') = literal.toList := by
    rw [List.takeWhile_append_of_pos before]
    rcases ends with rfl | ⟨more, rfl⟩
    · simp
    · simp
  rw [readLiteral?, List.isPrefixOf?_eq_some_iff_append_eq.mpr rfl, Option.map_some, taken]
  dsimp only
  rw [List.isEmpty_eq_false_iff.mpr isLiteral.nonempty, if_neg Bool.false_ne_true,
    String.ofList_toList]

/-- A line that is indented is read as literals of the open item. -/
theorem readLines_indented {item : Static} {line : List Char} {more : List String}
    (read : readLiteral? ("    ".toList ++ line) = some more) (rest : List (List Char)) :
    readLines (some item) (("    ".toList ++ line) :: rest) =
      readLines (some { item with literals := item.literals ++ more }) rest := by
  have inside : "    ".toList ++ line ≠ "];".toList := by
    intro same
    have first : some ' ' = some ']' := congrArg List.head? same
    exact absurd first (by decide)
  rw [readLines, if_neg inside, read, Option.bind_some]

/-- All literals are read. -/
theorem readLines_literals {texts : List String} (all : ∀ t ∈ texts, IsLiteral t) (item : Static)
    (rest : List (List Char)) :
    readLines (some item)
        (("    " ++ ",\n    ".intercalate texts).toList.splitOn '\n' ++ rest) =
      readLines (some { item with literals := item.literals ++ texts }) rest := by
  induction texts generalizing item with
  | nil => exact @readLines_indented item [] _ rfl rest
  | cons t others ih =>
      obtain ⟨first, later⟩ := List.forall_mem_cons.mp all
      have single := newline_notMem_of_allNumeral first.numeral
      cases others with
      | nil =>
          rw [String.intercalate_singleton,
            List.splitOn_eq_singleton (newline_notMem_append (by decide) single),
            String.toList_append, List.singleton_append]
          exact readLines_indented
            (by simpa using readLiteral?_of_isLiteral first (.inl rfl)) rest
      | cons u others =>
          have broken :
              "    " ++ ",\n    ".intercalate (t :: u :: others) =
                ("    " ++ (t ++ ",")) ++ "\n" ++
                  ("    " ++ ",\n    ".intercalate (u :: others)) := by
            refine String.toList_inj.mp ?_
            simp [String.intercalate_cons_cons]
          have line : ("    " ++ (t ++ ",")).toList = "    ".toList ++ (t.toList ++ [',']) := by
            simp
          rw [broken, lines_break, List.append_assoc, List.splitOn_eq_singleton
            (newline_notMem_append (by decide) (newline_notMem_append single (by decide))), line,
            List.singleton_append,
            readLines_indented (readLiteral?_of_isLiteral first (.inr ⟨[], rfl⟩)), ih later]
          simp

/-! ## Reading items -/

theorem ofRustName?_rustName (t : ElementType) : ElementType.ofRustName? t.rustName = some t := by
  cases t with
  | unsignedInt => rfl
  | int => rfl
  | float => rfl

/-- A span up to a sign that is not in it, and what is left. -/
theorem takeWhile_append_sign {sign : Char} {cs : List Char} (absent : sign ∉ cs)
    (rest : List Char) :
    (cs ++ sign :: rest).takeWhile (· != sign) = cs ∧
      (cs ++ sign :: rest).dropWhile (· != sign) = sign :: rest := by
  have before : ∀ c ∈ cs, (c != sign) = true := by
    intro c member
    exact bne_iff_ne.mpr fun same => absent (same ▸ member)
  constructor
  · rw [List.takeWhile_append_of_pos before, List.takeWhile_cons_of_neg (by simp),
      List.append_nil]
  · rw [List.dropWhile_append_of_pos before, List.dropWhile_cons_of_neg (by simp)]

theorem readOpening?_opening {name : String} (plain : Plain name) (values : ArrayValues) :
    readOpening? (opening name values).toList =
      some ⟨UpperCase.ofString name, values.elementType, values.length, []⟩ := by
  have chars : (opening name values).toList =
      keyword ++ ((UpperCase.ofString name).toList ++ ':' :: ' ' :: '[' ::
        (values.elementType.rustName.toList ++ ';' :: ' ' ::
          (Nat.toDigits 10 values.length ++ "] = [".toList))) := by
    unfold opening keyword
    simp
  have typeName : ';' ∉ values.elementType.rustName.toList := by
    cases values.elementType with
    | unsignedInt => decide
    | int => decide
    | float => decide
  obtain ⟨name_eq, afterName⟩ := takeWhile_append_sign plain.ofString.2 (' ' :: '[' ::
    (values.elementType.rustName.toList ++ ';' :: ' ' ::
      (Nat.toDigits 10 values.length ++ "] = [".toList)))
  obtain ⟨type_eq, afterType⟩ := takeWhile_append_sign typeName (' ' ::
    (Nat.toDigits 10 values.length ++ "] = [".toList))
  obtain ⟨length_eq, afterLength⟩ :=
    @Numeral.takeWhile_append_of_digits Char.isDigit _ "] = [".toList
      (fun c => isDigit_of_mem_toDigits (n := values.length)) (by simp)
  have name_opens (cs : List Char) : keyword.isPrefixOf? (keyword ++ cs) = some cs :=
    List.isPrefixOf?_eq_some_iff_append_eq.mpr rfl
  have type_opens (cs : List Char) :
      [':', ' ', '['].isPrefixOf? (':' :: ' ' :: '[' :: cs) = some cs :=
    List.isPrefixOf?_eq_some_iff_append_eq.mpr rfl
  have length_opens (cs : List Char) : [';', ' '].isPrefixOf? (';' :: ' ' :: cs) = some cs :=
    List.isPrefixOf?_eq_some_iff_append_eq.mpr rfl
  simp only [readOpening?, chars, name_opens, Option.bind_eq_bind, Option.bind_some, name_eq,
    afterName, type_opens, type_eq, afterType, String.ofList_toList, ofRustName?_rustName,
    length_opens, length_eq, afterLength, if_true, digitsValue_toDigits]

theorem readLines_open {line : List Char} (starts : keyword <+: line) {item : Static}
    (read : readOpening? line = some item) (rest : List (List Char)) :
    readLines none (line :: rest) = readLines (some item) rest := by
  obtain ⟨more, rfl⟩ := starts
  have outside : ¬ ((keyword ++ more).isEmpty = true ∨
      "//".toList.isPrefixOf (keyword ++ more) = true) := by
    rintro (empty | comment)
    · cases empty
    · cases comment
  rw [readLines, if_neg outside, read, Option.bind_some]

theorem readLines_close (item : Static) (rest : List (List Char)) :
    readLines (some item) ("];".toList :: [] :: rest) = (readLines none rest).map (item :: ·) := by
  rw [readLines, if_pos rfl, readLines, if_pos (.inl rfl)]

/-- An item is read, and then the lines behind it. -/
theorem readLines_item {name : String} (plain : Plain name) {values : ArrayValues}
    (finite : values.AllFinite) (rest : List (List Char)) :
    readLines none ((item name values).toList.splitOn '\n' ++ rest) =
      (readLines none rest).map
        (⟨UpperCase.ofString name, values.elementType, values.length, literals values⟩ :: ·) := by
  have starts : keyword <+: (opening name values).toList := by
    unfold opening keyword
    simp
  have closing : "];".toList.splitOn '\n' ++ "".toList.splitOn '\n' = ["];".toList, []] := by
    decide
  rw [item_eq, lines_break, lines_break, lines_break,
    List.splitOn_eq_singleton (newline_notMem_opening plain values), closing,
    List.append_assoc, List.append_assoc, List.singleton_append,
    readLines_open starts (readOpening?_opening plain values),
    readLines_literals fun _ => isLiteral_of_mem_literals finite]
  exact readLines_close _ rest

/-- What the reader finds of an array that was added under a name. -/
def staticOf (entry : String × ArrayValues) : Static :=
  ⟨UpperCase.ofString entry.1, entry.2.elementType, entry.2.length, literals entry.2⟩

/-- The items of several arrays are read, and then the lines behind them. -/
theorem readLines_items {arrays : List (String × ArrayValues)}
    (readable : ∀ entry ∈ arrays, Plain entry.1 ∧ entry.2.AllFinite) :
    readLines none (("\n".intercalate (arrays.map fun entry =>
      item entry.1 entry.2)).toList.splitOn '\n') = some (arrays.map staticOf) := by
  induction arrays with
  | nil => decide
  | cons entry others ih =>
      obtain ⟨⟨plain, finite⟩, later⟩ := List.forall_mem_cons.mp readable
      cases others with
      | nil =>
          have read := readLines_item plain finite []
          rw [List.append_nil] at read
          exact read
      | cons next others =>
          have read := ih later
          rw [List.map_cons] at read
          rw [List.map_cons, List.map_cons, String.intercalate_cons_cons, lines_break,
            readLines_item plain finite, read]
          rfl

/-- The text of arrays is read as these arrays. -/
theorem readStatics_text {t : ArrayTable}
    (readable : ∀ entry ∈ t.arrays, Plain entry.1 ∧ entry.2.AllFinite) :
    readStatics (text t) = some (t.arrays.map staticOf) := by
  have head : header = "// Generated by hrtf_compiler. Do not edit." ++ "\n" ++ ("" ++ "\n") := by
    decide
  have comment : "// Generated by hrtf_compiler. Do not edit.".toList.splitOn '\n' =
      ["// Generated by hrtf_compiler. Do not edit.".toList] := by decide
  have blank : "".toList.splitOn '\n' = [[]] := by decide
  rw [readStatics, text, head, String.append_assoc, lines_break, lines_break, comment, blank,
    List.singleton_append, List.singleton_append, readLines, if_pos (.inr (by decide)), readLines,
    if_pos (.inl rfl)]
  exact readLines_items readable

example : readStatics
    "pub static A: [i32; 2] = [\n    -1,\n    2\n];\n\npub static B: [f32; 0] = [\n    \n];\n" =
      some [⟨"A", .int, 2, ["-1", "2"]⟩, ⟨"B", .float, 0, []⟩] := by
  decide +kernel

/-! ## Runs -/

/-- Whether a name is an identifier of ASCII. -/
def isIdentifier (name : String) : Bool :=
  match name.toList with
  | [] => false
  | first :: rest =>
    (first.isAlpha || first == '_') && rest.all fun c => c.isAlphanum || c == '_'

theorem plain_of_isIdentifier {name : String} (identifier : isIdentifier name = true) :
    Plain name := by
  have word : ∀ c ∈ name.toList, (c.isAlphanum || c == '_') = true := by
    unfold isIdentifier at identifier
    cases chars : name.toList with
    | nil => simp
    | cons first rest =>
        simp only [chars, Bool.and_eq_true, List.all_eq_true] at identifier
        refine List.forall_mem_cons.mpr ⟨?_, identifier.2⟩
        have letter := identifier.1
        unfold Char.isAlphanum
        grind
  exact ⟨fun member => absurd (word _ member) (by decide),
    fun member => absurd (word _ member) (by decide)⟩

open ArraySink

/-- What is read of an item is what was added. -/
structure Recovers (s : Static) (entry : String × ArrayValues) : Prop where
  name : s.name = UpperCase.ofString entry.1
  elementType : s.elementType = entry.2.elementType
  declared : s.declared = entry.2.length
  counted : s.literals.length = s.declared
  values : s.values? = some entry.2

theorem recovers_staticOf {entry : String × ArrayValues} (finite : entry.2.AllFinite) :
    Recovers (staticOf entry) entry where
  name := rfl
  elementType := rfl
  declared := rfl
  counted := length_literals entry.2
  values := values?_of_literals finite _ _

/-- Whether all calls that were accepted can be read back: they have identifiers as names and finite
floats. -/
def Readable (calls : List (String × ArrayValues)) : Prop :=
  ∀ entry ∈ taken RustSource calls, isIdentifier entry.1 = true ∧ entry.2.AllFinite

instance (calls : List (String × ArrayValues)) : Decidable (Readable calls) :=
  inferInstanceAs (Decidable (∀ entry ∈ taken RustSource calls, _ ∧ _))

theorem readStatics_after {calls : List (String × ArrayValues)} (readable : Readable calls) :
    readStatics (finish (after RustSource calls)) =
      some ((taken RustSource calls).map staticOf) := by
  have held : (after RustSource calls).table.arrays = taken RustSource calls := by
    rw [views_rustSource.table_after, arrays_after, views_rustSource.taken_eq]
  change readStatics (text (after RustSource calls).table) = _
  rw [readStatics_text, held]
  intro entry member
  rw [held] at member
  obtain ⟨identifier, finite⟩ := readable entry member
  exact ⟨plain_of_isIdentifier identifier, finite⟩

/-- An array with the name that it has in a source text. -/
def capitalized (entry : String × ArrayValues) : String × ArrayValues :=
  (UpperCase.ofString entry.1, entry.2)

/-- Arrays whose items are the same are the same up to the case of their names. -/
theorem map_capitalized_of_statics {entries entries' : List (String × ArrayValues)}
    (finite : ∀ entry ∈ entries, entry.2.AllFinite)
    (finite' : ∀ entry ∈ entries', entry.2.AllFinite)
    (same : entries.map staticOf = entries'.map staticOf) :
    entries.map capitalized = entries'.map capitalized := by
  have read {entries : List (String × ArrayValues)}
      (finite : ∀ entry ∈ entries, entry.2.AllFinite) :
      (entries.map staticOf).mapM (fun s => s.values?.map (s.name, ·)) =
        some (entries.map capitalized) := by
    induction entries with
    | nil => rfl
    | cons entry rest ih =>
        obtain ⟨first, others⟩ := List.forall_mem_cons.mp finite
        rw [List.map_cons, List.mapM_cons, (recovers_staticOf first).values, ih others]
        rfl
  have both := read finite
  rw [same, read finite'] at both
  exact (Option.some.inj both).symm

/-- The text of a sink is read back as the arrays that it accepted, in order: their names in
capitals, their types, their lengths as declared and as counted, and their values. So arrays that
are not the same up to the case of their names have different texts. -/
theorem source_reads_back (calls : List (String × ArrayValues)) (readable : Readable calls) :
    (∃ statics, readStatics (finish (after RustSource calls)) = some statics ∧
        List.Forall₂ Recovers statics (taken RustSource calls)) ∧
      ∀ calls', Readable calls' →
        finish (after RustSource calls') = finish (after RustSource calls) →
          (taken RustSource calls').map capitalized = (taken RustSource calls).map capitalized := by
  have finite {calls : List (String × ArrayValues)} (readable : Readable calls) :
      ∀ entry ∈ taken RustSource calls, entry.2.AllFinite :=
    fun entry member => (readable entry member).2
  refine ⟨⟨_, readStatics_after readable, ?_⟩, fun calls' readable' same => ?_⟩
  · refine List.forall₂_map_left_iff.mpr (List.forall₂_same.mpr fun entry member => ?_)
    exact recovers_staticOf (finite readable entry member)
  · have read := readStatics_after readable'
    rw [same, readStatics_after readable] at read
    exact map_capitalized_of_statics (finite readable') (finite readable)
      (Option.some.inj read).symm

/-- Three arrays of three types, one of them empty. -/
theorem source_reads_back_three :
    Readable [("counts", .unsignedInt [1, 2]), ("empty", .int []), ("data_2", .float [1, -0.25])] ∧
      (readStatics (finish (after RustSource
        [("counts", .unsignedInt [1, 2]), ("empty", .int []), ("data_2", .float [1, -0.25])]))).map
          (List.map fun s => (s.name, s.declared, s.values?)) =
        some [("COUNTS", 2, some (.unsignedInt [1, 2])), ("EMPTY", 0, some (.int [])),
          ("DATA_2", 2, some (.float [1, -0.25]))] := by
  have readable : Readable [("counts", .unsignedInt [1, 2]), ("empty", .int []),
      ("data_2", .float [1, -0.25])] := by decide +kernel
  obtain ⟨⟨statics, read, recovers⟩, -⟩ := source_reads_back _ readable
  have held : taken RustSource [("counts", .unsignedInt [1, 2]), ("empty", .int []),
      ("data_2", .float [1, -0.25])] = [("counts", .unsignedInt [1, 2]), ("empty", .int []),
        ("data_2", .float [1, -0.25])] := by decide +kernel
  rw [held] at recovers
  obtain _ | ⟨first, _ | ⟨second, _ | ⟨third, ⟨⟩⟩⟩⟩ := recovers
  refine ⟨readable, ?_⟩
  rw [read, Option.map_some, List.map_cons, List.map_cons, List.map_cons, first.name,
    second.name, third.name, first.declared, second.declared, third.declared, first.values,
    second.values, third.values]
  decide +kernel

end RustSource

end Binaural
