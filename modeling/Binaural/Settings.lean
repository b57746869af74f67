import Binaural.Config
import Binaural.Decimal.Numeral
import Binaural.Files.Tree
import Binaural.Yaml.Node

/-!
Settings out of a document: every key is optional, known, and given at most once.

Integers are written in base ten, or in base 16, 8 or 2 with `0x`, `0o` or `0b` before the digits.
Numbers are decimals, with words for those that are not finite. Both are plain scalars, whatever
their tag, or literal blocks with the tag of their type. Keys and names may be written in any way,
and an alias means the value that it refers to.
-/

namespace Binaural.Settings

open Yaml (Document Node Tag)

/-! ## Scalars -/

/-- The value of a digit in a base up to 16. -/
def digitValue? (base : Nat) (c : Char) : Option Nat :=
  let value :=
    if c.isDigit then c.toNat - '0'.toNat
    else if 'a' ≤ c ∧ c ≤ 'f' then c.toNat - 'a'.toNat + 10
    else if 'A' ≤ c ∧ c ≤ 'F' then c.toNat - 'A'.toNat + 10
    else base
  if value < base then some value else none

/-- The value of one or more digits in a base. -/
def digits? (base : Nat) (text : List Char) : Option Nat :=
  if text.isEmpty then none
  else
    text.foldl (fun n c => n.bind fun n => (digitValue? base c).map fun d => n * base + d) (some 0)

/-- Whether a text is digits that begin with a zero and go on. -/
def hasLeadingZero : List Char → Bool
  | '0' :: c :: rest => (c :: rest).all Char.isDigit
  | _ => false

/-- The natural number that a plain scalar denotes. A zero in front of other digits makes a
scalar a text. -/
def natural? (text : List Char) : Option Nat :=
  let unsigned := match text with
    | '+' :: rest => rest
    | all => all
  match unsigned with
  | '0' :: 'x' :: rest => digits? 16 rest
  | '0' :: 'o' :: rest => digits? 8 rest
  | '0' :: 'b' :: rest => digits? 2 rest
  | _ => if hasLeadingZero unsigned then none else digits? 10 unsigned

/-- Whether a text is one of the spellings of a word: small, with a capital, or in capitals. -/
def isWord (small capital large : String) (text : List Char) : Bool :=
  text == small.toList || text == capital.toList || text == large.toList

/-- The number that a plain scalar denotes. One beyond the largest float is none. -/
def number? (text : List Char) : Option Float :=
  let (plus, unsigned) := match text with
    | '+' :: rest => (true, rest)
    | all => (false, all)
  if isWord ".inf" ".Inf" ".INF" unsigned then some (1.0 / 0.0)
  else if isWord "-.inf" "-.Inf" "-.INF" text then some (-1.0 / 0.0)
  else if isWord ".nan" ".NaN" ".NAN" text then some (0.0 / 0.0)
  else if plus && (unsigned.head? == some '+' || unsigned.head? == some '-') then none
  else
    match Numeral.ofChars? unsigned with
    | none => none
    | some n =>
      match n.toBinary .double with
      | .finite negative significand exponent =>
        some (BinaryNumber.finite negative significand exponent).toFloat
      | _ => none

/-- Whether a scalar can stand for a number of the type with a tag. -/
def isNumeral (type : Tag) (tag : Option Tag) (s : Yaml.Scalar) : Bool :=
  s.style == .plain || (s.style == .literal && tag == some type)

def naturalBelow? (bound : Nat) : Node → Option Nat
  | .scalar tag s =>
    if isNumeral (.core "int") tag s then (natural? s.text.toList).filter (· < bound) else none
  | _ => none

def float? : Node → Option Float
  | .scalar tag s => if isNumeral (.core "float") tag s then number? s.text.toList else none
  | _ => none

/-- The placement with a name. -/
def placementOfName? (name : String) : Option EmphasisPlacement :=
  if name = "before_truncation" then some .beforeTruncation
  else if name = "after_truncation" then some .afterTruncation
  else none

/-- Whether a scalar says that there is nothing. -/
def isNothing (s : Yaml.Scalar) : Bool :=
  s.style == .plain && (s.text == "" || s.text == "~" || isWord "null" "Null" "NULL" s.text.toList)

/-- A placement: its name, or its name as a tag with nothing after it. -/
def placement? : Node → Option EmphasisPlacement
  | .scalar tag s =>
    match tag.bind Tag.variant? with
    | some name => if isNothing s then placementOfName? name else none
    | none => placementOfName? s.text
  | _ => none

/-! ## Mappings -/

def setEmphasis? (c : EmphasisConfig Float) (key : String) (value : Node) :
    Option (EmphasisConfig Float) :=
  match key with
  | "passband" => (float? value).map fun x => { c with passband := x }
  | "stopband" => (float? value).map fun x => { c with stopband := x }
  | "passband_loss_db" => (float? value).map fun x => { c with passbandLoss := x }
  | "max_stopband_db" => (float? value).map fun x => { c with maxStopband := x }
  | "stopband_offset_db" => (float? value).map fun x => { c with stopbandOffset := x }
  | "front_threshold" => (float? value).map fun x => { c with frontThreshold := x }
  | _ => none

/-- All entries of a mapping in turn, each with a key that did not come before. -/
def setAll? {β : Type} (d : Document) (set? : β → String → Node → Option β) (seen : List String)
    (c : β) : List (Node × Node) → Option β
  | [] => some c
  | (key, value) :: rest =>
    match d.target? key, d.target? value with
    | some (.scalar _ key), some value =>
      if seen.contains key.text then none
      else
        match set? c key.text value with
        | none => none
        | some c => setAll? d set? (key.text :: seen) c rest
    | _, _ => none

/-- Settings out of a mapping, or out of nothing; what is left out stays as it is. -/
def ofMapping? {β : Type} (d : Document) (set? : β → String → Node → Option β) (c : β) :
    Node → Option β
  | .scalar _ ⟨"", .plain⟩ => some c
  | .mapping entries => setAll? d set? [] c entries
  | _ => none

def set? (d : Document) (c : Config Float) (key : String) (value : Node) :
    Option (Config Float) :=
  match key with
  | "final_length" => (naturalBelow? (Nat.pow 2 64) value).map fun n => { c with finalLength := n }
  | "equalization_cutoff" =>
    (naturalBelow? (Nat.pow 2 64) value).map fun n => { c with equalizationCutoff := n }
  | "min_gain" => (float? value).map fun x => { c with minGain := x }
  | "max_gain" => (float? value).map fun x => { c with maxGain := x }
  | "min_phase_epsilon" => (float? value).map fun x => { c with minPhaseFloor := x }
  | "rumble_cutoff" => (float? value).map fun x => { c with rumbleCutoff := x }
  | "rumble_order" => (naturalBelow? (Nat.pow 2 32) value).map fun n => { c with rumbleOrder := n }
  | "emphasis" =>
    (ofMapping? d setEmphasis? .default value).map fun e => { c with emphasis := e }
  | "emphasis_placement" => (placement? value).map fun p => { c with placement := p }
  | _ => none

/-- The settings of a document; what is left out is the default. -/
def ofDocument? (d : Document) : Option (Config Float) :=
  (d.target? d.root).bind (ofMapping? d (set? d) .default)

def ofText? (text : String) : Option (Config Float) :=
  (Document.ofText? text).bind ofDocument?

/-- The settings in a file, which must meet all demands. -/
def ofFile (t : FileTree) (path : Path) : Except (CompileError Float) (Config Float) :=
  match t.readText path with
  | .error fault => .error (.io .load (.file path fault))
  | .ok text =>
    match ofText? text with
    | none => .error (.config (.unreadable path))
    | some c =>
      match c.validate with
      | .error e => .error (.config e)
      | .ok () => .ok c

end Binaural.Settings
