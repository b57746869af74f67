import Binaural.Yaml.Cursor

/-!
Tags, which name the type of a value.

A tag is written in full between `!<` and `>`, or as a handle and a rest, where the handle stands
for a prefix. Bytes that a tag cannot show are written as a percent sign and two hexadecimal digits;
they come in groups with the shape of a character in UTF-8, and a zero byte ends the tag.
-/

namespace Binaural.Yaml

/-- A tag, as bytes. -/
structure Tag where
  bytes : List UInt8
  deriving DecidableEq, Repr

/-- A tag as it is written: a handle, and what comes after the prefix that it stands for. -/
structure TagName where
  handle : List Char
  suffix : Tag
  deriving DecidableEq, Repr

namespace Tag

/-- The tag with the characters of an ASCII text. -/
def ofChars (cs : List Char) : Tag := ⟨cs.map fun c => UInt8.ofNat c.toNat⟩

/-- A tag of the types that every document has. -/
def core (name : String) : Tag := ofChars ("tag:yaml.org,2002:" ++ name).toList

/-- Two parts of a tag together. -/
def append (a b : Tag) : Tag := ⟨a.bytes ++ b.bytes⟩

/-- The name of a variant, which is a tag with an exclamation mark before it. Alone, the mark is
a name itself. -/
def variant? (t : Tag) : Option String :=
  match t.bytes with
  | [] => none
  | first :: rest =>
    if first != 33 then none
    else String.fromUTF8? ⟨(if rest.isEmpty then [first] else rest).toArray⟩

/-- Whether a tag can show the character. Between `<` and `>`, and in a prefix, it can show three
more. -/
def shows (isWhole : Bool) (c : Char) : Bool :=
  isNameCharacter c || ";/?:@&=+$.!~*'()".toList.contains c
    || (isWhole && (c == ',' || c == '[' || c == ']'))

/-- The number of bytes of a character in UTF-8 that begins with the byte; zero if none does. -/
def groupSize (first : Nat) : Nat :=
  if first < 0x80 then 1
  else if first < 0xC0 then 0
  else if first < 0xE0 then 2
  else if first < 0xF0 then 3
  else if first < 0xF8 then 4
  else 0

/-- The bytes from here on, the last first, with those that are `done` already and the number of
bytes that are `missing` in a group. -/
def readBytes? (isWhole : Bool) (missing : Nat) (done : List UInt8) (line column : Nat) :
    List Char → Option (List UInt8 × Cursor)
  | '%' :: high :: low :: rest =>
    match hexValue? [high, low] with
    | none => none
    | some byte =>
      let left := if missing = 0 then groupSize byte
        else if byte / 64 = 2 then missing else 0
      if left = 0 then none
      else readBytes? isWhole (left - 1) (UInt8.ofNat byte :: done) line (column + 3) rest
  | c :: rest =>
    if missing != 0 || c == '%' then none
    else if shows isWhole c then
      readBytes? isWhole 0 (UInt8.ofNat c.toNat :: done) line (column + 1) rest
    else some (done, ⟨line, column, c :: rest⟩)
  | [] => if missing != 0 then none else some (done, ⟨line, column, []⟩)

/-- The part of a tag from here on, if it is not empty as written. -/
def read? (isWhole : Bool) (c : Cursor) : Option (Tag × Cursor) :=
  match readBytes? isWhole 0 [] c.line c.column c.rest with
  | none => none
  | some ([], _) => none
  | some (done, c) => some (⟨done.reverse.takeWhile (· != 0)⟩, c)

end Tag

namespace TagName

/-- An exclamation mark, the name after it, and a second mark if there is one. -/
def readHandle (c : Cursor) : List Char × Cursor :=
  let (name, c) := c.step.span isNameCharacter
  if c.rest.head? == some '!' then ('!' :: name ++ ['!'], c.step) else ('!' :: name, c)

/-- Whether what has been read as a handle is one that must be declared. -/
def isNamed (handle : List Char) : Bool := 2 ≤ handle.length && handle.getLast? == some '!'

/-- A tag in full, after its two first characters. -/
def readWhole? (c : Cursor) : Option (TagName × Cursor) :=
  match Tag.read? true c with
  | none => none
  | some (tag, c) => if c.rest.head? == some '>' then some (⟨[], tag⟩, c.step) else none

/-- A tag with a handle. A single exclamation mark is a handle if anything comes after it, and else
the whole tag. -/
def readShort? (c : Cursor) : Option (TagName × Cursor) :=
  let (handle, c) := readHandle c
  if isNamed handle then (Tag.read? false c).map fun (tag, c) => (⟨handle, tag⟩, c)
  else
    match Tag.readBytes? false 0 [] c.line c.column c.rest with
    | none => none
    | some (done, c) =>
      let suffix : Tag :=
        ⟨((Tag.ofChars (handle.drop 1)).bytes ++ done.reverse).takeWhile (· != 0)⟩
      some (if suffix.bytes.isEmpty then ⟨[], .ofChars ['!']⟩ else ⟨['!'], suffix⟩, c)

/-- A tag, at whose first character the cursor is. White space must follow, or inside braces a
comma. -/
def read? (inFlow : Bool) (c : Cursor) : Option (TagName × Cursor) :=
  let name := if c.step.rest.head? == some '<' then readWhole? c.step.step else readShort? c
  name.filter fun (_, c) => endsWord c.rest || (inFlow && c.rest.head? == some ',')

end TagName

/-! ## Directives -/

/-- A line before a document that says how to read it. -/
inductive Directive
  /-- The document is written in a version of the format that is known. -/
  | version
  /-- A handle stands for a prefix. -/
  | handle (name : List Char) (stem : Tag)
  deriving DecidableEq, Repr

namespace Directive

/-- A number of at most nine digits. -/
def number? (c : Cursor) : Option (Nat × Cursor) :=
  let (digits, c) := c.span Char.isDigit
  if digits.isEmpty || 9 < digits.length then none
  else some (digits.foldl (fun n d => n * 10 + (d.toNat - '0'.toNat)) 0, c)

/-- A version: 1.1 or 1.2. -/
def version? (c : Cursor) : Option Cursor :=
  match number? c with
  | none => none
  | some (major, c) =>
    if c.rest.head? != some '.' then none
    else
      match number? c.step with
      | none => none
      | some (minor, c) => if major = 1 ∧ (minor = 1 ∨ minor = 2) then some c else none

/-- A handle and the prefix that it stands for. -/
def handle? (c : Cursor) : Option (Directive × Cursor) :=
  if c.rest.head? != some '!' then none
  else
    let (name, c) := TagName.readHandle c
    if !(name.length == 1 || TagName.isNamed name) || !c.rest.head?.any isBlank then none
    else
      match Tag.read? true c.skipBlanks with
      | none => none
      | some (stem, c) => if endsWord c.rest then some (.handle name stem, c) else none

/-- A directive, at whose percent sign the cursor is, to the end of its line. -/
def read? (c : Cursor) : Option (Directive × Cursor) :=
  let (name, c) := c.step.span isNameCharacter
  if !endsWord c.rest then none
  else
    let content :=
      if name == "YAML".toList then (version? c.skipBlanks).map fun c => (.version, c)
      else if name == "TAG".toList then handle? c.skipBlanks
      else none
    match content with
    | none => none
    | some (d, c) => c.finishLine?.map fun c => (d, c)

end Directive

end Binaural.Yaml
