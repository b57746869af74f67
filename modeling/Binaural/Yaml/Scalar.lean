import Binaural.Yaml.Cursor

/-!
Scalars: plain, in quotes, or in a block of lines.

Plain and quoted scalars are words with gaps between them. A gap inside a line is kept as it is; a
gap over ends of lines is folded, so that one end of a line reads as a blank and each further one
as itself. Block scalars keep their lines, or fold them in their own way.
-/

namespace Binaural.Yaml

/-- How a scalar is written. -/
inductive Style
  | plain
  | quoted
  /-- A block that keeps its lines. -/
  | literal
  /-- A block that folds its lines. -/
  | folded
  deriving DecidableEq, Repr

/-- A piece of text as it is written in a document. -/
structure Scalar where
  text : String
  style : Style
  deriving DecidableEq, Repr

/-! ## Gaps -/

/-- White space between two words of a scalar, the last character first. -/
inductive Gap
  /-- Blanks inside a line. -/
  | blanks (run : List Char)
  /-- Ends of lines. The first is missing where it is escaped. -/
  | lines (first : Option Char) (others : List Char)

namespace Gap

/-- No white space at all. -/
def empty : Gap := .blanks []

def isEmpty : Gap → Bool
  | .blanks [] => true
  | _ => false

/-- Whether the gap reaches over the end of a line. -/
def hasLines : Gap → Bool
  | .blanks _ => false
  | .lines _ _ => true

/-- A gap with a blank after it. Blanks at the beginning of a line do not count. -/
def addBlank (c : Char) : Gap → Gap
  | .blanks run => .blanks (c :: run)
  | .lines first others => .lines first others

/-- A gap with an end of a line after it. Blanks at the end of a line do not count. -/
def addBreak (c : Char) : Gap → Gap
  | .blanks _ => .lines (some c) []
  | .lines first others => .lines first (c :: others)

/-- What the gap reads as, the last character first. -/
def folded : Gap → List Char
  | .blanks run => run
  | .lines none others => others
  | .lines (some first) others =>
    if first == '\n' then if others.isEmpty then [' '] else others else others ++ [first]

/-- The white space from here on, after that of a gap. Before the column `limit`, lines cannot
begin with a tab. -/
def extend? (limit : Nat) (gap : Gap) (line column : Nat) : List Char → Option (Gap × Cursor)
  | [] => some (gap, ⟨line, column, []⟩)
  | c :: rest =>
    if isBreak c then (gap.addBreak c).extend? limit (line + 1) 0 rest
    else if isBlank c then
      if gap.hasLines && c == '\t' && column < limit then none
      else (gap.addBlank c).extend? limit line (column + 1) rest
    else some (gap, ⟨line, column, c :: rest⟩)

end Gap

/-! ## Plain scalars -/

/-- Whether a plain scalar can begin here. A dash needs something after it; a question mark or a
colon does so too, and cannot begin a scalar inside braces at all. -/
def beginsPlain (inFlow : Bool) : List Char → Bool
  | [] => false
  | c :: rest =>
    if c == '-' then !endsWord rest
    else if c == '?' || c == ':' then !inFlow && !endsWord rest
    else !(isSpace c || isFlowIndicator c || "#&*!|>'\"%@\x60".toList.contains c)

/-- Whether the character cannot come after a colon inside a word inside braces. -/
def clashesWithColon (c : Char) : Bool := isFlowIndicator c || c == '?'

/-- A word of a plain scalar, the last character first. It ends before white space, before a colon
at the end of a word, and inside braces before an indicator. -/
def plainWord? (inFlow : Bool) (word : List Char) (line column : Nat) :
    List Char → Option (List Char × Cursor)
  | [] => some (word, ⟨line, column, []⟩)
  | c :: rest =>
    if inFlow && c == ':' && rest.head?.any clashesWithColon then none
    else if isSpace c || (c == ':' && endsWord rest) || (inFlow && isFlowIndicator c) then
      some (word, ⟨line, column, c :: rest⟩)
    else plainWord? inFlow (c :: word) line (column + 1) rest

/-- The rest of a plain scalar after the text that is `done`, the last character first, and a gap.
Outside braces a line left of the column `inner` does not belong to it any more. The gap at its end
is given back. -/
def plainWords? (inFlow : Bool) (inner : Nat) (done : List Char) (gap : Gap) (c : Cursor) :
    (fuel : Nat) → Option (List Char × Gap × Cursor)
  | 0 => none
  | fuel + 1 =>
    if c.atDocumentMarker || c.rest.head? == some '#' then some (done, gap, c)
    else
      match plainWord? inFlow [] c.line c.column c.rest with
      | none => none
      | some ([], _) => some (done, gap, c)
      | some (word, c) =>
        let done := word ++ (gap.folded ++ done)
        match Gap.empty.extend? inner c.line c.column c.rest with
        | none => none
        | some (gap, c) =>
          if gap.isEmpty || (!inFlow && c.column < inner) then some (done, gap, c)
          else plainWords? inFlow inner done gap c fuel

/-! ## Quoted scalars -/

/-- The character that a letter after a backslash stands for. -/
def escaped? : Char → Option Char
  | '0' => some '\x00'
  | 'a' => some '\x07'
  | 'b' => some '\x08'
  | 't' => some '\t'
  | '\t' => some '\t'
  | 'n' => some '\n'
  | 'v' => some '\x0b'
  | 'f' => some '\x0c'
  | 'r' => some '\r'
  | 'e' => some '\x1b'
  | ' ' => some ' '
  | '"' => some '"'
  | '/' => some '/'
  | '\\' => some '\\'
  | 'N' => some '\x85'
  | '_' => some '\xa0'
  | 'L' => some '\u2028'
  | 'P' => some '\u2029'
  | _ => none

/-- The number of hexadecimal digits after a letter that introduces them. -/
def escapeWidth : Char → Nat
  | 'x' => 2
  | 'u' => 4
  | 'U' => 8
  | _ => 0

/-- The character with a code in exactly `width` hexadecimal digits. -/
def coded? (width : Nat) (digits : List Char) : Option Char :=
  if digits.length < width then none
  else ((hexValue? digits).filter fun code => code.isValidChar).map Char.ofNat

/-- A word in single quotes, the last character first. A quote inside is written twice. -/
def singleWord (word : List Char) (line column : Nat) : List Char → List Char × Cursor
  | '\'' :: '\'' :: rest => singleWord ('\'' :: word) line (column + 2) rest
  | c :: rest =>
    if isSpace c || c == '\'' then (word, ⟨line, column, c :: rest⟩)
    else singleWord (c :: word) line (column + 1) rest
  | [] => (word, ⟨line, column, []⟩)

/-- A word in double quotes, the last character first, and the beginning of the gap after it: a
backslash escapes, and one at the end of a line takes that end away. -/
def doubleWord? (word : List Char) (line column : Nat) (text : List Char) :
    Option (List Char × Gap × Cursor) :=
  match text with
  | '\\' :: letter :: rest =>
    if isBreak letter then some (word, .lines none [], ⟨line + 1, 0, rest⟩)
    else
      let width := escapeWidth letter
      let meant := if width = 0 then escaped? letter else coded? width (rest.take width)
      match meant with
      | none => none
      | some c => doubleWord? (c :: word) line (column + 2 + width) (rest.drop width)
  | c :: rest =>
    if c == '\\' then none
    else if isSpace c || c == '"' then some (word, .empty, ⟨line, column, c :: rest⟩)
    else doubleWord? (c :: word) line (column + 1) rest
  | [] => some (word, .empty, ⟨line, column, []⟩)
termination_by text.length
decreasing_by all_goals simp only [List.length_cons, List.length_drop]; omega

/-- A word in quotes of a kind, and the beginning of the gap after it. -/
def quotedWord? (quote : Char) (c : Cursor) : Option (List Char × Gap × Cursor) :=
  if quote == '"' then doubleWord? [] c.line c.column c.rest
  else
    let (word, c) := singleWord [] c.line c.column c.rest
    some (word, .empty, c)

/-- The rest of a scalar in quotes after the text that is `done`, the last character first. No
marker between documents can stand inside. -/
def quotedWords? (quote : Char) (done : List Char) (c : Cursor) :
    (fuel : Nat) → Option (List Char × Cursor)
  | 0 => none
  | fuel + 1 =>
    if c.atDocumentMarker || c.rest.isEmpty then none
    else
      match quotedWord? quote c with
      | none => none
      | some (word, gap, c) =>
        let done := word ++ done
        if c.rest.head? == some quote then some (done, c.step)
        else
          match gap.extend? 0 c.line c.column c.rest with
          | none => none
          | some (gap, c) => quotedWords? quote (gap.folded ++ done) c fuel

/-! ## Block scalars -/

/-- What happens to the ends of lines at the end of a block. -/
inductive Chomping
  | strip
  /-- The first is kept. -/
  | clip
  | keep
  deriving DecidableEq, Repr

/-- The sign of a way of chomping. -/
def Chomping.ofSign? : Char → Option Chomping
  | '-' => some .strip
  | '+' => some .keep
  | _ => none

/-- The indentation that a digit asks for. -/
def indentation? (c : Char) : Option Nat :=
  if '1' ≤ c ∧ c ≤ '9' then some (c.toNat - '0'.toNat) else none

/-- The sign and the digit at the head of a block, in either order, each of which may be missing.
The digit is then zero. -/
def blockHeader (c : Cursor) : Chomping × Nat × Cursor :=
  match c.rest.head?.bind Chomping.ofSign? with
  | some chomping =>
    match c.step.rest.head?.bind indentation? with
    | some n => (chomping, n, c.step.step)
    | none => (chomping, 0, c.step)
  | none =>
    match c.rest.head?.bind indentation? with
    | some n =>
      match c.step.rest.head?.bind Chomping.ofSign? with
      | some chomping => (chomping, n, c.step.step)
      | none => (.clip, n, c.step)
    | none => (.clip, 0, c)

/-- The ends of empty lines, the last first, up to a line with something on it at the column
`indent` or left of it, and the widest indentation on the way. As long as `indent` is zero, any
number of blanks may indent the line. -/
def emptyLines? (indent widest : Nat) (breaks : List Char) (line column : Nat) :
    List Char → Option (List Char × Nat × Cursor)
  | [] => some (breaks, max widest column, ⟨line, column, []⟩)
  | c :: rest =>
    let isIndentation := indent = 0 ∨ column < indent
    if c == ' ' ∧ isIndentation then
      emptyLines? indent widest breaks line (column + 1) rest
    else if c == '\t' ∧ isIndentation then none
    else if isBreak c then emptyLines? indent (max widest column) (c :: breaks) (line + 1) 0 rest
    else some (breaks, max widest column, ⟨line, column, c :: rest⟩)

/-- The lines of a block so far, the last character first. -/
structure BlockText where
  done : List Char
  /-- The end of the last line, if there is a line. -/
  last : List Char
  /-- The ends of the empty lines after it. -/
  empties : List Char
  /-- Whether the last line begins with a blank. -/
  isMore : Bool

namespace BlockText

/-- All text before the next line. Between two lines that do not begin with blanks, folding takes
the end of the first away, or puts a blank for it if no empty line follows. -/
def joined (fold : Bool) (b : BlockText) (beginsBlank : Bool) : List Char :=
  if fold && b.last == ['\n'] && !b.isMore && !beginsBlank then
    if b.empties.isEmpty then ' ' :: b.done else b.empties ++ b.done
  else b.empties ++ (b.last ++ b.done)

/-- The whole text of a block after its last line. -/
def finish (b : BlockText) : Chomping → List Char
  | .strip => b.done
  | .clip => b.last ++ b.done
  | .keep => b.empties ++ (b.last ++ b.done)

end BlockText

/-- The lines of a block at the column `indent`, after those that have been read. -/
def blockLines? (fold : Bool) (indent : Nat) (b : BlockText) (c : Cursor) :
    (fuel : Nat) → Option (BlockText × Cursor)
  | 0 => none
  | fuel + 1 =>
    if c.rest.isEmpty || c.column != indent then some (b, c)
    else
      let beginsBlank := c.rest.head?.any isBlank
      let (text, c) := c.span fun _ => true
      let done := text.reverse ++ b.joined fold beginsBlank
      let last := c.rest.take 1
      let c := c.step
      match emptyLines? indent 0 [] c.line c.column c.rest with
      | none => none
      | some (empties, _, c) => blockLines? fold indent ⟨done, last, empties, beginsBlank⟩ c fuel

/-- A block scalar after its indicator, inside a block mapping whose content is not left of the
column `inner`. Its indentation is either given or that of its first line. -/
def blockScalar? (fold : Bool) (inner : Nat) (c : Cursor) (fuel : Nat) :
    Option (Scalar × Cursor) :=
  let (chomping, digit, c) := blockHeader c
  match c.finishLine? with
  | none => none
  | some c =>
    let given := if digit = 0 then 0 else inner - 1 + digit
    match emptyLines? given 0 [] c.line c.column c.rest with
    | none => none
    | some (empties, widest, c) =>
      let indent := if digit = 0 then max (max widest inner) 1 else given
      (blockLines? fold indent ⟨[], [], empties, false⟩ c fuel).map fun (b, c) =>
        (⟨String.ofList (b.finish chomping).reverse, if fold then .folded else .literal⟩, c)

/-! ## All together -/

/-- A plain scalar, and whether the white space after it, which is passed too, has ends of lines. -/
def plainScalar? (inFlow : Bool) (inner : Nat) (c : Cursor) (fuel : Nat) :
    Option (Scalar × Bool × Cursor) :=
  (plainWords? inFlow inner [] .empty c fuel).map fun (done, gap, c) =>
    (⟨String.ofList done.reverse, .plain⟩, gap.hasLines, c)

/-- A scalar in quotes, after the first quote. -/
def quotedScalar? (quote : Char) (c : Cursor) (fuel : Nat) : Option (Scalar × Cursor) :=
  (quotedWords? quote [] c fuel).map fun (done, c) => (⟨String.ofList done.reverse, .quoted⟩, c)

end Binaural.Yaml
