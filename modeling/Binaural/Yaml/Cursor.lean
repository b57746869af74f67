/-!
Positions in a text with lines.

Whether something is a key, and which mapping it belongs to, depends on the lines and columns at
which things stand. A `Cursor` is what is left of a text together with where that begins. Ends of
lines are single characters here: `unifyLines` makes them so before anything is read.
-/

namespace Binaural.Yaml

/-! ## Characters -/

/-- Whether the character is white space inside a line. -/
def isBlank (c : Char) : Bool := c == ' ' || c == '\t'

/-- Whether the character ends a line, once the ends of lines are unified. -/
def isBreak (c : Char) : Bool := c == '\n' || c == '\u2028' || c == '\u2029'

/-- Whether the character is white space. -/
def isSpace (c : Char) : Bool := isBlank c || isBreak c

/-- Whether names of anchors and handles of tags can have the character. -/
def isNameCharacter (c : Char) : Bool :=
  ('a' ≤ c && c ≤ 'z') || ('A' ≤ c && c ≤ 'Z') || c.isDigit || c == '_' || c == '-'

/-- Whether the character delimits something inside braces. -/
def isFlowIndicator (c : Char) : Bool :=
  c == ',' || c == '[' || c == ']' || c == '{' || c == '}'

/-- Whether a text can have the character at all. -/
def isPrintable (c : Char) : Bool :=
  c == '\t' || c == '\n' || c == '\r' || (32 ≤ c.toNat && c.toNat < 127) || c == '\x85'
    || (160 ≤ c.toNat && c != '\uFFFE' && c != '\uFFFF')

/-- The mark that a text may begin with, which stands for nothing. -/
def byteOrderMark : Char := '\uFEFF'

/-- The value of hexadecimal digits. -/
def hexValue? (digits : List Char) : Option Nat :=
  digits.foldl (fun n c =>
    n.bind fun n =>
      if c.isDigit then some (n * 16 + (c.toNat - '0'.toNat))
      else if 'a' ≤ c ∧ c ≤ 'f' then some (n * 16 + (c.toNat - 'a'.toNat + 10))
      else if 'A' ≤ c ∧ c ≤ 'F' then some (n * 16 + (c.toNat - 'A'.toNat + 10))
      else none) (some 0)

/-- The text with one character at every end of a line. The two separators of lines and paragraphs
stay what they are, since a scalar keeps them. -/
def unifyLines (done : List Char) : List Char → List Char
  | '\r' :: '\n' :: rest => unifyLines ('\n' :: done) rest
  | '\r' :: rest => unifyLines ('\n' :: done) rest
  | '\x85' :: rest => unifyLines ('\n' :: done) rest
  | c :: rest => unifyLines (c :: done) rest
  | [] => done.reverse

/-- Whether nothing, or white space, comes next. -/
def endsWord : List Char → Bool
  | [] => true
  | c :: _ => isSpace c

/-! ## Cursors -/

/-- What is left of a text, and the line and column at which it begins. -/
structure Cursor where
  line : Nat
  column : Nat
  rest : List Char

namespace Cursor

/-- Past one character. -/
def step (c : Cursor) : Cursor :=
  match c.rest with
  | [] => c
  | x :: rest => if isBreak x then ⟨c.line + 1, 0, rest⟩ else ⟨c.line, c.column + 1, rest⟩

/-- Past `n` characters. -/
def advance (c : Cursor) : Nat → Cursor
  | 0 => c
  | n + 1 => c.step.advance n

/-- The characters of the line from here on that meet a condition, and the cursor after them. -/
def span (p : Char → Bool) (c : Cursor) : List Char × Cursor :=
  let run := c.rest.takeWhile fun x => p x && !isBreak x
  (run, ⟨c.line, c.column + run.length, c.rest.drop run.length⟩)

/-- Past blanks. -/
def skipBlanks (c : Cursor) : Cursor := (c.span isBlank).2

/-- Whether three times the sign stands on its own at the beginning of a line. -/
def atMarker (sign : Char) (c : Cursor) : Bool :=
  match c.rest with
  | x :: y :: z :: rest => c.column == 0 && x == sign && y == sign && z == sign && endsWord rest
  | _ => false

/-- Whether a document begins or ends here by a marker. -/
def atDocumentMarker (c : Cursor) : Bool := c.atMarker '-' || c.atMarker '.'

/-- The next line, if nothing but blanks and a comment is left on this one. -/
def finishLine? (c : Cursor) : Option Cursor :=
  let c := c.skipBlanks
  let c := if c.rest.head? == some '#' then (c.span fun _ => true).2 else c
  match c.rest with
  | [] => some c
  | x :: _ => if isBreak x then some c.step else none

/-- Past white space and comments, and whether a key can begin there. A key can begin on a new line
outside braces, and until it does the line cannot have tabs. A byte order mark can begin any line;
it takes up a column. -/
def skipSpace (inFlow keyAllowed inComment : Bool) (line column : Nat) :
    List Char → Bool × Cursor
  | [] => (keyAllowed, ⟨line, column, []⟩)
  | x :: rest =>
    if isBreak x then skipSpace inFlow (keyAllowed || !inFlow) false (line + 1) 0 rest
    else if inComment then skipSpace inFlow keyAllowed true line (column + 1) rest
    else if x == ' ' || (x == '\t' && (inFlow || !keyAllowed))
        || (x == byteOrderMark && column == 0) then
      skipSpace inFlow keyAllowed false line (column + 1) rest
    else if x == '#' then skipSpace inFlow keyAllowed true line (column + 1) rest
    else (keyAllowed, ⟨line, column, x :: rest⟩)

end Cursor

end Binaural.Yaml
