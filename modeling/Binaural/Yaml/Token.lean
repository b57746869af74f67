import Binaural.Yaml.Scalar
import Binaural.Yaml.Tag

/-!
The tokens of a text.

Block mappings are told by columns: a key to the right of the mapping around it begins a mapping,
and content to the left of a mapping ends it. That something is a key shows only at the colon after
it, so the place where a key may have begun is remembered, and the tokens that begin a key are put
there afterwards. Without a question mark before it, a key has to be on the line of its colon and
at most 1024 columns before it.

Sequences are not read: a text that has one has no tokens.
-/

namespace Binaural.Yaml

/-- A piece of a text. -/
inductive Token
  | directive (d : Directive)
  | documentStart
  | documentEnd
  /-- The columns of what follows begin a mapping. -/
  | blockStart
  /-- The columns of what follows end a mapping. -/
  | blockEnd
  /-- An opening brace. -/
  | flowStart
  /-- A closing brace. -/
  | flowEnd
  | comma
  /-- What follows is a key. -/
  | key
  /-- What follows is the value of the key before it. -/
  | value
  | alias (name : String)
  | anchor (name : String)
  | tag (name : TagName)
  | scalar (s : Scalar)
  deriving DecidableEq, Repr

/-- Where a key may have begun. -/
structure PendingKey where
  /-- The number of tokens before it. -/
  tokens : Nat
  line : Nat
  column : Nat
  /-- Whether nothing but a key can stand there. -/
  isRequired : Bool
  deriving Repr

/-- A text that has been read up to a cursor. -/
structure Lexer where
  cursor : Cursor
  tokens : Array Token
  /-- The least column at which content of the innermost block mapping can stand. It is zero
  outside all block mappings. -/
  inner : Nat
  /-- The same for the block mappings around it, from the inside out. -/
  outer : List Nat
  /-- Whether a key can begin at the cursor. -/
  keyAllowed : Bool
  /-- The key that may have begun inside the innermost braces. -/
  pending : Option PendingKey
  /-- The same for all that is around the innermost braces, from the inside out. -/
  enclosing : List (Option PendingKey)

namespace Lexer

/-- A text of which nothing has been read. A key can begin right away. -/
def start (text : List Char) : Lexer :=
  ⟨⟨0, 0, text⟩, #[], 0, [], true, none, []⟩

/-- Whether the cursor is inside braces. -/
def inFlow (s : Lexer) : Bool := !s.enclosing.isEmpty

/-- One more token, and the cursor after it. -/
def push (s : Lexer) (t : Token) (c : Cursor) : Lexer :=
  { s with tokens := s.tokens.push t, cursor := c }

/-! ## Columns -/

/-- The tokens, and the least columns from the inside out, after the end of all mappings whose least
column is greater than `bound`. -/
def endBlocks (bound : Nat) (tokens : Array Token) (inner : Nat) :
    List Nat → Array Token × Nat × List Nat
  | [] => (tokens, inner, [])
  | next :: outer =>
    if bound < inner then endBlocks bound (tokens.push .blockEnd) next outer
    else (tokens, inner, next :: outer)

/-- All block mappings ended whose least column is greater than `bound`. Inside braces columns do
not count. -/
def closeBlocks (bound : Nat) (s : Lexer) : Lexer :=
  if s.inFlow then s
  else
    let (tokens, inner, outer) := endBlocks bound s.tokens s.inner s.outer
    { s with tokens, inner, outer }

/-- A block mapping with its first key at a column, if that is right of the mapping around it. Its
first token is put after the first `n` tokens. -/
def openBlock (column n : Nat) (s : Lexer) : Lexer :=
  if s.inFlow || column < s.inner then s
  else { s with
    tokens := s.tokens.insertIdxIfInBounds n .blockStart
    inner := column + 1
    outer := s.inner :: s.outer }

/-! ## Keys that may have begun -/

/-- No key that may have begun; it must not have been required. -/
def dropKey? (s : Lexer) : Option Lexer :=
  if s.pending.any (·.isRequired) then none else some { s with pending := none }

/-- A key may begin at the cursor, if one is allowed there. It is required in a column of keys. -/
def saveKey? (s : Lexer) : Option Lexer :=
  if s.keyAllowed then
    let c := s.cursor
    let key := ⟨s.tokens.size, c.line, c.column, !s.inFlow && s.inner == c.column + 1⟩
    s.dropKey?.map fun s => { s with pending := some key }
  else some s

/-- Whether a key is too far away from the cursor. -/
def isStale (c : Cursor) (k : PendingKey) : Bool :=
  k.line < c.line || k.column + 1024 < c.column

/-- The keys that can still be keys at the cursor. -/
def expireKeys? (s : Lexer) : Option Lexer :=
  if (s.pending :: s.enclosing).any (·.any fun k => isStale s.cursor k && k.isRequired) then none
  else
    let fresh := fun k => !isStale s.cursor k
    some { s with
      pending := s.pending.filter fresh
      enclosing := s.enclosing.map (·.filter fresh) }

/-! ## Single tokens -/

/-- A directive or a marker, before which all block mappings end. -/
def pushMarker? (s : Lexer) (t : Token) (c : Cursor) : Option Lexer :=
  (s.closeBlocks 0).dropKey?.map fun s => { s.push t c with keyAllowed := false }

/-- An opening brace. -/
def pushFlowStart? (s : Lexer) : Option Lexer :=
  s.saveKey?.map fun s =>
    { s.push .flowStart s.cursor.step with
      keyAllowed := true, pending := none, enclosing := s.pending :: s.enclosing }

/-- A closing brace. -/
def pushFlowEnd? (s : Lexer) : Option Lexer :=
  s.dropKey?.map fun s =>
    let s := { s.push .flowEnd s.cursor.step with keyAllowed := false }
    match s.enclosing with
    | [] => s
    | pending :: enclosing => { s with pending, enclosing }

/-- A comma. -/
def pushComma? (s : Lexer) : Option Lexer :=
  s.dropKey?.map fun s => { s.push .comma s.cursor.step with keyAllowed := true }

/-- A question mark or colon that is not the end of a key on the same line. Outside braces it must
stand where a key can begin, and may begin a mapping. -/
def pushIndicator? (s : Lexer) (t : Token) : Option Lexer :=
  if !s.inFlow && !s.keyAllowed then none
  else
    (s.openBlock s.cursor.column s.tokens.size).dropKey?.map fun s =>
      { s.push t s.cursor.step with keyAllowed := !s.inFlow }

/-- A colon. The key before it, if one may have begun, is now known to be one. -/
def pushValue? (s : Lexer) : Option Lexer :=
  match s.pending with
  | none => s.pushIndicator? .value
  | some k =>
    let s := { s with tokens := s.tokens.insertIdxIfInBounds k.tokens .key }
    let s := s.openBlock k.column k.tokens
    some { s.push .value s.cursor.step with keyAllowed := false, pending := none }

/-- A token that a key can begin with. No other can begin right after it. -/
def pushContent? (s : Lexer) (content : Lexer → Option (Token × Cursor)) : Option Lexer :=
  s.saveKey?.bind fun s =>
    (content s).map fun (t, c) => { s.push t c with keyAllowed := false }

/-- The name after the sign of an anchor or alias. -/
def name? (c : Cursor) : Option (String × Cursor) :=
  let (name, c) := c.step.span isNameCharacter
  let isEnd := endsWord c.rest || c.rest.head?.any "?:,]\x7d%@\x60".toList.contains
  if name.isEmpty || !isEnd then none else some (String.ofList name, c)

/-- A plain scalar. A key can begin after it if its line ends. -/
def pushPlain? (s : Lexer) (fuel : Nat) : Option Lexer :=
  s.saveKey?.bind fun s =>
    (plainScalar? s.inFlow s.inner s.cursor fuel).map fun (scalar, hasLines, c) =>
      { s.push (.scalar scalar) c with keyAllowed := hasLines }

/-- A block scalar, after which a key can begin. -/
def pushBlock? (s : Lexer) (fold : Bool) (fuel : Nat) : Option Lexer :=
  s.dropKey?.bind fun s =>
    (blockScalar? fold s.inner s.cursor.step fuel).map fun (scalar, c) =>
      { s.push (.scalar scalar) c with keyAllowed := true }

/-- The token that begins with the character at the cursor. -/
def next? (s : Lexer) (first : Char) (rest : List Char) (fuel : Nat) : Option Lexer :=
  let isIndicator := s.inFlow || endsWord rest
  if first == '%' && s.cursor.column == 0 then
    (Directive.read? s.cursor).bind fun (d, c) => s.pushMarker? (.directive d) c
  else if s.cursor.atMarker '-' then s.pushMarker? .documentStart (s.cursor.advance 3)
  else if s.cursor.atMarker '.' then s.pushMarker? .documentEnd (s.cursor.advance 3)
  else if first == '{' then s.pushFlowStart?
  else if first == '}' then s.pushFlowEnd?
  else if first == ',' then s.pushComma?
  else if first == '?' && isIndicator then s.pushIndicator? .key
  else if first == ':' && isIndicator then s.pushValue?
  else if first == '*' then
    s.pushContent? fun s => (name? s.cursor).map fun (name, c) => (.alias name, c)
  else if first == '&' then
    s.pushContent? fun s => (name? s.cursor).map fun (name, c) => (.anchor name, c)
  else if first == '!' then
    s.pushContent? fun s => (TagName.read? s.inFlow s.cursor).map fun (name, c) => (.tag name, c)
  else if first == '|' && !s.inFlow then s.pushBlock? false fuel
  else if first == '>' && !s.inFlow then s.pushBlock? true fuel
  else if first == '\'' || first == '"' then
    s.pushContent? fun s => (quotedScalar? first s.cursor.step fuel).map fun (x, c) => (.scalar x, c)
  else if beginsPlain s.inFlow (first :: rest) then s.pushPlain? fuel
  else none

/-- All tokens from the cursor on. Each step but the last takes at least one character, so fuel for
one step more than there are characters is enough. -/
def tokens? (s : Lexer) : (fuel : Nat) → Option (List Token)
  | 0 => none
  | fuel + 1 =>
    let c := s.cursor
    let (keyAllowed, cursor) := Cursor.skipSpace s.inFlow s.keyAllowed false c.line c.column c.rest
    match ({ s with keyAllowed, cursor }).expireKeys? with
    | none => none
    | some s =>
      let s := s.closeBlocks (s.cursor.column + 1)
      match s.cursor.rest with
      | [] => (s.closeBlocks 0).dropKey?.map (·.tokens.toList)
      | first :: rest =>
        match s.next? first rest (fuel + 1) with
        | none => none
        | some s => s.tokens? fuel

end Lexer

/-- The tokens of a text. -/
def Token.ofText? (text : String) : Option (List Token) :=
  let chars := unifyLines [] text.toList
  if text.toList.all isPrintable then (Lexer.start chars).tokens? (chars.length + 1) else none

end Binaural.Yaml
