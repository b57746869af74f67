import Binaural.Yaml.Token

/-!
The value that a text with one document denotes: a scalar or a mapping.

A value with an anchor can be referred to by an alias. Names of anchors are numbered: a name that
is given to a value gets the number of different names so far as its slot, and an alias means the
last value in the slot of its name. Tags are kept for scalars alone, for the type of a mapping is
told by where it stands.
-/

namespace Binaural.Yaml

/-- A value. A plain scalar without characters is what is left out. -/
inductive Node
  | scalar (tag : Option Tag) (s : Scalar)
  | mapping (entries : List (Node × Node))
  /-- The last value in a slot. -/
  | alias (slot : Nat)

/-- The value that is left out. -/
def Node.empty : Node := .scalar none ⟨"", .plain⟩

/-- A value with those inside it that have slots, in the order in which they begin. -/
structure Document where
  root : Node
  anchored : List (Nat × Node)

/-- The value that a node means, which is not an alias. -/
def Document.target? (d : Document) : Node → Option Node
  | .alias slot => (d.anchored.reverse.find? (·.1 == slot)).map Prod.snd
  | node => some node

/-! ## Names -/

/-- The prefixes that handles stand for. -/
abbrev Prefixes := List (List Char × Tag)

/-- The names of anchors so far, each once, with their slots. -/
abbrev Slots := List (String × Nat)

/-- The next slot, given to a name. -/
def Slots.define (slots : Slots) (name : String) : Nat × Slots :=
  (slots.length, (name, slots.length) :: slots.filter (·.1 != name))

/-- The tag that a written tag stands for. Its handle must have a prefix. -/
def TagName.resolve? (prefixes : Prefixes) (name : TagName) : Option Tag :=
  if name.handle.isEmpty then some name.suffix
  else (prefixes.lookup name.handle).map (·.append name.suffix)

/-- What stands before a value. -/
structure Properties where
  anchor : Option String
  tag : Option TagName

/-- An anchor and a tag in either order, each of which may be missing. -/
def Properties.read : List Token → Properties × List Token
  | .anchor name :: .tag t :: rest => (⟨some name, some t⟩, rest)
  | .tag t :: .anchor name :: rest => (⟨some name, some t⟩, rest)
  | .anchor name :: rest => (⟨some name, none⟩, rest)
  | .tag t :: rest => (⟨none, some t⟩, rest)
  | rest => (⟨none, none⟩, rest)

namespace Properties

/-- Whether nothing stands before a value. -/
def isEmpty (p : Properties) : Bool := p.anchor.isNone && p.tag.isNone

/-- The tag of a value, which may have none. -/
def resolve? (prefixes : Prefixes) (p : Properties) : Option (Option Tag) :=
  match p.tag with
  | none => some none
  | some name => (name.resolve? prefixes).map some

/-- The slot of a value, which may have none. -/
def define (slots : Slots) (p : Properties) : Option Nat × Slots :=
  match p.anchor with
  | none => (none, slots)
  | some name =>
    let (slot, slots) := slots.define name
    (some slot, slots)

end Properties

/-! ## Values

Of two readers that call each other, at least one takes a token, so fuel for twice as many calls as
there are tokens is enough.
-/

/-- What a reader of tokens gives. -/
structure Reading (β : Type) where
  result : β
  /-- The values with slots that have been read, in the order in which they begin. -/
  anchored : List (Nat × Node)
  slots : Slots
  rest : List Token

namespace Reading

/-- A value that is left out. -/
def empty (slots : Slots) (rest : List Token) : Reading Node :=
  ⟨.empty, [], slots, rest⟩

/-- The mapping with the entries that have been read. -/
def mapping (r : Reading (List (Node × Node))) : Reading Node :=
  ⟨.mapping r.result, r.anchored, r.slots, r.rest⟩

/-- A value with a slot for its name, if it has one. -/
def named (slot : Option Nat) (r : Reading Node) : Reading Node :=
  match slot with
  | none => r
  | some slot => { r with anchored := (slot, r.result) :: r.anchored }

/-- What has been read after other values with slots. -/
def after {β : Type} (anchored : List (Nat × Node)) (r : Reading β) : Reading β :=
  { r with anchored := anchored ++ r.anchored }

end Reading

/-- Whether the token comes after a value of a block mapping that is left out. -/
def Token.endsBlockValue : Token → Bool
  | .key | .value | .blockEnd => true
  | _ => false

/-- Whether the token comes after a value inside braces that is left out. -/
def Token.endsFlowValue : Token → Bool
  | .comma | .flowEnd => true
  | _ => false

/-- Whether the token comes after a key inside braces that is left out. -/
def Token.endsFlowKey : Token → Bool
  | .value | .comma | .flowEnd => true
  | _ => false

mutual

/-- A value with what stands before it. -/
def readNode? (prefixes : Prefixes) (slots : Slots) (tokens : List Token) :
    (fuel : Nat) → Option (Reading Node)
  | 0 => none
  | fuel + 1 =>
    match tokens with
    | .alias name :: rest => (slots.lookup name).map fun slot => ⟨.alias slot, [], slots, rest⟩
    | _ =>
      let (properties, tokens) := Properties.read tokens
      match properties.resolve? prefixes with
      | none => none
      | some tag =>
        let (slot, slots) := properties.define slots
        let value : Option (Reading Node) :=
          match tokens with
          | .scalar s :: rest => some ⟨.scalar tag s, [], slots, rest⟩
          | .blockStart :: rest => (readBlock? prefixes slots [] rest fuel).map .mapping
          | .flowStart :: rest => (readFlow? prefixes slots [] rest fuel).map .mapping
          | _ =>
            if properties.isEmpty then none
            else some ⟨.scalar tag ⟨"", .plain⟩, [], slots, tokens⟩
        value.map (·.named slot)

/-- The rest of a block mapping after the entries that are `done`, the last first. -/
def readBlock? (prefixes : Prefixes) (slots : Slots) (done : List (Node × Node))
    (tokens : List Token) : (fuel : Nat) → Option (Reading (List (Node × Node)))
  | 0 => none
  | fuel + 1 =>
    match tokens with
    | .blockEnd :: rest => some ⟨done.reverse, [], slots, rest⟩
    | .key :: rest =>
      let key :=
        if rest.head?.any Token.endsBlockValue then some (Reading.empty slots rest)
        else readNode? prefixes slots rest fuel
      match key with
      | none => none
      | some key =>
        let value :=
          match key.rest with
          | .value :: rest =>
            if rest.head?.any Token.endsBlockValue then some (Reading.empty key.slots rest)
            else readNode? prefixes key.slots rest fuel
          | rest => some (Reading.empty key.slots rest)
        match value with
        | none => none
        | some value =>
          let done := (key.result, value.result) :: done
          (readBlock? prefixes value.slots done value.rest fuel).map
            (·.after (key.anchored ++ value.anchored))
    | _ => none

/-- The rest of a mapping in braces after the entries that are `done`, the last first, and after the
opening brace or a comma. Only after a key that is marked as one can there be a value. -/
def readFlow? (prefixes : Prefixes) (slots : Slots) (done : List (Node × Node))
    (tokens : List Token) : (fuel : Nat) → Option (Reading (List (Node × Node)))
  | 0 => none
  | fuel + 1 =>
    match tokens with
    | .flowEnd :: rest => some ⟨done.reverse, [], slots, rest⟩
    | .key :: rest =>
      let key :=
        if rest.head?.any Token.endsFlowKey then some (Reading.empty slots rest)
        else readNode? prefixes slots rest fuel
      match key with
      | none => none
      | some key =>
        let value :=
          match key.rest with
          | .value :: rest =>
            if rest.head?.any Token.endsFlowValue then some (Reading.empty key.slots rest)
            else readNode? prefixes key.slots rest fuel
          | rest => some (Reading.empty key.slots rest)
        match value with
        | none => none
        | some value =>
          let done := (key.result, value.result) :: done
          (readFlowNext? prefixes value.slots done value.rest fuel).map
            (·.after (key.anchored ++ value.anchored))
    | _ =>
      match readNode? prefixes slots tokens fuel with
      | none => none
      | some key =>
        (readFlowNext? prefixes key.slots ((key.result, .empty) :: done) key.rest fuel).map
          (·.after key.anchored)

/-- The rest of a mapping in braces after an entry. -/
def readFlowNext? (prefixes : Prefixes) (slots : Slots) (done : List (Node × Node))
    (tokens : List Token) : (fuel : Nat) → Option (Reading (List (Node × Node)))
  | 0 => none
  | fuel + 1 =>
    match tokens with
    | .flowEnd :: rest => some ⟨done.reverse, [], slots, rest⟩
    | .comma :: rest => readFlow? prefixes slots done rest fuel
    | _ => none

end

/-! ## Documents -/

/-- The directives before a document. -/
structure Prolog where
  hasVersion : Bool
  prefixes : Prefixes

/-- The prefixes that need not be declared. -/
def Prolog.core : Prefixes :=
  [(['!'], .ofChars ['!']), (['!', '!'], .core "")]

/-- All directives from here on. A version is given at most once, and so is each prefix. -/
def Prolog.read? (p : Prolog) : List Token → Option (Prolog × List Token)
  | .directive .version :: rest =>
    if p.hasVersion then none else ({ p with hasVersion := true } : Prolog).read? rest
  | .directive (.handle name stem) :: rest =>
    if (p.prefixes.lookup name).isSome then none
    else ({ p with prefixes := (name, stem) :: p.prefixes } : Prolog).read? rest
  | rest => some (p, rest)

/-- Whether the token comes after a document that is left out. -/
def Token.endsDocument : Token → Bool
  | .directive _ | .documentStart | .documentEnd => true
  | _ => false

/-- The only document of a text. Its beginning must be marked after directives; its end may be
marked any number of times. A text without a document has one that is left out. -/
def Document.ofTokens? (tokens : List Token) : Option Document :=
  match Prolog.read? ⟨false, []⟩ tokens with
  | none => none
  | some (prolog, rest) =>
    let prefixes := prolog.prefixes ++ Prolog.core
    let fuel := 2 * tokens.length + 2
    let content :=
      match rest with
      | .documentStart :: rest =>
        if rest.isEmpty || rest.head?.any Token.endsDocument then some (Reading.empty [] rest)
        else readNode? prefixes [] rest fuel
      | _ =>
        if tokens.isEmpty then some (Reading.empty [] [])
        else if tokens.head?.any Token.endsDocument then none
        else readNode? prefixes [] rest fuel
    match content with
    | none => none
    | some r =>
      if r.rest.all (· == Token.documentEnd) then some ⟨r.result, r.anchored⟩ else none

/-- The document in a text. -/
def Document.ofText? (text : String) : Option Document :=
  (Token.ofText? text).bind ofTokens?

end Binaural.Yaml
