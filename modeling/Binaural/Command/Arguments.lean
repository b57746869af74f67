import Binaural.Artifact
import Binaural.Files.Path

/-!
The arguments of the program.

Arguments are taken from left to right. The value of an option or a positional argument is kept
until the next argument is known to belong to the command, and only then checked; so an unknown
argument is reported before a bad value that stands in front of it.
-/

namespace Binaural

/-- Why arguments are not accepted, or are a request for help. -/
inductive UsageError
  | help
  | nothingGiven
  | missingCommand
  | unknownCommand
  | unknownArgument
  | missingArgument
  /-- A value that is not of the type of its argument. -/
  | malformedValue
  /-- A value that is not one of those allowed, is missing, or is an empty path. -/
  | invalidValue
  | repeatedOption
  /-- A value for an option that takes none. -/
  | unexpectedValue
  deriving DecidableEq, Repr

/-- What to tell about arguments that are not accepted. -/
def UsageError.message : UsageError → String
  | .help => "This help was asked for."
  | .nothingGiven => "A command is needed."
  | .missingCommand => "A command is needed besides the options."
  | .unknownCommand => "There is no such command."
  | .unknownArgument => "There is no such argument."
  | .missingArgument => "An argument is missing."
  | .malformedValue => "A value is not a number, or too large."
  | .invalidValue => "A value is missing, empty, or not one of those allowed."
  | .repeatedOption => "An option is given twice."
  | .unexpectedValue => "An option has a value and takes none."

/-- What `compile` is asked to do. -/
structure CompileArguments where
  input : Path
  output : Path
  format : OutputFormat
  config : Option Path
  finalLength : Option Nat
  primes : Bool
  deriving DecidableEq, Repr

/-- What `primes` is asked to do. -/
structure PrimesArguments where
  output : Path
  format : OutputFormat
  limit : Nat
  deriving DecidableEq, Repr

/-- What the program is asked to do. -/
inductive Command
  | compile (arguments : CompileArguments)
  | primes (arguments : PrimesArguments)
  deriving DecidableEq, Repr

/-- Where a command puts its artifact. -/
def Command.output : Command → Path
  | .compile a => a.output
  | .primes a => a.output

namespace Arguments

/-! ## What there is -/

/-- The forms that arguments can have. -/
def usage : String :=
  "compile INPUT OUTPUT [--format rust|json] [--config FILE] [--final-length N] [--primes]\n"
    ++ "primes OUTPUT [--format rust|json] [--limit N]\n"
    ++ "Either takes --threads N and --help as well."

/-- The commands. -/
inductive Verb
  | compile
  | primes
  deriving DecidableEq, Repr

/-- An argument that has a value. -/
inductive Slot
  | input
  | output
  | format
  | config
  | finalLength
  | limit
  | threads
  deriving DecidableEq, Repr

/-- What an option name stands for. -/
inductive OptionKind
  | valued (slot : Slot)
  | primes
  | help
  deriving DecidableEq, Repr

/-- The command of a name. -/
def Verb.ofName? (name : String) : Option Verb :=
  if name = "compile" then some .compile else if name = "primes" then some .primes else none

/-- The option of a name, as `command` knows it; the option for threads and the request for help
are known everywhere. -/
def option? (command : Option Verb) (name : String) : Option OptionKind :=
  match command, name with
  | _, "threads" => some (.valued .threads)
  | _, "help" => some .help
  | some _, "format" => some (.valued .format)
  | some .compile, "config" => some (.valued .config)
  | some .compile, "final-length" => some (.valued .finalLength)
  | some .compile, "primes" => some .primes
  | some .primes, "limit" => some (.valued .limit)
  | _, _ => none

/-- The positional arguments of a command, in order. -/
def positionals : Option Verb → List Slot
  | none => []
  | some .compile => [.input, .output]
  | some .primes => [.output]

/-! ## Values -/

/-- The value of decimal digits, of which there is at least one. -/
def digits? (text : List Char) : Option Nat :=
  if text.isEmpty || !text.all Char.isDigit then none
  else some (text.foldl (fun n c => n * 10 + (c.toNat - '0'.toNat)) 0)

/-- A natural number of 64 bits. -/
def size? (text : String) : Option Nat :=
  let digits := match text.toList with
    | '+' :: rest => digits? rest
    | all => digits? all
  digits.filter (· < Nat.pow 2 64)

/-- A natural number of 32 bits. It may have a minus sign if it is zero. -/
def word? (text : String) : Option Nat :=
  let digits := match text.toList with
    | '-' :: rest => (digits? rest).filter (· = 0)
    | '+' :: rest => digits? rest
    | all => digits? all
  digits.filter (· < Nat.pow 2 32)

/-- The format of a name. -/
def format? (text : String) : Option OutputFormat :=
  if text = "rust" then some .rust else if text = "json" then some .json else none

/-- What has been given so far, with values that have been checked. -/
structure Given where
  input : Option Path
  output : Option Path
  format : Option OutputFormat
  config : Option Path
  finalLength : Option Nat
  limit : Option Nat
  threads : Option Nat
  primes : Bool

/-- Nothing. -/
def Given.nothing : Given := ⟨none, none, none, none, none, none, none, false⟩

/-- A value put into an empty slot. -/
def fill {β : Type} (slot : Option β) (value : Option β) (bad : UsageError) :
    Except UsageError (Option β) :=
  match slot, value with
  | some _, _ => .error .repeatedOption
  | none, none => .error bad
  | none, some x => .ok (some x)

/-- A path that is not empty. -/
def path? (text : String) : Option Path := if text.isEmpty then none else some ⟨text⟩

/-- The value of an argument checked and noted. -/
def Given.set (g : Given) (slot : Slot) (text : String) : Except UsageError Given :=
  match slot with
  | .input => (fill g.input (path? text) .invalidValue).map fun x => { g with input := x }
  | .output => (fill g.output (path? text) .invalidValue).map fun x => { g with output := x }
  | .config => (fill g.config (path? text) .invalidValue).map fun x => { g with config := x }
  | .format => (fill g.format (format? text) .invalidValue).map fun x => { g with format := x }
  | .finalLength =>
    (fill g.finalLength (size? text) .malformedValue).map fun x => { g with finalLength := x }
  | .limit => (fill g.limit (word? text) .malformedValue).map fun x => { g with limit := x }
  | .threads => (fill g.threads (size? text) .malformedValue).map fun x => { g with threads := x }

/-! ## Taking arguments -/

/-- An argument whose value is not checked yet: none if the value itself is still to come. -/
structure Pending where
  slot : Slot
  value : Option String

/-- What has been understood of the arguments of one command. -/
structure Progress where
  given : Given
  pending : Option Pending
  /-- The positional arguments still to come. -/
  positionals : List Slot

/-- The pending value checked. An option that is still without value has none. -/
def Progress.settle (p : Progress) : Except UsageError Progress :=
  match p.pending with
  | none => .ok p
  | some ⟨_, none⟩ => .error .invalidValue
  | some ⟨slot, some text⟩ =>
    (p.given.set slot text).map fun g => { p with given := g, pending := none }

/-- Whether the value of an option comes next. -/
def Progress.awaitsValue (p : Progress) : Bool :=
  match p.pending with
  | some ⟨_, none⟩ => true
  | _ => false

/-- The value that the pending option was waiting for. -/
def Progress.takeValue (p : Progress) (text : String) : Progress :=
  { p with pending := p.pending.map fun q => { q with value := some text } }

/-- A positional argument. One too many is unknown. -/
def Progress.takePositional (p : Progress) (text : String) : Except UsageError Progress :=
  match p.positionals with
  | [] => .error .unknownArgument
  | slot :: rest => do
    let p ← p.settle
    .ok { p with pending := some ⟨slot, some text⟩, positionals := rest }

/-- The name and the attached value, if there is one, of an option written out. -/
def splitOption (text : List Char) : String × Option String :=
  let name := text.takeWhile (· != '=')
  match text.drop name.length with
  | _ :: value => (String.ofList name, some (String.ofList value))
  | [] => (String.ofList name, none)

/-- An option written out, `text` being what follows the two dashes. -/
def Progress.takeOption (command : Option Verb) (p : Progress) (text : List Char) :
    Except UsageError Progress :=
  let (name, attached) := splitOption text
  match option? command name, attached with
  | none, _ => .error .unknownArgument
  | some (.valued slot), none => do
    let p ← p.settle
    .ok { p with pending := some ⟨slot, none⟩ }
  | some (.valued slot), some value => do
    let p ← p.settle
    .ok { p with given := ← p.given.set slot value }
  | some _, some _ => .error .unexpectedValue
  | some .help, none => do
    let _ ← p.settle
    .error .help
  | some .primes, none => do
    let p ← p.settle
    if p.given.primes then .error .repeatedOption
    else .ok { p with given := { p.given with primes := true } }

/-- Options of one letter: only the request for help is one. -/
def Progress.takeLetters (p : Progress) (text : List Char) : Except UsageError Progress :=
  match text with
  | 'h' :: _ => do
    let _ ← p.settle
    .error .help
  | _ => .error .unknownArgument

/-- The arguments of a command, from the first on that has not been taken. After two dashes on their
own all are positional. -/
def takeAll (command : Verb) (p : Progress) : (escaped : Bool) → List String →
    Except UsageError Progress
  | _, [] => p.settle
  | true, text :: rest => do takeAll command (← p.takePositional text) true rest
  | false, text :: rest =>
    match text.toList with
    | ['-', '-'] => takeAll command p true rest
    | '-' :: '-' :: option => do
      takeAll command (← p.takeOption (some command) option) false rest
    | '-' :: c :: letters => do takeAll command (← p.takeLetters (c :: letters)) false rest
    | _ =>
      if p.awaitsValue then takeAll command (p.takeValue text) false rest
      else do takeAll command (← p.takePositional text) false rest

/-- The command out of what has been given for it. -/
def Given.command (g : Given) : Verb → Except UsageError Command
  | .compile =>
    match g.input, g.output with
    | some input, some output =>
      .ok (.compile ⟨input, output, g.format.getD .rust, g.config, g.finalLength, g.primes⟩)
    | _, _ => .error .missingArgument
  | .primes =>
    match g.output with
    | some output =>
      .ok (.primes ⟨output, g.format.getD .rust, g.limit.getD Primes.defaultLimit⟩)
    | none => .error .missingArgument

/-- The command whose name has been taken, with its arguments. -/
def commandOf (command : Verb) (arguments : List String) : Except UsageError Command := do
  let p ← takeAll command ⟨.nothing, none, positionals (some command)⟩ false arguments
  p.given.command command

/-- A request for help on a command, given by the names after it. -/
def helpOn : List String → UsageError
  | [] => .help
  | [name] => if name = "help" || (Verb.ofName? name).isSome then .help else .unknownCommand
  | _ => .unknownCommand

/-- What is wrong with the first argument after two dashes, which should be a command. -/
def escapedCommand (name : String) : UsageError :=
  if name = "help" || (Verb.ofName? name).isSome then .unknownArgument else .unknownCommand

/-- The arguments before the name of the command and on from there. What is pending before the
command is checked after the command itself. -/
def takeCommand (p : Progress) : List String → Except UsageError Command
  | [] => do
    let p ← p.settle
    .error (if p.given.threads.isSome then .missingCommand else .nothingGiven)
  | text :: rest =>
    match text.toList with
    | ['-', '-'] =>
      match rest with
      | [] => do
        let p ← p.settle
        .error (if p.given.threads.isSome then .missingCommand else .nothingGiven)
      | name :: _ => .error (escapedCommand name)
    | '-' :: '-' :: option => do takeCommand (← p.takeOption none option) rest
    | '-' :: c :: letters => do takeCommand (← p.takeLetters (c :: letters)) rest
    | _ =>
      if p.awaitsValue then takeCommand (p.takeValue text) rest
      else if text = "help" then .error (helpOn rest)
      else
        match Verb.ofName? text with
        | none => .error .unknownCommand
        | some verb => do
          let command ← commandOf verb rest
          let _ ← p.settle
          .ok command

/-- The command that arguments are. -/
def parse (arguments : List String) : Except UsageError Command :=
  takeCommand ⟨.nothing, none, []⟩ arguments

end Arguments

end Binaural
