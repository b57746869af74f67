import Binaural.Files.Path
import Binaural.Filter.Butterworth
import Binaural.Violation

/-!
Everything that can make a compilation fail, and how each failure reads.

A `CompileError` names the stage and the offending input; every one of them is fatal to the run. A
`Failure` is either such an error or a promise between the parts of the program that was broken.
-/

namespace Binaural

/-- What the program was doing. -/
inductive Stage
  | configure
  | load
  | analyze
  | equalize
  | clamp
  | minimumPhase
  | rumble
  | emphasis
  | truncate
  | assemble
  | write
  deriving DecidableEq, Repr

def Stage.name : Stage → String
  | .configure => "configuration"
  | .load => "loading"
  | .analyze => "frequency analysis"
  | .equalize => "power equalization"
  | .clamp => "magnitude clamping"
  | .minimumPhase => "minimum phase conversion"
  | .rumble => "rumble removal"
  | .emphasis => "directional emphasis"
  | .truncate => "truncation"
  | .assemble => "assembly"
  | .write => "writing"

/-! ## Recordings and datasets -/

/-- Why no angles can be told from the name of a recording. -/
inductive ParseError
  | fileName (path : Path)
  /-- A number in the name is not an integer of 32 bits. -/
  | angle (path : Path) (text : String)
  deriving DecidableEq, Repr

def ParseError.message : ParseError → String
  | .fileName path => path.text ++ ": file name does not match \x60L<elevation>e<azimuth>a.wav\x60"
  | .angle path text => path.text ++ ": angle " ++ text ++ " does not fit in an integer"

/-- How the samples of a recording are stored. -/
inductive SampleFormat
  | float
  | integer
  deriving DecidableEq, Repr

def SampleFormat.name : SampleFormat → String
  | .float => "float"
  | .integer => "integer"

/-- Why recordings do not make a dataset. -/
inductive IntegrityError (α : Type)
  | tooFewElevations (found : Nat)
  | unevenElevations (expected lower upper : Int)
  | sampleRate (path : Path) (expected found : Nat)
  | channels (path : Path) (found : Nat)
  | bitDepth (path : Path) (expected found : Nat)
  | sampleFormat (path : Path) (bits : Nat) (format : SampleFormat)
  | emptyMeasurement (elevation azimuth : Int)
  | lengthMismatch (elevation azimuth : Int) (expected found : Nat)
  | sampleOutOfRange (elevation azimuth : Int) (index : Nat) (value : α)
  | duplicateAngle (elevation azimuth : Int)
  | noRecordings (root : Path)

/-- An angle as messages give it. -/
def angleText (elevation azimuth : Int) : String :=
  toString elevation ++ " azimuth " ++ toString azimuth

def IntegrityError.message : IntegrityError Float → String
  | .tooFewElevations found =>
    "Found " ++ toString found ++ " elevations, but at least 2 are required"
  | .unevenElevations expected lower upper =>
    "Elevations " ++ toString lower ++ " and " ++ toString upper ++ " are not "
      ++ toString expected ++ " degrees apart like the first two"
  | .sampleRate path expected found =>
    path.text ++ ": sample rate is " ++ toString found ++ ", but must be " ++ toString expected
  | .channels path found =>
    path.text ++ ": has " ++ toString found ++ " channels, but recordings must be mono"
  | .bitDepth path expected found =>
    path.text ++ ": bit depth is " ++ toString found
      ++ ", but the first recording loaded has " ++ toString expected
  | .sampleFormat path bits format =>
    path.text ++ ": unsupported sample format (" ++ toString bits ++ "-bit " ++ format.name ++ ")"
  | .emptyMeasurement elevation azimuth =>
    "Elevation " ++ angleText elevation azimuth ++ ": recording is empty"
  | .lengthMismatch elevation azimuth expected found =>
    "Elevation " ++ angleText elevation azimuth ++ ": recording has " ++ toString found
      ++ " samples, but others have " ++ toString expected
  | .sampleOutOfRange elevation azimuth index value =>
    "Elevation " ++ angleText elevation azimuth ++ ": sample " ++ toString index ++ " is "
      ++ Notation.plain.ofFloat value ++ ", outside [-1, 1]"
  | .duplicateAngle elevation azimuth =>
    "Elevation " ++ angleText elevation azimuth ++ " was measured more than once"
  | .noRecordings root => root.text ++ ": no recordings found"

/-! ## Numbers -/

/-- Where a number is that is not finite. -/
inductive Location
  | angle (elevation azimuth : Int)
  /-- In what is computed from the whole grid at once. -/
  | everywhere
  deriving DecidableEq, Repr

def Location.name : Location → String
  | .angle elevation azimuth => "elevation " ++ angleText elevation azimuth
  | .everywhere => "the global equalization filter"

/-- A number that is not finite, or has no finite level. -/
structure NumericalError (α : Type) where
  location : Location
  index : Nat
  value : α

def NumericalError.message (e : NumericalError Float) : String :=
  "Non-finite value " ++ Notation.plain.ofFloat e.value ++ " at index " ++ toString e.index
    ++ " of " ++ e.location.name

/-! ## Configurations -/

/-- The first demand that a configuration does not meet. -/
inductive ConfigFault (α : Type)
  | finalLength (found : Nat)
  | equalizationCutoff (found : Nat)
  | gains (least greatest : α)
  | minPhaseFloor
  | rumbleCutoff (found : α)
  | rumbleOrder
  | emphasisEdges (passband stopband : α)
  | passbandLoss
  | stopbandGains
  | frontThreshold

def ConfigFault.field {α : Type} : ConfigFault α → String
  | .finalLength _ => "final_length"
  | .equalizationCutoff _ => "equalization_cutoff"
  | .gains _ _ => "min_gain/max_gain"
  | .minPhaseFloor => "min_phase_epsilon"
  | .rumbleCutoff _ => "rumble_cutoff"
  | .rumbleOrder => "rumble_order"
  | .emphasisEdges _ _ => "emphasis.passband/emphasis.stopband"
  | .passbandLoss => "emphasis.passband_loss_db"
  | .stopbandGains => "emphasis.stopband_offset_db/emphasis.max_stopband_db"
  | .frontThreshold => "emphasis.front_threshold"

/-- The demand that is not met. -/
def ConfigFault.reason : ConfigFault Float → String
  | .finalLength found => toString found ++ " is not in 1..=" ++ toString sampleRate
  | .equalizationCutoff found => toString found ++ " Hz is not in 1..=" ++ toString nyquist
  | .gains least greatest =>
    "need 0 <= min_gain <= max_gain, got " ++ Notation.plain.ofFloat least ++ " and "
      ++ Notation.plain.ofFloat greatest
  | .minPhaseFloor => "must be positive"
  | .rumbleCutoff found =>
    Notation.plain.ofFloat found ++ " Hz is not in (0, " ++ toString nyquist ++ ")"
  | .rumbleOrder => "must be at least 1"
  | .emphasisEdges passband stopband =>
    "need 0 < passband < stopband <= " ++ toString nyquist ++ ", got "
      ++ Notation.plain.ofFloat passband ++ " and " ++ Notation.plain.ofFloat stopband
  | .passbandLoss => "must be positive"
  | .stopbandGains => "stopband gains must be negative"
  | .frontThreshold => "must be in (0, 1]"

/-- Why there is no configuration to run with. -/
inductive ConfigError (α : Type)
  | invalid (fault : ConfigFault α)
  /-- A file that is no document of settings. -/
  | unreadable (path : Path)

/-- How a document fails to be one is not part of any message; a mark stands for it. -/
def ConfigError.message : ConfigError Float → String
  | .invalid fault => "Invalid value for " ++ fault.field ++ ": " ++ fault.reason
  | .unreadable path => path.text ++ ": <yaml>"

/-! ## Output and files -/

/-- Why a table of arrays does not take an array. -/
inductive SinkError
  | duplicateArray (name : String)
  deriving DecidableEq, Repr

def SinkError.message : SinkError → String
  | .duplicateArray name => "Array " ++ name ++ " was added twice"

/-- Why the file system does not do what it is asked. -/
inductive FileFault
  | notFound
  | notDirectory
  | isDirectory
  | nameTooLong
  /-- A path with a character that ends the paths of the operating system. -/
  | nulByte
  /-- A file that should be text and is not valid as such. -/
  | notText
  deriving DecidableEq, Repr

def FileFault.message : FileFault → String
  | .notFound => "No such file or directory (os error 2)"
  | .notDirectory => "Not a directory (os error 20)"
  | .isDirectory => "Is a directory (os error 21)"
  | .nameTooLong => "File name too long (os error 36)"
  | .nulByte => "file name contained an unexpected NUL byte"
  | .notText => "stream did not contain valid UTF-8"

/-- Why a file cannot be used. -/
inductive IoError
  | file (path : Path) (fault : FileFault)
  | undecodable (path : Path)
  deriving DecidableEq, Repr

/-- How a recording fails to be one is not part of any message; a mark stands for it. -/
def IoError.message : IoError → String
  | .file path fault => path.text ++ ": " ++ fault.message
  | .undecodable path => path.text ++ ": <wav>"

/-! ## All together -/

/-- The kinds of error of a compilation. -/
inductive Cause (α : Type)
  | parse (error : ParseError)
  | integrity (error : IntegrityError α)
  | numerical (error : NumericalError α)
  | config (error : ConfigError α)
  | design (error : DesignError α)
  | sink (error : SinkError)
  | io (error : IoError)

/-- The report of an error after the name of its kind. -/
def Cause.message : Cause Float → String
  | .parse e => "Parse error: " ++ e.message
  | .integrity e => "Dataset integrity error: " ++ e.message
  | .numerical e => "Numerical error: " ++ e.message
  | .config e => "Configuration error: " ++ e.message
  | .design e => "Filter design error: " ++ e.message
  | .sink e => "Sink error: " ++ e.message
  | .io e => "I/O error: " ++ e.message

/-- An error with the stage that it is attributed to. -/
structure CompileError (α : Type) where
  stage : Stage
  cause : Cause α

namespace CompileError

variable {α : Type}

/-- The report of an error after the stage that it is attributed to. -/
def message (e : CompileError Float) : String :=
  "Failed during " ++ e.stage.name ++ ": " ++ e.cause.message

/-- Names are parsed while loading. -/
def parse (e : ParseError) : CompileError α := ⟨.load, .parse e⟩

/-- Recordings are put together while loading. -/
def integrity (e : IntegrityError α) : CompileError α := ⟨.load, .integrity e⟩

/-- Settings are read and checked first of all. -/
def config (e : ConfigError α) : CompileError α := ⟨.configure, .config e⟩

def numerical (stage : Stage) (location : Location) (index : Nat) (value : α) : CompileError α :=
  ⟨stage, .numerical ⟨location, index, value⟩⟩

def design (stage : Stage) (e : DesignError α) : CompileError α := ⟨stage, .design e⟩

def sink (stage : Stage) (e : SinkError) : CompileError α := ⟨stage, .sink e⟩

def io (stage : Stage) (e : IoError) : CompileError α := ⟨stage, .io e⟩

end CompileError

/-- Why a part of a compilation gives no result. -/
inductive Failure (α : Type)
  | error (e : CompileError α)
  | violation (v : Violation)

namespace Failure

variable {α β : Type}

/-- A result in the presence of promises, as one in the presence of all failures. -/
def ofViolation : Except Violation β → Except (Failure α) β
  | .ok x => .ok x
  | .error v => .error (.violation v)

/-- A result in the presence of errors, as one in the presence of all failures. -/
def ofError : Except (CompileError α) β → Except (Failure α) β
  | .ok x => .ok x
  | .error e => .error (.error e)

/-- A design made during a stage. -/
def ofDesign (stage : Stage) : Except (DesignError α) β → Except (CompileError α) β
  | .ok x => .ok x
  | .error e => .error (.design stage e)

end Failure

end Binaural
