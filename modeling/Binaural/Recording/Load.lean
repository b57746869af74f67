import Binaural.Dataset
import Binaural.Files.Tree
import Binaural.Recording.FileName
import Binaural.Wave

/-!
Loading of a dataset: a directory with one directory for each elevation, which holds one recording
for each azimuth. The angles are those of the names of the recordings; the names of the directories
matter only for finding them.

How files are decoded is a parameter of loading (`Recording.Decoder`).
-/

namespace Binaural.Recording

/-- Whether a name is one of a directory of recordings: it begins with `elev`. -/
def isElevationName (name : String) : Bool :=
  "elev".toList.isPrefixOf name.toList

/-- Whether a name may be one of a recording: it is `L`, anything, and `.wav`. -/
def isRecordingName (name : String) : Bool :=
  match name.toList with
  | 'L' :: rest => ".wav".toList.isSuffixOf rest
  | _ => false

/-- Names in ascending order. -/
def sortNames (names : List String) : List String :=
  names.mergeSort fun a b => decide (a ≤ b)

/-- The entries of a directory whose name and kind are wanted, in the order of their names. -/
def entries (t : FileTree) (directory : Path) (wanted : String → FileEntry → Bool) :
    Except IoError (List Path) :=
  match t.list directory with
  | .error fault => .error (.file directory fault)
  | .ok found =>
    let names := (found.filter fun e => wanted e.1 e.2).map Prod.fst
    .ok ((sortNames names).map directory.join)

/-- Whether an entry is a directory of recordings. -/
def isElevation (name : String) (entry : FileEntry) : Bool :=
  isElevationName name && entry.isDirectory

/-- Whether an entry is a recording. -/
def isRecording (name : String) (entry : FileEntry) : Bool :=
  isRecordingName name && !entry.isDirectory

/-- The recordings in all of the directories, one directory after the other. -/
def inDirectories (t : FileTree) : List Path → Except IoError (List Path)
  | [] => .ok []
  | directory :: rest =>
    match entries t directory isRecording with
    | .error e => .error e
    | .ok found => (inDirectories t rest).map (found ++ ·)

/-- All recordings below a root, in order. -/
def discover (t : FileTree) (root : Path) : Except IoError (List Path) :=
  match entries t root isElevation with
  | .error e => .error e
  | .ok directories => inDirectories t directories

/-- What opens files and gives their samples. Each of its answers may be that there is none. -/
structure Decoder (ω : Type) where
  open? : List UInt8 → Option ω
  format : ω → WaveFormat
  integers? : ω → Option (List Int)
  floats? : ω → Option (List Float)

/-- The decoder of WAVE files. -/
def Decoder.wave : Decoder Wave := ⟨Wave.ofBytes?, Wave.format, Wave.integers?, Wave.floats?⟩

/-- A recording that has been decoded. -/
structure Decoded where
  elevation : Int
  azimuth : Int
  bits : Nat
  samples : List Float

/-- An integer sample as a fraction of the full scale of its bits. -/
def normalize (bits : Nat) (sample : Int) : Float :=
  Float.ofInt sample / Float.ofNat (Nat.pow 2 (bits - 1))

section Decoding

variable {ω : Type} (decoder : Decoder ω)

/-- The samples of an opened file, which must be one channel at the one sample rate. -/
def samples (path : Path) (w : ω) : Except (CompileError Float) (List Float) :=
  let undecodable : CompileError Float := .io .load (.undecodable path)
  let f := decoder.format w
  if f.sampleRate ≠ Binaural.sampleRate then
    .error (.integrity (.sampleRate path Binaural.sampleRate f.sampleRate))
  else if f.channels ≠ 1 then .error (.integrity (.channels path f.channels))
  else
    match f.format with
    | .float =>
      if f.bits = 32 then
        match decoder.floats? w with
        | some xs => .ok xs
        | none => .error undecodable
      else .error (.integrity (.sampleFormat path f.bits .float))
    | .integer =>
      if 8 ≤ f.bits ∧ f.bits ≤ 32 then
        match decoder.integers? w with
        | some xs => .ok (xs.map (normalize f.bits))
        | none => .error undecodable
      else .error (.integrity (.sampleFormat path f.bits .integer))

/-- The recording at a path. -/
def decode (t : FileTree) (path : Path) : Except (CompileError Float) Decoded :=
  match FileName.parse path with
  | .error e => .error (.parse e)
  | .ok (elevation, azimuth) =>
    match t.read path with
    | .error _ => .error (.io .load (.undecodable path))
    | .ok bytes =>
      match decoder.open? bytes.toList with
      | none => .error (.io .load (.undecodable path))
      | some w =>
        (samples decoder path w).map fun samples =>
          ⟨elevation, azimuth, (decoder.format w).bits, samples⟩

/-- The recordings at all paths; the first that cannot be decoded ends it. -/
def decodeAll (t : FileTree) : List Path → Except (CompileError Float) (List (Path × Decoded))
  | [] => .ok []
  | path :: rest =>
    match decode decoder t path with
    | .error e => .error e
    | .ok r =>
      match decodeAll t rest with
      | .error e => .error e
      | .ok rs => .ok ((path, r) :: rs)

end Decoding

/-- The measurement that a recording is. -/
def Decoded.measurement (r : Decoded) : Measurement Float :=
  ⟨r.elevation, r.azimuth, r.samples⟩

/-- The dataset of decoded recordings, all of the bit depth of the first. -/
def assemble (bits : Nat) (recordings : List (Path × Decoded)) :
    Except (IntegrityError Float) (Dataset Float) :=
  match recordings.find? fun r => r.2.bits != bits with
  | some (path, r) => .error (.bitDepth path bits r.bits)
  | none => Dataset.ofMeasurements (recordings.map fun r => r.2.measurement)

/-- The dataset below a root, of files that a decoder opens. All recordings are decoded before any
two are compared. -/
def Decoder.loadDataset {ω : Type} (decoder : Decoder ω) (t : FileTree) (root : Path) :
    Except (CompileError Float) (Dataset Float) :=
  match discover t root with
  | .error e => .error (.io .load e)
  | .ok paths =>
    match decodeAll decoder t paths with
    | .error e => .error e
    | .ok [] => .error (.integrity (.noRecordings root))
    | .ok (first :: rest) =>
      match assemble first.2.bits (first :: rest) with
      | .error e => .error (.integrity e)
      | .ok dataset => .ok dataset

/-- The dataset of the WAVE files below a root. -/
def loadDataset (t : FileTree) (root : Path) : Except (CompileError Float) (Dataset Float) :=
  Decoder.wave.loadDataset t root

end Binaural.Recording
