import Binaural.Decimal.Binary
import Binaural.Failure

/-!
Decoding of WAVE files: uncompressed recordings, cut into chunks that begin with a name of four
bytes and a length.

The chunks before the samples are read up to the first that holds samples. Whatever is wrong with
a file, decoding just fails.
-/

namespace Binaural

/-- How the samples of a file are stored. -/
structure WaveFormat where
  channels : Nat
  sampleRate : Nat
  format : SampleFormat
  /-- The number of bits that count. -/
  bits : Nat
  /-- The number of bytes in which a sample is stored. -/
  container : Nat
  deriving DecidableEq, Repr

/-- A file up to its samples. -/
structure Wave where
  format : WaveFormat
  count : Nat
  /-- The bytes from the first sample on. -/
  data : List UInt8

namespace Wave

/-- The number that bytes stand for, the least significant first. -/
def littleEndian : List UInt8 → Nat
  | [] => 0
  | b :: rest => b.toNat + 256 * littleEndian rest

/-- The number in `width` bytes at an offset. -/
def numberAt (offset width : Nat) (bytes : List UInt8) : Nat :=
  littleEndian ((bytes.drop offset).take width)

def word (s : String) : List UInt8 := s.toList.map fun c => UInt8.ofNat c.toNat

/-- The end of all identifiers of sample formats; the first two bytes tell the format. -/
def formatTail : List UInt8 :=
  [0x00, 0x00, 0x00, 0x00, 0x10, 0x00, 0x80, 0x00, 0x00, 0xaa, 0x00, 0x38, 0x9b, 0x71]

/-- The format that a tag of two bytes stands for. -/
def formatOfTag? : Nat → Option SampleFormat
  | 1 => some .integer
  | 3 => some .float
  | _ => none

/-- A format by its tag alone, with the number of bytes that describe it. -/
def plainFormat? (base : WaveFormat) (tag length : Nat) (bytes : List UInt8) :
    Option (WaveFormat × Nat) :=
  if tag = 1 then
    if length = 16 then some ({ base with format := .integer }, 16)
    else if (length = 18 ∨ length = 40) ∧ (base.bits = 8 ∨ base.bits = 16 ∨ base.bits = 24) then
      some ({ base with format := .integer }, length)
    else none
  else if tag = 3 ∧ base.bits = 32 then
    if length = 16 then some ({ base with format := .float }, 16)
    else if length = 18 ∧ 18 ≤ bytes.length ∧ numberAt 16 2 bytes = 0 then
      some ({ base with format := .float }, 18)
    else none
  else none

/-- A format by an identifier of sixteen bytes, with the number of bytes that describe it. The
number of bits that count, if given, replaces the other. -/
def extendedFormat? (base : WaveFormat) (length : Nat) (bytes : List UInt8) :
    Option (WaveFormat × Nat) :=
  let valid := numberAt 18 2 bytes
  let identifier := (bytes.drop 24).take 16
  if length < 40 ∨ bytes.length < 40 ∨ numberAt 16 2 bytes ≠ 22
      ∨ identifier.drop 2 ≠ formatTail then none
  else
    (formatOfTag? (littleEndian (identifier.take 2))).map fun format =>
      ({ base with format, bits := if 0 < valid then valid else base.bits }, 40)

/-- The format that a chunk of a length describes, with the number of bytes that do so. The bits of a
stored sample must be a number of two bytes. -/
def readFormat? (length : Nat) (bytes : List UInt8) : Option (WaveFormat × Nat) :=
  let tag := numberAt 0 2 bytes
  let channels := numberAt 2 2 bytes
  let rate := numberAt 4 4 bytes
  let block := numberAt 12 2 bytes
  let bits := numberAt 14 2 bytes
  let container := block / channels
  let base : WaveFormat := ⟨channels, rate, .integer, bits, container⟩
  if length < 16 ∨ bytes.length < 16 ∨ channels = 0 ∨ 8 * container < bits ∨ 65535 < 8 * container
      ∨ numberAt 8 4 bytes ≠ block * rate ∨ bits % 8 ≠ 0 ∨ bits = 0 then none
  else
    let format := if tag = 0xFFFE then extendedFormat? base length bytes
      else plainFormat? base tag length bytes
    format.filter fun f => f.2 ≤ bytes.length

/-- A file whose samples, `length` bytes of them, come next. -/
def ofData? (format : WaveFormat) (length : Nat) (data : List UInt8) : Option Wave :=
  let count := length / format.container
  if length % format.container ≠ 0 ∨ count % format.channels ≠ 0 then none
  else some ⟨format, count, data⟩

/-- Chunk after chunk up to the samples. The format must have been described by then. -/
def readChunks? (format : Option WaveFormat) : List UInt8 → Option Wave
  | a :: b :: c :: d :: e :: f :: g :: h :: rest =>
    let name := [a, b, c, d]
    let length := littleEndian [e, f, g, h]
    if name = word "fmt " then
      match readFormat? length rest with
      | some (described, used) => readChunks? (some described) (rest.drop used)
      | none => none
    else if name = word "fact" then
      if rest.length < 4 then none else readChunks? format (rest.drop 4)
    else if name = word "data" then format.bind fun format => ofData? format length rest
    else if rest.length < length then none
    else readChunks? format (rest.drop length)
  | _ => none
termination_by bytes => bytes.length
decreasing_by all_goals simp only [List.length_cons, List.length_drop]; omega

/-- The file that bytes are, up to its samples. -/
def ofBytes? (bytes : List UInt8) : Option Wave :=
  if bytes.take 4 = word "RIFF" ∧ (bytes.drop 8).take 4 = word "WAVE" then
    readChunks? none (bytes.drop 12)
  else none

/-! ## Samples -/

/-- The signed number whose `bits` bits are those of a natural number. -/
def signed (bits n : Nat) : Int :=
  let low := n % Nat.pow 2 bits
  if low < Nat.pow 2 (bits - 1) then low else (low : Int) - Nat.pow 2 bits

/-- An integer sample out of its bytes. A single byte is stored without sign, above 128. -/
def integer? (format : WaveFormat) (bytes : List UInt8) : Option Int :=
  let n := littleEndian bytes
  match format.container, format.bits with
  | 1, 8 => some ((n : Int) - 128)
  | 2, 16 => some (signed 16 n)
  | 3, 24 => some (signed 24 n)
  | 4, 24 => some (signed 24 n)
  | 4, 32 => some (signed 32 n)
  | _, _ => none

def float? (format : WaveFormat) (bytes : List UInt8) : Option Float :=
  match format.container, format.bits with
  | 4, 32 => some (BinaryFormat.single.decode (littleEndian bytes)).toFloat
  | _, _ => none

/-- `count` samples of `width` bytes each, after those that are `done` already, the last first. -/
def readSamples? {β : Type} (read? : List UInt8 → Option β) (width : Nat) (done : List β) :
    (count : Nat) → List UInt8 → Option (List β)
  | 0, _ => some done.reverse
  | count + 1, bytes =>
    let sample := bytes.take width
    if sample.length < width then none
    else
      match read? sample with
      | none => none
      | some x => readSamples? read? width (x :: done) count (bytes.drop width)

def integers? (w : Wave) : Option (List Int) :=
  readSamples? (integer? w.format) w.format.container [] w.count w.data

def floats? (w : Wave) : Option (List Float) :=
  readSamples? (float? w.format) w.format.container [] w.count w.data

end Wave

end Binaural
