import Binaural.Failure
import Binaural.Files.NativePath
import Binaural.Text.DecimalDigit

/-!
The angles in the name of a recording: `L`, the elevation, `e`, the azimuth, and `a.wav`.

An angle is an optional minus sign and decimal digits. The digits may be those of any script for
the name to have this form, but only ASCII digits denote an integer.
-/

namespace Binaural.FileName

/-- An angle at the head of a text, as it is written, and what follows it. -/
def takeAngle? (text : List Char) : Option (List Char × List Char) :=
  let (minus, rest) :=
    match text with
    | '-' :: rest => (['-'], rest)
    | _ => ([], text)
  let digits := rest.takeWhile DecimalDigit.isDecimalDigit
  if digits.isEmpty then none
  else some (minus ++ digits, rest.dropWhile DecimalDigit.isDecimalDigit)

/-- The two angles of a name, as they are written. -/
def angleTexts? : List Char → Option (List Char × List Char)
  | 'L' :: text =>
    match takeAngle? text with
    | some (elevation, 'e' :: text) =>
      match takeAngle? text with
      | some (azimuth, ['a', '.', 'w', 'a', 'v']) => some (elevation, azimuth)
      | _ => none
    | _ => none
  | _ => none

/-- The value of ASCII digits. -/
def natValue (digits : List Char) : Nat :=
  digits.foldl (fun n c => n * 10 + (c.toNat - '0'.toNat)) 0

/-- The integer of 32 bits that is written as an optional minus sign and ASCII digits. -/
def angle? (text : List Char) : Option Int :=
  let (negative, digits) :=
    match text with
    | '-' :: digits => (true, digits)
    | digits => (false, digits)
  let value : Int := if negative then -(natValue digits : Int) else natValue digits
  if digits.all Char.isDigit ∧ -2147483648 ≤ value ∧ value < 2147483648 then some value else none

/-- Why a name tells no angles: it has not the form of a recording, or a number in it is not an
integer of 32 bits. -/
inductive Fault
  | form
  | angle (text : String)
  deriving DecidableEq, Repr

/-- A fault as the error at a path. -/
def Fault.report (path : Path) : Fault → ParseError
  | .form => .fileName path
  | .angle text => .angle path text

/-- The elevation and azimuth that a name tells. -/
def read (name : String) : Except Fault (Int × Int) :=
  match angleTexts? name.toList with
  | none => .error .form
  | some (elevation, azimuth) =>
    match angle? elevation with
    | none => .error (.angle (String.ofList elevation))
    | some e =>
      match angle? azimuth with
      | none => .error (.angle (String.ofList azimuth))
      | some a => .ok (e, a)

/-- The elevation and azimuth that the last component of a path tells, if it is a name at all. -/
def readLast : Option String → Except Fault (Int × Int)
  | none => .error .form
  | some name => read name

def parse (path : Path) : Except ParseError (Int × Int) :=
  (readLast path.fileName?).mapError (Fault.report path)

/-- The same of a path that need not be text. -/
def parseNative (path : NativePath) : Except Fault (Int × Int) := readLast path.fileName?

end Binaural.FileName
