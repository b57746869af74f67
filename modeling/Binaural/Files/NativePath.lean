import Binaural.Files.Path

/-!
Paths as the system has them: bytes, which need not be text.

The bytes of a slash and of a dot stand for nothing else in UTF-8, so the last component of a path
can be told before it is known whether the path is text.
-/

namespace Binaural

/-- Whether a stretch between slashes counts: it is not empty and not the directory itself. -/
def counts {γ : Type} [BEq γ] (dot : γ) (stretch : List γ) : Bool :=
  !(stretch.isEmpty || stretch == [dot])

/-- The last stretch between slashes that counts, unless it is the directory above. -/
def lastName? {γ : Type} [BEq γ] (slash dot : γ) (path : List γ) : Option (List γ) :=
  ((path.splitOn slash).reverse.find? (counts dot)).filter (· != [dot, dot])

/-- The bytes of a text. -/
def utf8 (text : List Char) : List UInt8 := text.flatMap String.utf8EncodeChar

/-- The path of a file or directory. -/
structure NativePath where
  bytes : List UInt8
  deriving DecidableEq, Repr

namespace NativePath

def slash : UInt8 := '/'.toUInt8

def dot : UInt8 := '.'.toUInt8

/-- The last component of a path, if it is a name and text. -/
def fileName? (p : NativePath) : Option String :=
  (lastName? slash dot p.bytes).bind fun name => String.fromUTF8? ⟨name.toArray⟩

end NativePath

/-- A path of text as the system has it. -/
def Path.native (p : Path) : NativePath := ⟨utf8 p.text.toList⟩

end Binaural
