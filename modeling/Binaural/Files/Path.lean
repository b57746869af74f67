/-!
Paths of files, as text with slashes between the components.

A path keeps its text as it was given, so that messages repeat it. Doubled slashes, a slash at the
end and components that stand for the directory itself do not count as components. To follow a path
is another matter: each of its names is a step that must be possible.
-/

namespace Binaural

/-- The characters between every two separators, the empty stretches included. -/
def splitOnChar (separator : Char) : List Char → List (List Char)
  | [] => [[]]
  | c :: rest =>
    if c = separator then [] :: splitOnChar separator rest
    else
      match splitOnChar separator rest with
      | [] => [[c]]
      | first :: others => (c :: first) :: others

/-- The path of a file or directory. -/
structure Path where
  text : String
  deriving DecidableEq, Repr

namespace Path

/-- A component of a path. -/
inductive Component
  /-- The directory that contains all others. -/
  | root
  /-- The directory itself, where a path starts with it. -/
  | current
  | parent
  | name (text : String)
  deriving DecidableEq, Repr

/-- The component that a stretch between two slashes stands for, if it counts. -/
def Component.ofChars? : List Char → Option Component
  | [] => none
  | ['.'] => none
  | ['.', '.'] => some .parent
  | cs => some (.name (String.ofList cs))

/-- The components of a path. -/
def components (p : Path) : List Component :=
  match splitOnChar '/' p.text.toList with
  | [] => []
  | first :: rest =>
    let later := rest.filterMap Component.ofChars?
    match first with
    | [] => if rest.isEmpty then [] else .root :: later
    | ['.'] => .current :: later
    | cs => (Component.ofChars? cs).toList ++ later

/-- The last component of a path, if it is a name. -/
def fileName? (p : Path) : Option String :=
  match p.components.getLast? with
  | some (.name text) => some text
  | _ => none

/-- Whether a path starts at the root. -/
def isAbsolute (p : Path) : Bool :=
  p.components.head? == some .root

/-- The names between the slashes of a path. -/
def names (p : Path) : List String :=
  ((splitOnChar '/' p.text.toList).filter fun cs => !cs.isEmpty).map String.ofList

/-- Whether a path says by a slash at its end that it is one of a directory. -/
def endsInSlash (p : Path) : Bool :=
  p.text.toList.getLast? == some '/'

/-- The path that a text names inside a directory. A text that starts at the root stands for
itself. -/
def join (directory : Path) (name : String) : Path :=
  if name.toList.head? == some '/' then ⟨name⟩
  else if directory.text.isEmpty || directory.text.toList.getLast? == some '/' then
    ⟨directory.text ++ name⟩
  else ⟨directory.text ++ "/" ++ name⟩

end Path

end Binaural
