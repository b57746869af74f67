import Binaural.Failure

/-!
A file system as a value.

Every file and directory is an entry with the names that lead to it. A directory lists its entries
in the order of the tree, which says nothing about their names. A path is followed name by name, and
the first name that cannot be followed tells what is wrong with it.
-/

namespace Binaural

/-- What is at a place in a file system. -/
inductive FileEntry
  | directory
  | file (contents : ByteArray)

/-- Whether the entry can have entries inside. -/
def FileEntry.isDirectory : FileEntry → Bool
  | .directory => true
  | .file _ => false

/-- The entries of a file system, each with the names that lead to it from the starting point. The
starting point itself is always a directory. -/
structure FileTree where
  entries : List (List String × FileEntry)

namespace FileTree

/-- The file system without entries. -/
def empty : FileTree := ⟨[]⟩

/-- What is at a place. Above the starting point there are only directories. -/
def entry? (t : FileTree) (place : List String) : Option FileEntry :=
  if place.isEmpty || place.getLast? == some ".." then some .directory
  else (t.entries.find? fun e => e.1 == place).map Prod.snd

/-- A place with something new at it. What was there is replaced; a new entry comes last. -/
def insert (t : FileTree) (place : List String) (entry : FileEntry) : FileTree :=
  match t.entry? place with
  | none => ⟨t.entries ++ [(place, entry)]⟩
  | some _ => ⟨t.entries.map fun e => if e.1 == place then (place, entry) else e⟩

/-- All directories on the way to a place. -/
def insertParents (t : FileTree) (place : List String) : FileTree :=
  ((List.range place.length).map place.take).foldl
    (fun t parent => if (t.entry? parent).isSome then t else t.insert parent .directory) t

/-! ## Following paths -/

/-- The greatest number of bytes in a name. -/
def maxNameSize : Nat := 255

/-- The number of bytes that a path cannot reach. -/
def pathSizeBound : Nat := 4096

/-- Whether the name is one that every directory has: its own, or that of the one above. -/
def isDots (name : String) : Bool := name == "." || name == ".."

/-- The place one name further. A step to the parent undoes the last step to a name; above the root
is the root itself. -/
def step (place : List String) (name : String) : List String :=
  if name == "." then place
  else if name == ".." then
    if place == ["/"] then place
    else if place.isEmpty || place.getLast? == some ".." then place ++ [".."]
    else place.dropLast
  else place ++ [name]

/-- The place where a path starts. -/
def start (p : Path) : List String := if p.isAbsolute then ["/"] else []

/-- The place that a name leads to from a directory. -/
def follow (place : List String) (name : String) : Except FileFault (List String) :=
  if maxNameSize < name.utf8ByteSize then .error .nameTooLong else .ok (step place name)

/-- The directory at the end of names. Only directories can be passed on the way. -/
def enter (t : FileTree) (place : List String) : List String → Except FileFault (List String)
  | [] => .ok place
  | name :: rest =>
    match follow place name with
    | .error e => .error e
    | .ok next =>
      match t.entry? next with
      | none => .error .notFound
      | some (.file _) => .error .notDirectory
      | some .directory => t.enter next rest

/-- What is wrong with the text of a path, wherever it leads. -/
def textFault? (p : Path) : Option FileFault :=
  if p.text.toList.contains '\x00' then some .nulByte
  else if p.text.isEmpty then some .notFound
  else if pathSizeBound ≤ p.text.utf8ByteSize then some .nameTooLong
  else none

/-- The directory that the last name of a path is looked up in. -/
def enterParent (t : FileTree) (p : Path) : Except FileFault (List String) :=
  match textFault? p with
  | some e => .error e
  | none => t.enter (start p) p.names.dropLast

/-- The place of a path. -/
def locate (t : FileTree) (p : Path) : Except FileFault (List String) :=
  match t.enterParent p with
  | .error e => .error e
  | .ok parent =>
    match p.names.getLast? with
    | none => .ok parent
    | some name => follow parent name

/-! ## Files and directories -/

/-- The contents of a file. -/
def read (t : FileTree) (p : Path) : Except FileFault ByteArray :=
  match t.locate p with
  | .error e => .error e
  | .ok place =>
    match t.entry? place with
    | none => .error .notFound
    | some .directory => .error .isDirectory
    | some (.file contents) =>
      if p.endsInSlash then .error .notDirectory else .ok contents

/-- The contents of a file as text. -/
def readText (t : FileTree) (p : Path) : Except FileFault String :=
  match t.read p with
  | .error e => .error e
  | .ok bytes =>
    match String.fromUTF8? bytes with
    | none => .error .notText
    | some text => .ok text

/-- The name of an entry directly inside a place. -/
def childName? (place : List String) (entry : List String × FileEntry) :
    Option (String × FileEntry) :=
  match entry.1.getLast? with
  | some name => if entry.1.dropLast == place then some (name, entry.2) else none
  | none => none

/-- The entries of a directory with their names, in the order in which the file system has them. -/
def list (t : FileTree) (p : Path) : Except FileFault (List (String × FileEntry)) :=
  match t.locate p with
  | .error e => .error e
  | .ok place =>
    match t.entry? place with
    | none => .error .notFound
    | some (.file _) => .error .notDirectory
    | some .directory => .ok (t.entries.filterMap (childName? place))

/-- Whether a path asks for a new directory, which no file can become. -/
def asksForDirectory (p : Path) : Bool :=
  p.endsInSlash && p.names.getLast?.any fun name => !isDots name

/-- The place of a path at which a file can be written. -/
def locateOutput (t : FileTree) (p : Path) : Except FileFault (List String) :=
  match t.enterParent p with
  | .error e => .error e
  | .ok _ => if asksForDirectory p then .error .isDirectory else t.locate p

/-- The file system with a file at a path. Its directory must be there already. -/
def write (t : FileTree) (p : Path) (contents : ByteArray) : Except FileFault FileTree :=
  match t.locateOutput p with
  | .error e => .error e
  | .ok place =>
    match t.entry? place with
    | some .directory => .error .isDirectory
    | _ => .ok (t.insert place (.file contents))

end FileTree

end Binaural
