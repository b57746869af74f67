import Binaural.Proofs.Listing

/-!
Finding recordings.

Below a root that can be read, the recordings are found all, once each and in the order of their
paths (`Recording.discover_eq`), whatever the order in which the directories are listed
(`Recording.discover_of_perm`).
-/

namespace Binaural

variable {t t' : FileTree} {root : Path} {place : List String}

/-! ## Wanted names -/

namespace Recording

theorem isElevation_iff {name : String} {entry : FileEntry} :
    isElevation name entry = true ↔ (∃ rest, name = "elev" ++ rest) ∧ entry = .directory := by
  have prefixed : isElevationName name = true ↔ ∃ rest, name = "elev" ++ rest := by
    rw [isElevationName, List.isPrefixOf_iff_prefix]
    constructor
    · rintro ⟨rest, text⟩
      have back : (String.ofList rest).toList = rest := String.toList_ofList
      refine ⟨String.ofList rest, String.toList_inj.mp ?_⟩
      rw [String.toList_append, back]
      exact text.symm
    · rintro ⟨rest, rfl⟩
      rw [String.toList_append]
      exact List.prefix_append _ _
  rw [isElevation, Bool.and_eq_true, prefixed]
  cases entry with
  | directory => simp [FileEntry.isDirectory]
  | file contents => simp [FileEntry.isDirectory]

theorem isRecording_iff {name : String} {entry : FileEntry} :
    isRecording name entry = true ↔
      (∃ rest, name = "L" ++ rest ++ ".wav") ∧ ∃ contents, entry = .file contents := by
  have enclosed : isRecordingName name = true ↔ ∃ rest, name = "L" ++ rest ++ ".wav" := by
    constructor
    · intro wanted
      unfold isRecordingName at wanted
      split at wanted
      · rename_i chars text
        obtain ⟨rest, ends⟩ := List.isSuffixOf_iff_suffix.mp wanted
        have back : (String.ofList rest).toList = rest := String.toList_ofList
        refine ⟨String.ofList rest, String.toList_inj.mp ?_⟩
        rw [text, ← ends, String.toList_append, String.toList_append, back]
        rfl
      · cases wanted
    · rintro ⟨rest, rfl⟩
      have text : ("L" ++ rest ++ ".wav").toList = 'L' :: (rest.toList ++ ".wav".toList) := by
        rw [String.toList_append, String.toList_append, List.append_assoc]
        rfl
      rw [isRecordingName, text]
      exact List.isSuffixOf_iff_suffix.mpr (List.suffix_append _ _)
  rw [isRecording, Bool.and_eq_true, enclosed]
  cases entry with
  | directory => simp [FileEntry.isDirectory]
  | file contents => simp [FileEntry.isDirectory]

end Recording

/-- Names in a plain tree are names of entries, unless they begin with a dot or a slash. -/
theorem FileTree.Plain.isEntryName (plain : t.Plain) {name : String} {entry : FileEntry}
    (member : (place ++ [name], entry) ∈ t.entries) (first : Char) (rest : List Char)
    (text : name.toList = first :: rest) (noDot : first ≠ '.') (noSlash : first ≠ '/') :
    Path.IsEntryName name := by
  have differs (other : String) (c : Char) (others : List Char) (text' : other.toList = c :: others)
      (different : first ≠ c) : name ≠ other := by
    rintro rfl
    exact different (List.cons.inj (text.symm.trans text')).1
  constructor
  · rintro rfl
    cases text
  · exact differs "." '.' [] rfl noDot
  · exact differs ".." '.' ['.'] rfl noDot
  · intro slash
    have root : place ++ [name] = [] ++ ["/"] :=
      plain.named _ member name List.getLast?_concat slash
    have single : name = "/" := List.singleton_inj.mp (List.append_inj_right' root rfl)
    exact differs "/" '/' [] rfl noSlash single

namespace Recording

theorem isEntryName_of_isElevation (plain : t.Plain) {name : String} {entry : FileEntry}
    (member : (place ++ [name], entry) ∈ t.entries) (wanted : isElevation name entry = true) :
    Path.IsEntryName name := by
  obtain ⟨⟨rest, text⟩, -⟩ := isElevation_iff.mp wanted
  refine plain.isEntryName member 'e' ('l' :: 'e' :: 'v' :: rest.toList) ?_ (by decide) (by decide)
  rw [text, String.toList_append]
  rfl

theorem isEntryName_of_isRecording (plain : t.Plain) {name : String} {entry : FileEntry}
    (member : (place ++ [name], entry) ∈ t.entries) (wanted : isRecording name entry = true) :
    Path.IsEntryName name := by
  obtain ⟨⟨rest, text⟩, -⟩ := isRecording_iff.mp wanted
  refine plain.isEntryName member 'L' (rest.toList ++ ".wav".toList) ?_ (by decide) (by decide)
  rw [text, String.toList_append, String.toList_append, List.append_assoc]
  rfl

/-! ## Recordings below a root -/

/-- The path and the contents of a recording: a file named `L*.wav` directly inside a directory
named `elev*` directly inside the place of the root. -/
inductive IsBelow (t : FileTree) (root : Path) (place : List String) : Path → ByteArray → Prop
  | intro {directory file rest rest' : String} {contents : ByteArray}
    (elevation : directory = "elev" ++ rest)
    (directories : (place ++ [directory], FileEntry.directory) ∈ t.entries)
    (recording : file = "L" ++ rest' ++ ".wav")
    (files : (place ++ [directory, file], FileEntry.file contents) ∈ t.entries) :
    IsBelow t root place ((root.join directory).join file) contents

/-- A root that can be listed, as can all directories of recordings inside. -/
structure Readable (t : FileTree) (root : Path) : Prop where
  listed : ∃ found, t.list root = .ok found
  directories : ∀ found, t.list root = .ok found → ∀ e ∈ found, isElevation e.1 e.2 = true →
    ∃ inside, t.list (root.join e.1) = .ok inside

theorem inDirectories_of_entries {names : List String} {directory : String → Path}
    {found : String → List Path}
    (listed : ∀ name ∈ names, entries t (directory name) isRecording = .ok (found name)) :
    inDirectories t (names.map directory) = .ok (names.flatMap found) := by
  induction names with
  | nil => rfl
  | cons name rest ih =>
      obtain ⟨first, others⟩ := List.forall_mem_cons.mp listed
      rw [List.map_cons, inDirectories, first, ih others, List.flatMap_cons]
      rfl

/-- The recordings below a place, directory after directory. -/
def pathsBelow (t : FileTree) (root : Path) (place : List String) : List Path :=
  (namesAt t place isElevation).flatMap fun directory =>
    (namesAt t (place ++ [directory]) isRecording).map (root.join directory).join

/-- The directories of recordings are listed at their places. -/
theorem list_join (plain : t.Plain) (readable : Readable t root)
    (located : t.locate root = .ok place) (isDirectory : t.entry? place = some .directory)
    {directory : String} (wanted : directory ∈ namesAt t place isElevation) :
    t.list (root.join directory) = .ok (t.children (place ++ [directory])) := by
  obtain ⟨entry, member, elevation⟩ := mem_namesAt_iff.mp wanted
  have named := isEntryName_of_isElevation plain member elevation
  obtain ⟨inside, listed⟩ := readable.directories _
    (FileTree.list_eq_ok_iff.mpr ⟨place, located, isDirectory, rfl⟩) (directory, entry)
    (FileTree.mem_children_iff.mpr member) elevation
  obtain ⟨place', located', -, inside_eq⟩ := FileTree.list_eq_ok_iff.mp listed
  have there := FileTree.place_of_locate_join (FileTree.enter_of_locate located isDirectory)
    (FileTree.text_ne_of_locate located) named located'
  rw [listed, inside_eq, there]

theorem discover_eq (plain : t.Plain) (readable : Readable t root)
    (located : t.locate root = .ok place) (isDirectory : t.entry? place = some .directory) :
    discover t root = .ok (pathsBelow t root place) := by
  have listed := FileTree.list_eq_ok_iff.mpr ⟨place, located, isDirectory, rfl⟩
  rw [discover, entries_of_list listed]
  refine inDirectories_of_entries fun directory wanted => ?_
  exact entries_of_list (list_join plain readable located isDirectory wanted)

theorem mem_pathsBelow_iff {p : Path} :
    p ∈ pathsBelow t root place ↔ ∃ contents, IsBelow t root place p contents := by
  simp only [pathsBelow, List.mem_flatMap, List.mem_map, mem_namesAt_iff, isElevation_iff,
    isRecording_iff]
  constructor
  · rintro ⟨directory, ⟨_, member, ⟨rest, elevation⟩, rfl⟩, file, ⟨_, member', ⟨rest', recording⟩,
      contents, rfl⟩, rfl⟩
    rw [List.append_assoc] at member'
    exact ⟨contents, .intro elevation member recording member'⟩
  · rintro ⟨contents, elevation, directories, recording, files⟩
    rename_i directory file rest rest'
    refine ⟨directory, ⟨_, directories, ⟨rest, elevation⟩, rfl⟩, file, ⟨_, ?_, ⟨rest', recording⟩,
      contents, rfl⟩, rfl⟩
    rw [List.append_assoc]
    exact files

/-- The recordings are in the order of their paths. -/
theorem pairwise_pathsBelow (plain : t.Plain) (named : root.text ≠ "") :
    (pathsBelow t root place).Pairwise Path.Before := by
  have components {directory file : String}
      (wanted : directory ∈ namesAt t place isElevation)
      (wanted' : file ∈ namesAt t (place ++ [directory]) isRecording) :
      ((root.join directory).join file).components =
        root.components ++ [.name directory, .name file] := by
    obtain ⟨entry, member, elevation⟩ := mem_namesAt_iff.mp wanted
    obtain ⟨entry', member', recording⟩ := mem_namesAt_iff.mp wanted'
    have isEntry := isEntryName_of_isElevation plain member elevation
    have isEntry' := isEntryName_of_isRecording plain member' recording
    rw [Path.components_join (Path.text_join_ne isEntry) isEntry',
      Path.components_join named isEntry, List.append_assoc]
    rfl
  rw [pathsBelow, List.pairwise_flatMap]
  constructor
  · intro directory wanted
    rw [List.pairwise_map]
    have inside {file : String} (wanted' : file ∈ namesAt t (place ++ [directory]) isRecording) :
        ((root.join directory).join file).components =
          (root.components ++ [.name directory]) ++ [.name file] := by
      rw [components wanted wanted', List.append_assoc]
      rfl
    exact (pairwise_namesAt plain _ _).imp_of_mem fun member member' less =>
      Path.before_of_components (inside member) (inside member') less
  · refine (pairwise_namesAt plain _ _).imp_of_mem fun member member' less p inside p' inside' => ?_
    obtain ⟨file, wanted, rfl⟩ := List.mem_map.mp inside
    obtain ⟨file', wanted', rfl⟩ := List.mem_map.mp inside'
    exact Path.before_of_components (components member wanted) (components member' wanted') less

theorem IsBelow.exists_names (plain : t.Plain) {p : Path} {contents : ByteArray}
    (below : IsBelow t root place p contents) :
    ∃ directory file rest, Path.IsEntryName directory ∧ Path.IsEntryName file ∧
      file = "L" ++ rest ++ ".wav" ∧ p = (root.join directory).join file ∧
      (place ++ [directory, file], FileEntry.file contents) ∈ t.entries := by
  obtain ⟨elevation, directories, recording, files⟩ := below
  rename_i directory file rest rest'
  have inside : (place ++ [directory] ++ [file], FileEntry.file contents) ∈ t.entries := by
    rw [List.append_assoc]
    exact files
  exact ⟨directory, file, rest',
    isEntryName_of_isElevation plain directories (isElevation_iff.mpr ⟨⟨rest, elevation⟩, rfl⟩),
    isEntryName_of_isRecording plain inside
      (isRecording_iff.mpr ⟨⟨rest', recording⟩, contents, rfl⟩), recording, rfl, files⟩

/-- The last component of the path of a recording is the name of its file. -/
theorem IsBelow.fileName? (plain : t.Plain) {p : Path} {contents : ByteArray}
    (below : IsBelow t root place p contents) :
    ∃ rest, p.fileName? = some ("L" ++ rest ++ ".wav") := by
  obtain ⟨directory, file, rest, isEntry, isEntry', rfl, rfl, -⟩ := below.exists_names plain
  exact ⟨rest, Path.fileName?_join (Path.text_join_ne isEntry) isEntry'⟩

/-- What is read at the path of a recording is what its file contains. -/
theorem IsBelow.contents_eq (plain : t.Plain) (located : t.locate root = .ok place)
    (isDirectory : t.entry? place = some .directory) {p : Path} {contents bytes : ByteArray}
    (below : IsBelow t root place p contents) (read : t.read p = .ok bytes) : bytes = contents := by
  obtain ⟨directory, file, rest, isEntry, isEntry', -, rfl, files⟩ := below.exists_names plain
  have entered := FileTree.enter_of_locate located isDirectory
  have named := FileTree.text_ne_of_locate located
  unfold FileTree.read at read
  split at read
  · cases read
  · rename_i place' located'
    have inside := FileTree.enter_of_locate_join entered named isEntry isEntry' located'
    have there := FileTree.place_of_locate_join inside (Path.text_join_ne isEntry) isEntry' located'
    rw [List.append_assoc] at there
    split at read
    · cases read
    · cases read
    · rename_i found
      split at read
      · cases read
      · cases read
        have member := plain.mem_of_entry? found
        rw [there] at member
        have one := List.inj_on_of_nodup_map plain.distinct member files rfl
        exact FileEntry.file.inj (Prod.mk.inj one).2

/-! ## The order of listings -/

theorem inDirectories_of_perm (plain : t.Plain) (permuted : t.entries.Perm t'.entries)
    (directories : List Path) : inDirectories t' directories = inDirectories t directories := by
  induction directories with
  | nil => rfl
  | cons directory rest ih =>
      rw [inDirectories, inDirectories, entries_of_perm plain permuted, ih]

/-- What is found does not depend on the order in which directories are listed. -/
theorem discover_of_perm (plain : t.Plain) (permuted : t.entries.Perm t'.entries) (root : Path) :
    discover t' root = discover t root := by
  unfold discover
  rw [entries_of_perm plain permuted]
  cases entries t root isElevation with
  | error e => rfl
  | ok directories => exact inDirectories_of_perm plain permuted directories

end Recording

end Binaural
