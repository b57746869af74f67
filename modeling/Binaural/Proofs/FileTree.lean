import Mathlib
import Binaural.Files.Tree

/-!
Writing to a file system.

A file that is written is at one place, and all that is elsewhere stays, in the same order
(`FileTree.WrittenAt`). So whoever follows the same path afterwards finds what was written
(`FileTree.WrittenAt.readText_eq`).
-/

namespace Binaural.FileTree

variable {t t' : FileTree} {place other : List String} {contents : ByteArray} {p : Path}

/-- The second file system is the first one with a file at a place, and the same elsewhere. -/
structure WrittenAt (place : List String) (contents : ByteArray) (t t' : FileTree) : Prop where
  here : FileTree.entry? t' place = some (.file contents)
  elsewhere : (t'.entries.filter fun e => e.1 ≠ place) = t.entries.filter fun e => e.1 ≠ place

/-- What is at other places is the same. -/
theorem WrittenAt.entry?_eq (written : WrittenAt place contents t t') (different : other ≠ place) :
    FileTree.entry? t' other = t.entry? other := by
  have found (entries : List (List String × FileEntry)) :
      (entries.find? fun e => e.1 == other) =
        (entries.filter fun e => e.1 ≠ place).find? fun e => e.1 == other := by
    rw [List.find?_filter]
    congr 1
    funext e
    by_cases same : e.1 = other
    · simp [same, different]
    · simp [same]
  unfold entry?
  rw [found t'.entries, written.elsewhere, ← found]

theorem filter_insert (t : FileTree) (place : List String) (entry : FileEntry) :
    ((t.insert place entry).entries.filter fun e => e.1 ≠ place) =
      t.entries.filter fun e => e.1 ≠ place := by
  unfold insert
  split
  · simp
  · dsimp only
    induction t.entries with
    | nil => rfl
    | cons e rest ih =>
        rw [List.map_cons, List.filter_cons, List.filter_cons, ih]
        by_cases same : e.1 = place
        · simp [same]
        · simp [same]

theorem entry?_insert {entry : FileEntry} (free : t.entry? place ≠ some .directory) :
    FileTree.entry? (t.insert place entry) place = some entry := by
  have named : ¬ (place.isEmpty || place.getLast? == some "..") = true := by
    intro dots
    unfold entry? at free
    rw [if_pos dots] at free
    exact free rfl
  unfold entry? at free ⊢
  rw [if_neg named] at free ⊢
  unfold insert
  split
  · rename_i absent
    unfold entry? at absent
    rw [if_neg named, Option.map_eq_none_iff] at absent
    simp [absent]
  · rename_i old present
    unfold entry? at present
    rw [if_neg named, Option.map_eq_some_iff] at present
    obtain ⟨e, found, -⟩ := present
    dsimp only
    have keys : ((fun e => e.1 == place) ∘ fun e : List String × FileEntry =>
        if e.1 == place then (place, entry) else e) = fun e => e.1 == place := by
      funext e
      by_cases same : e.1 = place
      · simp [same]
      · simp [same]
    have key := List.find?_some found
    rw [List.find?_map, keys, found, Option.map_some, if_pos key]
    rfl

/-! ## Following paths -/

/-- Directories are not what is written, so they can be entered as before. -/
theorem WrittenAt.enter_eq (written : WrittenAt place contents t t')
    (free : t.entry? place ≠ some .directory) {start last : List String} {names : List String}
    (entered : t.enter start names = .ok last) : t'.enter start names = .ok last := by
  induction names generalizing start with
  | nil => exact entered
  | cons name rest ih =>
      unfold enter at entered ⊢
      split at entered
      · cases entered
      · rename_i next followed
        split at entered
        · cases entered
        · cases entered
        · rename_i directory
          have different : next ≠ place := by
            rintro rfl
            exact free directory
          rw [written.entry?_eq different, directory]
          exact ih entered

theorem WrittenAt.locate_eq (written : WrittenAt place contents t t')
    (free : t.entry? place ≠ some .directory) {q : List String} (located : t.locate p = .ok q) :
    t'.locate p = .ok q := by
  unfold locate enterParent at located ⊢
  split at located
  · cases located
  · rename_i parent entered
    split at entered
    · cases entered
    · rw [written.enter_eq free entered]
      exact located

theorem fromUTF8?_toUTF8 (s : String) : String.fromUTF8? s.toUTF8 = some s := by
  have valid : s.toUTF8.IsValidUTF8 := s.isValidUTF8
  rw [String.fromUTF8?, dif_pos valid]
  rfl

/-- Along every path to a file that was written, its text is read, unless the path asks for a
directory. -/
theorem WrittenAt.readText_eq {text : String} (written : WrittenAt place text.toUTF8 t t')
    (free : t.entry? place ≠ some .directory) (located : t.locate p = .ok place)
    (plain : p.endsInSlash = false) : t'.readText p = .ok text := by
  have bytes : t'.read p = .ok text.toUTF8 := by
    rw [read, written.locate_eq free located]
    dsimp only
    rw [written.here]
    dsimp only
    rw [plain, if_neg Bool.false_ne_true]
  rw [readText, bytes]
  dsimp only
  rw [fromUTF8?_toUTF8]

/-! ## Writing -/

/-- A file can be written where the path leads, unless a directory is there. -/
theorem write_eq_ok_iff : t.write p contents = .ok t' ↔
    ∃ place, t.locateOutput p = .ok place ∧ t.entry? place ≠ some .directory ∧
      t' = t.insert place (.file contents) := by
  unfold write
  cases t.locateOutput p with
  | error e => simp
  | ok place =>
      simp only [Except.ok.injEq, exists_eq_left']
      split
      · rename_i directory
        exact ⟨nofun, fun ⟨free, _⟩ => absurd directory free⟩
      · rename_i free
        exact ⟨fun written => ⟨free, (Except.ok.inj written).symm⟩, fun ⟨_, same⟩ => same ▸ rfl⟩

theorem locate_of_locateOutput (located : t.locateOutput p = .ok place) :
    t.locate p = .ok place := by
  unfold locateOutput at located
  split at located
  · cases located
  · split at located
    · cases located
    · exact located

theorem writtenAt_insert (free : t.entry? place ≠ some .directory) :
    WrittenAt place contents t (t.insert place (.file contents)) :=
  ⟨entry?_insert free, filter_insert t place _⟩

end Binaural.FileTree
