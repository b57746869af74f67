import Binaural.Proofs.Paths
import Binaural.Recording.Load

/-!
Listing directories.

In a plain tree the order of the entries means nothing: trees that differ in nothing else have the
same files at all paths (`FileTree.Plain.read_of_perm`) and, once they are sorted, the same listings
(`Recording.entries_of_perm`).
-/

namespace Binaural

namespace FileTree

variable {t t' : FileTree} {place : List String} {p : Path} {name : String}

/-- A tree of files and directories at places of their own. No name has a slash in it, but for the
one of the directory that contains all others. -/
structure Plain (t : FileTree) : Prop where
  distinct : (t.entries.map Prod.fst).Nodup
  named : ∀ e ∈ t.entries, ∀ name, e.1.getLast? = some name → '/' ∈ name.toList → e.1 = ["/"]

theorem Plain.of_perm (plain : t.Plain) (permuted : t.entries.Perm t'.entries) : t'.Plain where
  distinct := (permuted.map Prod.fst).nodup_iff.mp plain.distinct
  named e member := plain.named e (permuted.mem_iff.mpr member)

/-! ## Places -/

theorem Plain.find?_eq_some_iff (plain : t.Plain) {e : List String × FileEntry} :
    (t.entries.find? fun e => e.1 == place) = some e ↔ e ∈ t.entries ∧ e.1 = place := by
  constructor
  · intro found
    exact ⟨List.mem_of_find?_eq_some found, by simpa using List.find?_some found⟩
  · rintro ⟨member, here⟩
    cases found : t.entries.find? fun e => e.1 == place with
    | none =>
        have := List.find?_eq_none.mp found e member
        simp [here] at this
    | some other =>
        have there : other.1 = place := by simpa using List.find?_some found
        rw [List.inj_on_of_nodup_map plain.distinct (List.mem_of_find?_eq_some found) member
          (there.trans here.symm)]

theorem Plain.entry?_of_perm (plain : t.Plain) (permuted : t.entries.Perm t'.entries)
    (place : List String) : FileTree.entry? t' place = t.entry? place := by
  have found : (t'.entries.find? fun e => e.1 == place) =
      t.entries.find? fun e => e.1 == place := by
    ext e
    rw [plain.find?_eq_some_iff, (plain.of_perm permuted).find?_eq_some_iff, permuted.mem_iff]
  unfold entry?
  rw [found]

theorem Plain.enter_of_perm (plain : t.Plain) (permuted : t.entries.Perm t'.entries)
    (start : List String) (names : List String) : t'.enter start names = t.enter start names := by
  induction names generalizing start with
  | nil => rfl
  | cons name rest ih =>
      unfold enter
      cases follow start name with
      | error e => rfl
      | ok next =>
          dsimp only
          rw [plain.entry?_of_perm permuted, ih]

theorem Plain.locate_of_perm (plain : t.Plain) (permuted : t.entries.Perm t'.entries) (p : Path) :
    t'.locate p = t.locate p := by
  unfold locate enterParent
  rw [plain.enter_of_perm permuted]

theorem Plain.read_of_perm (plain : t.Plain) (permuted : t.entries.Perm t'.entries) (p : Path) :
    t'.read p = t.read p := by
  unfold read
  rw [plain.locate_of_perm permuted]
  simp only [plain.entry?_of_perm permuted]

/-! ## Entries of directories -/

/-- The entries of the directory at a place, with their names. -/
def children (t : FileTree) (place : List String) : List (String × FileEntry) :=
  t.entries.filterMap (childName? place)

theorem childName?_eq_some_iff {e : List String × FileEntry} {child : String × FileEntry} :
    childName? place e = some child ↔ e = (place ++ [child.1], child.2) := by
  obtain ⟨at', entry⟩ := e
  obtain ⟨name, entry'⟩ := child
  unfold childName?
  dsimp only
  cases last : at'.getLast? with
  | none =>
      rw [List.getLast?_eq_none_iff.mp last]
      simp
  | some name' =>
      obtain ⟨front, rfl⟩ := List.getLast?_eq_some_iff.mp last
      rw [List.dropLast_concat]
      dsimp only
      by_cases here : front = place
      · rw [here, if_pos (beq_self_eq_true place)]
        simp
      · rw [if_neg (mt eq_of_beq here)]
        refine iff_of_false nofun fun same => here ?_
        exact List.append_inj_left' (Prod.mk.inj same).1 rfl

theorem mem_children_iff {child : String × FileEntry} :
    child ∈ t.children place ↔ (place ++ [child.1], child.2) ∈ t.entries := by
  rw [children, List.mem_filterMap]
  simp only [childName?_eq_some_iff, exists_eq_right]

/-- The entries of a directory have different names. -/
theorem Plain.nodup_children (plain : t.Plain) (place : List String) :
    ((t.children place).map Prod.fst).Nodup := by
  have distinct := List.pairwise_map.mp plain.distinct
  rw [children, List.Nodup, List.pairwise_map, List.pairwise_filterMap]
  refine distinct.imp fun different child here child' here' same => different ?_
  rw [childName?_eq_some_iff.mp here, childName?_eq_some_iff.mp here', same]

theorem list_eq_ok_iff {found : List (String × FileEntry)} :
    t.list p = .ok found ↔
      ∃ place, t.locate p = .ok place ∧ t.entry? place = some .directory ∧
        found = t.children place := by
  unfold list
  cases t.locate p with
  | error e => simp
  | ok place =>
      dsimp only
      cases here : t.entry? place with
      | none => simp [here]
      | some entry =>
          cases entry with
          | directory => simp [here, children, eq_comm]
          | file contents => simp [here]

theorem perm_children (permuted : t.entries.Perm t'.entries) (place : List String) :
    (t.children place).Perm (t'.children place) :=
  permuted.filterMap _

/-! ## Inside directories -/

theorem enter_append {start : List String} {names later : List String} :
    t.enter start (names ++ later) =
      match t.enter start names with
      | .error e => .error e
      | .ok place => t.enter place later := by
  induction names generalizing start with
  | nil => rfl
  | cons name rest ih =>
      rw [List.cons_append, enter, enter]
      cases follow start name with
      | error e => rfl
      | ok next =>
          dsimp only
          cases t.entry? next with
          | none => rfl
          | some entry =>
              cases entry with
              | directory => exact ih
              | file contents => rfl

/-- A directory can be entered along its path. -/
theorem enter_of_locate (located : t.locate p = .ok place)
    (directory : t.entry? place = some .directory) : t.enter (start p) p.names = .ok place := by
  unfold locate enterParent at located
  split at located
  · cases located
  · rename_i parent entered
    split at entered
    · cases entered
    · split at located
      · rename_i none
        rw [List.getLast?_eq_none_iff.mp none] at entered ⊢
        rw [← Except.ok.inj located]
        exact entered
      · rename_i name last
        obtain ⟨front, names⟩ := List.getLast?_eq_some_iff.mp last
        rw [names, List.dropLast_concat] at entered
        rw [names, enter_append, entered]
        dsimp only
        rw [enter, located]
        dsimp only
        rw [directory]
        rfl

theorem text_ne_of_locate (located : t.locate p = .ok place) : p.text ≠ "" := by
  intro empty
  unfold locate enterParent textFault? at located
  rw [empty] at located
  cases located

theorem follow_of_isEntryName (entry : Path.IsEntryName name) (place : List String) :
    follow place name =
      if maxNameSize < name.utf8ByteSize then .error .nameTooLong else .ok (place ++ [name]) := by
  have self : ¬ (name == ".") = true := by simpa using entry.notSelf
  have parent : ¬ (name == "..") = true := by simpa using entry.notParent
  rw [follow, step, if_neg self, if_neg parent]

/-- An entry is looked up by its name in the directory that its path leads to. -/
theorem locate_join (named : p.text ≠ "") (entry : Path.IsEntryName name) :
    t.locate (p.join name) =
      match textFault? (p.join name) with
      | some fault => .error fault
      | none =>
        match t.enter (start p) p.names with
        | .error e => .error e
        | .ok parent => follow parent name := by
  unfold locate enterParent
  rw [Path.names_join named entry, List.dropLast_concat, List.getLast?_concat, start,
    Path.isAbsolute_join named entry, ← start]
  cases textFault? (p.join name) with
  | some fault => rfl
  | none => rfl

/-- An entry that is found stands at the place of its directory, with its name. -/
theorem place_of_locate_join {place' : List String}
    (entered : t.enter (start p) p.names = .ok place) (named : p.text ≠ "")
    (entry : Path.IsEntryName name)
    (located : t.locate (p.join name) = .ok place') : place' = place ++ [name] := by
  rw [locate_join named entry, entered] at located
  split at located
  · cases located
  · dsimp only at located
    rw [follow_of_isEntryName entry] at located
    split at located
    · cases located
    · exact (Except.ok.inj located).symm

/-- So does an entry inside which others are found. -/
theorem enter_of_locate_join {name' : String} {place' : List String}
    (entered : t.enter (start p) p.names = .ok place) (named : p.text ≠ "")
    (entry : Path.IsEntryName name) (entry' : Path.IsEntryName name')
    (located : t.locate ((p.join name).join name') = .ok place') :
    t.enter (start (p.join name)) (p.join name).names = .ok (place ++ [name]) := by
  rw [locate_join (Path.text_join_ne entry) entry'] at located
  have same : start (p.join name) = start p := by
    rw [start, start, Path.isAbsolute_join named entry]
  rw [same, Path.names_join named entry, enter_append, entered] at located ⊢
  dsimp only at located ⊢
  rw [enter, follow_of_isEntryName entry] at located ⊢
  split at located
  · cases located
  · by_cases long : maxNameSize < name.utf8ByteSize
    · rw [if_pos long] at located
      cases located
    · rw [if_neg long] at located ⊢
      dsimp only at located ⊢
      cases here : t.entry? (place ++ [name]) with
      | none =>
          rw [here] at located
          cases located
      | some found =>
          cases found with
          | directory => rfl
          | file contents =>
              rw [here] at located
              cases located

/-- In a plain tree, what is found at a place is the one entry there. -/
theorem Plain.mem_of_entry? (plain : t.Plain) {contents : ByteArray}
    (found : t.entry? place = some (.file contents)) : (place, .file contents) ∈ t.entries := by
  unfold entry? at found
  split at found
  · cases found
  · obtain ⟨⟨here, entry⟩, first, rfl⟩ := Option.map_eq_some_iff.mp found
    obtain ⟨member, rfl⟩ := plain.find?_eq_some_iff.mp first
    exact member

end FileTree

/-! ## Sorted listings -/

namespace Recording

variable {t t' : FileTree} {p : Path} {names : List String}

theorem pairwise_le_sortNames (names : List String) : (sortNames names).Pairwise (· ≤ ·) := by
  have trans (a b c : String) (ab : decide (a ≤ b) = true) (bc : decide (b ≤ c) = true) :
      decide (a ≤ c) = true :=
    decide_eq_true (le_trans (of_decide_eq_true ab) (of_decide_eq_true bc))
  have total (a b : String) : (decide (a ≤ b) || decide (b ≤ a)) = true := by
    simpa using le_total a b
  exact (List.pairwise_mergeSort trans total names).imp of_decide_eq_true

theorem perm_sortNames (names : List String) : (sortNames names).Perm names :=
  List.mergeSort_perm names _

/-- Different names are sorted strictly. -/
theorem pairwise_lt_sortNames (distinct : names.Nodup) : (sortNames names).Pairwise (· < ·) :=
  ((pairwise_le_sortNames names).and ((perm_sortNames names).nodup_iff.mpr distinct)).imp
    fun ⟨ordered, different⟩ => lt_of_le_of_ne ordered different

theorem sortNames_of_perm {names' : List String} (permuted : names.Perm names') :
    sortNames names = sortNames names' := by
  have same : (sortNames names).Perm (sortNames names') :=
    ((perm_sortNames names).trans permuted).trans (perm_sortNames names').symm
  exact same.eq_of_pairwise (fun a b _ _ ab ba => le_antisymm ab ba) (pairwise_le_sortNames names)
    (pairwise_le_sortNames names')

/-- Listings in another order are the same once they are sorted. -/
theorem entries_of_perm (plain : t.Plain) (permuted : t.entries.Perm t'.entries) (p : Path)
    (wanted : String → FileEntry → Bool) : entries t' p wanted = entries t p wanted := by
  unfold entries FileTree.list
  rw [plain.locate_of_perm permuted]
  cases t.locate p with
  | error e => rfl
  | ok place =>
      dsimp only
      rw [plain.entry?_of_perm permuted]
      cases t.entry? place with
      | none => rfl
      | some entry =>
          cases entry with
          | file contents => rfl
          | directory =>
              dsimp only
              have names := sortNames_of_perm
                (((FileTree.perm_children permuted place).filter fun e => wanted e.1 e.2).map
                  Prod.fst)
              exact congrArg (fun names => Except.ok (names.map p.join)) names.symm

/-- The names of the entries at a place that are wanted, sorted. -/
def namesAt (t : FileTree) (place : List String) (wanted : String → FileEntry → Bool) :
    List String :=
  sortNames (((t.children place).filter fun e => wanted e.1 e.2).map Prod.fst)

theorem entries_of_list {place : List String} {wanted : String → FileEntry → Bool}
    (listed : t.list p = .ok (t.children place)) :
    entries t p wanted = .ok ((namesAt t place wanted).map p.join) := by
  rw [entries, listed]
  rfl

theorem mem_namesAt_iff {place : List String} {wanted : String → FileEntry → Bool}
    {name : String} :
    name ∈ namesAt t place wanted ↔
      ∃ entry, (place ++ [name], entry) ∈ t.entries ∧ wanted name entry = true := by
  rw [namesAt, (perm_sortNames _).mem_iff, List.mem_map]
  constructor
  · rintro ⟨⟨name, entry⟩, member, rfl⟩
    obtain ⟨child, good⟩ := List.mem_filter.mp member
    exact ⟨entry, FileTree.mem_children_iff.mp child, good⟩
  · rintro ⟨entry, child, good⟩
    exact ⟨(name, entry), List.mem_filter.mpr ⟨FileTree.mem_children_iff.mpr child, good⟩, rfl⟩

theorem pairwise_namesAt (plain : t.Plain) (place : List String)
    (wanted : String → FileEntry → Bool) : (namesAt t place wanted).Pairwise (· < ·) :=
  pairwise_lt_sortNames
    (((List.filter_sublist).map Prod.fst).nodup (plain.nodup_children place))

end Recording

end Binaural
