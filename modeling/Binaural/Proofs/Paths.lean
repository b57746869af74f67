import Mathlib
import Binaural.Files.Path

/-!
Paths of entries of directories.

The path of an entry is the path of its directory with one component more
(`Path.components_join`). Paths are in order as their components are (`Path.Before`), so the paths
of entries of one directory are in order as the names are, and whatever is inside keeps that order.
-/

namespace Binaural

/-! ## Stretches between separators -/

theorem splitOnChar_eq_splitOn (separator : Char) (text : List Char) :
    splitOnChar separator text = text.splitOn separator := by
  induction text with
  | nil => rfl
  | cons c rest ih =>
      rw [splitOnChar, List.splitOn_cons_eq_if_modifyHead, ih]
      by_cases same : c = separator
      · rw [if_pos same, if_pos (beq_iff_eq.mpr same)]
      · rw [if_neg same, if_neg (by simpa using same)]
        obtain ⟨first, others, split⟩ :=
          List.exists_cons_of_ne_nil (List.splitOn_ne_nil separator rest)
        rw [split]
        rfl

theorem splitOnChar_ne_nil (separator : Char) (text : List Char) :
    splitOnChar separator text ≠ [] := by
  rw [splitOnChar_eq_splitOn]
  exact List.splitOn_ne_nil separator text

theorem splitOnChar_append (separator : Char) (text rest : List Char) :
    splitOnChar separator (text ++ separator :: rest) =
      splitOnChar separator text ++ splitOnChar separator rest := by
  simp only [splitOnChar_eq_splitOn, List.splitOn_append_cons_self]

theorem splitOnChar_of_not_mem {separator : Char} {text : List Char}
    (absent : separator ∉ text) : splitOnChar separator text = [text] := by
  rw [splitOnChar_eq_splitOn, List.splitOn_eq_singleton absent]

theorem eq_nil_of_splitOnChar {separator : Char} {text : List Char}
    (single : splitOnChar separator text = [[]]) : text = [] := by
  rw [splitOnChar_eq_splitOn] at single
  rw [← @List.intercalate_splitOn _ text _ _ separator, single, List.intercalate_singleton]

namespace Path

/-- A name that an entry of a directory can have. -/
structure IsEntryName (name : String) : Prop where
  nonempty : name ≠ ""
  notSelf : name ≠ "."
  notParent : name ≠ ".."
  noSlash : '/' ∉ name.toList

theorem IsEntryName.relative {name : String} (entry : IsEntryName name) :
    ¬ (name.toList.head? == some '/') = true := fun slash =>
  entry.noSlash (List.mem_of_head? (eq_of_beq slash))

theorem IsEntryName.ofChars? {name : String} (entry : IsEntryName name) :
    Component.ofChars? name.toList = some (.name name) := by
  have back : String.ofList name.toList = name := String.ofList_toList
  unfold Component.ofChars?
  split
  · rename_i chars
    rw [chars] at back
    exact absurd back.symm entry.nonempty
  · rename_i chars
    rw [chars] at back
    exact absurd back.symm entry.notSelf
  · rename_i chars
    rw [chars] at back
    exact absurd back.symm entry.notParent
  · rw [back]

/-! ## Components -/

/-- What the first stretch stands for, if others follow. -/
def firstComponents : List Char → List Component
  | [] => [.root]
  | ['.'] => [.current]
  | cs => (Component.ofChars? cs).toList

/-- The components of the stretches between slashes, if others follow. -/
def leading : List (List Char) → List Component
  | [] => []
  | first :: rest => firstComponents first ++ rest.filterMap Component.ofChars?

theorem components_of_stretches {p : Path} {stretches : List (List Char)}
    (split_eq : splitOnChar '/' p.text.toList = stretches) (named : stretches ≠ [[]]) :
    p.components = leading stretches := by
  unfold components
  rw [split_eq]
  cases stretches with
  | nil => rfl
  | cons first rest =>
      rw [leading]
      dsimp only
      split
      · have others : ¬ rest.isEmpty = true := by
          intro none
          rw [List.isEmpty_iff.mp none] at named
          exact named rfl
        rw [if_neg others]
        rfl
      · rfl
      · rename_i unnamed unmarked
        rw [firstComponents]
        · exact unnamed
        · exact unmarked

theorem leading_concat {before : List (List Char)} (nonempty : before ≠ []) (last : List Char) :
    leading (before ++ [last]) = leading before ++ (Component.ofChars? last).toList := by
  cases before with
  | nil => exact absurd rfl nonempty
  | cons first rest =>
      rw [List.cons_append, leading, leading, List.filterMap_append, List.append_assoc]
      cases named : Component.ofChars? last with
      | none => rw [List.filterMap_cons_none named, List.filterMap_nil, Option.toList_none]
      | some c => rw [List.filterMap_cons_some named, List.filterMap_nil, Option.toList_some]

/-- The stretches of the path of an entry are those of the directory, without a last empty one, and
the name of the entry. -/
theorem exists_stretches_join {p : Path} {name : String} (named : p.text ≠ "")
    (entry : IsEntryName name) :
    ∃ before, splitOnChar '/' (p.join name).text.toList = before ++ [name.toList] ∧
      before ≠ [] ∧
      (splitOnChar '/' p.text.toList = before ∧ before ≠ [[]] ∨
        splitOnChar '/' p.text.toList = before ++ [[]]) := by
  have last : splitOnChar '/' name.toList = [name.toList] := splitOnChar_of_not_mem entry.noSlash
  unfold join
  rw [if_neg entry.relative]
  by_cases slash : p.text.toList.getLast? = some '/'
  · obtain ⟨front, text⟩ := List.getLast?_eq_some_iff.mp slash
    refine ⟨splitOnChar '/' front, ?_, splitOnChar_ne_nil _ _, .inr ?_⟩
    · rw [slash, beq_self_eq_true, Bool.or_true, if_pos rfl, String.toList_append, text,
        List.append_assoc, List.singleton_append, splitOnChar_append, last]
    · rw [text, splitOnChar_append]
      rfl
  · have open_ended : ¬ (p.text.isEmpty || p.text.toList.getLast? == some '/') = true := by
      simpa using ⟨named, slash⟩
    refine ⟨splitOnChar '/' p.text.toList, ?_, splitOnChar_ne_nil _ _, .inl ⟨rfl, ?_⟩⟩
    · rw [if_neg open_ended, String.toList_append, String.toList_append, List.append_assoc]
      change splitOnChar '/' (p.text.toList ++ '/' :: name.toList) = _
      rw [splitOnChar_append, last]
    · intro single
      exact named (String.toList_eq_nil_iff.mp (eq_nil_of_splitOnChar single))

section Joined

variable {p : Path} {name : String} (named : p.text ≠ "") (entry : IsEntryName name)
include named entry

theorem components_join : (p.join name).components = p.components ++ [.name name] := by
  obtain ⟨before, stretches, nonempty, front⟩ := exists_stretches_join named entry
  have last := entry.ofChars?
  have longer (x : List Char) : before ++ [x] ≠ [[]] := by
    intro single
    have length := congrArg List.length single
    rw [List.length_append, List.length_singleton, List.length_singleton] at length
    exact nonempty (List.eq_nil_of_length_eq_zero (by omega))
  rw [components_of_stretches stretches (longer _), leading_concat nonempty, last,
    Option.toList_some]
  rcases front with ⟨same, whole⟩ | slash
  · rw [components_of_stretches same whole]
  · rw [components_of_stretches slash (longer _), leading_concat nonempty, Component.ofChars?,
      Option.toList_none, List.append_nil]

theorem names_join : (p.join name).names = p.names ++ [name] := by
  obtain ⟨before, stretches, -, front⟩ := exists_stretches_join named entry
  have kept : (!name.toList.isEmpty) = true := by
    simpa using entry.nonempty
  have back : String.ofList name.toList = name := String.ofList_toList
  have here : p.names = (before.filter fun cs => !cs.isEmpty).map String.ofList := by
    unfold names
    rcases front with ⟨same, -⟩ | slash
    · rw [same]
    · rw [slash, List.filter_append]
      simp
  unfold names at here ⊢
  rw [here, stretches, List.filter_append, List.filter_singleton, kept, List.map_append]
  simp [back]

theorem isAbsolute_join : (p.join name).isAbsolute = p.isAbsolute := by
  unfold isAbsolute
  rw [components_join named entry]
  cases p.components with
  | nil => rfl
  | cons c rest => rfl

theorem fileName?_join : (p.join name).fileName? = some name := by
  unfold fileName?
  rw [components_join named entry, List.getLast?_concat]

omit named in
theorem exists_toList_join : ∃ front, (p.join name).text.toList = front ++ name.toList := by
  unfold join
  rw [if_neg entry.relative]
  split
  · exact ⟨_, String.toList_append⟩
  · exact ⟨_, String.toList_append⟩

omit named in
theorem text_join_ne : (p.join name).text ≠ "" := by
  obtain ⟨front, text⟩ := exists_toList_join (p := p) entry
  intro empty
  rw [empty] at text
  exact entry.nonempty (String.toList_eq_nil_iff.mp (List.append_eq_nil_iff.mp text.symm).2)

end Joined

/-! ## Order -/

/-- The rank of the kind of a component. -/
def Component.rank : Component → Nat
  | .root => 0
  | .current => 1
  | .parent => 2
  | .name _ => 3

/-- The order of components: by their kinds, and names as texts. -/
def Component.Before : Component → Component → Prop
  | .name a, .name b => a < b
  | c, d => c.rank < d.rank

/-- The order of paths, component by component. -/
def Before (p q : Path) : Prop := List.Lex Component.Before p.components q.components

theorem Component.not_before_self (c : Component) : ¬ c.Before c := by
  cases c with
  | name a => exact lt_irrefl a
  | root => exact lt_irrefl 0
  | current => exact lt_irrefl 1
  | parent => exact lt_irrefl 2

theorem not_before_self (p : Path) : ¬ p.Before p := by
  unfold Before
  induction p.components with
  | nil => exact nofun
  | cons c rest ih =>
      intro before
      cases before with
      | cons later => exact ih later
      | rel first => exact c.not_before_self first

/-- Paths inside one directory are in order if their next components are. -/
theorem before_of_components {p q : Path} {front rest rest' : List Component} {a b : String}
    (first : p.components = front ++ .name a :: rest)
    (second : q.components = front ++ .name b :: rest') (less : a < b) : p.Before q := by
  have step : Component.Before (.name a) (.name b) := less
  unfold Before
  rw [first, second]
  exact List.Lex.append_left Component.Before (.rel step) front

end Path

end Binaural
