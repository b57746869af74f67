import Binaural.Proofs.Capitals
import Binaural.Proofs.NumeralText
import Binaural.Proofs.Sinks

/-!
The names of the static items in generated Rust source.

`RustSource.staticNames` reads them off the text, line by line. As long as the names of the arrays
have no line breaks and no colons, these are the names of the arrays in capitals
(`RustSource.staticNames_text`).

A sink tells names apart as they are given, and capitals are given to them only in the text. So the
items have different names just when no two accepted names have the same capitals, which is so for
the arrays of every artifact (`RustSource.nodup_staticNames_of_render`), but not for all arrays.
-/

namespace Binaural

namespace RustSource

/-! ## Reading names -/

/-- What an item begins with. -/
def keyword : List Char := "pub static ".toList

/-- The name of the item that begins on a line, if one does: what stands before the colon. -/
def staticName? (line : List Char) : Option String :=
  (keyword.isPrefixOf? line).map fun rest => String.ofList (rest.takeWhile (· != ':'))

/-- The names of the items of a source text, in order. -/
def staticNames (source : String) : List String :=
  (source.toList.splitOn '\n').filterMap staticName?

/-- A line break parts the lines of a text. -/
theorem lines_break (s t : String) :
    (s ++ "\n" ++ t).toList.splitOn '\n' = s.toList.splitOn '\n' ++ t.toList.splitOn '\n' := by
  have chars : (s ++ "\n" ++ t).toList = s.toList ++ '\n' :: t.toList := by
    rw [String.toList_append, String.toList_append, List.append_assoc]
    rfl
  rw [chars, List.splitOn_eq_splitOnP,
    List.splitOnP_append_cons (p := (· == '\n')) _ _ (by decide)]
  rfl

theorem staticNames_break (s t : String) :
    staticNames (s ++ "\n" ++ t) = staticNames s ++ staticNames t := by
  rw [staticNames, lines_break, List.filterMap_append]
  rfl

theorem staticNames_line {line : String} (one : '\n' ∉ line.toList) :
    staticNames line = (staticName? line.toList).toList := by
  rw [staticNames, List.splitOn_eq_singleton one]
  cases found : staticName? line.toList with
  | none => rw [List.filterMap_cons_none found, List.filterMap_nil, Option.toList_none]
  | some name => rw [List.filterMap_cons_some found, List.filterMap_nil, Option.toList_some]

theorem staticName?_opening {name : String} (rest : List Char) (noColon : ':' ∉ name.toList) :
    staticName? (keyword ++ (name.toList ++ ':' :: rest)) = some name := by
  have before : ∀ c ∈ name.toList, (c != ':') = true := by
    intro c member
    exact bne_iff_ne.mpr fun same => noColon (same ▸ member)
  rw [staticName?, List.isPrefixOf?_eq_some_iff_append_eq.mpr rfl, Option.map_some,
    List.takeWhile_append_of_pos before, List.takeWhile_cons_of_neg (by decide), List.append_nil,
    String.ofList_toList]

/-! ## Reading items -/

/-- Whether a name has neither line breaks nor colons. -/
def Plain (name : String) : Prop := '\n' ∉ name.toList ∧ ':' ∉ name.toList

instance (name : String) : Decidable (Plain name) := inferInstanceAs (Decidable (_ ∧ _))

/-- Capitals of a plain name are plain. -/
theorem Plain.ofString {name : String} (plain : Plain name) : Plain (UpperCase.ofString name) :=
  ⟨fun member => plain.1 (UpperCase.mem_of_mem_ofString (by decide) member),
    fun member => plain.2 (UpperCase.mem_of_mem_ofString (by decide) member)⟩

theorem newline_notMem_of_allNumeral {s : String} (all : AllNumeral s) : '\n' ∉ s.toList := by
  intro member
  exact absurd (all '\n' member) (by decide)

theorem newline_notMem_append {s t : String} (first : '\n' ∉ s.toList) (second : '\n' ∉ t.toList) :
    '\n' ∉ (s ++ t).toList := by
  rw [String.toList_append, List.mem_append]
  exact fun member => member.elim first second

theorem newline_notMem_of_mem_literals {values : ArrayValues} {literal : String}
    (member : literal ∈ literals values) : '\n' ∉ literal.toList := by
  cases values with
  | unsignedInt values =>
      obtain ⟨x, -, rfl⟩ := List.mem_map.mp member
      exact newline_notMem_of_allNumeral (allNumeral_toString_nat _)
  | int values =>
      obtain ⟨x, -, rfl⟩ := List.mem_map.mp member
      exact newline_notMem_of_allNumeral (allNumeral_toString_int _)
  | float values =>
      obtain ⟨x, -, rfl⟩ := List.mem_map.mp member
      rw [Notation.ofFloat32]
      cases BinaryNumber.ofFloat32 x with
      | nan => decide
      | infinite negative =>
          cases negative with
          | false => decide
          | true => decide
      | finite negative significand exponent =>
          exact newline_notMem_of_allNumeral (Notation.allNumeral_text _)

/-- No item begins on a line that is indented. -/
theorem staticNames_indented {s : String} (one : '\n' ∉ s.toList) :
    staticNames ("    " ++ s) = [] := by
  rw [staticNames_line (newline_notMem_append (by decide) one), String.toList_append]
  rfl

/-- No item begins among literals. -/
theorem staticNames_literals {texts : List String} (single : ∀ t ∈ texts, '\n' ∉ t.toList) :
    staticNames ("    " ++ ",\n    ".intercalate texts) = [] := by
  induction texts with
  | nil => exact staticNames_indented (by decide)
  | cons t rest ih =>
      obtain ⟨first, others⟩ := List.forall_mem_cons.mp single
      cases rest with
      | nil => exact staticNames_indented first
      | cons u rest =>
          have broken :
              "    " ++ ",\n    ".intercalate (t :: u :: rest) =
                ("    " ++ (t ++ ",")) ++ "\n" ++
                  ("    " ++ ",\n    ".intercalate (u :: rest)) := by
            refine String.toList_inj.mp ?_
            simp [String.intercalate_cons_cons]
          rw [broken, staticNames_break, ih others,
            staticNames_indented (newline_notMem_append first (by decide)), List.nil_append]

/-- The line on which an item begins. -/
def opening (name : String) (values : ArrayValues) : String :=
  "pub static " ++ UpperCase.ofString name ++ ": [" ++ values.elementType.rustName ++ "; "
    ++ toString values.length ++ "] = ["

theorem item_eq (name : String) (values : ArrayValues) :
    item name values =
      opening name values ++ "\n" ++
        (("    " ++ ",\n    ".intercalate (literals values)) ++ "\n" ++ ("];" ++ "\n" ++ "")) := by
  refine String.toList_inj.mp ?_
  unfold item opening
  simp

theorem newline_notMem_opening {name : String} (plain : Plain name) (values : ArrayValues) :
    '\n' ∉ (opening name values).toList := by
  have typeName : '\n' ∉ values.elementType.rustName.toList := by
    cases values.elementType with
    | unsignedInt => decide
    | int => decide
    | float => decide
  have length : '\n' ∉ (toString values.length).toList :=
    newline_notMem_of_allNumeral (allNumeral_toString_nat _)
  refine newline_notMem_append (newline_notMem_append (newline_notMem_append
    (newline_notMem_append (newline_notMem_append (newline_notMem_append ?_ plain.ofString.1)
      ?_) typeName) ?_) length) ?_
  all_goals decide

theorem staticNames_opening {name : String} (plain : Plain name) (values : ArrayValues) :
    staticNames (opening name values) = [UpperCase.ofString name] := by
  have chars : (opening name values).toList =
      keyword ++ ((UpperCase.ofString name).toList ++ ':' ::
        (" [" ++ (values.elementType.rustName ++ ("; "
          ++ (toString values.length ++ "] = [")))).toList) := by
    unfold opening keyword
    simp
  rw [staticNames_line (newline_notMem_opening plain values), chars,
    staticName?_opening _ plain.ofString.2, Option.toList_some]

theorem staticNames_item {name : String} (plain : Plain name) (values : ArrayValues) :
    staticNames (item name values) = [UpperCase.ofString name] := by
  have closing : staticNames ("];" ++ "\n" ++ "") = [] := by decide
  rw [item_eq, staticNames_break, staticNames_break, staticNames_opening plain,
    staticNames_literals fun _ => newline_notMem_of_mem_literals, closing]
  rfl

/-- The items in a text have the names of the arrays in capitals. -/
theorem staticNames_text {t : ArrayTable} (plain : ∀ name ∈ t.names, Plain name) :
    staticNames (text t) = t.names.map UpperCase.ofString := by
  have items : ∀ arrays : List (String × ArrayValues), (∀ entry ∈ arrays, Plain entry.1) →
      staticNames ("\n".intercalate (arrays.map fun entry => item entry.1 entry.2)) =
        arrays.map fun entry => UpperCase.ofString entry.1 := by
    intro arrays plain
    induction arrays with
    | nil => decide
    | cons entry rest ih =>
        obtain ⟨first, others⟩ := List.forall_mem_cons.mp plain
        cases rest with
        | nil => exact staticNames_item first entry.2
        | cons next rest =>
            have later := ih others
            rw [List.map_cons] at later
            rw [List.map_cons, List.map_cons, String.intercalate_cons_cons, staticNames_break,
              staticNames_item first, later]
            rfl
  have head : header = "// Generated by hrtf_compiler. Do not edit." ++ "\n" ++ ("" ++ "\n") := by
    decide
  have noItem : staticNames "// Generated by hrtf_compiler. Do not edit." = [] := by decide
  have blank : staticNames "" = [] := by decide
  rw [text, head, String.append_assoc, staticNames_break, noItem, staticNames_break, blank, items]
  · rw [ArrayTable.names, List.map_map]
    rfl
  · exact fun entry member => plain entry.1 (List.mem_map_of_mem member)

/-! ## Runs -/

open ArraySink UpperCase

variable {calls : List (String × ArrayValues)}

theorem staticNames_after (plain : ∀ entry ∈ calls, Plain entry.1) :
    staticNames (finish (after RustSource calls)) =
      ((taken RustSource calls).map Prod.fst).map ofString := by
  change staticNames (text (after RustSource calls).table) = _
  have named : (after RustSource calls).table.names = (taken RustSource calls).map Prod.fst := by
    rw [views_rustSource.table_after, names_after, views_rustSource.taken_eq]
  rw [staticNames_text, named]
  intro name member
  rw [named] at member
  obtain ⟨entry, accepted, rfl⟩ := List.mem_map.mp member
  exact plain entry (mem_of_mem_accepted accepted)

/-- The items have different names just when the accepted names have different capitals. -/
theorem nodup_staticNames_iff (plain : ∀ entry ∈ calls, Plain entry.1) :
    (staticNames (finish (after RustSource calls))).Nodup ↔
      ∀ name ∈ (taken RustSource calls).map Prod.fst,
        ∀ other ∈ (taken RustSource calls).map Prod.fst,
          ofString name = ofString other → name = other := by
  have distinct : ((taken RustSource calls).map Prod.fst).Nodup := by
    rw [views_rustSource.taken_eq, ← names_after]
    exact nodup_names_after calls
  rw [staticNames_after plain]
  exact List.nodup_map_iff_inj_on distinct

/-- Names without capital letters, all of ASCII, give items of different names. -/
theorem nodup_staticNames_of_uncased (plain : ∀ entry ∈ calls, Plain entry.1)
    (uncased : ∀ entry ∈ calls, ∀ c ∈ entry.1.toList, Uncased c) :
    (staticNames (finish (after RustSource calls))).Nodup := by
  refine (nodup_staticNames_iff plain).mpr fun name member other member' same => ?_
  obtain ⟨entry, accepted, rfl⟩ := List.mem_map.mp member
  obtain ⟨entry', accepted', rfl⟩ := List.mem_map.mp member'
  exact ofString_injective_of_uncased (uncased entry (mem_of_mem_accepted accepted))
    (uncased entry' (mem_of_mem_accepted accepted')) same

/-- The names of all arrays that an artifact can have. -/
def arrayNames : List String :=
  ["hrtf_num_elevs", "hrtf_elev_increment", "hrtf_elev_min", "hrtf_num_azimuths",
    "hrtf_azimuth_starts", "hrtf_impulse_length", "hrtf_impulses", "primes"]

theorem fst_mem_arrayNames {data : Option (ImpulseTable Float)} {extras : Extras} :
    ∀ entry ∈ Artifact.contents data extras, entry.1 ∈ arrayNames := by
  have ofTable : ∀ t : ImpulseTable Float, ∀ entry ∈ t.arrays, entry.1 ∈ arrayNames := by
    intro t
    simp [ImpulseTable.arrays, arrayNames]
  intro entry member
  rcases List.mem_append.mp member with table | extra
  · cases data with
    | none => cases table
    | some t => exact ofTable t entry table
  · obtain ⟨limit, -, rfl⟩ := Option.map_eq_some_iff.mp (Option.mem_toList.mp extra)
    simp [arrayNames]

/-- No artifact has two items of one name. -/
theorem nodup_staticNames_of_render {data : Option (ImpulseTable Float)} {extras : Extras}
    {source : String} (rendered : Artifact.render data extras .rust = .ok source) :
    (staticNames source).Nodup := by
  have good : ∀ name ∈ arrayNames, Plain name ∧ ∀ c ∈ name.toList, Uncased c := by
    simp [arrayNames, Plain, Uncased]
  obtain ⟨sink, added, rfl⟩ := Artifact.addAll_of_fill rendered
  have reached : after RustSource (Artifact.contents data extras) = sink := run_of_addAll added
  rw [← reached]
  exact nodup_staticNames_of_uncased
    (fun entry member => (good _ (fst_mem_arrayNames entry member)).1)
    fun entry member => (good _ (fst_mem_arrayNames entry member)).2

/-- Plain names are the names of the items in capitals, one item for each accepted call. The items
are of different names just when no two of the accepted names have the same capitals, as is so for
names in ASCII without capital letters, and for the arrays of every artifact. -/
theorem statics_of_calls (calls : List (String × ArrayValues))
    (plain : ∀ entry ∈ calls, Plain entry.1) :
    staticNames (finish (after RustSource calls)) =
        ((taken RustSource calls).map Prod.fst).map ofString ∧
      ((staticNames (finish (after RustSource calls))).Nodup ↔
        ∀ name ∈ (taken RustSource calls).map Prod.fst,
          ∀ other ∈ (taken RustSource calls).map Prod.fst,
            ofString name = ofString other → name = other) ∧
      ((∀ entry ∈ calls, ∀ c ∈ entry.1.toList, Uncased c) →
        (staticNames (finish (after RustSource calls))).Nodup) ∧
      ∀ data extras source, Artifact.render data extras .rust = .ok source →
        (staticNames source).Nodup :=
  ⟨staticNames_after plain, nodup_staticNames_iff plain, nodup_staticNames_of_uncased plain,
    fun _ _ _ => nodup_staticNames_of_render⟩

theorem statics_of_calls_starts :
    (∀ entry ∈ [("starts", ArrayValues.int [1]), ("starts", .int [2]), ("primes", .int [2, 3])],
        Plain entry.1) ∧
      staticNames (finish (after RustSource
        [("starts", .int [1]), ("starts", .int [2]), ("primes", .int [2, 3])])) =
          ["STARTS", "PRIMES"] ∧
      (staticNames (finish (after RustSource
        [("starts", .int [1]), ("starts", .int [2]), ("primes", .int [2, 3])]))).Nodup := by
  have plain : ∀ entry ∈ [("starts", ArrayValues.int [1]), ("starts", .int [2]),
      ("primes", .int [2, 3])], Plain entry.1 := by decide
  obtain ⟨names, -, distinct, -⟩ := statics_of_calls _ plain
  exact ⟨plain, names.trans (by decide +kernel), distinct (by simp [Uncased])⟩

/-- Names that differ in nothing but case are both accepted and give two items of one name. -/
theorem not_nodup_staticNames :
    answers RustSource [("a", .int [1]), ("A", .int [2])] = [.ok (), .ok ()] ∧
      staticNames (finish (after RustSource [("a", .int [1]), ("A", .int [2])])) = ["A", "A"] ∧
      ¬ ∀ calls, (staticNames (finish (after RustSource calls))).Nodup := by
  have names :
      staticNames (finish (after RustSource [("a", .int [1]), ("A", .int [2])])) = ["A", "A"] := by
    decide +kernel
  refine ⟨rfl, names, fun all => ?_⟩
  have distinct := all [("a", .int [1]), ("A", .int [2])]
  rw [names] at distinct
  exact absurd distinct (by decide)

end RustSource

end Binaural
