import Binaural.Files.NativePath
import Binaural.Proofs.Paths

/-!
The last component of a path, in bytes and in text.

`EndsIn` says what the last component of a path is without cutting the path at its slashes, and the
one that is found is that one (`lastName?_eq_some_iff`). In UTF-8 a slash is a byte that no other
character has, so that cutting bytes and cutting text is the same (`splitOn_utf8`), and with it the
last component (`NativePath.fileName?_native`).
-/

namespace Binaural

/-! ## Stretches between separators -/

section Stretches

variable {γ : Type} [BEq γ] [LawfulBEq γ] {slash dot : γ}

theorem not_mem_of_mem_splitOn {path stretch : List γ} (member : stretch ∈ path.splitOn slash) :
    slash ∉ stretch := by
  induction path generalizing stretch with
  | nil =>
      rw [List.splitOn_nil, List.mem_singleton] at member
      rw [member]
      exact List.not_mem_nil
  | cons c rest ih =>
      rw [List.splitOn_cons_eq_if_modifyHead] at member
      split at member
      · rcases List.mem_cons.mp member with rfl | later
        · exact List.not_mem_nil
        · exact ih later
      · rename_i different
        obtain ⟨first, others, split_eq⟩ :=
          List.exists_cons_of_ne_nil (List.splitOn_ne_nil slash rest)
        rw [split_eq] at member ih
        rcases List.mem_cons.mp member with rfl | later
        · have absent : slash ∉ first := ih List.mem_cons_self
          have head : slash ≠ c := fun same => different (beq_iff_eq.mpr same.symm)
          exact fun inside => (List.mem_cons.mp inside).elim head absent
        · exact ih (List.mem_cons_of_mem _ later)

/-- What is no separator only lengthens the first stretch. -/
theorem splitOn_append_of_not_mem {start rest : List γ} (absent : slash ∉ start) :
    (start ++ rest).splitOn slash = (rest.splitOn slash).modifyHead (start ++ ·) := by
  induction start with
  | nil =>
      obtain ⟨first, others, split⟩ :=
        List.exists_cons_of_ne_nil (List.splitOn_ne_nil slash rest)
      rw [List.nil_append, split]
      rfl
  | cons c start ih =>
      rw [List.mem_cons, not_or] at absent
      rw [List.cons_append, List.splitOn_cons_eq_if_modifyHead,
        if_neg (by simpa using Ne.symm absent.1), ih absent.2, List.modifyHead_modifyHead]
      rfl

/-- What may follow the last component that counts: slashes, and the directory itself. -/
inductive Trailing (slash dot : γ) : List γ → Prop
  | nil : Trailing slash dot []
  | slash {rest : List γ} : Trailing slash dot rest → Trailing slash dot (slash :: rest)
  | self {rest : List γ} : Trailing slash dot rest → Trailing slash dot (slash :: dot :: rest)

/-- A path ends in a name, as its last component that counts. -/
structure EndsIn (slash dot : γ) (path name : List γ) : Prop where
  parts : ∃ front back, path = front ++ (name ++ back) ∧
    (front = [] ∨ front.getLast? = some slash) ∧ Trailing slash dot back
  single : slash ∉ name
  nonempty : name ≠ []
  notSelf : name ≠ [dot]
  notParent : name ≠ [dot, dot]

theorem counts_eq_false_iff {stretch : List γ} :
    counts dot stretch = false ↔ stretch = [] ∨ stretch = [dot] := by
  rw [counts, Bool.not_eq_false', Bool.or_eq_true, List.isEmpty_iff, beq_iff_eq]

/-- What follows a name adds stretches that do not count. -/
theorem Trailing.exists_splitOn {back : List γ} (trailing : Trailing slash dot back)
    (proper : slash ≠ dot) {name : List γ} (single : slash ∉ name) :
    ∃ after, (name ++ back).splitOn slash = name :: after ∧
      ∀ stretch ∈ after, counts dot stretch = false := by
  induction trailing generalizing name with
  | nil =>
      rw [List.append_nil, List.splitOn_eq_singleton single]
      exact ⟨[], rfl, by simp⟩
  | slash _ ih =>
      obtain ⟨after, split, skipped⟩ := ih List.not_mem_nil
      rw [List.nil_append] at split
      rw [List.splitOn_append_cons_self_of_not_mem single, split]
      exact ⟨[] :: after, rfl,
        List.forall_mem_cons.mpr ⟨counts_eq_false_iff.mpr (.inl rfl), skipped⟩⟩
  | self _ ih =>
      have self : slash ∉ [dot] := by simpa using proper
      obtain ⟨after, split, skipped⟩ := ih self
      rw [List.singleton_append] at split
      rw [List.splitOn_append_cons_self_of_not_mem single, split]
      exact ⟨[dot] :: after, rfl,
        List.forall_mem_cons.mpr ⟨counts_eq_false_iff.mpr (.inr rfl), skipped⟩⟩

/-- Stretches that do not count, behind a name, are what may follow it. -/
theorem exists_trailing (slash : γ) {after : List (List γ)}
    (skipped : ∀ stretch ∈ after, counts dot stretch = false) (name : List γ) :
    ∃ back, [slash].intercalate (name :: after) = name ++ back ∧ Trailing slash dot back := by
  induction after generalizing name with
  | nil => exact ⟨[], by rw [List.intercalate_singleton, List.append_nil], .nil⟩
  | cons stretch after ih =>
      obtain ⟨here, later⟩ := List.forall_mem_cons.mp skipped
      obtain ⟨back, joined, trailing⟩ := ih later stretch
      refine ⟨slash :: (stretch ++ back), ?_, ?_⟩
      · rw [List.intercalate_cons_cons, joined, List.append_assoc, List.singleton_append]
      · rcases counts_eq_false_iff.mp here with rfl | rfl
        · exact .slash trailing
        · exact .self trailing

omit [BEq γ] [LawfulBEq γ] in
/-- Stretches in front of others end in a slash, if there are any. -/
theorem exists_front (slash : γ) (before : List (List γ)) (name : List γ) (after : List (List γ)) :
    ∃ front, [slash].intercalate (before ++ name :: after) =
        front ++ [slash].intercalate (name :: after) ∧
      (front = [] ∨ front.getLast? = some slash) := by
  induction before with
  | nil => exact ⟨[], rfl, .inl rfl⟩
  | cons stretch before ih =>
      obtain ⟨front, joined, closed⟩ := ih
      have next : ∃ first rest, before ++ name :: after = first :: rest :=
        List.exists_cons_of_ne_nil (by simp)
      obtain ⟨first, rest, others⟩ := next
      refine ⟨stretch ++ [slash] ++ front, ?_, .inr ?_⟩
      · rw [List.cons_append, others, List.intercalate_cons_cons, ← others, joined]
        simp only [List.append_assoc]
      · rw [List.getLast?_append, List.getLast?_concat]
        rcases closed with rfl | last
        · rfl
        · rw [last, Option.some_or]

/-- The last component that is found is the one that the path ends in. -/
theorem lastName?_eq_some_iff (proper : slash ≠ dot) {path name : List γ} :
    lastName? slash dot path = some name ↔ EndsIn slash dot path name := by
  rw [lastName?, Option.filter_eq_some_iff, List.find?_eq_some_iff_append]
  constructor
  · rintro ⟨⟨counted, later, earlier, split, skipped⟩, notParent⟩
    have stretches : path.splitOn slash = earlier.reverse ++ name :: later.reverse := by
      rw [← List.reverse_reverse (path.splitOn slash), split]
      simp
    have notCounted : ∀ stretch ∈ later.reverse, counts dot stretch = false := fun stretch member =>
      by simpa using skipped stretch (List.mem_reverse.mp member)
    obtain ⟨back, tail, trailing⟩ := exists_trailing slash notCounted name
    obtain ⟨front, joined, closed⟩ := exists_front slash earlier.reverse name later.reverse
    have whole : path = front ++ (name ++ back) := by
      rw [← tail, ← joined, ← stretches, List.intercalate_splitOn]
    have single : slash ∉ name := by
      have member : name ∈ path.splitOn slash := by
        rw [stretches]
        exact List.mem_append_right _ List.mem_cons_self
      exact not_mem_of_mem_splitOn member
    have kept : ¬ (name = [] ∨ name = [dot]) := fun none => by
      rw [counts_eq_false_iff.mpr none] at counted
      exact Bool.false_ne_true counted
    rw [not_or] at kept
    exact ⟨⟨front, back, whole, closed, trailing⟩, single, kept.1, kept.2, by simpa using notParent⟩
  · rintro ⟨⟨front, back, rfl, closed, trailing⟩, single, nonempty, notSelf, notParent⟩
    obtain ⟨after, tail, skipped⟩ := trailing.exists_splitOn proper single
    have stretches : ∃ before, (front ++ (name ++ back)).splitOn slash =
        before ++ name :: after := by
      rcases closed with rfl | last
      · exact ⟨[], tail⟩
      · obtain ⟨start, rfl⟩ := List.getLast?_eq_some_iff.mp last
        refine ⟨start.splitOn slash, ?_⟩
        rw [List.append_assoc, List.singleton_append, List.splitOn_append_cons_self, tail]
    obtain ⟨before, stretches⟩ := stretches
    have counted : counts dot name = true := by
      refine (Bool.not_eq_false _).mp fun none => ?_
      exact (counts_eq_false_iff.mp none).elim nonempty notSelf
    refine ⟨⟨counted, after.reverse, before.reverse, ?_, fun stretch member => ?_⟩,
      by simpa using notParent⟩
    · rw [stretches]
      simp
    · rw [skipped stretch (List.mem_reverse.mp member)]
      rfl

end Stretches

/-! ## Text in bytes -/

/-- The bytes of characters that have several are none of ASCII. -/
theorem slash_ne_ofNat {n : Nat} (high : 128 ≤ n) (byte : n < 256) :
    NativePath.slash ≠ UInt8.ofNat n := by
  intro same
  have value := congrArg UInt8.toNat same
  rw [UInt8.toNat_ofNat', Nat.mod_eq_of_lt byte] at value
  have slash : NativePath.slash.toNat = 47 := rfl
  omega

/-- The byte of a slash is in no other character. -/
theorem slash_mem_utf8EncodeChar {c : Char} :
    NativePath.slash ∈ String.utf8EncodeChar c ↔ c = '/' := by
  constructor
  · intro member
    unfold String.utf8EncodeChar at member
    dsimp only at member
    split at member
    · have value := congrArg UInt8.toNat (List.mem_singleton.mp member)
      rw [UInt8.toNat_ofNat', Nat.mod_eq_of_lt (by omega)] at value
      exact Char.toNat_inj.mp value.symm
    · -- two, three or four bytes
      exfalso
      split at member
      · simp only [List.mem_cons, List.not_mem_nil, or_false] at member
        rcases member with first | second
        · exact slash_ne_ofNat (by omega) (by omega) first
        · exact slash_ne_ofNat (by omega) (by omega) second
      · split at member
        · simp only [List.mem_cons, List.not_mem_nil, or_false] at member
          rcases member with first | second | third
          · exact slash_ne_ofNat (by omega) (by omega) first
          · exact slash_ne_ofNat (by omega) (by omega) second
          · exact slash_ne_ofNat (by omega) (by omega) third
        · simp only [List.mem_cons, List.not_mem_nil, or_false] at member
          rcases member with first | second | third | fourth
          · exact slash_ne_ofNat (by omega) (by omega) first
          · exact slash_ne_ofNat (by omega) (by omega) second
          · exact slash_ne_ofNat (by omega) (by omega) third
          · exact slash_ne_ofNat (by omega) (by omega) fourth
  · rintro rfl
    decide

theorem utf8_append (text rest : List Char) : utf8 (text ++ rest) = utf8 text ++ utf8 rest :=
  List.flatMap_append

theorem toByteArray_utf8 (text : List Char) : (utf8 text).toByteArray = text.utf8Encode := rfl

theorem utf8_inj {text text' : List Char} : utf8 text = utf8 text' ↔ text = text' := by
  rw [← List.toByteArray_inj, toByteArray_utf8, toByteArray_utf8, ← String.toByteArray_ofList,
    ← String.toByteArray_ofList, String.toByteArray_inj, String.ofList_inj]

/-- Bytes are the text that they encode. -/
theorem fromUTF8?_eq_some_iff {bytes : List UInt8} {text : String} :
    String.fromUTF8? ⟨bytes.toArray⟩ = some text ↔ bytes = utf8 text.toList := by
  have encoded : text.toByteArray = (utf8 text.toList).toByteArray := by
    rw [toByteArray_utf8, String.utf8Encode_toList]
  have array : (⟨bytes.toArray⟩ : ByteArray) = bytes.toByteArray :=
    ByteArray.ext List.data_toByteArray.symm
  rw [array, String.fromUTF8?]
  constructor
  · intro decoded
    split at decoded
    · cases decoded
      exact List.toByteArray_inj.mp encoded
    · cases decoded
  · intro bytes_eq
    rw [← bytes_eq] at encoded
    have valid : bytes.toByteArray.IsValidUTF8 := encoded ▸ text.isValidUTF8
    rw [dif_pos valid, Option.some.injEq]
    exact String.toByteArray_inj.mp encoded.symm

/-- To cut the bytes of a text at the slashes is to cut the text. -/
theorem splitOn_utf8 (text : List Char) :
    (utf8 text).splitOn NativePath.slash = (text.splitOn '/').map utf8 := by
  induction text with
  | nil => rfl
  | cons c rest ih =>
      change (String.utf8EncodeChar c ++ utf8 rest).splitOn NativePath.slash = _
      rw [List.splitOn_cons_eq_if_modifyHead]
      by_cases slash : c = '/'
      · rw [slash, if_pos (beq_self_eq_true _), List.map_cons, ← ih]
        exact List.splitOn_append_cons_self [] _
      · rw [if_neg (by simpa using slash), splitOn_append_of_not_mem
          (fun member => slash (slash_mem_utf8EncodeChar.mp member)), ih]
        obtain ⟨first, others, split⟩ :=
          List.exists_cons_of_ne_nil (List.splitOn_ne_nil '/' rest)
        rw [split]
        rfl

theorem counts_utf8 (stretch : List Char) :
    counts NativePath.dot (utf8 stretch) = counts '.' stretch := by
  have empty : utf8 stretch = [] ↔ stretch = [] := @utf8_inj stretch []
  have self : utf8 stretch = [NativePath.dot] ↔ stretch = ['.'] := @utf8_inj stretch ['.']
  rw [Bool.eq_iff_iff, ← not_iff_not, Bool.not_eq_true, Bool.not_eq_true, counts_eq_false_iff,
    counts_eq_false_iff, empty, self]

theorem lastName?_utf8 (text : List Char) :
    lastName? NativePath.slash NativePath.dot (utf8 text) =
      (lastName? '/' '.' text).map utf8 := by
  have parent (name : List Char) :
      (utf8 name != [NativePath.dot, NativePath.dot]) = (name != ['.', '.']) := by
    have same : utf8 name = [NativePath.dot, NativePath.dot] ↔ name = ['.', '.'] :=
      @utf8_inj name ['.', '.']
    rw [Bool.eq_iff_iff, bne_iff_ne, bne_iff_ne, ne_eq, ne_eq, same]
  rw [lastName?, lastName?, splitOn_utf8, ← List.map_reverse, List.find?_map, Option.filter_map]
  have counted : counts NativePath.dot ∘ utf8 = counts '.' := funext counts_utf8
  have named : (· != [NativePath.dot, NativePath.dot]) ∘ utf8 = (· != ['.', '.']) :=
    funext parent
  rw [counted, named]

/-! ## Paths of text -/

namespace Path

/-- The name of a component that is one. -/
def Component.name? : Component → Option String
  | .name text => some text
  | _ => none

theorem fileName?_eq_bind (p : Path) :
    p.fileName? = p.components.getLast?.bind Component.name? := by
  unfold fileName?
  cases p.components.getLast? with
  | none => rfl
  | some c => cases c <;> rfl

/-- A stretch that does not count is no component. -/
theorem Component.ofChars?_of_not_counts {stretch : List Char}
    (skipped : counts '.' stretch = false) : Component.ofChars? stretch = none := by
  rcases counts_eq_false_iff.mp skipped with rfl | rfl
  · rfl
  · rfl

/-- A stretch that counts is a component, and a name unless it is the directory above. -/
theorem Component.exists_ofChars? {stretch : List Char} (counted : counts '.' stretch = true) :
    ∃ c, Component.ofChars? stretch = some c ∧
      c.name? = ((some stretch).filter (· != ['.', '.'])).map String.ofList := by
  unfold Component.ofChars?
  split
  · cases counted
  · cases counted
  · exact ⟨_, rfl, rfl⟩
  · rename_i notParent
    refine ⟨_, rfl, ?_⟩
    rw [Option.filter_some, if_pos (by simpa using notParent)]
    rfl

/-- The first component among stretches is that of the first stretch that counts. -/
theorem findSome?_ofChars? (stretches : List (List Char)) :
    (stretches.findSome? Component.ofChars?).bind Component.name? =
      ((stretches.find? (counts '.')).filter (· != ['.', '.'])).map String.ofList := by
  induction stretches with
  | nil => rfl
  | cons stretch rest ih =>
      cases counted : counts '.' stretch with
      | false =>
          rw [List.findSome?_cons, Component.ofChars?_of_not_counts counted,
            List.find?_cons_of_neg (by simp [counted])]
          exact ih
      | true =>
          obtain ⟨c, component, named⟩ := Component.exists_ofChars? counted
          rw [List.findSome?_cons, component, List.find?_cons_of_pos counted]
          exact named

/-- What the first stretch stands for has the name of the stretch. -/
theorem name?_firstComponents (first : List Char) :
    (firstComponents first).getLast?.bind Component.name? =
      (Component.ofChars? first).bind Component.name? := by
  unfold firstComponents
  split
  · rfl
  · rfl
  · cases Component.ofChars? first with
    | none => rfl
    | some c => rfl

/-- The last name among the components is the last stretch that counts. -/
theorem name?_leading (stretches : List (List Char)) :
    (leading stretches).getLast?.bind Component.name? =
      (stretches.reverse.findSome? Component.ofChars?).bind Component.name? := by
  cases stretches with
  | nil => rfl
  | cons first rest =>
      rw [leading, List.getLast?_append, List.getLast?_filterMap, List.reverse_cons,
        List.findSome?_append]
      cases rest.reverse.findSome? Component.ofChars? with
      | some c => rfl
      | none =>
          rw [Option.none_or, Option.none_or, name?_firstComponents, List.findSome?_singleton]

/-- The last component of a path of text is the last stretch of it that counts. -/
theorem fileName?_eq_lastName? (p : Path) :
    p.fileName? = (lastName? '/' '.' p.text.toList).map String.ofList := by
  rw [fileName?_eq_bind, lastName?, ← findSome?_ofChars?, ← splitOnChar_eq_splitOn,
    ← name?_leading]
  by_cases empty : splitOnChar '/' p.text.toList = [[]]
  · have none : p.components = [] := by
      unfold components
      rw [empty]
      rfl
    rw [none, empty]
    rfl
  · rw [components_of_stretches rfl empty]

end Path

/-- A path of text has the same last component in bytes. -/
theorem NativePath.fileName?_native (p : Path) : p.native.fileName? = p.fileName? := by
  rw [Path.fileName?_eq_lastName?, fileName?, Path.native, lastName?_utf8]
  cases lastName? '/' '.' p.text.toList with
  | none => rfl
  | some name =>
      refine fromUTF8?_eq_some_iff.mpr ?_
      rw [String.toList_ofList]

/-- The last component is a text if the path ends in its bytes. -/
theorem NativePath.fileName?_eq_some_iff {p : NativePath} {name : String} :
    p.fileName? = some name ↔ EndsIn slash dot p.bytes (utf8 name.toList) := by
  have proper : slash ≠ dot := by decide
  rw [fileName?, Option.bind_eq_some_iff]
  simp only [fromUTF8?_eq_some_iff, lastName?_eq_some_iff proper]
  constructor
  · rintro ⟨_, ends, rfl⟩
    exact ends
  · exact fun ends => ⟨_, ends, rfl⟩

end Binaural
