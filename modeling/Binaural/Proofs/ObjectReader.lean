import Binaural.Proofs.JsonReader
import Binaural.Proofs.SourceReader

/-!
The JSON text of arrays read back.

A parser of JSON finds one object in the text of a sink. Its members are the arrays that the sink
accepted, each once, in the order of the names, so the order of the calls does not show. The
elements alone do not tell of which type an array is: `Json.arrayOf?` goes by the type that is
written beside them.
-/

namespace Binaural

open ArraySink

/-! ## Arrays as values -/

namespace Json

/-- A float of 32 bits as a value: the float of 64 bits that it is, and null if it is no finite
number. -/
def ofFloat32 (x : Float32) : Json := if x.isFinite then .float (widen x) else .null

/-- The elements of an array as values. -/
def elements : ArrayValues → List Json
  | .unsignedInt values => values.map fun x => .integer x.toNat
  | .int values => values.map fun x => .integer x.toInt
  | .float values => values.map ofFloat32

/-- An array as a value, with its type. -/
def ofArray (values : ArrayValues) : Json :=
  .object [("element_type", .string values.elementType.name), ("values", .array (elements values))]

/-- An array under its name, as a member of an object. -/
def ofEntry (entry : String × ArrayValues) : String × Json := (entry.1, ofArray entry.2)

/-- The number of 32 bits that a value is. -/
def unsigned? : Json → Option UInt32
  | .integer z => if 0 ≤ z ∧ z < UInt32.size then some (UInt32.ofNat z.toNat) else none
  | _ => none

/-- The signed number of 32 bits that a value is. -/
def int? : Json → Option Int32
  | .integer z =>
    if Int32.minValue.toInt ≤ z ∧ z ≤ Int32.maxValue.toInt then some (Int32.ofInt z) else none
  | _ => none

/-- The nearest float of 32 bits to a value. -/
def float32? : Json → Option Float32
  | .float x => some (narrow x)
  | _ => none

/-- Elements as an array of a type that is called by its name. -/
def valuesOf? (name : String) (items : List Json) : Option ArrayValues :=
  if name = ElementType.unsignedInt.name then (items.mapM unsigned?).map .unsignedInt
  else if name = ElementType.int.name then (items.mapM int?).map .int
  else if name = ElementType.float.name then (items.mapM float32?).map .float
  else none

/-- The array that a value is. -/
def arrayOf? : Json → Option ArrayValues
  | .object [("element_type", .string name), ("values", .array items)] => valuesOf? name items
  | _ => none

/-- The array that a member of an object is, and its name. -/
def entryOf? (entry : String × Json) : Option (String × ArrayValues) :=
  (arrayOf? entry.2).map (entry.1, ·)

theorem unsigned?_toNat (x : UInt32) : unsigned? (.integer x.toNat) = some x := by
  have bounds : (0 : Int) ≤ x.toNat ∧ (x.toNat : Int) < UInt32.size :=
    ⟨Int.natCast_nonneg _, Int.ofNat_lt.mpr x.toNat_lt⟩
  rw [unsigned?, if_pos bounds, Int.toNat_natCast, UInt32.ofNat_toNat]

theorem int?_toInt (x : Int32) : int? (.integer x.toInt) = some x := by
  have bounds : Int32.minValue.toInt ≤ x.toInt ∧ x.toInt ≤ Int32.maxValue.toInt :=
    ⟨x.minValue_le_toInt, x.toInt_le⟩
  rw [int?, if_pos bounds, Int32.ofInt_toInt]

theorem float32?_ofFloat32 {x : Float32} (finite : x.isFinite = true) :
    float32? (ofFloat32 x) = some x := by
  rw [ofFloat32, if_pos finite, float32?, narrow_of_widens (widens_widen finite)]

/-- The value of an array of finite numbers is read as that array. -/
theorem arrayOf?_ofArray {values : ArrayValues} (finite : values.AllFinite) :
    arrayOf? (ofArray values) = some values := by
  change valuesOf? values.elementType.name (elements values) = _
  cases values with
  | unsignedInt values =>
      have read := mapM_map_eq_some values fun x _ => unsigned?_toNat x
      exact congrArg (Option.map ArrayValues.unsignedInt) read
  | int values =>
      have read := mapM_map_eq_some values fun x _ => int?_toInt x
      exact congrArg (Option.map ArrayValues.int) read
  | float values =>
      have read := mapM_map_eq_some values fun x member =>
        float32?_ofFloat32 (finite x member)
      exact congrArg (Option.map ArrayValues.float) read

/-! ## Reading one array -/

/-- A finite float is written as the float of 64 bits that it is. -/
theorem floatText_of_finite {x : Float32} (finite : x.isFinite = true) :
    JsonText.floatText x = JsonText.floatNotation.ofFloat (widen x) := by
  have wide := BinaryNumber.ofFloat_toFloat (BinaryNumber.ofFloat32 x)
  rw [← BinaryNumber.isFinite_ofFloat32, BinaryNumber.isFinite_iff_exists] at finite
  obtain ⟨negative, significand, exponent, number⟩ := finite
  rw [Notation.ofFloat, widen, wide, JsonText.floatText, number]

theorem floatText_of_not_finite {x : Float32} (infinite : x.isFinite = false) :
    JsonText.floatText x = "null" := by
  rw [← BinaryNumber.isFinite_ofFloat32] at infinite
  unfold JsonText.floatText
  split
  · rename_i number
    rw [number] at infinite
    cases infinite
  · rfl

theorem reads_floatText (x : Float32) (part : Parser Json) :
    Reads (node? part) (JsonText.floatText x) (ofFloat32 x) := by
  by_cases finite : x.isFinite = true
  · obtain ⟨_, _, _, _, _, -, wide, -⟩ := widens_widen finite
    have finite' : (widen x).isFinite = true := by
      rw [← BinaryNumber.isFinite_ofFloat, wide]
      rfl
    rw [floatText_of_finite finite, ofFloat32, if_pos finite]
    exact reads_float rfl finite' part
  · rw [floatText_of_not_finite (Bool.eq_false_iff.mpr finite), ofFloat32, if_neg finite]
    exact reads_null part

/-- The elements are read, whatever their type. -/
theorem reads_elements (values : ArrayValues) (part : Parser Json) :
    Reads (node? (node? part))
      ("[" ++ ",".intercalate (values.texts JsonText.floatText) ++ "]")
      (.array (elements values)) := by
  cases values with
  | unsignedInt values => exact reads_array fun x _ => reads_natural x.toNat part
  | int values => exact reads_array fun x _ => reads_integer x.toInt part
  | float values => exact reads_array fun x _ => reads_floatText x part

theorem quote_keys :
    JsonText.quote "element_type" = "\"element_type\"" ∧
      JsonText.quote "values" = "\"values\"" := by
  constructor
  all_goals
    refine String.toList_inj.mp ?_
    rw [quote_eq]
    rfl

/-- The text of an array as that of an object with two members. -/
theorem valueText_eq (values : ArrayValues) :
    JsonText.valueText values =
      "\x7b" ++ ",".intercalate
        [JsonText.quote "element_type" ++ ":" ++ JsonText.quote values.elementType.name,
          JsonText.quote "values" ++ ":" ++
            ("[" ++ ",".intercalate (values.texts JsonText.floatText) ++ "]")] ++ "\x7d" := by
  obtain ⟨typeName, valuesName⟩ := quote_keys
  rw [typeName, valuesName, String.intercalate_cons_cons, String.intercalate_singleton]
  refine String.toList_inj.mp ?_
  unfold JsonText.valueText
  simp

theorem reads_valueText (values : ArrayValues) (part : Parser Json) :
    Reads (node? (node? (node? part))) (JsonText.valueText values) (ofArray values) := by
  have typeMember := reads_member (reads_quote values.elementType.name (node? part)) "element_type"
  have valuesMember := reads_member (reads_elements values part) "values"
  rw [valueText_eq]
  refine @reads_object _ _ Prod.fst Prod.snd [(_, _), (_, _)] fun member listed => ?_
  rcases List.mem_pair.mp listed with rfl | rfl
  · exact typeMember
  · exact valuesMember

theorem reads_entryText (entry : String × ArrayValues) (part : Parser Json) :
    Reads (member? (node? (node? (node? part)))) (JsonText.entryText entry) (ofEntry entry) :=
  reads_member (reads_valueText entry.2 part) entry.1

end Json

/-! ## Reading all arrays -/

namespace JsonText

/-- The arrays in the order in which they are written. -/
def sorted (arrays : List (String × ArrayValues)) : List (String × ArrayValues) :=
  arrays.mergeSort fun a b => decide (a.1 ≤ b.1)

/-- The object in the text of arrays. -/
def body (arrays : List (String × ArrayValues)) : String :=
  "\x7b" ++ ",".intercalate ((sorted arrays).map entryText) ++ "\x7d"

theorem text_eq (t : ArrayTable) : text t = body t.arrays ++ "\n" := by
  refine String.toList_inj.mp ?_
  change ("\x7b" ++ ",".intercalate ((sorted t.arrays).map entryText) ++ "\x7d\n").toList = _
  rw [body]
  simp

/-- The object is read as the arrays in their order. -/
theorem ofText?_body (arrays : List (String × ArrayValues)) :
    Json.ofText? (body arrays) = some (.object ((sorted arrays).map Json.ofEntry)) :=
  (Json.ofText?_of_reads (Json.reads_object fun entry _ =>
    Json.reads_entryText entry (Json.value? 124))).1

section Sorted

variable {arrays arrays' : List (String × ArrayValues)}

theorem sorted_perm : (sorted arrays).Perm arrays := List.mergeSort_perm _ _

theorem pairwise_sorted : (sorted arrays).Pairwise fun a b => a.1 ≤ b.1 := by
  have ordered := @List.pairwise_mergeSort (String × ArrayValues)
    (fun a b => decide (a.1 ≤ b.1))
    (fun a b c first second =>
      decide_eq_true (le_trans (of_decide_eq_true first) (of_decide_eq_true second)))
    (fun a b => by
      rw [Bool.or_eq_true, decide_eq_true_iff, decide_eq_true_iff]
      exact le_total a.1 b.1) arrays
  exact ordered.imp of_decide_eq_true

variable (distinct : (arrays.map Prod.fst).Nodup)
include distinct

/-- Distinct names are written in ascending order. -/
theorem ascending_sorted : ((sorted arrays).map Prod.fst).Pairwise (· < ·) := by
  have nodup : ((sorted arrays).map Prod.fst).Nodup :=
    (sorted_perm.map Prod.fst).nodup_iff.mpr distinct
  have ordered : ((sorted arrays).map Prod.fst).Pairwise (· ≤ ·) :=
    List.pairwise_map.mpr pairwise_sorted
  exact (ordered.and nodup).imp fun both => lt_of_le_of_ne both.1 both.2

/-- The order in which distinct names come makes no difference. -/
theorem sorted_congr (same : arrays'.Perm arrays) : sorted arrays' = sorted arrays := by
  refine List.Perm.eq_of_pairwise (fun a b a_mem b_mem below above => ?_) pairwise_sorted
    pairwise_sorted ((sorted_perm.trans same).trans sorted_perm.symm)
  have listed : a ∈ arrays := same.mem_iff.mp (sorted_perm.mem_iff.mp a_mem)
  exact List.inj_on_of_nodup_map distinct listed (sorted_perm.mem_iff.mp b_mem)
    (le_antisymm below above)

end Sorted

/-- The text of a sink is one object and the end of the line. A parser of JSON finds in it the
arrays that the sink accepted, each once and in the order of the names: the type beside the values,
integers exactly, finite floats as the numbers of 64 bits that they are, and null for other floats.
Arrays without such other floats can be had back from what is found. In another order the same
arrays are accepted too, and have the same text. -/
theorem object_reads_back (calls : List (String × ArrayValues)) :
    ∃ object members,
      finish (after JsonText calls) = object ++ "\n" ∧
      Json.ofText? object = some (.object members) ∧
      members.Perm ((taken JsonText calls).map Json.ofEntry) ∧
      (members.map Prod.fst).Pairwise (· < ·) ∧
      (∀ x : Float32, x.isFinite = true → Widens x (widen x)) ∧
      ((∀ entry ∈ taken JsonText calls, entry.2.AllFinite) →
        ∃ arrays, members.mapM Json.entryOf? = some arrays ∧
          arrays.Perm (taken JsonText calls)) ∧
      (∀ order, order.Perm (taken JsonText calls) → taken JsonText order = order) ∧
      ∀ calls', (taken JsonText calls').Perm (taken JsonText calls) →
        finish (after JsonText calls') = finish (after JsonText calls) := by
  have written (calls : List (String × ArrayValues)) :
      finish (after JsonText calls) = body (taken JsonText calls) ++ "\n" := by
    have held : (after JsonText calls).table.arrays = taken JsonText calls := by
      rw [views_jsonText.table_after, arrays_after, views_jsonText.taken_eq]
    rw [← held]
    exact text_eq _
  have distinct : ((taken JsonText calls).map Prod.fst).Nodup := by
    rw [views_jsonText.taken_eq, ← names_after]
    exact nodup_names_after calls
  have names (arrays : List (String × ArrayValues)) :
      (arrays.map Json.ofEntry).map Prod.fst = arrays.map Prod.fst := List.map_map
  refine ⟨_, _, written calls, ofText?_body _, sorted_perm.map _, ?_, fun x => widens_widen,
    fun finite => ⟨sorted (taken JsonText calls), ?_, sorted_perm⟩,
    fun order => views_jsonText.taken_of_perm, fun calls' same => ?_⟩
  · rw [names]
    exact ascending_sorted distinct
  · refine mapM_map_eq_some _ fun entry member => ?_
    have read := Json.arrayOf?_ofArray (finite entry (sorted_perm.mem_iff.mp member))
    change (Json.arrayOf? (Json.ofArray entry.2)).map (entry.1, ·) = _
    rw [read, Option.map_some]
  · rw [written, written, body, body, sorted_congr distinct same]

/-- Two arrays in two orders, one with a quote in its name. -/
theorem object_reads_back_two :
    finish (after JsonText [("b\"", .int [-1]), ("a", .float [0.5])]) =
        finish (after JsonText [("a", .float [0.5]), ("b\"", .int [-1])]) ∧
      ∃ object members,
        finish (after JsonText [("a", .float [0.5]), ("b\"", .int [-1])]) = object ++ "\n" ∧
          Json.ofText? object = some (.object members) ∧
          ∃ arrays, members.mapM Json.entryOf? = some arrays ∧
            arrays.Perm [("a", .float [0.5]), ("b\"", .int [-1])] := by
  have held : taken JsonText [("a", .float [0.5]), ("b\"", .int [-1])] =
      [("a", .float [0.5]), ("b\"", .int [-1])] := by decide +kernel
  obtain ⟨object, members, written, read, -, -, -, back, again, orders⟩ :=
    object_reads_back [("a", .float [0.5]), ("b\"", .int [-1])]
  rw [held] at back again orders
  have swapped := List.Perm.swap ("a", ArrayValues.float [0.5]) ("b\"", .int [-1]) []
  refine ⟨orders _ ?_, object, members, written, read, back (by decide +kernel)⟩
  rw [again _ swapped]
  exact swapped

end JsonText

end Binaural
