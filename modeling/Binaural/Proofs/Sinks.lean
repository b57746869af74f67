import Binaural.Artifact
import Mathlib.Data.List.Nodup

/-!
Sinks take calls one after the other, and all of them do the same.

A run answers each call and goes on whatever the answer was (`ArraySink.run`). What a run did is
told by its answers: `ArraySink.accepted` keeps the calls that were answered with success.

* A table of arrays holds, besides what it held before, exactly the accepted calls
  (`ArrayTable.arrays_run`), and refuses exactly the names that it has (`ArrayTable.call_eq`).
* `ArraySink.Views` says that a sink answers like the table in it. Every sink does, so what holds of
  runs of tables holds of them all (`ArraySink.Views.table_run`).
* Arrays that are all added in turn are a run without refusals (`ArraySink.run_of_addAll`), and so
  is everything that is put into a sink for an artifact (`Artifact.addAll_of_fill`).
-/

namespace Binaural

/-! ## Runs -/

namespace ArraySink

variable {σ : Type} [ArraySink σ]

/-- One call on a sink: its answer, and the sink after it, which a refused call leaves as it was. -/
def call (sink : σ) (entry : String × ArrayValues) : Except SinkError Unit × σ :=
  match add sink entry.1 entry.2 with
  | .ok next => (.ok (), next)
  | .error e => (.error e, sink)

/-- Calls in turn: their answers, and the sink after all of them. -/
def run (sink : σ) : List (String × ArrayValues) → List (Except SinkError Unit) × σ
  | [] => ([], sink)
  | entry :: rest =>
    let first := call sink entry
    let others := run first.2 rest
    (first.1 :: others.1, others.2)

/-- The calls that were accepted, going by the answers. -/
def accepted (calls : List (String × ArrayValues)) (answers : List (Except SinkError Unit)) :
    List (String × ArrayValues) :=
  ((calls.zip answers).filter fun p => p.2.isOk).map Prod.fst

variable {sink : σ} {entry : String × ArrayValues} {calls later : List (String × ArrayValues)}

theorem call_of_add_ok {next : σ} (added : add sink entry.1 entry.2 = .ok next) :
    call sink entry = (.ok (), next) := by
  rw [call, added]

theorem call_of_add_error {e : SinkError} (refused : add sink entry.1 entry.2 = .error e) :
    call sink entry = (.error e, sink) := by
  rw [call, refused]

/-- A refused call leaves the sink. -/
theorem call_snd_of_refused (refused : (call sink entry).1 ≠ .ok ()) :
    (call sink entry).2 = sink := by
  cases given : add sink entry.1 entry.2 with
  | ok next => exact absurd (by rw [call_of_add_ok given]) refused
  | error e => rw [call_of_add_error given]

theorem run_cons :
    run sink (entry :: calls) =
      ((call sink entry).1 :: (run (call sink entry).2 calls).1,
        (run (call sink entry).2 calls).2) :=
  rfl

/-- A run goes on from where another ended. -/
theorem run_append :
    run sink (calls ++ later) =
      ((run sink calls).1 ++ (run (run sink calls).2 later).1,
        (run (run sink calls).2 later).2) := by
  induction calls generalizing sink with
  | nil => rfl
  | cons entry rest ih => rw [List.cons_append, run_cons, run_cons, ih, List.cons_append]

/-- Every call is answered. -/
theorem length_run : (run sink calls).1.length = calls.length := by
  induction calls generalizing sink with
  | nil => rfl
  | cons entry rest ih => rw [run_cons, List.length_cons, List.length_cons, ih]

/-- A refused call might as well not have been made: the sink in the end and all other answers are
as without it. -/
theorem run_of_refused (refused : (call (run sink calls).2 entry).1 ≠ .ok ()) :
    run sink (calls ++ entry :: later) =
      ((run sink calls).1 ++
        (call (run sink calls).2 entry).1 :: (run sink (calls ++ later)).1.drop calls.length,
        (run sink (calls ++ later)).2) := by
  rw [run_append, run_append, run_cons, call_snd_of_refused refused]
  dsimp only
  rw [List.drop_left' length_run]

theorem accepted_cons (answer : Except SinkError Unit) (answers : List (Except SinkError Unit)) :
    accepted (entry :: calls) (answer :: answers) =
      if answer.isOk then entry :: accepted calls answers else accepted calls answers := by
  rw [accepted, List.zip_cons_cons, List.filter_cons, accepted]
  split
  · rw [List.map_cons]
  · rfl

theorem mem_of_mem_accepted {answers : List (Except SinkError Unit)}
    (member : entry ∈ accepted calls answers) : entry ∈ calls := by
  obtain ⟨⟨entry', answer⟩, kept, rfl⟩ := List.mem_map.mp member
  exact (List.of_mem_zip (List.mem_of_mem_filter kept)).1

/-- Arrays are all added if the first is added and then all others. -/
theorem addAll_cons_eq_ok {next : σ} (added : addAll sink (entry :: calls) = (.ok (), next)) :
    ∃ first, add sink entry.1 entry.2 = .ok first ∧ addAll first calls = (.ok (), next) := by
  obtain ⟨name, values⟩ := entry
  rw [addAll] at added
  split at added
  · cases congrArg Prod.fst added
  · rename_i first ok
    exact ⟨first, ok, added⟩

theorem addAll_append {next : σ} (added : addAll sink calls = (.ok (), next)) :
    addAll sink (calls ++ later) = addAll next later := by
  induction calls generalizing sink with
  | nil =>
      have same : sink = next := congrArg Prod.snd added
      rw [List.nil_append, same]
  | cons entry rest ih =>
      obtain ⟨first, ok, others⟩ := addAll_cons_eq_ok added
      rw [List.cons_append, addAll, ok]
      exact ih others

/-- Arrays that are all added in turn are a run. -/
theorem run_of_addAll {next : σ} (added : addAll sink calls = (.ok (), next)) :
    (run sink calls).2 = next := by
  induction calls generalizing sink with
  | nil => exact congrArg Prod.snd added
  | cons entry rest ih =>
      obtain ⟨first, ok, others⟩ := addAll_cons_eq_ok added
      rw [run_cons, call_of_add_ok ok]
      exact ih others

end ArraySink

/-! ## Runs of tables -/

namespace ArrayTable

open ArraySink

variable {t : ArrayTable} {entry : String × ArrayValues} {calls : List (String × ArrayValues)}

theorem find?_eq_none_iff {name : String} : t.find? name = none ↔ name ∉ t.names := by
  rw [find?, Option.map_eq_none_iff, List.find?_eq_none, names, List.mem_map]
  constructor
  · rintro absent ⟨entry, member, same⟩
    exact absent entry member (by simpa using same)
  · intro new entry member same
    exact new ⟨entry, member, by simpa using same⟩

/-- A call is refused if the table has an array of its name, and else that array is added. -/
theorem call_eq :
    call t entry =
      if entry.1 ∈ t.names then (.error (.duplicateArray entry.1), t)
      else (.ok (), ⟨t.arrays ++ [entry]⟩) := by
  split
  · rename_i taken
    have known : t.find? entry.1 ≠ none := mt find?_eq_none_iff.mp (not_not.mpr taken)
    obtain ⟨values, found⟩ := Option.ne_none_iff_exists'.mp known
    refine call_of_add_error ?_
    change t.add entry.1 entry.2 = _
    rw [add, found]
  · rename_i new
    refine call_of_add_ok ?_
    change t.add entry.1 entry.2 = _
    rw [add, find?_eq_none_iff.mpr new]

/-- After calls a table holds what it held before, and then the accepted calls in order. -/
theorem arrays_run :
    (run t calls).2.arrays = t.arrays ++ accepted calls (run t calls).1 := by
  induction calls generalizing t with
  | nil => rw [run, accepted, List.zip_nil_left, List.filter_nil, List.map_nil, List.append_nil]
  | cons entry rest ih =>
      rw [run_cons, accepted_cons, ih, call_eq]
      by_cases taken : entry.1 ∈ t.names
      · rw [if_pos taken]
        rfl
      · rw [if_neg taken]
        exact List.append_assoc _ _ _

/-- Calls with new and different names are all accepted. -/
theorem accepted_run_of_new (new : ∀ entry ∈ calls, entry.1 ∉ t.names)
    (distinct : (calls.map Prod.fst).Nodup) : accepted calls (run t calls).1 = calls := by
  induction calls generalizing t with
  | nil => rfl
  | cons entry rest ih =>
      obtain ⟨first, others⟩ := List.forall_mem_cons.mp new
      obtain ⟨different, distinct⟩ := List.nodup_cons.mp distinct
      rw [run_cons, accepted_cons, call_eq, if_neg first]
      refine congrArg (entry :: ·) (ih (fun later member => ?_) distinct)
      rw [names, List.map_append, List.mem_append, not_or]
      refine ⟨others later member, fun same => different ?_⟩
      rw [List.map_singleton, List.mem_singleton] at same
      exact same ▸ List.mem_map_of_mem member

/-- One call keeps the names distinct. -/
theorem nodup_names_call (distinct : t.names.Nodup) : (call t entry).2.names.Nodup := by
  rw [call_eq]
  split
  · exact distinct
  · rename_i new
    rw [names, List.map_append, List.map_singleton, ← List.concat_eq_append]
    exact distinct.concat new

/-- Any calls keep the names distinct. -/
theorem nodup_names_run (distinct : t.names.Nodup) : (run t calls).2.names.Nodup := by
  induction calls generalizing t with
  | nil => exact distinct
  | cons entry rest ih =>
      rw [run_cons]
      exact ih (nodup_names_call distinct)

/-- Among distinct names, the array of a name is the one that stands with it. -/
theorem find?_eq_some_iff (distinct : t.names.Nodup) {name : String} {values : ArrayValues} :
    t.find? name = some values ↔ (name, values) ∈ t.arrays := by
  rw [find?, Option.map_eq_some_iff]
  constructor
  · rintro ⟨⟨name', values'⟩, found, rfl⟩
    have same : name' = name := by simpa using List.find?_some found
    rw [← same]
    exact List.mem_of_find?_eq_some found
  · intro member
    cases found : t.arrays.find? fun entry => entry.1 == name with
    | none =>
        have := List.find?_eq_none.mp found (name, values) member
        simp at this
    | some entry =>
        have same : entry.1 = name := by simpa using List.find?_some found
        have one := List.inj_on_of_nodup_map distinct (List.mem_of_find?_eq_some found) member same
        exact ⟨entry, rfl, by rw [one]⟩

end ArrayTable

/-! ## All sinks -/

namespace ArraySink

/-- A sink answers like a table that can be seen in it, and after a call this is the table after the
call. -/
structure Views {σ : Type} [ArraySink σ] (table : σ → ArrayTable) : Prop where
  table_empty : table (empty : σ) = (empty : ArrayTable)
  table_call (sink : σ) (entry : String × ArrayValues) :
    (call sink entry).1 = (call (table sink) entry).1 ∧
      table (call sink entry).2 = (call (table sink) entry).2

/-- What holds of one call holds of all calls in turn. -/
theorem Views.table_run {σ : Type} [ArraySink σ] {table : σ → ArrayTable} (views : Views table)
    (sink : σ) (calls : List (String × ArrayValues)) :
    (run sink calls).1 = (run (table sink) calls).1 ∧
      table (run sink calls).2 = (run (table sink) calls).2 := by
  induction calls generalizing sink with
  | nil => exact ⟨rfl, rfl⟩
  | cons entry rest ih =>
      obtain ⟨answer, after⟩ := views.table_call sink entry
      obtain ⟨answers, last⟩ := ih (call sink entry).2
      rw [after] at answers last
      rw [run_cons, run_cons, answer, answers]
      exact ⟨rfl, last⟩

section Added

variable {σ : Type} [ArraySink σ] {table : σ → ArrayTable} (views : Views table) {sink next : σ}
include views

/-- What is added stands behind all that was there. -/
theorem Views.arrays_of_add {entry : String × ArrayValues}
    (added : add sink entry.1 entry.2 = .ok next) :
    (table next).arrays = (table sink).arrays ++ [entry] := by
  obtain ⟨answer, after⟩ := views.table_call sink entry
  rw [call_of_add_ok added, ArrayTable.call_eq] at answer after
  split at answer
  · cases answer
  · rename_i new
    rw [if_neg new] at after
    rw [after]

theorem Views.arrays_of_addAll {entries : List (String × ArrayValues)}
    (added : addAll sink entries = (.ok (), next)) :
    (table next).arrays = (table sink).arrays ++ entries := by
  induction entries generalizing sink with
  | nil =>
      have same : sink = next := congrArg Prod.snd added
      rw [List.append_nil, same]
  | cons entry rest ih =>
      obtain ⟨first, ok, others⟩ := addAll_cons_eq_ok added
      rw [ih others, views.arrays_of_add ok, List.append_assoc, List.singleton_append]

end Added

theorem views_table : Views (σ := ArrayTable) id where
  table_empty := rfl
  table_call _ _ := ⟨rfl, rfl⟩

/-- A sink that wraps a table and adds to it is seen as that table. -/
theorem views_of_wrap {σ : Type} [ArraySink σ] {table : σ → ArrayTable} {wrap : ArrayTable → σ}
    (table_wrap : ∀ t, table (wrap t) = t)
    (empty_eq : (empty : σ) = wrap ArrayTable.empty)
    (add_eq : ∀ (sink : σ) name values,
      add sink name values = ((table sink).add name values).map wrap) :
    Views table where
  table_empty := by
    rw [empty_eq, table_wrap]
    rfl
  table_call sink entry := by
    cases given : (table sink).add entry.1 entry.2 with
    | ok next =>
        have added : add sink entry.1 entry.2 = .ok (wrap next) := by
          rw [add_eq, given]
          rfl
        rw [call_of_add_ok added, call_of_add_ok given]
        exact ⟨rfl, table_wrap next⟩
    | error e =>
        have refused : add sink entry.1 entry.2 = .error e := by
          rw [add_eq, given]
          rfl
        rw [call_of_add_error refused, call_of_add_error given]
        exact ⟨rfl, rfl⟩

theorem views_rustSource : Views RustSource.table :=
  @views_of_wrap RustSource _ _ RustSource.mk (fun _ => rfl) rfl fun _ _ _ => rfl

theorem views_jsonText : Views JsonText.table :=
  @views_of_wrap JsonText _ _ JsonText.mk (fun _ => rfl) rfl fun _ _ _ => rfl

/-! ## Calls on new sinks -/

/-- The answers of a new sink to calls. -/
def answers (σ : Type) [ArraySink σ] (calls : List (String × ArrayValues)) :
    List (Except SinkError Unit) :=
  (run (empty : σ) calls).1

/-- A new sink after calls. -/
def after (σ : Type) [ArraySink σ] (calls : List (String × ArrayValues)) : σ :=
  (run (empty : σ) calls).2

/-- The calls that a new sink accepts. -/
def taken (σ : Type) [ArraySink σ] (calls : List (String × ArrayValues)) :
    List (String × ArrayValues) :=
  accepted calls (answers σ calls)

/-- How a sink goes on after calls, told by its own answers. -/
structure GoesOn (σ : Type) [ArraySink σ] (calls : List (String × ArrayValues)) : Prop where
  answered : (answers σ calls).length = calls.length
  /-- A name is refused, and told so, if it is the name of an accepted call; else it is accepted. -/
  next : ∀ entry : String × ArrayValues, (call (after σ calls) entry).1 =
    if entry.1 ∈ (taken σ calls).map Prod.fst then .error (.duplicateArray entry.1) else .ok ()
  /-- Whatever comes later, a refused call has no part in the sink nor in any other answer. -/
  refused : ∀ (entry : String × ArrayValues) (later : List (String × ArrayValues)),
    (call (after σ calls) entry).1 ≠ .ok () →
      after σ (calls ++ entry :: later) = after σ (calls ++ later) ∧
        answers σ (calls ++ entry :: later) =
          answers σ calls ++
            (call (after σ calls) entry).1 :: (answers σ (calls ++ later)).drop calls.length

variable {σ : Type} [ArraySink σ] {table : σ → ArrayTable} (calls : List (String × ArrayValues))

theorem Views.answers_eq (views : Views table) : answers σ calls = answers ArrayTable calls := by
  rw [answers, (views.table_run _ calls).1, views.table_empty, answers]

theorem Views.table_after (views : Views table) :
    table (after σ calls) = after ArrayTable calls := by
  rw [after, (views.table_run _ calls).2, views.table_empty, after]

theorem Views.taken_eq (views : Views table) : taken σ calls = taken ArrayTable calls := by
  rw [taken, views.answers_eq, taken]

/-- A new table holds the accepted calls in order. -/
theorem arrays_after : (after ArrayTable calls).arrays = taken ArrayTable calls :=
  ArrayTable.arrays_run

theorem names_after : (after ArrayTable calls).names = (taken ArrayTable calls).map Prod.fst := by
  rw [ArrayTable.names, arrays_after]

theorem nodup_names_after : (after ArrayTable calls).names.Nodup :=
  ArrayTable.nodup_names_run List.nodup_nil

/-- The calls that were accepted are all accepted again, in whatever order they are made. -/
theorem Views.taken_of_perm (views : Views table) {calls order : List (String × ArrayValues)}
    (same : order.Perm (taken σ calls)) : taken σ order = order := by
  have distinct : (order.map Prod.fst).Nodup := by
    rw [(same.map Prod.fst).nodup_iff, views.taken_eq, ← names_after]
    exact nodup_names_after calls
  rw [views.taken_eq]
  exact ArrayTable.accepted_run_of_new (fun _ _ => List.not_mem_nil) distinct

/-- Every sink that is seen as a table goes on like one. -/
theorem Views.goesOn (views : Views table) : GoesOn σ calls where
  answered := length_run
  next entry := by
    rw [(views.table_call _ entry).1, views.table_after, ArrayTable.call_eq, names_after,
      views.taken_eq]
    split
    · rfl
    · rfl
  refused entry later refused := by
    have skipped := @run_of_refused σ _ empty entry calls later refused
    have last := congrArg Prod.snd skipped
    have others := congrArg Prod.fst skipped
    exact ⟨last, others⟩

/-- The three sinks are one machine. To any calls they give the same answers, each goes on as its
answers tell, and they hold the same arrays: the names of the accepted calls in order and without
repetition, and under each name the values of the one accepted call with it. -/
theorem sinks_are_one_machine :
    (answers RustSource calls = answers ArrayTable calls ∧
        answers JsonText calls = answers ArrayTable calls) ∧
      (GoesOn ArrayTable calls ∧ GoesOn RustSource calls ∧ GoesOn JsonText calls) ∧
      ((after RustSource calls).table = after ArrayTable calls ∧
        (after JsonText calls).table = after ArrayTable calls) ∧
      (after ArrayTable calls).names = (taken ArrayTable calls).map Prod.fst ∧
      (after ArrayTable calls).names.Nodup ∧
      ∀ name,
        (∀ values, (after ArrayTable calls).find? name = some values ↔
          (name, values) ∈ taken ArrayTable calls) ∧
        ((after ArrayTable calls).find? name = none ↔
          name ∉ (taken ArrayTable calls).map Prod.fst) := by
  refine ⟨⟨views_rustSource.answers_eq calls, views_jsonText.answers_eq calls⟩,
    ⟨views_table.goesOn calls, views_rustSource.goesOn calls, views_jsonText.goesOn calls⟩,
    ⟨views_rustSource.table_after calls, views_jsonText.table_after calls⟩,
    names_after calls, nodup_names_after calls, fun name => ⟨fun values => ?_, ?_⟩⟩
  · rw [ArrayTable.find?_eq_some_iff (nodup_names_after calls), arrays_after]
  · rw [ArrayTable.find?_eq_none_iff, names_after]

end ArraySink

/-! ## Artifacts -/

namespace Artifact

open ArraySink

/-- The arrays of an artifact, in the order in which they are added. -/
def contents (data : Option (ImpulseTable Float)) (extras : Extras) :
    List (String × ArrayValues) :=
  (data.map ImpulseTable.arrays).getD [] ++
    (extras.primesLimit.map fun limit => ("primes", primes limit)).toList

/-- Whatever is filled is what a sink gives to which all these arrays were added. -/
theorem addAll_of_fill {σ : Type} [ArraySink σ] {data : Option (ImpulseTable Float)}
    {extras : Extras} {output : Output σ} (filled : fill σ data extras = .ok output) :
    ∃ sink, addAll (empty : σ) (contents data extras) = (.ok (), sink) ∧ finish sink = output := by
  rw [fill] at filled
  cases put : dataInto σ data with
  | error e =>
      rw [put] at filled
      cases filled
  | ok sink =>
      have added :
          addAll (empty : σ) ((data.map ImpulseTable.arrays).getD []) = (.ok (), sink) := by
        cases data with
        | none =>
            rw [dataInto] at put
            rw [← Except.ok.inj put]
            rfl
        | some table =>
            rw [dataInto, ImpulseTable.writeTo] at put
            change addAll (empty : σ) table.arrays = _
            generalize addAll (empty : σ) table.arrays = given at put ⊢
            obtain ⟨answer, next⟩ := given
            cases answer with
            | error e => cases put
            | ok =>
                cases put
                rfl
      rw [put] at filled
      rw [contents, addAll_append added]
      dsimp only at filled
      cases limit : extras.primesLimit with
      | none =>
          rw [limit] at filled
          exact ⟨sink, rfl, Except.ok.inj filled⟩
      | some bound =>
          rw [limit] at filled
          dsimp only at filled
          split at filled
          · cases filled
          · rename_i next primesAdded
            refine ⟨next, ?_, Except.ok.inj filled⟩
            rw [Option.map_some, Option.toList_some, addAll, primesAdded]
            rfl

end Artifact

end Binaural
