import Binaural.Command.Run
import Binaural.Proofs.Demands
import Binaural.Proofs.FileTree
import Binaural.Proofs.Pipeline
import Binaural.Proofs.Sinks

/-!
A compilation is done as a whole or not at all.

What is written comes last, so whatever fails before leaves the file system as it was. Between a
compiled dataset and the write nothing can fail: the names of all arrays differ, so every sink takes
them (`Artifact.exists_render`).
-/

namespace Binaural

/-! ## Rendering -/

namespace ArraySink

variable {σ : Type} [ArraySink σ] {table : σ → ArrayTable}

theorem Views.exists_add (views : Views table) {sink : σ} {name : String} (values : ArrayValues)
    (new : name ∉ (table sink).names) : ∃ next, add sink name values = .ok next := by
  have answer := (views.table_call sink (name, values)).1
  rw [ArrayTable.call_eq, if_neg new] at answer
  cases given : add sink name values with
  | ok next => exact ⟨next, rfl⟩
  | error e =>
      have refused := @call_of_add_error σ _ sink (name, values) e given
      rw [refused] at answer
      cases answer

/-- A sink takes all arrays of new and different names. -/
theorem Views.exists_addAll (views : Views table) {sink : σ} {entries : List (String × ArrayValues)}
    (distinct : ((table sink).names ++ entries.map Prod.fst).Nodup) :
    ∃ next, addAll sink entries = (.ok (), next) := by
  induction entries generalizing sink with
  | nil => exact ⟨sink, rfl⟩
  | cons entry rest ih =>
      obtain ⟨name, values⟩ := entry
      have new : name ∉ (table sink).names := by
        rw [List.nodup_append] at distinct
        exact fun old => distinct.2.2 name old name (by simp) rfl
      obtain ⟨next, added⟩ := views.exists_add values new
      have after : (table next).names = (table sink).names ++ [name] := by
        have arrays := @Views.arrays_of_add σ _ table views sink next (name, values) added
        rw [ArrayTable.names, arrays, List.map_append]
        rfl
      obtain ⟨last, others⟩ := @ih next (by rw [after, List.append_assoc]; exact distinct)
      refine ⟨last, ?_⟩
      rw [addAll, added]
      exact others

end ArraySink

namespace Artifact

open ArraySink

/-- The names of all arrays of an artifact differ. -/
theorem nodup_names_contents (data : Option (ImpulseTable Float)) (extras : Extras) :
    ((contents data extras).map Prod.fst).Nodup := by
  cases data with
  | none =>
      cases limit : extras.primesLimit with
      | none => simp [contents, limit]
      | some bound => simp [contents, limit]
  | some table =>
      cases limit : extras.primesLimit with
      | none => simp [contents, limit, ImpulseTable.arrays]
      | some bound => simp [contents, limit, ImpulseTable.arrays]

section Sinks

variable {σ : Type} [ArraySink σ] {table : σ → ArrayTable} (views : Views table)
  (data : Option (ImpulseTable Float))
include views

theorem names_empty : (table (empty : σ)).names = [] := by
  rw [views.table_empty]
  rfl

/-- The arrays of data are put into a sink if their names differ. -/
theorem exists_dataInto
    (distinct : (((data.map ImpulseTable.arrays).getD []).map Prod.fst).Nodup) :
    ∃ sink, dataInto σ data = .ok sink ∧
      addAll (empty : σ) ((data.map ImpulseTable.arrays).getD []) = (.ok (), sink) := by
  have new : ((table (empty : σ)).names ++
      ((data.map ImpulseTable.arrays).getD []).map Prod.fst).Nodup := by
    rw [names_empty views, List.nil_append]
    exact distinct
  obtain ⟨sink, added⟩ := views.exists_addAll new
  refine ⟨sink, ?_, added⟩
  cases data with
  | none =>
      have same : (empty : σ) = sink := congrArg Prod.snd added
      rw [dataInto, same]
  | some data =>
      have written : data.writeTo (empty : σ) = (.ok (), sink) := by
        rw [ImpulseTable.writeTo]
        change addAll (empty : σ) data.arrays = _ at added
        rw [added]
      rw [dataInto, written]

theorem exists_fill (extras : Extras) : ∃ output, fill σ data extras = .ok output := by
  have distinct := nodup_names_contents data extras
  rw [contents, List.map_append] at distinct
  obtain ⟨sink, put, added⟩ := exists_dataInto views data distinct.of_append_left
  rw [fill, put]
  dsimp only
  cases limit : extras.primesLimit with
  | none => exact ⟨_, rfl⟩
  | some bound =>
      have new : "primes" ∉ (table sink).names := by
        rw [ArrayTable.names, views.arrays_of_addAll added, List.map_append, ← ArrayTable.names,
          names_empty views, List.nil_append]
        rw [limit] at distinct
        exact fun old => (List.nodup_append.mp distinct).2.2 _ old "primes" (by simp) rfl
      obtain ⟨last, primesAdded⟩ := views.exists_add (primes bound) new
      dsimp only
      rw [primesAdded]
      exact ⟨_, rfl⟩

end Sinks

/-- Every artifact can be rendered, whatever goes into it. -/
theorem exists_render (data : Option (ImpulseTable Float)) (extras : Extras)
    (format : OutputFormat) : ∃ text, render data extras format = .ok text := by
  cases format with
  | rust => exact exists_fill views_rustSource data extras
  | json => exact exists_fill views_jsonText data extras

end Artifact

/-! ## Settings -/

/-- Settings that meet all demands but for another length can only fail by that length. -/
theorem Config.validate_withLength {α : Type} [Scalar α] {c : Config α} {length : Nat}
    {e : ConfigError α} (valid : c.validate = .ok ())
    (refused : { c with finalLength := length }.validate = .error e) :
    e = .invalid (.finalLength length) ∧ (length = 0 ∨ sampleRate < length) := by
  have meets := validate_eq_ok_iff.mp valid
  by_cases bad : length = 0 ∨ sampleRate < length
  · refine ⟨?_, bad⟩
    rw [validate, fault?, if_pos bad] at refused
    exact (Except.error.inj refused).symm
  · have accepted : { c with finalLength := length }.validate = .ok () :=
      validate_eq_ok_iff.mpr
        { meets with
          finalLength_ne := fun none => bad (.inl none)
          finalLength_le := not_lt.mp fun long => bad (.inr long) }
    rw [accepted] at refused
    cases refused

theorem Settings.validate_of_ofFile {t : FileTree} {path : Path} {c : Config Float}
    (read : ofFile t path = .ok c) : c.validate = .ok () := by
  unfold ofFile at read
  split at read
  · cases read
  · split at read
    · cases read
    · split at read
      · cases read
      · rename_i valid
        rw [← Except.ok.inj read]
        exact valid

namespace Command

variable {t : FileTree} {a : CompileArguments}

/-- Settings are those of the file or the defaults, but for the length that is asked for. -/
theorem exists_base_of_settings {c : Config Float} (set : settings t a = .ok c) :
    ∃ base, (∀ path, a.config = some path → Settings.ofFile t path = .ok base) ∧
      (a.config = none → base = .default) ∧
      c = { base with finalLength := a.finalLength.getD base.finalLength } := by
  rw [settings] at set
  cases given : a.config with
  | none =>
      rw [given] at set
      exact ⟨.default, nofun, fun _ => rfl, (Except.ok.inj set).symm⟩
  | some path =>
      rw [given] at set
      dsimp only at set
      cases read : Settings.ofFile t path with
      | error e =>
          rw [read] at set
          cases set
      | ok base =>
          rw [read] at set
          refine ⟨base, fun other same => ?_, nofun, (Except.ok.inj set).symm⟩
          rw [← Option.some.inj same, read]

/-! ## Compilations -/

/-- What a compilation answers and leaves behind, by how far it comes. -/
structure AllOrNothing (t : FileTree) (a : CompileArguments) (answer : Except CommandError Unit)
    (after : FileTree) : Prop where
  /-- Whatever fails leaves everything as it was. -/
  unchanged : ∀ e, answer = .error e → after = t
  /-- Settings that cannot be read are the first to fail. -/
  unsettled : ∀ e, settings t a = .error e → answer = .error ⟨none, .error e⟩
  /-- Else they are those of the file, which meet all demands, or the defaults, with the length
  that the arguments ask for. -/
  effective : ∀ c, settings t a = .ok c → ∃ base,
    (∀ path, a.config = some path → Settings.ofFile t path = .ok base ∧ base.validate = .ok ()) ∧
      (a.config = none → base = .default) ∧
      c = { base with finalLength := a.finalLength.getD base.finalLength }
  /-- Then it is the recordings. -/
  unloaded : ∀ c e, settings t a = .ok c → Recording.loadDataset t a.input = .error e →
    answer = .error ⟨some a.input, .error e⟩
  /-- Settings that do not meet all demands are reported before any stage is run. -/
  unmet : ∀ c d e, settings t a = .ok c → Recording.loadDataset t a.input = .ok d →
    c.validate = .error e → answer = .error ⟨some a.input, .error (.config e)⟩
  /-- If they come from a file, only the length that the arguments ask for can be what is wrong. -/
  overridden : ∀ path c e, a.config = some path → settings t a = .ok c → c.validate = .error e →
    ∃ length, a.finalLength = some length ∧ (length = 0 ∨ sampleRate < length) ∧
      e = .invalid (.finalLength length)
  /-- Stages that fail, with settings that meet all demands. -/
  broken : ∀ c d f, settings t a = .ok c → Recording.loadDataset t a.input = .ok d →
    c.validate = .ok () → c.process d.grid = .error f → answer = .error ⟨some a.input, f⟩
  /-- Whatever was compiled can be rendered, in every format and with whatever else. -/
  rendered : ∀ d c table extras format, Binaural.compile d c = .ok table →
    ∃ text, Artifact.render (some table) extras format = .ok text
  /-- Nothing but the write is left to fail. -/
  written : ∀ c d table text, settings t a = .ok c → Recording.loadDataset t a.input = .ok d →
    Binaural.compile d c = .ok table →
    Artifact.render (some table) (extras a) a.format = .ok text →
    answer = .ok () ∨ ∃ fault, t.write a.output text.toUTF8 = .error fault ∧
      answer = .error ⟨some a.input, .error (.io .write (.file a.output fault))⟩
  /-- If all goes well, the output is the text of the compiled recordings, and all else is as it
  was. -/
  succeeded : answer = .ok () →
    ∃ c d table text place, settings t a = .ok c ∧ c.validate = .ok () ∧
      Recording.loadDataset t a.input = .ok d ∧ c.process d.grid = .ok table.grid ∧
      table.layout = d.layout ∧ Artifact.render (some table) (extras a) a.format = .ok text ∧
      t.locate a.output = .ok place ∧ FileTree.WrittenAt place text.toUTF8 t after ∧
      (a.output.endsInSlash = false → after.readText a.output = .ok text)

theorem runCompile_of_settings_error {e : CompileError Float} (failed : settings t a = .error e) :
    runCompile t a = (.error ⟨none, .error e⟩, t) := by
  rw [runCompile, failed]

theorem runCompile_of_text_error {c : Config Float} {f : Failure Float}
    (set : settings t a = .ok c)
    (failed : compileText t a.input c (extras a) a.format = .error f) :
    runCompile t a = (.error ⟨some a.input, f⟩, t) := by
  rw [runCompile, set]
  dsimp only
  rw [compileToPath, failed]

theorem runCompile_of_text {c : Config Float} {table : ImpulseTable Float} {text : String}
    (set : settings t a = .ok c)
    (made : compileText t a.input c (extras a) a.format = .ok (table, text)) :
    runCompile t a =
      match t.write a.output text.toUTF8 with
      | .error fault => (.error ⟨some a.input, .error (.io .write (.file a.output fault))⟩, t)
      | .ok written => (.ok (), written) := by
  rw [runCompile, set]
  dsimp only
  rw [compileToPath, made]
  dsimp only
  rw [Artifact.write]
  cases t.write a.output text.toUTF8 with
  | error fault => rfl
  | ok written => rfl

theorem compileText_of_load_error {c : Config Float} {e : CompileError Float} {input : Path}
    {extras : Extras} {format : OutputFormat} (failed : Recording.loadDataset t input = .error e) :
    compileText t input c extras format = .error (.error e) := by
  rw [compileText, failed]
  rfl

theorem compileText_of_compile_error {c : Config Float} {d : Dataset Float} {f : Failure Float}
    {input : Path} {extras : Extras} {format : OutputFormat}
    (loaded : Recording.loadDataset t input = .ok d) (failed : Binaural.compile d c = .error f) :
    compileText t input c extras format = .error f := by
  rw [compileText, loaded]
  change (Binaural.compile d c >>= _) = _
  rw [failed]
  rfl

theorem compileText_eq_ok_iff {c : Config Float} {table : ImpulseTable Float} {text : String}
    {input : Path} {extras : Extras} {format : OutputFormat} :
    compileText t input c extras format = .ok (table, text) ↔
      ∃ d, Recording.loadDataset t input = .ok d ∧ Binaural.compile d c = .ok table ∧
        Artifact.render (some table) extras format = .ok text := by
  simp only [compileText, bind_eq_ok_iff, Failure.ofError_eq_ok_iff, Except.ok.injEq,
    Prod.mk.injEq]
  constructor
  · rintro ⟨d, loaded, table, compiled, text, rendered, rfl, rfl⟩
    exact ⟨d, loaded, compiled, rendered⟩
  · rintro ⟨d, loaded, compiled, rendered⟩
    exact ⟨d, loaded, table, compiled, text, rendered, rfl, rfl⟩

/-- A compilation that fails leaves everything as it was. -/
theorem after_runCompile_of_error {e : CommandError} (failed : (runCompile t a).1 = .error e) :
    (runCompile t a).2 = t := by
  cases set : settings t a with
  | error e => rw [runCompile_of_settings_error set]
  | ok c =>
      cases made : compileText t a.input c (extras a) a.format with
      | error f => rw [runCompile_of_text_error set made]
      | ok result =>
          obtain ⟨table, text⟩ := result
          rw [runCompile_of_text set made] at failed ⊢
          split
          · rfl
          · rename_i written
            rw [written] at failed
            cases failed

/-- A compilation succeeds only if each of its steps does. -/
theorem runCompile_eq_ok {after : FileTree} (done : runCompile t a = (.ok (), after)) :
    ∃ c table text, settings t a = .ok c ∧
      compileText t a.input c (extras a) a.format = .ok (table, text) ∧
      t.write a.output text.toUTF8 = .ok after := by
  cases set : settings t a with
  | error e =>
      rw [runCompile_of_settings_error set] at done
      cases congrArg Prod.fst done
  | ok c =>
      cases made : compileText t a.input c (extras a) a.format with
      | error f =>
          rw [runCompile_of_text_error set made] at done
          cases congrArg Prod.fst done
      | ok result =>
          obtain ⟨table, text⟩ := result
          rw [runCompile_of_text set made] at done
          refine ⟨c, table, text, rfl, made, ?_⟩
          split at done
          · cases congrArg Prod.fst done
          · rename_i written writes
            rw [writes, (Prod.mk.inj done).2]

/-- A compilation is done as a whole or not at all: if any step fails, the file system is as it was,
and if none does, the output file is all that differs. -/
theorem compile_all_or_nothing (t : FileTree) (a : CompileArguments) :
    AllOrNothing t a (run t (.compile a)).1 (run t (.compile a)).2 where
  unchanged _ failed := after_runCompile_of_error failed
  unsettled _ failed := congrArg Prod.fst (runCompile_of_settings_error failed)
  effective _ set := by
    obtain ⟨base, read, default, same⟩ := exists_base_of_settings set
    exact ⟨base, fun path given => ⟨read path given, Settings.validate_of_ofFile (read path given)⟩,
      default, same⟩
  unloaded _ _ set failed :=
    congrArg Prod.fst (runCompile_of_text_error set (compileText_of_load_error failed))
  unmet c d e set loaded unmet := by
    have refused : Binaural.compile d c = .error (.error (.config e)) := by
      rw [Binaural.compile, unmet]
    exact congrArg Prod.fst
      (runCompile_of_text_error set (compileText_of_compile_error loaded refused))
  overridden path c e given set unmet := by
    obtain ⟨base, read, -, rfl⟩ := exists_base_of_settings set
    have valid := Settings.validate_of_ofFile (read path given)
    cases length : a.finalLength with
    | none =>
        rw [length, Option.getD_none] at unmet
        cases valid.symm.trans unmet
    | some length' =>
        rw [length, Option.getD_some] at unmet
        obtain ⟨fault, bad⟩ := Config.validate_withLength valid unmet
        exact ⟨length', rfl, bad, fault⟩
  broken c d f set loaded met failed := by
    have broke : Binaural.compile d c = .error f := by
      rw [Binaural.compile, met, failed]
      rfl
    exact congrArg Prod.fst
      (runCompile_of_text_error set (compileText_of_compile_error loaded broke))
  rendered _ _ table extras format _ := Artifact.exists_render (some table) extras format
  written c d table text set loaded compiled rendered := by
    have made := compileText_eq_ok_iff.mpr ⟨d, loaded, compiled, rendered⟩
    change (runCompile t a).1 = _ ∨ ∃ _, _ ∧ (runCompile t a).1 = _
    rw [runCompile_of_text set made]
    cases t.write a.output text.toUTF8 with
    | error fault => exact .inr ⟨fault, rfl, rfl⟩
    | ok written => exact .inl rfl
  succeeded done := by
    have whole : runCompile t a = (.ok (), (runCompile t a).2) := Prod.ext done rfl
    obtain ⟨c, table, text, set, made, writes⟩ := runCompile_eq_ok whole
    obtain ⟨d, loaded, compiled, rendered⟩ := compileText_eq_ok_iff.mp made
    obtain ⟨met, layout, passes⟩ := compile_eq_ok_iff.mp compiled
    obtain ⟨place, output, free, inserted⟩ := FileTree.write_eq_ok_iff.mp writes
    have located := FileTree.locate_of_locateOutput output
    have written : FileTree.WrittenAt place text.toUTF8 t (runCompile t a).2 := by
      rw [inserted]
      exact FileTree.writtenAt_insert free
    refine ⟨c, d, table, text, place, set, met, loaded, ?_, layout, rendered, located, written,
      fun plain => written.readText_eq free located plain⟩
    rw [Config.process_eq_runAll]
    exact GridStage.runAll_eq_ok_iff.mpr passes

end Command

end Binaural
