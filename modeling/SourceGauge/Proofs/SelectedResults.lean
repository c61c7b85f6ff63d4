import Mathlib
import SourceGauge.Proofs.CommandEffect
import SourceGauge.Proofs.StoreRecords

namespace SourceGauge.Proofs.SelectedResults
open Batch Command BatchOrder StoreRecords CommandEffect

theorem same_self (p : List Char) : Path.same p p = true := by simp [Path.same]

theorem not_mem_dedupFrom {p : List Char} {seen : List (List Char)} (hp : p ∈ seen)
    (paths : List (List Char)) : p ∉ Selection.dedupFrom seen paths := by
  induction paths generalizing seen with
  | nil => simp [Selection.dedupFrom]
  | cons q rest ih =>
    rw [Selection.dedupFrom]
    split
    · exact ih hp
    · rename_i hnew
      have hne : p ≠ q := by
        rintro rfl
        exact hnew (List.any_eq_true.mpr ⟨p, hp, same_self p⟩)
      rw [List.mem_cons, not_or]
      exact ⟨hne, ih (List.mem_cons_of_mem q hp)⟩

theorem nodup_dedupFrom (seen paths : List (List Char)) :
    (Selection.dedupFrom seen paths).Nodup := by
  induction paths generalizing seen with
  | nil => exact List.nodup_nil
  | cons q rest ih =>
    rw [Selection.dedupFrom]
    split
    · exact ih seen
    · exact List.nodup_cons.mpr ⟨not_mem_dedupFrom (by simp) rest, ih (q :: seen)⟩

/-- No path is selected twice, so no two results compete for an identifier. -/
theorem nodup_select {fs : FileSystem} {extensions patterns : List String}
    {roots files : List (List Char)}
    (h : (Selection.select fs extensions patterns roots).1 = .ok files) : files.Nodup := by
  have hmap :
      (Selection.walkAll fs extensions patterns roots).1.map Selection.dedup = .ok files := h
  cases hw : (Selection.walkAll fs extensions patterns roots).1 with
  | error e => simp [hw, Except.map] at hmap
  | ok walked =>
    rw [hw] at hmap
    cases hmap
    exact nodup_dedupFrom [] walked

theorem nodup_identifiers {files : List (List Char)} (h : files.Nodup) :
    (files.map String.ofList).Nodup :=
  h.map (fun _ _ he => String.ofList_injective he)

/-- The result of a file: that of its text, or a failure with the reason why there is none. -/
def ofFile (fs : FileSystem) (path : List Char) : Result :=
  match fs.readText path with
  | .ok text => .analyze (String.ofList path) text
  | .error fault => .failure (String.ofList path) fault.message

theorem analyze_source (fs : FileSystem) (path : List Char) :
    (Batch.analyze (Analysis.source fs) (String.ofList path)).1 = ofFile fs path := by
  rw [Batch.analyze, Analysis.source, String.toList_ofList, ofFile]
  cases fs.readText path <;> rfl

theorem analyzed_intoStore (store : Store) (source : Source) (p : Parallel)
    (identifiers : List String) :
    (intoStore store source p identifiers).2.1.analyzed = identifiers := by
  by_cases hne : identifiers = []
  · simp [hne, intoStore]
  · rw [intoStore_report store source p hne]

/-- Reading the store back by the identifiers of a batch gives the results of the batch. -/
theorem filterMap_get?_intoStore (fs : FileSystem) (p : Parallel) (files : List (List Char)) :
    (files.map String.ofList).filterMap
        (intoStore {} (Analysis.source fs) p (files.map String.ofList)).1.get? =
      files.map (ofFile fs) := by
  have hget : ∀ path ∈ files,
      (intoStore {} (Analysis.source fs) p (files.map String.ofList)).1.get? (String.ofList path) =
        some (ofFile fs path) := by
    intro path hpath
    have hmem : String.ofList path ∈ files.map String.ofList := List.mem_map_of_mem hpath
    rw [get?_intoStore, if_pos hmem, analyze_source]
  rw [List.filterMap_map]
  exact (List.filterMap_congr hget).trans (congrFun List.filterMap_eq_map files)

theorem resultsFor_eq_map (fs : FileSystem) (p : Parallel) (files : List (List Char)) :
    (Analysis.resultsFor fs p files).1 = files.map (ofFile fs) := by
  rw [← filterMap_get?_intoStore fs p files]
  exact congrArg (List.filterMap _) (analyzed_intoStore {} (Analysis.source fs) p _)

/-- An analysis gives one result for each selected file, in order, and fails when the selection
does. -/
theorem run_eq_map_select (fs : FileSystem) (s : Settings) (paths : List String) :
    (Analysis.run fs s paths).1 =
      (Selection.select fs s.extensions s.ignore (paths.map String.toList)).1.map
        (·.map (ofFile fs)) := by
  unfold Analysis.run
  rcases Selection.select fs s.extensions s.ignore (paths.map String.toList) with ⟨found, log⟩
  cases found with
  | error e => rfl
  | ok files => simp only [resultsFor_eq_map, Except.map]

theorem size_intoStore (source : Source) (p : Parallel) {identifiers : List String}
    (h : identifiers.Nodup) : (intoStore {} source p identifiers).1.size = identifiers.length := by
  have hheld : held (intoStore {} source p identifiers).1 = identifiers.toFinset := by
    ext x
    rw [mem_held_iff, get?_intoStore, List.mem_toFinset]
    by_cases hx : x ∈ identifiers <;> simp [hx, Store.get?]
  rw [size_eq_card_held, hheld, List.toFinset_card_of_nodup h]

/-- Two runs that differ in nothing but how their batches are divided: in the options for it and in
the section of the configuration for it, which may come from another file. -/
structure SameButDivision (w : World) (o other : Options) (c d : Config) : Prop where
  options : other =
    { o with jobs := other.jobs, noParallel := other.noParallel, config := other.config }
  first : (configuration w o).1 = .ok c
  second : (configuration w other).1 = .ok d
  sections : d = { c with parallel := d.parallel }

theorem resolve_same {o other : Options} {c d : Config} (env : Environment)
    (ho : other =
      { o with jobs := other.jobs, noParallel := other.noParallel, config := other.config })
    (hc : d = { c with parallel := d.parallel }) :
    Settings.resolve other d env =
      { Settings.resolve o c env with parallel := Settings.chooseParallel other d } := by
  rw [ho, hc]
  rfl

theorem effect_same {w : World} {o other : Options} {c d : Config}
    (h : SameButDivision w o other c d) :
    effect (Command.analyze w other) = effect (Command.analyze w o) := by
  have hresolve := resolve_same w.environment h.options h.sections
  have hpaths : other.paths = o.paths := by rw [h.options]
  have houtput : other.output = o.output := by rw [h.options]
  have hrun : (Analysis.run w.files (Settings.resolve other d w.environment) other.paths).1 =
      (Analysis.run w.files (Settings.resolve o c w.environment) o.paths).1 := by
    rw [run_eq_map_select, run_eq_map_select, hresolve, hpaths]
  have hreport : report w other d = report w o c := by
    funext rs
    rw [report, report, hresolve]
  rw [effect_analyze, effect_analyze, h.first, h.second]
  simp only [hrun, hreport, houtput]

/-- An analysis whose selection succeeds gives one result for each selected file, in the order of
the selection: that of its text if it is text, and else a failure with the reason. The store on the
way holds just these, since no identifier comes twice. Nothing of it depends on how the batch is
divided, and two runs that differ in that only print the same, write the same and fail alike. -/
theorem run_independent_of_parallel :
    (∀ (fs : FileSystem) (s : Settings) (paths : List String) (files : List (List Char)),
      (Selection.select fs s.extensions s.ignore (paths.map String.toList)).1 = .ok files →
        let identifiers := files.map String.ofList
        let store := (intoStore {} (Analysis.source fs) s.parallel identifiers).1
        let results := files.map (fun path =>
          match fs.readText path with
          | .ok text => Result.analyze (String.ofList path) text
          | .error fault => Result.failure (String.ofList path) fault.message)
        (Analysis.run fs s paths).1 = .ok results ∧
        identifiers.Nodup ∧ store.size = files.length ∧
        identifiers.filterMap store.get? = results ∧
        ∀ p, (Analysis.run fs { s with parallel := p } paths).1 = .ok results) ∧
    (∀ (w : World) (o other : Options) (c d : Config), SameButDivision w o other c d →
      (Command.analyze w other).output = (Command.analyze w o).output ∧
      (Command.analyze w other).failure = (Command.analyze w o).failure ∧
      (Command.analyze w other).world.files = (Command.analyze w o).world.files) := by
  constructor
  · intro fs s paths files h identifiers store results
    have hrun : ∀ p, (Analysis.run fs { s with parallel := p } paths).1 = .ok results := by
      intro p
      rw [run_eq_map_select, h]
      rfl
    have hnodup : identifiers.Nodup := nodup_identifiers (nodup_select h)
    refine ⟨hrun s.parallel, hnodup, ?_, filterMap_get?_intoStore fs s.parallel files, hrun⟩
    rw [size_intoStore (Analysis.source fs) s.parallel hnodup, List.length_map]
  · intro w o other c d h
    have heffect := effect_same h
    exact ⟨congrArg Effect.output heffect, congrArg Effect.failure heffect,
      congrArg Effect.files heffect⟩

/-- A text, bytes that are no text, and two configurations that differ in the division of batches
only. -/
def sample : World where
  files := {
    entries := [
      ([['a', '.', 'j', 's']], .file "if (x) y()\n".toUTF8),
      ([['b', '.', 'j', 's']], .file ⟨#[0xff]⟩),
      ([['1']], .file "parallel.jobs = 3".toUTF8),
      ([['2']], .file "[parallel]\nbatch_size = 1".toUTF8)] }
  environment := fun _ => none
  time := ""

theorem run_independent_of_parallel_sample :
    let s : Settings := ⟨["js"], [], .json, { batchSize := some 1 }, .never⟩
    let o : Options := { paths := [".", "gone"], config := some "1" }
    let other : Options := { o with jobs := some 4, noParallel := true, config := some "2" }
    (Selection.select sample.files ["js"] [] ([".", "gone"].map String.toList)).1 =
      .ok ["./a.js".toList, "./b.js".toList, "gone".toList] ∧
    (Analysis.run sample.files s [".", "gone"]).1 = .ok [
      .analyze "./a.js" "if (x) y()\n",
      .failure "./b.js" "stream did not contain valid UTF-8",
      .failure "gone" "No such file or directory (os error 2)"] ∧
    SameButDivision sample o other { parallel := some { jobs := 3 } }
      { parallel := some { batchSize := some 1 } } ∧
    (Command.analyze sample other).output = (Command.analyze sample o).output := by
  intro s o other
  have hselect : (Selection.select sample.files ["js"] [] ([".", "gone"].map String.toList)).1 =
      .ok ["./a.js".toList, "./b.js".toList, "gone".toList] := by cbv
  have hsame : SameButDivision sample o other { parallel := some { jobs := 3 } }
      { parallel := some { batchSize := some 1 } } :=
    ⟨rfl, by decide +kernel, by decide +kernel, rfl⟩
  have htext : sample.files.readText "./a.js".toList = .ok "if (x) y()\n" := by cbv
  have hbytes : sample.files.readText "./b.js".toList = .error .notText := by cbv
  have hgone : sample.files.readText "gone".toList = .error .notFound := by cbv
  obtain ⟨hresults, _⟩ := run_independent_of_parallel.1 sample.files s [".", "gone"] _ hselect
  refine ⟨hselect, ?_, hsame, (run_independent_of_parallel.2 sample o other _ _ hsame).1⟩
  rw [hresults]
  simp only [List.map_cons, List.map_nil, htext, hbytes, hgone, String.ofList_toList]
  rfl

end SourceGauge.Proofs.SelectedResults
