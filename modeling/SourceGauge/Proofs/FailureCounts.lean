import Mathlib
import SourceGauge.Proofs.SelectionFailure
import SourceGauge.Proofs.StoreRecords

namespace SourceGauge.Proofs.FailureCounts
open Batch BatchOrder FailureMarks SelectionFailure StoreRecords

/-- The straight path counts for every text, the empty one included. -/
theorem complexity_pos (text : List Char) : 0 < Complexity.ofText text := by
  have hceiling : 0 < Complexity.ceiling := by decide
  exact Nat.lt_min.mpr ⟨Nat.succ_pos _, hceiling⟩

/-- Every text has a line, the empty one included. -/
theorem physical_pos (text : List Char) : 0 < (LineCount.ofText text).physical :=
  List.length_pos_iff.mpr (Text.splitHeld_ne_nil '\n' [] text)

theorem kind_ne_error {text : List Char} {i : Issue} (h : i ∈ Issue.ofText text) :
    i.kind ≠ .error := by
  rcases kind_of_mem_ofLinesFrom h with hk | hk <;> simp [hk]

theorem isFailure_analyze_iff (source : Source) (x : String) :
    (analyze source x).1.isFailure = true ↔ Fails (source x) := by
  cases h : source x with
  | ok content =>
    have hne : Complexity.ofText content.toList ≠ 0 := Nat.ne_of_gt (complexity_pos content.toList)
    simpa [analyze, h, not_fails_ok, Result.isFailure, Result.analyze, Metrics.ofText] using hne
  | error reason => simp [analyze, h, fails_error, Result.isFailure, Result.failure]

theorem isSome_firstError?_analyze_iff (source : Source) (x : String) :
    (analyze source x).1.firstError?.isSome = true ↔ Fails (source x) := by
  rw [← Option.isSome_map (f := fun i : Issue => i.message), message_firstError?_analyze]
  cases h : source x with
  | ok content => simp [not_fails_ok]
  | error reason => simp [fails_error]

theorem linesOfCode_analyze_iff (source : Source) (x : String) :
    (analyze source x).1.metrics.linesOfCode = 0 ↔ Fails (source x) := by
  cases h : source x with
  | ok content =>
    have hpos := physical_pos content.toList
    simp only [analyze, h, not_fails_ok, iff_false]
    exact Nat.ne_of_gt hpos
  | error reason => simp [analyze, h, fails_error, Result.failure]

/-- A failure has one error and a text has none. -/
theorem countOf_error_analyze (source : Source) (x : String) :
    (analyze source x).1.metrics.countOf .error = if Fails (source x) then 1 else 0 := by
  cases h : source x with
  | ok content =>
    simp only [analyze, h, not_fails_ok, ↓reduceIte]
    apply List.countP_eq_zero.mpr
    intro i hi
    simpa using kind_ne_error hi
  | error reason =>
    simp only [analyze, h, fails_error, ↓reduceIte]
    rfl

/-- A figure that adds up over two summaries adds up over a list of results. -/
theorem ofResults_eq_sum (figure : Summary → Nat) (hzero : figure {} = 0)
    (hadd : ∀ s t, figure (s.add t) = figure s + figure t) (rs : List Result) :
    figure (.ofResults rs) = (rs.map (fun r => figure (.ofResult r))).sum := by
  have hfrom : ∀ s, figure (rs.foldl (fun s r => s.add (.ofResult r)) s) =
      figure s + (rs.map (fun r => figure (.ofResult r))).sum := by
    induction rs with
    | nil => simp
    | cons r rest ih =>
      intro s
      rw [List.foldl_cons, ih, hadd, List.map_cons, List.sum_cons, Nat.add_assoc]
  rw [Summary.ofResults, hfrom, hzero, Nat.zero_add]

theorem sum_map_marked (p : α → Prop) [DecidablePred p] (xs : List α) :
    (xs.map (fun x => if p x then 1 else 0)).sum = xs.countP (fun x => p x) := by
  simp [List.sum_map_ite, List.countP_eq_length_filter]

theorem failedFiles_results (source : Source) (identifiers : List String) :
    (Summary.ofResults (identifiers.map (fun x => (analyze source x).1))).failedFiles =
      identifiers.countP (fun x => Fails (source x)) := by
  rw [ofResults_eq_sum Summary.failedFiles rfl (fun _ _ => rfl), List.map_map, ← sum_map_marked]
  simp only [Function.comp_def, Summary.ofResult, isFailure_analyze_iff]

theorem filesAnalyzed_results (source : Source) (identifiers : List String) :
    (Summary.ofResults (identifiers.map (fun x => (analyze source x).1))).filesAnalyzed =
      identifiers.countP (fun x => ¬Fails (source x)) := by
  rw [ofResults_eq_sum Summary.filesAnalyzed rfl (fun _ _ => rfl), List.map_map, ← sum_map_marked]
  simp only [Function.comp_def, Summary.ofResult, isFailure_analyze_iff, ite_not]

theorem errors_results (source : Source) (identifiers : List String) :
    (Summary.ofResults (identifiers.map (fun x => (analyze source x).1))).errors =
      identifiers.countP (fun x => Fails (source x)) := by
  rw [ofResults_eq_sum Summary.errors rfl (fun _ _ => rfl), List.map_map, ← sum_map_marked]
  simp only [Function.comp_def, Summary.ofResult, countOf_error_analyze]

theorem closing_results (source : Source) (identifiers : List String) :
    closing (identifiers.map (fun x => (analyze source x).1)) =
      Log.info ("Analyzed " ++ toString (identifiers.countP (fun x => ¬Fails (source x))) ++
        " files (" ++ toString (identifiers.countP (fun x => Fails (source x))) ++ " failed)") := by
  have hfailed : (identifiers.map (fun x => (analyze source x).1)).countP (·.isFailure) =
      identifiers.countP (fun x => Fails (source x)) := by
    rw [List.countP_map]
    apply List.countP_congr
    intro x _
    simpa using isFailure_analyze_iff source x
  have hsplit :=
    List.length_eq_countP_add_countP (fun x => decide (Fails (source x))) (l := identifiers)
  have hothers : identifiers.length - identifiers.countP (fun x => Fails (source x)) =
      identifiers.countP (fun x => ¬Fails (source x)) := by
    simp only [decide_eq_true_eq] at hsplit
    omega
  simp only [closing, hfailed, List.length_map, hothers]

theorem length_notifications (store : Store) (source : Source) (p : Parallel)
    (identifiers : List String) :
    (intoStore store source p identifiers).2.1.notifications.length =
      identifiers.countP (fun x => Fails (source x)) := by
  by_cases hne : identifiers = []
  · simp [hne, intoStore]
  · rw [intoStore_report store source p hne, List.length_filterMap_eq_countP]
    apply List.countP_congr
    intro x _
    cases h : source x with
    | ok content => simp [not_fails_ok]
    | error reason => simp [fails_error]

/-- At each place of a batch the content could not be read exactly when the result has complexity
zero, exactly when it has an error, and exactly when it has no lines. So the log, the report,
whatever store the batch goes to, and the summary all count the places that could not be read, and a
text is never taken for a failure. -/
theorem failures_counted_alike (source : Source) (p : Parallel) (identifiers : List String) :
    let results := (run source p identifiers).1
    let failed := identifiers.countP (fun x => Fails (source x))
    let read := identifiers.countP (fun x => ¬Fails (source x))
    List.Forall₂ (fun x r => [Fails (source x), r.isFailure = true, r.firstError?.isSome = true,
      r.metrics.linesOfCode = 0].TFAE) identifiers results ∧
    (run source p identifiers).2.getLast? = some (Log.info
      ("Analyzed " ++ toString read ++ " files (" ++ toString failed ++ " failed)")) ∧
    (∀ store, (intoStore store source p identifiers).2.1.notifications.length = failed ∧
      ((intoStore store source p identifiers).2.1.hasFailures = true ↔ 0 < failed)) ∧
    (Summary.ofResults results).failedFiles = failed ∧
    (Summary.ofResults results).errors = failed ∧
    (Summary.ofResults results).filesAnalyzed = read ∧
    ∀ identifier content : String,
      (Result.analyze identifier content).metrics.complexity ≠ 0 ∧
      ∀ i ∈ (Result.analyze identifier content).metrics.issues, i.kind ≠ .error := by
  intro results failed read
  have hresults : results = identifiers.map (fun x => (analyze source x).1) :=
    run_results source p identifiers
  refine ⟨?_, ?_, ?_, ?_, ?_, ?_, ?_⟩
  · rw [hresults, List.forall₂_map_right_iff, List.forall₂_same]
    intro x _
    apply List.tfae_of_forall (Fails (source x))
    simp [isFailure_analyze_iff, isSome_firstError?_analyze_iff, linesOfCode_analyze_iff]
  · have hlast : (run source p identifiers).2.getLast? = some (closing results) :=
      List.getLast?_concat
    rw [hlast, hresults, closing_results]
  · intro store
    have hlength := length_notifications store source p identifiers
    refine ⟨hlength, ?_⟩
    simp [Report.hasFailures, failed, ← hlength, List.length_pos_iff]
  · rw [hresults, failedFiles_results]
  · rw [hresults, errors_results]
  · rw [hresults, filesAnalyzed_results]
  · intro identifier content
    exact ⟨Nat.ne_of_gt (complexity_pos content.toList), fun i hi => kind_ne_error hi⟩

end SourceGauge.Proofs.FailureCounts
