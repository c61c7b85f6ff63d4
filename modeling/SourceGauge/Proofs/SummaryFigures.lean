import Mathlib
import SourceGauge.Proofs.FailureCounts
import SourceGauge.Proofs.StoreHistory

namespace SourceGauge.Proofs.SummaryFigures
open Summary StoreRecords StoreHistory FailureCounts

theorem add_assoc (s t u : Summary) : (s.add t).add u = s.add (t.add u) := by
  simp [add, Nat.add_assoc]

theorem add_right_comm (s t u : Summary) : (s.add t).add u = (s.add u).add t := by
  simp [add, Nat.add_right_comm]

theorem zero_add (s : Summary) : add {} s = s := by
  simp [add]

theorem ofResults_append (rs ss : List Result) :
    ofResults (rs ++ ss) = (ofResults rs).add (ofResults ss) := by
  induction ss using List.reverseRecOn with
  | nil => simp [ofResults, add]
  | append_singleton ss r ih =>
    have hsnoc : ∀ ts, ofResults (ts ++ [r]) = (ofResults ts).add (ofResult r) := by
      simp [ofResults]
    rw [← List.append_assoc, hsnoc, hsnoc, ih, add_assoc]

theorem ofResults_of_perm {rs ss : List Result} (h : rs.Perm ss) : ofResults rs = ofResults ss :=
  h.foldl_eq' (fun r _ s _ t => add_right_comm t (ofResult r) (ofResult s)) {}

/-- One more result, wherever it stands. -/
theorem ofResults_insert (before after : List Result) (r : Result) :
    ofResults (before ++ r :: after) = (ofResults (before ++ after)).add (ofResult r) := by
  have hperm : (before ++ r :: after).Perm ((before ++ after) ++ [r]) :=
    List.perm_middle.trans (List.perm_append_singleton r (before ++ after)).symm
  rw [ofResults_of_perm hperm, ofResults_append]
  congr 1
  exact zero_add (ofResult r)

theorem analyzed_add_failed (rs : List Result) :
    (ofResults rs).filesAnalyzed + (ofResults rs).failedFiles = rs.length := by
  rw [ofResults_eq_sum (fun s => s.filesAnalyzed + s.failedFiles) rfl
    (fun s t => by simp only [add]; omega)]
  have hone : ∀ r : Result, (ofResult r).filesAnalyzed + (ofResult r).failedFiles = 1 := by
    intro r
    simp only [ofResult]
    split <;> rfl
  simp [hone]

/-- Every issue has one of the three kinds. -/
theorem countOf_add_countOf (m : Metrics) :
    m.countOf .error + m.countOf .warning + m.countOf .suggestion = m.issues.length := by
  unfold Metrics.countOf
  induction m.issues with
  | nil => rfl
  | cons i rest ih =>
    rw [List.length_cons, ← ih]
    cases h : i.kind <;> simp [h] <;> omega

theorem totalIssues_eq_sum (rs : List Result) :
    (ofResults rs).totalIssues = (rs.map (·.metrics.issues.length)).sum := by
  rw [ofResults_eq_sum totalIssues rfl (fun s t => by simp only [totalIssues, add]; omega)]
  simp only [totalIssues, ofResult, countOf_add_countOf]

theorem totalLines_le_sum (rs : List Result) :
    (ofResults rs).totalLines ≤ (rs.map (·.metrics.linesOfCode)).sum := by
  rw [ofResults_eq_sum totalLines rfl (fun _ _ => rfl)]
  apply List.sum_le_sum
  intro r _
  simp only [ofResult]
  split <;> omega

/-- Where no two results have the same identifier, each is the last one under its own. -/
theorem last?_of_nodup {rs : List Result} (hids : (rs.map (·.identifier)).Nodup) {r : Result}
    (hr : r ∈ rs) : last? rs r.identifier = some r := by
  have hsome := (isSome_last? rs r.identifier).mpr (List.mem_map_of_mem hr)
  obtain ⟨s, hs⟩ := Option.isSome_iff_exists.mp hsome
  obtain ⟨hmem, hid⟩ := last?_eq_some hs
  rw [hs, List.inj_on_of_nodup_map hids hmem hr hid]

/-- A store holds the results that were recorded, in an order of its own. -/
theorem results_perm_recorded {history : List Operation}
    (hids : ((recordedSinceClear history).map (·.identifier)).Nodup) :
    (after history).results.Perm (recordedSinceClear history) := by
  have hheld : (after history).results.Nodup :=
    (after history).ordered.imp (fun hlt he => String.ne_of_lt hlt (congrArg Result.identifier he))
  refine (List.perm_ext_iff_of_nodup hheld hids.of_map).mpr (fun r => ?_)
  rw [(determined_after history).mem_results_iff, latest]
  exact ⟨fun hlast => (last?_eq_some hlast).1, last?_of_nodup hids⟩

/-- A summary does not depend on the order of the results, its averages included. The counts of two
lists together are the sums of their counts, every result counts as analyzed or as failed and never
as both, and every issue counts once. A failure, wherever it stands, adds to the failures and to the
issues and leaves the lines and the averages. So a store in which no identifier was recorded twice
since it was last cleared gives the summary of the recorded results, taken in any order. If the
lines of all results fit into 64 bits, so does their total. -/
theorem ofResults_free_of_order (rs : List Result) :
    (∀ ss, ss.Perm rs → ofResults ss = ofResults rs ∧
      (ofResults ss).averageComplexity = (ofResults rs).averageComplexity ∧
      (ofResults ss).averageMaintainability = (ofResults rs).averageMaintainability) ∧
    (∀ ss, let s := ofResults rs; let t := ofResults ss; let both := ofResults (rs ++ ss)
      both.filesAnalyzed = s.filesAnalyzed + t.filesAnalyzed ∧
      both.failedFiles = s.failedFiles + t.failedFiles ∧
      both.totalLines = s.totalLines + t.totalLines ∧
      both.errors = s.errors + t.errors ∧
      both.warnings = s.warnings + t.warnings ∧
      both.suggestions = s.suggestions + t.suggestions) ∧
    (ofResults rs).filesAnalyzed + (ofResults rs).failedFiles = rs.length ∧
    (ofResults rs).totalIssues = (rs.map (·.metrics.issues.length)).sum ∧
    (∀ before after r, rs = before ++ after → r.isFailure = true →
      let s := ofResults rs; let more := ofResults (before ++ r :: after)
      more = { s with
        failedFiles := s.failedFiles + 1
        errors := s.errors + r.metrics.countOf .error
        warnings := s.warnings + r.metrics.countOf .warning
        suggestions := s.suggestions + r.metrics.countOf .suggestion } ∧
      more.averageComplexity = s.averageComplexity ∧
      more.averageMaintainability = s.averageMaintainability) ∧
    (∀ history, ((recordedSinceClear history).map (·.identifier)).Nodup →
      rs.Perm (recordedSinceClear history) → (after history).summary = ofResults rs) ∧
    ((rs.map (·.metrics.linesOfCode)).sum < capacity 64 →
      (ofResults rs).totalLines < capacity 64) := by
  refine ⟨?_, ?_, analyzed_add_failed rs, totalIssues_eq_sum rs, ?_, ?_, ?_⟩
  · intro ss hperm
    rw [ofResults_of_perm hperm]
    exact ⟨rfl, rfl, rfl⟩
  · intro ss s t both
    have hboth : both = s.add t := ofResults_append rs ss
    rw [hboth]
    exact ⟨rfl, rfl, rfl, rfl, rfl, rfl⟩
  · intro before after r hrs hfailure s more
    have hmore : more = s.add (ofResult r) := by
      rw [show s = ofResults (before ++ after) from congrArg ofResults hrs]
      exact ofResults_insert before after r
    have hfields : more = { s with
        failedFiles := s.failedFiles + 1
        errors := s.errors + r.metrics.countOf .error
        warnings := s.warnings + r.metrics.countOf .warning
        suggestions := s.suggestions + r.metrics.countOf .suggestion } := by
      simp [hmore, add, ofResult, hfailure]
    exact ⟨hfields, by rw [hfields]; rfl, by rw [hfields]; rfl⟩
  · intro history hids hperm
    exact ofResults_of_perm ((results_perm_recorded hids).trans hperm.symm)
  · intro hlines
    exact Nat.lt_of_le_of_lt (totalLines_le_sum rs) hlines

/-- A failure is recorded after a result, and the store has them the other way round. -/
theorem ofResults_free_of_order_failed :
    let read : Result := ⟨"b.js", 3, 80, 10, [⟨.warning, "Long line", 4, 1⟩]⟩
    let failed := Result.failure "a.js" "gone"
    let history := [.record read, .clear, .record read, .record failed]
    failed.isFailure = true ∧ ((recordedSinceClear history).map (·.identifier)).Nodup ∧
    (after history).results = [failed, read] ∧ (after history).summary = ofResults [read, failed] ∧
    (ofResults [read, failed]).averageComplexity = (ofResults [read]).averageComplexity := by
  intro read failed history
  have hfailed : failed.isFailure = true := rfl
  have hids : ((recordedSinceClear history).map (·.identifier)).Nodup := by decide
  refine ⟨hfailed, hids, by decide +kernel, ?_, ?_⟩
  · exact (ofResults_free_of_order [read, failed]).2.2.2.2.2.1 history hids (.refl _)
  · exact ((ofResults_free_of_order [read]).2.2.2.2.1 [read] [] failed rfl hfailed).2.1

end SourceGauge.Proofs.SummaryFigures
