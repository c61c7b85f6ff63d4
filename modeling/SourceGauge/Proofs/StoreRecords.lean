import Mathlib
import SourceGauge.Proofs.BatchOrder
import SourceGauge.Proofs.ByteOrder
import SourceGauge.Proofs.FailureMarks

namespace SourceGauge.Proofs.StoreRecords
open Store Batch BatchOrder ByteOrder FailureMarks

/-- The last of the results under an identifier. -/
def last? (rs : List Result) (x : String) : Option Result := rs.reverse.find? (·.identifier = x)

theorem last?_append (rs ss : List Result) (x : String) :
    last? (rs ++ ss) x = (last? ss x).or (last? rs x) := by
  simp [last?, List.find?_append]

theorem last?_singleton (r : Result) (x : String) :
    last? [r] x = if r.identifier = x then some r else none := by
  by_cases h : r.identifier = x <;> simp [last?, h]

theorem last?_eq_some {rs : List Result} {x : String} {r : Result} (h : last? rs x = some r) :
    r ∈ rs ∧ r.identifier = x := by
  refine ⟨by simpa using List.mem_of_find?_eq_some h, ?_⟩
  simpa using List.find?_some h

theorem isSome_last? (rs : List Result) (x : String) :
    (last? rs x).isSome ↔ x ∈ rs.map (·.identifier) := by
  simp [last?]

theorem get?_record (store : Store) (r : Result) (x : String) :
    (store.record r).1.get? x = if r.identifier = x then some r else store.get? x :=
  find?_insert r store.results x

/-- Recording one result after the other leaves the last one under each identifier. -/
theorem get?_recordAll (store : Store) (rs : List Result) (x : String) :
    (recordAll store rs).get? x = (last? rs x).or (store.get? x) := by
  induction rs generalizing store with
  | nil => simp [recordAll, last?]
  | cons r rest ih =>
    have hstep : recordAll store (r :: rest) = recordAll (store.record r).1 rest := rfl
    rw [hstep, ih, get?_record, ← List.singleton_append, last?_append, last?_singleton]
    cases last? rest x with
    | some s => rfl
    | none => by_cases h : r.identifier = x <;> simp [h]

/-- Recording touches nothing but the results. -/
theorem recordAll_frame (store : Store) (rs : List Result) :
    (recordAll store rs).files = store.files ∧
    (recordAll store rs).isAnalyzing = store.isAnalyzing ∧
    (recordAll store rs).selectedFile = store.selectedFile := by
  induction rs generalizing store with
  | nil => exact ⟨rfl, rfl, rfl⟩
  | cons r rest ih => exact ih (store.record r).1

theorem find?_of_mem {rs : List Result} (hord : Ordered rs) {r : Result} (hm : r ∈ rs) :
    rs.find? (·.identifier = r.identifier) = some r := by
  induction rs with
  | nil => simp at hm
  | cons s rest ih =>
    obtain ⟨hs, hrest⟩ := List.pairwise_cons.mp hord
    rcases List.mem_cons.mp hm with rfl | hm
    · simp
    · have hne : s.identifier ≠ r.identifier := String.ne_of_lt (hs r hm)
      rw [List.find?_cons_of_neg (by simpa using hne)]
      exact ih hrest hm

/-- A result is held exactly when its identifier leads to it. -/
theorem get?_eq_some_iff (store : Store) (x : String) (r : Result) :
    store.get? x = some r ↔ r ∈ store.results ∧ r.identifier = x := by
  constructor
  · intro h
    exact ⟨List.mem_of_find?_eq_some h, by simpa using List.find?_some h⟩
  · rintro ⟨hm, rfl⟩
    exact find?_of_mem store.ordered hm

/-- The identifiers with a result. -/
def held (store : Store) : Finset String := (store.results.map (·.identifier)).toFinset

theorem mem_held_iff (store : Store) (x : String) : x ∈ held store ↔ (store.get? x).isSome := by
  simp [held, get?]

theorem size_eq_card_held (store : Store) : store.size = (held store).card := by
  have hn : (store.results.map (·.identifier)).Nodup :=
    List.pairwise_map.mpr (store.ordered.imp String.ne_of_lt)
  rw [held, List.toFinset_card_of_nodup hn, List.length_map, size]

/-- The order of a store is the order of the UTF-8 forms of identifiers. -/
theorem results_utf8_ordered (store : Store) :
    store.results.Pairwise (fun r s => utf8 r.identifier < utf8 s.identifier) :=
  store.ordered.imp (utf8_lt_utf8_iff _ _).mpr

/-- The last result of a batch under an identifier is that of the identifier. -/
theorem last?_results (source : Source) (identifiers : List String) (x : String) :
    last? (identifiers.map (fun y => (analyze source y).1)) x =
      if x ∈ identifiers then some (analyze source x).1 else none := by
  split
  · rename_i hm
    have hsome := (isSome_last? (identifiers.map (fun y => (analyze source y).1)) x).mpr
      (by simpa [analyze_identifier] using hm)
    obtain ⟨r, hr⟩ := Option.isSome_iff_exists.mp hsome
    obtain ⟨hmem, hid⟩ := last?_eq_some hr
    obtain ⟨y, _, rfl⟩ := List.mem_map.mp hmem
    rw [analyze_identifier] at hid
    rw [hr, hid]
  · rename_i hm
    rw [← Option.not_isSome_iff_eq_none, isSome_last?]
    simpa [analyze_identifier] using hm

theorem intoStore_of_ne_nil (store : Store) (source : Source) (p : Parallel)
    {identifiers : List String} (hne : identifiers ≠ []) :
    (intoStore store source p identifiers).1 =
        (recordAll (store.setFiles identifiers).beginBatch
          (identifiers.map (fun x => (analyze source x).1))).finishBatch ∧
      (intoStore store source p identifiers).2.1 =
        .ofResults (identifiers.map (fun x => (analyze source x).1)) := by
  simp [intoStore, hne, run_results]

/-- A batch leaves, under each of its identifiers, the result of that identifier. -/
theorem get?_intoStore (store : Store) (source : Source) (p : Parallel)
    (identifiers : List String) (x : String) :
    (intoStore store source p identifiers).1.get? x =
      if x ∈ identifiers then some (analyze source x).1 else store.get? x := by
  by_cases hne : identifiers = []
  · simp [hne, intoStore]
  · rw [(intoStore_of_ne_nil store source p hne).1]
    change (recordAll (store.setFiles identifiers).beginBatch _).get? x = _
    rw [get?_recordAll, last?_results]
    split <;> rfl

/-- A batch that names an identifier replaces the files and lowers the flag. The selection stays. -/
theorem intoStore_frame (store : Store) (source : Source) (p : Parallel)
    (identifiers : List String) :
    (intoStore store source p identifiers).1.files =
        (if identifiers = [] then store.files else identifiers) ∧
      (intoStore store source p identifiers).1.isAnalyzing =
        (if identifiers = [] then store.isAnalyzing else false) ∧
      (intoStore store source p identifiers).1.selectedFile = store.selectedFile := by
  by_cases hne : identifiers = []
  · simp [hne, intoStore]
  · obtain ⟨hfiles, _, hselected⟩ := recordAll_frame (store.setFiles identifiers).beginBatch
      (identifiers.map (fun x => (analyze source x).1))
    rw [(intoStore_of_ne_nil store source p hne).1, if_neg hne, if_neg hne]
    exact ⟨hfiles, rfl, hselected⟩

theorem intoStore_report (store : Store) (source : Source) (p : Parallel)
    {identifiers : List String} (hne : identifiers ≠ []) :
    (intoStore store source p identifiers).2.1 = ⟨identifiers, identifiers.filterMap (fun x =>
      match source x with
      | .ok _ => none
      | .error reason => some ("Failed to analyze file: " ++ reason))⟩ := by
  rw [(intoStore_of_ne_nil store source p hne).2, Report.ofResults]
  congr 1
  · simp [Function.comp_def, analyze_identifier]
  · rw [List.filterMap_map]
    congr 1
    funext x
    exact message_firstError?_analyze source x

/-- A batch of nothing leaves the store alone and reports nothing. Any other batch replaces the
files, lowers the flag, keeps the selection, and leaves under each of its identifiers the result of
that identifier and everything else as it was; the store stays in the byte order of identifiers,
with one result under each identifier that it held or that the batch names. The report names the
identifiers and gives the reason of each failure, in order. -/
theorem intoStore_effect (store : Store) (source : Source) (p : Parallel)
    (identifiers : List String) :
    let after := (intoStore store source p identifiers).1
    let report := (intoStore store source p identifiers).2.1
    (identifiers = [] → after = store ∧ report = {}) ∧
    (identifiers ≠ [] →
      after.files = identifiers ∧ after.isAnalyzing = false ∧
      after.selectedFile = store.selectedFile ∧
      (∀ x, after.get? x = if x ∈ identifiers then some (analyze source x).1 else store.get? x) ∧
      after.results.Pairwise (fun r s => utf8 r.identifier < utf8 s.identifier) ∧
      (∀ x r, after.get? x = some r ↔ r ∈ after.results ∧ r.identifier = x) ∧
      after.size = (held store ∪ identifiers.toFinset).card ∧
      report.analyzed = identifiers ∧
      report.notifications = identifiers.filterMap (fun x =>
        match source x with
        | .ok _ => none
        | .error reason => some ("Failed to analyze file: " ++ reason))) := by
  intro after report
  have hget : ∀ x, after.get? x =
      if x ∈ identifiers then some (analyze source x).1 else store.get? x :=
    get?_intoStore store source p identifiers
  constructor
  · intro hnil
    simp [after, report, intoStore, hnil]
  · intro hne
    obtain ⟨hfiles, hflag, hselected⟩ := intoStore_frame store source p identifiers
    rw [if_neg hne] at hfiles hflag
    have hreport := intoStore_report store source p hne
    refine ⟨hfiles, hflag, hselected, hget, results_utf8_ordered after, get?_eq_some_iff after, ?_,
      congrArg Report.analyzed hreport, congrArg Report.notifications hreport⟩
    rw [size_eq_card_held]
    congr 1
    ext x
    rw [mem_held_iff, hget, Finset.mem_union, mem_held_iff, List.mem_toFinset]
    by_cases hm : x ∈ identifiers <;> simp [hm]

end SourceGauge.Proofs.StoreRecords
