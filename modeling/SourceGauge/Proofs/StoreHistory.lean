import Mathlib
import SourceGauge.Proofs.StoreRecords

namespace SourceGauge.Proofs.StoreHistory
open Store Batch ByteOrder StoreRecords

inductive Operation where
  | setFiles (files : List String)
  | beginBatch
  | finishBatch
  | record (r : Result)
  | select (identifier : Option String)
  | clear
  | batch (source : Source) (p : Parallel) (identifiers : List String)
  | get (identifier : String)
  | summary

inductive Answer where
  | nothing
  | result (found : Option Result)
  | report (done : Report) (log : List Log.Record)
  | summary (figures : Summary)

/-- An operation on a store, and what the caller gets back. -/
def step (store : Store) : Operation → Store × Answer
  | .setFiles files => (store.setFiles files, .nothing)
  | .beginBatch => (store.beginBatch, .nothing)
  | .finishBatch => (store.finishBatch, .nothing)
  | .record r => ((store.record r).1, .result (store.record r).2)
  | .select identifier => (store.select identifier, .nothing)
  | .clear => (store.clear, .nothing)
  | .batch source p identifiers =>
    let (after, done, log) := intoStore store source p identifiers
    (after, .report done log)
  | .get identifier => (store, .result (store.get? identifier))
  | .summary => (store, .summary store.summary)

/-- The store that a history leaves, from a new one. -/
def after (history : List Operation) : Store := history.foldl (fun s op => (step s op).1) {}

namespace Operation

def isClear : Operation → Bool
  | .clear => true
  | _ => false

def isQuery : Operation → Bool
  | .get _ | .summary => true
  | _ => false

/-- The results that an operation records, in order. -/
def recorded : Operation → List Result
  | .record r => [r]
  | .batch source _ identifiers => identifiers.map (fun x => (analyze source x).1)
  | _ => []

/-- The files that an operation sets. A batch of nothing sets none. -/
def files? : Operation → Option (List String)
  | .setFiles files => some files
  | .batch _ _ identifiers => if identifiers = [] then none else some identifiers
  | _ => none

/-- Whether an operation leaves the flag raised or lowered. -/
def flag? : Operation → Option Bool
  | .beginBatch => some true
  | .finishBatch => some false
  | .batch _ _ identifiers => if identifiers = [] then none else some false
  | _ => none

def selection? : Operation → Option (Option String)
  | .select identifier => some identifier
  | _ => none

end Operation

/-- The operations after the last clearing. -/
def sinceClear (history : List Operation) : List Operation :=
  (history.reverse.takeWhile (!·.isClear)).reverse

/-- Every result recorded since the last clearing, alone or by a batch. -/
def recordedSinceClear (history : List Operation) : List Result :=
  (sinceClear history).flatMap (·.recorded)

/-- The last result recorded under an identifier since the last clearing. -/
def latest (history : List Operation) (x : String) : Option Result :=
  last? (recordedSinceClear history) x

/-- What the last of the operations that say anything says. -/
def lastSome (f : Operation → Option α) (history : List Operation) : Option α :=
  history.reverse.findSome? f

theorem sinceClear_snoc (history : List Operation) (op : Operation) :
    sinceClear (history ++ [op]) = if op.isClear then [] else sinceClear history ++ [op] := by
  cases h : op.isClear <;> simp [sinceClear, h]

theorem latest_snoc (history : List Operation) (op : Operation) (x : String) :
    latest (history ++ [op]) x =
      if op.isClear then none else (last? op.recorded x).or (latest history x) := by
  rw [latest, recordedSinceClear, sinceClear_snoc]
  split
  · rfl
  · rw [List.flatMap_append, List.flatMap_singleton, last?_append]
    rfl

theorem lastSome_snoc (f : Operation → Option α) (history : List Operation) (op : Operation) :
    lastSome f (history ++ [op]) = (f op).or (lastSome f history) := by
  cases h : f op <;> simp [lastSome, h]

theorem after_snoc (history : List Operation) (op : Operation) :
    after (history ++ [op]) = (step (after history) op).1 := by
  simp [after]

/-- One step under an identifier: a clearing takes everything, and any other operation puts its last
result there or leaves what stood there. -/
theorem get?_step (store : Store) (op : Operation) (x : String) :
    (step store op).1.get? x =
      if op.isClear then none else (last? op.recorded x).or (store.get? x) := by
  cases op with
  | record r =>
    change (store.record r).1.get? x = _
    rw [get?_record, Operation.recorded, last?_singleton]
    by_cases h : r.identifier = x <;> simp [h, Operation.isClear]
  | batch source p identifiers =>
    change (intoStore store source p identifiers).1.get? x = _
    rw [get?_intoStore, Operation.recorded, last?_results]
    by_cases h : x ∈ identifiers <;> simp [h, Operation.isClear]
  | _ => rfl

/-- A clearing leaves the files. -/
theorem files_step (store : Store) (op : Operation) :
    (step store op).1.files = op.files?.getD store.files := by
  cases op with
  | batch source p identifiers =>
    obtain ⟨hfiles, _, _⟩ := intoStore_frame store source p identifiers
    refine hfiles.trans ?_
    rw [Operation.files?]
    split <;> rfl
  | _ => rfl

/-- A batch of nothing leaves a raised flag raised. -/
theorem isAnalyzing_step (store : Store) (op : Operation) :
    (step store op).1.isAnalyzing = op.flag?.getD store.isAnalyzing := by
  cases op with
  | batch source p identifiers =>
    obtain ⟨_, hflag, _⟩ := intoStore_frame store source p identifiers
    refine hflag.trans ?_
    rw [Operation.flag?]
    split <;> rfl
  | _ => rfl

theorem selectedFile_step (store : Store) (op : Operation) :
    (step store op).1.selectedFile =
      if op.isClear then none else op.selection?.getD store.selectedFile := by
  cases op with
  | batch source p identifiers =>
    obtain ⟨_, _, hselected⟩ := intoStore_frame store source p identifiers
    exact hselected
  | _ => rfl

theorem step_query (store : Store) {op : Operation} (h : op.isQuery = true) :
    (step store op).1 = store := by
  cases op with
  | get x => rfl
  | summary => rfl
  | _ => simp [Operation.isQuery] at h

/-- Each part of a store is what a history says of it. -/
structure Determined (history : List Operation) (store : Store) : Prop where
  get : ∀ x, store.get? x = latest history x
  files : store.files = (lastSome Operation.files? history).getD []
  flag : store.isAnalyzing = (lastSome Operation.flag? history).getD false
  selected : store.selectedFile =
    (lastSome Operation.selection? (sinceClear history)).getD none

theorem determined_nil : Determined [] {} := ⟨fun _ => rfl, rfl, rfl, rfl⟩

/-- An operation on a determined store is accounted for by one more entry of the history. -/
theorem Determined.snoc {history : List Operation} {store : Store}
    (h : Determined history store) (op : Operation) :
    Determined (history ++ [op]) (step store op).1 := by
  constructor
  · intro x
    rw [get?_step, latest_snoc, h.get]
  · rw [files_step, lastSome_snoc, h.files]
    cases op.files? <;> rfl
  · rw [isAnalyzing_step, lastSome_snoc, h.flag]
    cases op.flag? <;> rfl
  · rw [selectedFile_step, sinceClear_snoc, h.selected]
    split
    · rfl
    · rw [lastSome_snoc]
      cases op.selection? <;> rfl

/-- Every history determines the store it leaves. -/
theorem determined_after (history : List Operation) : Determined history (after history) := by
  induction history using List.reverseRecOn with
  | nil => exact determined_nil
  | append_singleton history op ih =>
    rw [after_snoc]
    exact ih.snoc op

/-- Stores that agree under every identifier hold the same results. -/
theorem results_eq_of_get?_eq {s t : Store} (h : ∀ x, s.get? x = t.get? x) :
    s.results = t.results := by
  have hmem : ∀ r, r ∈ s.results ↔ r ∈ t.results := by
    intro r
    have hs := get?_eq_some_iff s r.identifier r
    have ht := get?_eq_some_iff t r.identifier r
    rw [h] at hs
    simpa using hs.symm.trans ht
  have hnodup : ∀ u : Store, u.results.Nodup :=
    fun u => u.ordered.imp (fun hlt he => String.ne_of_lt hlt (congrArg Result.identifier he))
  have hperm := (List.perm_ext_iff_of_nodup (hnodup s) (hnodup t)).mpr hmem
  refine hperm.eq_of_pairwise ?_ s.ordered t.ordered
  intro a b _ _ hab hba
  exact absurd (String.lt_trans hab hba) (String.lt_irrefl _)

/-- A history determines one store only. -/
theorem Determined.unique {history : List Operation} {s t : Store}
    (hs : Determined history s) (ht : Determined history t) : s = t := by
  have hresults := results_eq_of_get?_eq (fun x => (hs.get x).trans (ht.get x).symm)
  have hfiles := hs.files.trans ht.files.symm
  have hflag := hs.flag.trans ht.flag.symm
  have hselected := hs.selected.trans ht.selected.symm
  cases s
  cases t
  simp_all

/-- Leaving the queries out of a history leaves the same store. -/
theorem after_filter_query (history : List Operation) :
    after (history.filter (!·.isQuery)) = after history := by
  induction history using List.reverseRecOn with
  | nil => rfl
  | append_singleton history op ih =>
    rw [List.filter_append, after_snoc]
    cases h : op.isQuery with
    | true => simp [h, ih, step_query]
    | false =>
      rw [List.filter_singleton, h]
      simp [after_snoc, ih]

/-- The results held are the latest ones. -/
theorem Determined.mem_results_iff {history : List Operation} {store : Store}
    (h : Determined history store) (r : Result) :
    r ∈ store.results ↔ latest history r.identifier = some r := by
  rw [← h.get, get?_eq_some_iff]
  simp

theorem Determined.size_eq {history : List Operation} {store : Store}
    (h : Determined history store) :
    store.size = ((recordedSinceClear history).map (·.identifier)).toFinset.card := by
  rw [size_eq_card_held]
  congr 1
  ext x
  rw [mem_held_iff, h.get, latest, isSome_last?, List.mem_toFinset]

/-- A selection shows a result under its own identifier, and the latest one there. -/
theorem Determined.selectedResult?_eq_some_iff {history : List Operation} {store : Store}
    (h : Determined history store) (r : Result) :
    store.selectedResult? = some r ↔
      store.selectedFile = some r.identifier ∧ latest history r.identifier = some r := by
  constructor
  · intro hr
    obtain ⟨x, hx, hget⟩ := Option.bind_eq_some_iff.mp hr
    obtain ⟨_, rfl⟩ := (get?_eq_some_iff store x r).mp hget
    exact ⟨hx, (h.get r.identifier).symm.trans hget⟩
  · rintro ⟨hx, hlatest⟩
    exact Option.bind_eq_some_iff.mpr ⟨r.identifier, hx, (h.get r.identifier).trans hlatest⟩

/-- What a history says of the store it leaves. Under each identifier stands the latest result, and
the results are these, in the byte order of identifiers, as many as identifiers were recorded under.
Recording gives back the latest result before it. The files, the flag and the selection are those of
the last operation that sets them, the selection since the last clearing. A selected result is the
latest one under the selected identifier. Queries answer from the history and leave no trace, and no
other store fits it. -/
theorem after_determined_by_history (history : List Operation) :
    let store := after history
    (∀ x, store.get? x = latest history x) ∧
    (∀ r, r ∈ store.results ↔ latest history r.identifier = some r) ∧
    store.results.Pairwise (fun r s => utf8 r.identifier < utf8 s.identifier) ∧
    store.size = ((recordedSinceClear history).map (·.identifier)).toFinset.card ∧
    (∀ r, (step store (.record r)).2 = .result (latest history r.identifier)) ∧
    store.files = (lastSome Operation.files? history).getD [] ∧
    (store.isAnalyzing = true ↔ lastSome Operation.flag? history = some true) ∧
    store.selectedFile = (lastSome Operation.selection? (sinceClear history)).getD none ∧
    (∀ r, store.selectedResult? = some r ↔
      store.selectedFile = some r.identifier ∧ latest history r.identifier = some r) ∧
    (∀ x, step store (.get x) = (store, .result (latest history x))) ∧
    step store .summary = (store, .summary (.ofResults store.results)) ∧
    after (history.filter (!·.isQuery)) = store ∧
    (∀ other, Determined history other → other = store) := by
  intro store
  have h : Determined history store := determined_after history
  refine ⟨h.get, h.mem_results_iff, results_utf8_ordered store, h.size_eq, ?_, h.files, ?_,
    h.selected, h.selectedResult?_eq_some_iff, ?_, rfl, after_filter_query history,
    fun other ho => ho.unique h⟩
  · intro r
    exact congrArg Answer.result (h.get r.identifier)
  · rw [h.flag]
    cases lastSome Operation.flag? history <;> simp
  · intro x
    exact congrArg (fun found => (store, Answer.result found)) (h.get x)

end SourceGauge.Proofs.StoreHistory
