import SourceGauge.Batch

namespace SourceGauge.Proofs.BatchOrder
open Batch

/-- What is worked off at one time: a chunk when the batch is divided, else a single identifier. -/
def pieces (p : Parallel) (identifiers : List String) : List (List String) :=
  if !p.enabled || identifiers.length ≤ 1 then identifiers.map (fun x => [x])
  else chunks p.chunkSize identifiers

/-- One piece after the other, and the items of a piece in any order. -/
inductive Raced : List (List α) → List α → Prop
  | nil : Raced [] []
  | cons (hp : out.Perm piece) (hr : Raced rest more) : Raced (piece :: rest) (out ++ more)

/-- The logs that a batch can write. The totals come last. -/
def Writes (source : Source) (p : Parallel) (identifiers : List String)
    (log : List Log.Record) : Prop :=
  ∃ body,
    Raced ((pieces p identifiers).map (fun piece => piece.map (fun x => (analyze source x).2)))
      body ∧
    log = body ++ [closing (run source p identifiers).1]

theorem analyze_identifier (source : Source) (x : String) :
    (analyze source x).1.identifier = x := by
  unfold analyze
  split <;> rfl

/-- Readable content is logged for debugging, and unreadable content as a warning. -/
theorem analyze_level (source : Source) (x : String) :
    (analyze source x).2.level = if (source x).toOption.isSome then .debug else .warn := by
  unfold analyze
  split
  · rename_i h
    simp [h, Except.toOption, Log.debug]
  · rename_i h
    simp [h, Except.toOption, Log.warn]

theorem flatten_pieces (p : Parallel) (identifiers : List String) :
    (pieces p identifiers).flatten = identifiers := by
  unfold pieces
  split
  · rw [← List.flatMap_def, List.flatMap_singleton']
  · exact flatten_chunks _ _

theorem outcomes_eq_pieces (source : Source) (p : Parallel) (identifiers : List String) :
    outcomes source p identifiers =
      ((pieces p identifiers).map (fun piece => piece.map (analyze source))).flatten := by
  unfold outcomes pieces
  split
  · rw [List.map_map, ← List.flatMap_def, List.map_eq_flatMap]
    rfl
  · rfl

/-- The division of a batch leaves no trace in what it gives back. -/
theorem outcomes_eq_map (source : Source) (p : Parallel) (identifiers : List String) :
    outcomes source p identifiers = identifiers.map (analyze source) := by
  rw [outcomes_eq_pieces, ← List.map_flatten, flatten_pieces]

theorem run_results (source : Source) (p : Parallel) (identifiers : List String) :
    (run source p identifiers).1 = identifiers.map (fun x => (analyze source x).1) := by
  simp [run, outcomes_eq_map, Function.comp_def]

theorem Raced.perm {pieces : List (List α)} {out : List α} (h : Raced pieces out) :
    out.Perm pieces.flatten := by
  induction h with
  | nil => exact .refl []
  | cons hp hr ih => exact hp.append ih

/-- Work without a race is one of the races. -/
theorem raced_flatten (pieces : List (List α)) : Raced pieces pieces.flatten := by
  induction pieces with
  | nil => exact .nil
  | cons piece rest ih => exact .cons (.refl piece) ih

theorem Writes.perm {source : Source} {p : Parallel} {identifiers : List String}
    {log : List Log.Record} (h : Writes source p identifiers log) :
    log.Perm (identifiers.map (fun x => (analyze source x).2) ++
      [closing (identifiers.map (fun x => (analyze source x).1))]) := by
  obtain ⟨body, hr, rfl⟩ := h
  have hp := hr.perm
  rw [← List.map_flatten, flatten_pieces] at hp
  rw [run_results]
  exact hp.append_right _

theorem run_writes (source : Source) (p : Parallel) (identifiers : List String) :
    Writes source p identifiers (run source p identifiers).2 := by
  refine ⟨_, raced_flatten _, ?_⟩
  rw [← List.map_flatten, flatten_pieces]
  simp [run, outcomes_eq_map, Function.comp_def]

/-- Whatever the source gives and however the batch is divided, there is one result per identifier,
in order and under its identifier, so that any two divisions agree. Every log that can be written
holds one record per identifier, at a level that tells whether it was read, and the totals; so the
logs of any two divisions agree up to order. -/
theorem run_independent_of_division (source : Source) (p : Parallel) (identifiers : List String) :
    (run source p identifiers).1 = identifiers.map (fun x => (analyze source x).1) ∧
    (run source p identifiers).1.length = identifiers.length ∧
    (∀ i : Nat, ((run source p identifiers).1[i]?).map (·.identifier) = identifiers[i]?) ∧
    (∀ q, (run source q identifiers).1 = (run source p identifiers).1) ∧
    Writes source p identifiers (run source p identifiers).2 ∧
    (∀ log, Writes source p identifiers log →
      log.Perm (identifiers.map (fun x => (analyze source x).2) ++
        [closing (run source p identifiers).1]) ∧
      ∀ q other, Writes source q identifiers other → other.Perm log) ∧
    (∀ x, (analyze source x).2.level = if (source x).toOption.isSome then .debug else .warn) ∧
    (closing (run source p identifiers).1).level = .info := by
  have hresults := run_results source
  refine ⟨hresults p identifiers, ?_, ?_, ?_, run_writes source p identifiers, ?_,
    analyze_level source, rfl⟩
  · rw [hresults, List.length_map]
  · intro i
    rw [hresults, List.getElem?_map, Option.map_map]
    simp [Function.comp_def, analyze_identifier]
  · intro q
    rw [hresults, hresults]
  · intro log hlog
    refine ⟨hresults p identifiers ▸ hlog.perm, ?_⟩
    intro q other hother
    exact hother.perm.trans hlog.perm.symm

end SourceGauge.Proofs.BatchOrder
