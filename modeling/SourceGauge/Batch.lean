import SourceGauge.Log
import SourceGauge.Parallel
import SourceGauge.Store

namespace SourceGauge

/-- Content by identifier, or the reason why there is none. -/
abbrev Source := String → Except String String

namespace Source

/-- The last pair under an identifier holds its content. -/
def ofPairs (pairs : List (String × String)) : Source := fun identifier =>
  match pairs.reverse.find? (·.1 = identifier) with
  | some (_, content) => .ok content
  | none => .error "not found"

end Source

namespace Batch

/-- The result for one identifier and what is logged about it. Unreadable content gives a failure,
never an error. -/
def analyze (source : Source) (identifier : String) : Result × Log.Record :=
  match source identifier with
  | .ok content =>
    (.analyze identifier content,
      Log.debug ("Analyzing " ++ identifier ++ " (" ++ toString content.utf8ByteSize ++ " bytes)"))
  | .error reason =>
    (.failure identifier reason, Log.warn ("Failed to read " ++ identifier ++ ": " ++ reason))

/-- Cuts after every `size` items. `held` is the current piece, last item first. -/
def chunksHeld (size : Nat) (held : List α) : List α → List (List α)
  | [] => if held.isEmpty then [] else [held.reverse]
  | x :: rest =>
    if held.length + 1 < size then chunksHeld size (x :: held) rest
    else (x :: held).reverse :: chunksHeld size [] rest

/-- Consecutive pieces of `size` items, the last one possibly shorter. Size zero counts as one. -/
def chunks (size : Nat) (xs : List α) : List (List α) := chunksHeld size [] xs

theorem flatten_chunksHeld (size : Nat) (held xs : List α) :
    (chunksHeld size held xs).flatten = held.reverse ++ xs := by
  induction xs generalizing held with
  | nil => cases held <;> simp [chunksHeld]
  | cons x rest ih =>
    rw [chunksHeld]
    split <;> simp [ih]

/-- Chunks keep every item and its place. -/
theorem flatten_chunks (size : Nat) (xs : List α) : (chunks size xs).flatten = xs :=
  flatten_chunksHeld size [] xs

/-- One outcome per identifier, in order. Chunks are worked off one after another. -/
def outcomes (source : Source) (p : Parallel) (identifiers : List String) :
    List (Result × Log.Record) :=
  if !p.enabled || identifiers.length ≤ 1 then identifiers.map (analyze source)
  else (chunks p.chunkSize identifiers).flatMap (·.map (analyze source))

def closing (rs : List Result) : Log.Record :=
  let failed := rs.countP (·.isFailure)
  Log.info ("Analyzed " ++ toString (rs.length - failed) ++ " files (" ++ toString failed ++
    " failed)")

/-- The results of a batch and its log, which ends with a record of the totals. -/
def run (source : Source) (p : Parallel) (identifiers : List String) :
    List Result × List Log.Record :=
  let done := outcomes source p identifiers
  let rs := done.map (·.1)
  (rs, done.map (·.2) ++ [closing rs])

/-- What a batch did: the identifiers in order and a message for each that failed. -/
structure Report where
  analyzed : List String := []
  notifications : List String := []
deriving DecidableEq, Repr

def Report.hasFailures (r : Report) : Bool := !r.notifications.isEmpty

def recordAll (store : Store) (rs : List Result) : Store :=
  rs.foldl (fun s r => (s.record r).1) store

def Report.ofResults (rs : List Result) : Report :=
  ⟨rs.map (·.identifier), rs.filterMap fun r => r.firstError?.map (·.message)⟩

/-- Runs a batch against a store. A batch of nothing changes nothing and logs nothing. -/
def intoStore (store : Store) (source : Source) (p : Parallel) (identifiers : List String) :
    Store × Report × List Log.Record :=
  if identifiers.isEmpty then (store, {}, [])
  else
    let (rs, log) := run source p identifiers
    let filled := recordAll (store.setFiles identifiers).beginBatch rs
    (filled.finishBatch, .ofResults rs, log)

end Batch
end SourceGauge
