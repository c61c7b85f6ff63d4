import SourceGauge.Batch

namespace SourceGauge.Proofs.FailureMarks
open Batch

theorem kind_of_mem_ofLine {number : Nat} {line : List Char} {i : Issue}
    (h : i ∈ Issue.ofLine number line) : i.kind = .warning ∨ i.kind = .suggestion := by
  simp only [Issue.ofLine, List.mem_append, Option.mem_toList] at h
  rcases h with (h | h) | h
  · unfold Issue.longLine? at h
    split at h
    · cases h
      exact .inl rfl
    · cases h
  · obtain ⟨column, _, rfl⟩ := Option.map_eq_some_iff.mp h
    exact .inr rfl
  · obtain ⟨column, _, rfl⟩ := Option.map_eq_some_iff.mp h
    exact .inr rfl

theorem kind_of_mem_ofLinesFrom {number : Nat} {lines : List (List Char)} {i : Issue}
    (h : i ∈ Issue.ofLinesFrom number lines) : i.kind = .warning ∨ i.kind = .suggestion := by
  induction lines generalizing number with
  | nil => simp [Issue.ofLinesFrom] at h
  | cons line rest ih =>
    rcases List.mem_append.mp h with h | h
    · exact kind_of_mem_ofLine h
    · exact ih h

/-- A text never has an error. -/
theorem firstError?_analyze (identifier content : String) :
    (Result.analyze identifier content).firstError? = none := by
  apply List.find?_eq_none.mpr
  intro i hi
  rcases kind_of_mem_ofLinesFrom hi with hk | hk <;> simp [hk]

/-- The message of the first error of a result from a batch: there is one exactly when the content
could not be read, and it gives the reason. -/
theorem message_firstError?_analyze (source : Source) (x : String) :
    ((analyze source x).1.firstError?.map (·.message)) =
      match source x with
      | .ok _ => none
      | .error reason => some ("Failed to analyze file: " ++ reason) := by
  cases h : source x with
  | ok content => simp [analyze, h, firstError?_analyze]
  | error reason =>
    simp only [analyze, h]
    rfl

end SourceGauge.Proofs.FailureMarks
