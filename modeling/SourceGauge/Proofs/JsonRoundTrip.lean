import Mathlib
import SourceGauge.Json.ResultReader
import SourceGauge.Proofs.JsonValues
import SourceGauge.Report

namespace SourceGauge.Proofs.JsonRoundTrip
open Json JsonValues

/-- The numbers of an issue fit into 64 bits. -/
structure IssueFits (i : Issue) : Prop where
  line : i.line < 2 ^ 64
  column : i.column < 2 ^ 64

instance (i : Issue) : Decidable (IssueFits i) :=
  decidable_of_iff (i.line < 2 ^ 64 ∧ i.column < 2 ^ 64)
    ⟨fun h => ⟨h.1, h.2⟩, fun h => ⟨h.line, h.column⟩⟩

/-- The numbers of a result fit into their fields: 32 bits for the complexity, 8 for the
maintainability and 64 for every count. -/
structure Fits (r : Result) : Prop where
  complexity : r.metrics.complexity < 2 ^ 32
  maintainability : r.metrics.maintainability < 2 ^ 8
  linesOfCode : r.metrics.linesOfCode < 2 ^ 64
  issues : ∀ i ∈ r.metrics.issues, IssueFits i

instance (r : Result) : Decidable (Fits r) :=
  decidable_of_iff (r.metrics.complexity < 2 ^ 32 ∧ r.metrics.maintainability < 2 ^ 8 ∧
      r.metrics.linesOfCode < 2 ^ 64 ∧ ∀ i ∈ r.metrics.issues, IssueFits i)
    ⟨fun h => ⟨h.1, h.2.1, h.2.2.1, h.2.2.2⟩,
      fun h => ⟨h.complexity, h.maintainability, h.linesOfCode, h.issues⟩⟩

theorem kindNamed_label (k : Issue.Kind) : kindNamed k.label = .ok k := by
  cases k <;> rfl

theorem written_kind (k : Issue.Kind) : Written readKind (quoted k.label) k := by
  refine ⟨opens_quoted _, ?_⟩
  intro cs rest hcs _
  rw [quoted_append] at hcs
  simp only [readKind, hcs, stringBody_escaped, ok_bind, String.ofList_toList, kindNamed_label]
  rfl

theorem written_count {n : Nat} (h : n < 2 ^ 64) : Written count (decimal n) n :=
  written_natural h (Nat.le_refl 64)

/-- The fields of an issue in the order in which they are printed. -/
theorem issue_fills {i : Issue} (h : IssueFits i) :
    Fills issueMember {} [member "type" (quoted i.kind.label), member "message" (quoted i.message),
        member "line" (decimal i.line), member "column" (decimal i.column)]
      ⟨some i.kind, some i.message, some i.line, some i.column⟩ := by
  refine .once (written_kind i.kind) (by rw [issueMember]) ?_
  refine .once (written_string i.message) (by rw [issueMember]) ?_
  refine .once (written_count h.line) (by rw [issueMember]) ?_
  refine .once (written_count h.column) (by rw [issueMember]) ?_
  exact .nil _

theorem written_issue {i : Issue} (h : IssueFits i) (depth : Nat) :
    Written readIssue (issue depth i) i := by
  refine written_record (issue_fills h) ?_ depth
  intro cs rest hread
  simp only [hread, ok_bind]
  rfl

theorem metrics_fills {m : Metrics} (hc : m.complexity < 2 ^ 32) (hm : m.maintainability < 2 ^ 8)
    (hl : m.linesOfCode < 2 ^ 64) (hi : ∀ i ∈ m.issues, IssueFits i) (depth : Nat) :
    Fills metricsMember {} [member "complexity" (decimal m.complexity),
        member "maintainability" (decimal m.maintainability),
        member "linesOfCode" (decimal m.linesOfCode),
        member "issues" (enclose '[' ']' (depth + 1) (m.issues.map (issue (depth + 2))))]
      ⟨some m.complexity, some m.maintainability, some m.linesOfCode, some m.issues⟩ := by
  have hissues : Written (array readIssue)
      (enclose '[' ']' (depth + 1) (m.issues.map (issue (depth + 2)))) m.issues :=
    written_array (fun i hm => written_issue (hi i hm) (depth + 2)) (depth + 1)
  refine .once (written_natural hc (by decide)) (by rw [metricsMember]) ?_
  refine .once (written_natural hm (by decide)) (by rw [metricsMember]) ?_
  refine .once (written_count hl) (by rw [metricsMember]) ?_
  refine .once hissues (by rw [metricsMember]) ?_
  exact .nil _

theorem written_metrics {r : Result} (h : Fits r) (depth : Nat) :
    Written readMetrics (metrics depth r.metrics) r.metrics := by
  refine written_record
    (metrics_fills h.complexity h.maintainability h.linesOfCode h.issues depth) ?_ depth
  intro cs rest hread
  simp only [hread, ok_bind]
  rfl

theorem result_fills {r : Result} (h : Fits r) (depth : Nat) :
    Fills resultMember {} [member "filePath" (quoted r.identifier),
        member "metrics" (metrics (depth + 1) r.metrics)]
      ⟨some r.identifier, some r.metrics⟩ := by
  refine .once (written_string r.identifier) (by rw [resultMember]) ?_
  refine .once (written_metrics h (depth + 1)) (by rw [resultMember]) ?_
  exact .nil _

theorem written_result {r : Result} (h : Fits r) (depth : Nat) :
    Written readResult (result depth r) r := by
  refine written_record (result_fills h depth) ?_ depth
  intro cs rest hread
  simp only [hread, ok_bind]
  rfl

/-- A value and the blanks behind it make a whole text. -/
theorem whole_written {reader : Reader α} {text : List Char} {a : α} (h : Written reader text a)
    {rest : List Char} (hrest : rest = [] ∨ rest = ['\n']) :
    whole reader (text ++ rest) = .ok a := by
  have hskip := skipBlanks_opens h.opens rest
  rcases hrest with rfl | rfl
  · have hread := h.reads _ _ hskip (by simp [Closes])
    simp only [whole, hread, ok_bind]
    rfl
  · have hread := h.reads _ _ hskip (closes_newline 0 [])
    simp only [whole, hread, ok_bind]
    rfl

/-- Reading a JSON report gives back the list of results it was written from, and reading the text
of a single result, however deep it is indented, gives back the result. -/
theorem parseResults_render (rs : List Result) (h : ∀ r ∈ rs, Fits r) (colored : Bool)
    (time : String) :
    parseResults (Report.render .json colored time rs) = .ok rs ∧
    ∀ r ∈ rs, ∀ depth, parseResult (String.ofList (result depth r)) = .ok r := by
  constructor
  · have hwritten : Written (array readResult) (results rs) rs :=
      written_array (fun r hr => written_result (h r hr) 1) 0
    have htext : (Report.render .json colored time rs).toList = results rs ++ ['\n'] := by
      simp [Report.render, Report.unlines]
    rw [parseResults, htext]
    exact whole_written hwritten (.inr rfl)
  · intro r hr depth
    rw [parseResult, String.toList_ofList]
    simpa using whole_written (written_result (h r hr) depth) (.inl rfl)

/-- Results with escapes of every sort, characters of four bytes, the greatest numbers and an empty
list of issues. -/
def extremes : List Result := [
    ⟨"a \"quoted\" \\ path\n\x01\x1f\t😀", 2 ^ 32 - 1, 2 ^ 8 - 1, 2 ^ 64 - 1, [
      ⟨.error, "\r\x08\x0c\x7f/", 2 ^ 64 - 1, 0⟩, ⟨.suggestion, "", 10, 2 ^ 64 - 1⟩]⟩,
    ⟨"", 0, 0, 0, []⟩]

theorem parseResults_render_extremes :
    (∀ r ∈ extremes, Fits r) ∧
      parseResults (Report.render .json false "" extremes) = .ok extremes :=
  have hfits : ∀ r ∈ extremes, Fits r := by decide
  ⟨hfits, (parseResults_render extremes hfits false "").1⟩

end SourceGauge.Proofs.JsonRoundTrip
