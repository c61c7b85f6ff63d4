import Mathlib
import SourceGauge.Clock
import SourceGauge.Report.Markdown

namespace SourceGauge.Proofs.PrintedText
open Report

/-- The characters below the blank. -/
def isControl (c : Char) : Bool := c.toNat < 32

/-- A text without control characters. -/
def Printed (s : String) : Prop := ∀ c ∈ s.toList, isControl c = false

instance (s : String) : Decidable (Printed s) :=
  decidable_of_iff (s.toList.all fun c => !isControl c) (by simp [Printed])

theorem Printed.not_mem {s : String} (h : Printed s) {x : Char} (hx : isControl x = true) :
    x ∉ s.toList := by
  intro hm
  simp [h x hm] at hx

theorem Printed.count_eq_zero {s : String} (h : Printed s) {x : Char} (hx : isControl x = true) :
    s.toList.count x = 0 := List.count_eq_zero.mpr (h.not_mem hx)

@[simp] theorem printed_append {s t : String} : Printed (s ++ t) ↔ Printed s ∧ Printed t := by
  simp only [Printed, String.toList_append, List.forall_mem_append]

theorem isControl_of_isDigit {c : Char} (h : c.isDigit = true) : isControl c = false := by
  have hzero : '0'.toNat ≤ c.toNat := by
    rw [Char.isDigit, Bool.and_eq_true, decide_eq_true_eq] at h
    exact h.1
  exact decide_eq_false (Nat.not_lt.mpr (Nat.le_trans (by decide) hzero))

theorem isControl_toDigits {n : Nat} : ∀ c ∈ Nat.toDigits 10 n, isControl c = false :=
  fun _ hc => isControl_of_isDigit (Nat.isDigit_of_mem_toDigits (by decide) (by decide) hc)

@[simp] theorem printed_repr (n : Nat) : Printed n.repr := by
  rw [Printed, Nat.toList_repr]
  exact isControl_toDigits

@[simp] theorem printed_fixed1 (x : Float) : Printed (Decimal.fixed1 x) := by
  simp +decide [Decimal.fixed1]

@[simp] theorem printed_padded (width n : Nat) : Printed (Clock.padded width n) := by
  rw [Printed, Clock.padded, String.toList_ofList, List.forall_mem_append]
  refine ⟨?_, isControl_toDigits⟩
  intro c hc
  rw [List.eq_of_mem_replicate hc]
  decide

theorem printed_clock (seconds : Nat) : Printed (Clock.text seconds) := by
  simp +decide [Clock.text]

@[simp] theorem printed_kind (kind : Issue.Kind) : Printed kind.label := by
  cases kind <;> decide

@[simp] theorem printed_rating (rating : Rating) : Printed rating.label := by
  cases rating <;> decide

section Rows

variable {x : Char} (hx : isControl x = true)
include hx

theorem ne_of_isControl {c : Char} (hc : isControl c = false) : c ≠ x := by
  rintro rfl
  simp [hx] at hc

theorem count_row (cells : List String) :
    (Markdown.row cells).toList.count x = (cells.map fun c => c.toList.count x).sum := by
  have hblank := ne_of_isControl hx (c := ' ') (by decide)
  have hpipe := ne_of_isControl hx (c := '|') (by decide)
  simp [Markdown.row, String.toList_join, List.count_flatMap, hblank, hpipe, Function.comp_def]

theorem count_escapeChar (c : Char) : (Markdown.escapeChar c).count x = [c].count x := by
  by_cases hc : c = '|'
  · have hpipe := ne_of_isControl hx (c := '|') (by decide)
    have hslash := ne_of_isControl hx (c := '\\') (by decide)
    simp [Markdown.escapeChar, hc, hpipe, hslash]
  · rw [Markdown.escapeChar, if_neg hc]

theorem count_escapeCell (text : String) :
    (Markdown.escapeCell text).toList.count x = text.toList.count x := by
  rw [Markdown.escapeCell, String.toList_ofList]
  induction text.toList with
  | nil => rfl
  | cons c rest ih =>
    rw [List.flatMap_cons, List.count_append, count_escapeChar hx, ih, ← List.count_append,
      List.singleton_append]

/-- The control characters of a row of the file table are those of the identifier. -/
theorem count_fileRow (r : Result) :
    (Markdown.fileRow r).toList.count x = r.identifier.toList.count x := by
  have hnumber : ∀ n : Nat, n.repr.toList.count x = 0 := fun n => (printed_repr n).count_eq_zero hx
  have hscore :
      (r.metrics.maintainability.repr ++ "% (" ++ r.metrics.rating.label ++ ")").toList.count x =
        0 :=
    Printed.count_eq_zero (by simp +decide) hx
  simp only [Markdown.fileRow, count_row hx, List.map_cons, List.map_nil, List.sum_cons,
    List.sum_nil, Nat.toString_eq_repr, count_escapeCell hx, hscore, hnumber, Nat.add_zero]

/-- The control characters of a row of an issue table are those of the message. -/
theorem count_issueRow (i : Issue) :
    (Markdown.issueRow i).toList.count x = i.message.toList.count x := by
  have hnumber : ∀ n : Nat, n.repr.toList.count x = 0 := fun n => (printed_repr n).count_eq_zero hx
  have hkind := (printed_kind i.kind).count_eq_zero hx
  simp only [Markdown.issueRow, count_row hx, List.map_cons, List.map_nil, List.sum_cons,
    List.sum_nil, Nat.toString_eq_repr, count_escapeCell hx, hkind, hnumber, Nat.zero_add,
    Nat.add_zero]

end Rows

theorem printed_row {cells : List String} (h : ∀ c ∈ cells, Printed c) :
    Printed (Markdown.row cells) := by
  simp only [Markdown.row, printed_append]
  refine ⟨by decide, ?_⟩
  simp only [Printed, String.toList_join, List.mem_flatMap, List.mem_map]
  rintro x ⟨_, ⟨c, hc, rfl⟩, hm⟩
  have hcell : Printed (" " ++ c ++ " |") := by simp +decide [h c hc]
  exact hcell x hm

theorem printed_header {time : String} (h : Printed time) :
    ∀ l ∈ Markdown.headerLines time, Printed l := by
  simp +decide [Markdown.headerLines, Markdown.version, h]

theorem printed_summary (s : Summary) : ∀ l ∈ Markdown.summaryLines s, Printed l := by
  have hrow : ∀ a b : String, Printed a → Printed b → Printed (Markdown.row [a, b]) := by
    intro a b ha hb
    exact printed_row (by simp [ha, hb])
  simp +decide [Markdown.summaryLines, hrow]

section Parts

variable {x : Char} (hx : isControl x = true)
include hx

theorem not_mem_of_printed {ls : List String} (h : ∀ l ∈ ls, Printed l) :
    ∀ l ∈ ls, x ∉ l.toList := fun l hl => (h l hl).not_mem hx

theorem not_mem_fileLines {results : List Result} (h : ∀ r ∈ results, x ∉ r.identifier.toList) :
    ∀ l ∈ Markdown.fileLines results, x ∉ l.toList := by
  rw [Markdown.fileLines]
  split
  · exact not_mem_of_printed hx (by decide)
  · simp only [List.forall_mem_append, List.forall_mem_map]
    refine ⟨⟨not_mem_of_printed hx (by decide), ?_⟩, not_mem_of_printed hx (by decide)⟩
    intro r hr
    rw [← List.count_eq_zero, count_fileRow hx, List.count_eq_zero]
    exact h r hr

theorem not_mem_issueLines {r : Result} (hname : x ∉ r.identifier.toList)
    (h : ∀ i ∈ r.metrics.issues, x ∉ i.message.toList) :
    ∀ l ∈ Markdown.issueLines r, x ∉ l.toList := by
  have hheading : x ∉ ("### " ++ r.identifier).toList := by
    rw [String.toList_append, List.mem_append, not_or]
    exact ⟨Printed.not_mem (by decide) hx, hname⟩
  simp only [Markdown.issueLines, List.forall_mem_append, List.forall_mem_map]
  refine ⟨⟨?_, ?_⟩, not_mem_of_printed hx (by decide)⟩
  · exact List.forall_mem_cons.mpr ⟨hheading, not_mem_of_printed hx (by decide)⟩
  · intro i hi
    rw [← List.count_eq_zero, count_issueRow hx, List.count_eq_zero]
    exact h i hi

theorem not_mem_issueSection {results : List Result}
    (hname : ∀ r ∈ results, x ∉ r.identifier.toList)
    (h : ∀ r ∈ results, ∀ i ∈ r.metrics.issues, x ∉ i.message.toList) :
    ∀ l ∈ Markdown.issueSection results, x ∉ l.toList := by
  simp only [Markdown.issueSection]
  split
  · simp
  · rw [List.forall_mem_append, List.forall_mem_flatMap]
    refine ⟨not_mem_of_printed hx (by decide), fun r hr => ?_⟩
    have hmem : r ∈ results := (List.mem_filter.mp hr).1
    exact not_mem_issueLines hx (hname r hmem) (h r hmem)

end Parts

end SourceGauge.Proofs.PrintedText
