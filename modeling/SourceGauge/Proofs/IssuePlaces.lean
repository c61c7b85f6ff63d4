import Mathlib
import SourceGauge.Proofs.NumberedLines

namespace SourceGauge.Proofs.IssuePlaces
open Text NumberedLines

/-- The marker stands at this offset of a line and at no smaller one. -/
def FirstAt (marker line : List Char) (offset : Nat) : Prop :=
  marker <+: line.drop offset ∧ ∀ k < offset, ¬marker <+: line.drop k

theorem firstAt_zero_iff {marker line : List Char} : FirstAt marker line 0 ↔ marker <+: line := by
  simp [FirstAt]

theorem firstAt_cons_succ_iff {marker rest : List Char} {c : Char} {k : Nat} :
    FirstAt marker (c :: rest) (k + 1) ↔ ¬marker <+: c :: rest ∧ FirstAt marker rest k := by
  simp only [FirstAt, List.drop_succ_cons]
  constructor
  · rintro ⟨hhere, hbefore⟩
    exact ⟨hbefore 0 (by omega), hhere, fun j hj => hbefore (j + 1) (by omega)⟩
  · rintro ⟨hhead, hhere, hbefore⟩
    refine ⟨hhere, fun j hj => ?_⟩
    cases j with
    | zero => exact hhead
    | succ j => exact hbefore j (by omega)

theorem offset?_eq_some_iff {marker line : List Char} {k : Nat} :
    offset? marker line = some k ↔ FirstAt marker line k := by
  induction line generalizing k with
  | nil =>
    cases marker with
    | nil =>
      cases k with
      | zero => simp [offset?, FirstAt]
      | succ k => simpa [offset?, FirstAt] using ⟨0, by omega⟩
    | cons m ms => simp [offset?, FirstAt]
  | cons c rest ih =>
    rw [offset?]
    split
    · rename_i hhead
      rw [List.isPrefixOf_iff_prefix] at hhead
      cases k with
      | zero => simpa [firstAt_zero_iff] using hhead
      | succ k => simp [firstAt_cons_succ_iff, hhead]
    · rename_i hhead
      rw [List.isPrefixOf_iff_prefix] at hhead
      cases k with
      | zero => simpa [firstAt_zero_iff] using hhead
      | succ k => simp [firstAt_cons_succ_iff, hhead, ih]

/-- A marker that is not empty begins at a character of its line. -/
theorem FirstAt.lt_length {marker line : List Char} {k : Nat} (h : FirstAt marker line k)
    (hne : marker ≠ []) : k < line.length := by
  by_contra hge
  have hnil : line.drop k = [] := List.drop_eq_nil_of_le (by omega)
  exact hne (List.prefix_nil.mp (hnil ▸ h.1))

/-- The checks of a line in the order of their issues. -/
inductive Check where
  | longLine
  | debugPrint
  | todo
deriving DecidableEq

namespace Check

def all : List Check := [longLine, debugPrint, todo]

def rank : Check → Nat
  | longLine => 0
  | debugPrint => 1
  | todo => 2

/-- The condition that a check reports, with the column it reports. -/
def Finds : Check → List Char → Nat → Prop
  | longLine, line, column => 100 < line.length ∧ column = 101
  | debugPrint, line, column => 1 ≤ column ∧ FirstAt "console.log".toList line (column - 1)
  | todo, line, column => 1 ≤ column ∧ FirstAt "TODO".toList line (column - 1)

def issue : Check → Nat → Nat → Issue
  | longLine, line, column => ⟨.warning, "Line is too long (over 100 characters)", line, column⟩
  | debugPrint, line, column =>
    ⟨.suggestion, "Consider removing console.log statements in production code", line, column⟩
  | todo, line, column => ⟨.suggestion, "TODO comment found", line, column⟩

def find? : Check → Nat → List Char → Option Issue
  | longLine => Issue.longLine?
  | debugPrint => Issue.debugPrint?
  | todo => Issue.todo?

theorem line_issue (check : Check) (line column : Nat) : (check.issue line column).line = line := by
  cases check <;> rfl

theorem column_issue (check : Check) (line column : Nat) :
    (check.issue line column).column = column := by
  cases check <;> rfl

theorem markerColumn?_eq_some_iff {line marker : List Char} {column : Nat} :
    Issue.markerColumn? line marker = some column ↔
      1 ≤ column ∧ FirstAt marker line (column - 1) := by
  rw [Issue.markerColumn?, Option.map_eq_some_iff]
  constructor
  · rintro ⟨k, hk, rfl⟩
    exact ⟨by omega, offset?_eq_some_iff.mp hk⟩
  · rintro ⟨hpos, hfirst⟩
    exact ⟨column - 1, offset?_eq_some_iff.mpr hfirst, by omega⟩

/-- A check reports its condition, with the number of the line copied. -/
theorem find?_eq_some_iff {check : Check} {number : Nat} {line : List Char} {i : Issue} :
    check.find? number line = some i ↔
      ∃ column, check.Finds line column ∧ i = check.issue number column := by
  have hmarker : ∀ (marker : List Char) (message : String),
      (Issue.markerColumn? line marker).map (⟨.suggestion, message, number, ·⟩ : Nat → Issue) =
          some i ↔
        ∃ column, (1 ≤ column ∧ FirstAt marker line (column - 1)) ∧
          i = ⟨.suggestion, message, number, column⟩ := by
    intro marker message
    simp only [Option.map_eq_some_iff, markerColumn?_eq_some_iff, eq_comm (a := i)]
  cases check with
  | longLine =>
    by_cases hlong : 100 < line.length
    · simp [find?, Issue.longLine?, Issue.longestLine, hlong, Finds, issue, Issue.longLineMessage,
        eq_comm]
    · simp [find?, Issue.longLine?, Issue.longestLine, hlong, Finds]
  | debugPrint => exact hmarker Issue.debugPrintMarker Issue.debugPrintMessage
  | todo => exact hmarker Issue.todoMarker Issue.todoMessage

/-- A column is that of a character of the line. -/
theorem Finds.column_le {check : Check} {line : List Char} {column : Nat}
    (h : check.Finds line column) : 1 ≤ column ∧ column ≤ line.length := by
  cases check with
  | longLine =>
    obtain ⟨hlong, rfl⟩ := h
    omega
  | debugPrint =>
    obtain ⟨hpos, hfirst⟩ := h
    have hlt := hfirst.lt_length (by decide)
    omega
  | todo =>
    obtain ⟨hpos, hfirst⟩ := h
    have hlt := hfirst.lt_length (by decide)
    omega

end Check

theorem ofLine_eq_filterMap (number : Nat) (line : List Char) :
    Issue.ofLine number line = Check.all.filterMap (·.find? number line) := by
  simp only [Issue.ofLine, Check.all, List.filterMap_cons, List.filterMap_nil, Check.find?]
  cases Issue.longLine? number line <;> cases Issue.debugPrint? number line <;>
    cases Issue.todo? number line <;> rfl

theorem mem_ofLine_iff {number : Nat} {line : List Char} {i : Issue} :
    i ∈ Issue.ofLine number line ↔
      ∃ check column, Check.Finds check line column ∧ i = check.issue number column := by
  rw [ofLine_eq_filterMap, List.mem_filterMap]
  constructor
  · rintro ⟨check, _, hfind⟩
    exact ⟨check, Check.find?_eq_some_iff.mp hfind⟩
  · rintro ⟨check, hfinds⟩
    exact ⟨check, by cases check <;> decide, Check.find?_eq_some_iff.mpr hfinds⟩

/-- The issues of some lines are what the checks find in each of them. -/
theorem mem_ofLinesFrom_iff {number : Nat} {ls : List (List Char)} {i : Issue} :
    i ∈ Issue.ofLinesFrom number ls ↔
      ∃ k line, ls[k]? = some line ∧ i ∈ Issue.ofLine (number + k) line := by
  induction ls generalizing number with
  | nil => simp [Issue.ofLinesFrom]
  | cons line rest ih =>
    have hnext : ∀ k, number + 1 + k = number + (k + 1) := by omega
    simp only [Issue.ofLinesFrom, List.mem_append, ih, hnext]
    constructor
    · rintro (hfirst | ⟨k, l, hl, hi⟩)
      · exact ⟨0, line, rfl, hfirst⟩
      · exact ⟨k + 1, l, hl, hi⟩
    · rintro ⟨k, l, hl, hi⟩
      cases k with
      | zero =>
        cases hl
        exact .inl hi
      | succ k => exact .inr ⟨k, l, hl, hi⟩

/-- The issues of a text are what the checks find in its lines, and nothing else. -/
theorem mem_ofText_iff {text : List Char} {i : Issue} :
    i ∈ Issue.ofText text ↔ ∃ check number line column,
      IsLine text number line ∧ Check.Finds check line column ∧ i = check.issue number column := by
  rw [Issue.ofText, mem_ofLinesFrom_iff]
  constructor
  · rintro ⟨k, line, hline, hi⟩
    obtain ⟨check, column, hfinds, rfl⟩ := mem_ofLine_iff.mp hi
    refine ⟨check, k + 1, line, column, isLine_succ_iff.mpr hline, hfinds, ?_⟩
    rw [Nat.add_comm]
  · rintro ⟨check, number, line, column, hline, hfinds, rfl⟩
    obtain ⟨k, rfl⟩ := Nat.exists_eq_add_of_le' hline.one_le
    refine ⟨k, line, isLine_succ_iff.mp hline, mem_ofLine_iff.mpr ⟨check, column, hfinds, ?_⟩⟩
    rw [Nat.add_comm]

/-- The place of the check that an issue comes from. -/
def rank (i : Issue) : Nat :=
  if i.message = Issue.longLineMessage then 0
  else if i.message = Issue.debugPrintMessage then 1
  else 2

/-- An earlier line comes first, and in one line an earlier check. -/
def Before (i j : Issue) : Prop := i.line < j.line ∨ i.line = j.line ∧ rank i < rank j

theorem rank_issue (check : Check) (line column : Nat) :
    rank (check.issue line column) = check.rank := by
  cases check <;> rfl

/-- The messages tell the checks apart, so an issue tells its check, line and column. -/
theorem issue_injective {a b : Check} {line column number other : Nat}
    (h : a.issue line column = b.issue number other) : a = b ∧ line = number ∧ column = other := by
  refine ⟨?_, ?_, ?_⟩
  · have hrank : a.rank = b.rank := by rw [← rank_issue a, h, rank_issue]
    cases a <;> cases b <;> simp_all [Check.rank]
  · rw [← a.line_issue line column, h, Check.line_issue]
  · rw [← a.column_issue line column, h, Check.column_issue]

theorem issue_mem_ofText_iff (text : List Char) (check : Check) (number column : Nat) :
    check.issue number column ∈ Issue.ofText text ↔
      ∃ line, IsLine text number line ∧ check.Finds line column := by
  rw [mem_ofText_iff]
  constructor
  · rintro ⟨other, n, line, c, hline, hfinds, he⟩
    obtain ⟨rfl, rfl, rfl⟩ := issue_injective he
    exact ⟨line, hline, hfinds⟩
  · rintro ⟨line, hline, hfinds⟩
    exact ⟨check, number, line, column, hline, hfinds, rfl⟩

theorem line_of_mem_ofLine {number : Nat} {line : List Char} {i : Issue}
    (h : i ∈ Issue.ofLine number line) : i.line = number := by
  obtain ⟨check, column, _, rfl⟩ := mem_ofLine_iff.mp h
  exact check.line_issue number column

theorem pairwise_ofLine (number : Nat) (line : List Char) :
    (Issue.ofLine number line).Pairwise Before := by
  rw [ofLine_eq_filterMap, List.pairwise_filterMap]
  have hrank : Check.all.Pairwise (fun a b => a.rank < b.rank) := by decide
  refine hrank.imp ?_
  intro a b hab i hi j hj
  obtain ⟨_, _, rfl⟩ := Check.find?_eq_some_iff.mp hi
  obtain ⟨_, _, rfl⟩ := Check.find?_eq_some_iff.mp hj
  exact .inr ⟨by simp [Check.line_issue], by simpa [rank_issue] using hab⟩

theorem pairwise_ofLinesFrom (number : Nat) (ls : List (List Char)) :
    (Issue.ofLinesFrom number ls).Pairwise Before := by
  induction ls generalizing number with
  | nil => exact .nil
  | cons line rest ih =>
    refine List.pairwise_append.mpr ⟨pairwise_ofLine number line, ih (number + 1), ?_⟩
    intro i hi j hj
    obtain ⟨k, l, _, hj⟩ := mem_ofLinesFrom_iff.mp hj
    have hi := line_of_mem_ofLine hi
    have hj := line_of_mem_ofLine hj
    exact .inl (by omega)

theorem not_before_self (i : Issue) : ¬Before i i := by
  simp [Before]

/-- The issues of a text are those of its lines: a warning for each line of more than a hundred
characters and a suggestion for each line with a marker, at the first place of the marker. There is
nothing else and nothing twice, lines follow each other, and within a line the warning comes first
and the second marker last. So each issue is at a character of a line of the text. -/
theorem ofText_sound_complete_ordered (text : List Char) :
    (∀ number,
      ⟨.warning, "Line is too long (over 100 characters)", number, 101⟩ ∈ Issue.ofText text ↔
      ∃ line, IsLine text number line ∧ 100 < line.length) ∧
    (∀ number column, ⟨.suggestion,
        "Consider removing console.log statements in production code", number, column⟩ ∈
          Issue.ofText text ↔
      ∃ line, IsLine text number line ∧ 1 ≤ column ∧
        FirstAt "console.log".toList line (column - 1)) ∧
    (∀ number column, ⟨.suggestion, "TODO comment found", number, column⟩ ∈ Issue.ofText text ↔
      ∃ line, IsLine text number line ∧ 1 ≤ column ∧ FirstAt "TODO".toList line (column - 1)) ∧
    (∀ i ∈ Issue.ofText text,
      i = ⟨.warning, "Line is too long (over 100 characters)", i.line, 101⟩ ∨
      i = ⟨.suggestion, "Consider removing console.log statements in production code", i.line,
        i.column⟩ ∨
      i = ⟨.suggestion, "TODO comment found", i.line, i.column⟩) ∧
    (Issue.ofText text).Nodup ∧
    (Issue.ofText text).Pairwise
      (fun i j => i.line < j.line ∨ i.line = j.line ∧ rank i < rank j) ∧
    ∀ i ∈ Issue.ofText text, 1 ≤ i.line ∧ i.line ≤ (LineCount.ofText text).physical ∧
      ∃ line, IsLine text i.line line ∧ 1 ≤ i.column ∧ i.column ≤ line.length := by
  have hordered : (Issue.ofText text).Pairwise Before := pairwise_ofLinesFrom 1 (lines text)
  refine ⟨?_, issue_mem_ofText_iff text .debugPrint, issue_mem_ofText_iff text .todo, ?_, ?_,
    hordered, ?_⟩
  · intro number
    have hlong := issue_mem_ofText_iff text .longLine number 101
    simp only [Check.Finds, and_true] at hlong
    exact hlong
  · intro i hi
    obtain ⟨check, number, line, column, _, hfinds, rfl⟩ := mem_ofText_iff.mp hi
    cases check with
    | longLine => exact .inl (by rw [hfinds.2]; rfl)
    | debugPrint => exact .inr (.inl rfl)
    | todo => exact .inr (.inr rfl)
  · refine hordered.imp ?_
    rintro i j hij rfl
    exact not_before_self i hij
  · intro i hi
    obtain ⟨check, number, line, column, hline, hfinds, rfl⟩ := mem_ofText_iff.mp hi
    simp only [Check.line_issue, Check.column_issue]
    exact ⟨hline.one_le, hline.le_physical, line, hline, hfinds.column_le⟩

end SourceGauge.Proofs.IssuePlaces
