import Mathlib
import SourceGauge.Proofs.NumberedLines
import SourceGauge.Proofs.PrintedText
import SourceGauge.Proofs.TableRows
import SourceGauge.Report

namespace SourceGauge.Proofs.ReportTables
open Report Text JoinedTexts NumberedLines PrintedText

/-- The rows of each table with this separator, from the line behind it to the next blank one. -/
def rowsBelow (separator : List Char) : List (List Char) → List (List (List Char))
  | [] => []
  | l :: rest =>
    if l = separator then rest.takeWhile (!·.isEmpty) :: rowsBelow separator rest
    else rowsBelow separator rest

def fileSeparator : List Char := "|------|-----------------|------------|-------|--------|".toList

def issueSeparator : List Char := "|------|--------|------|---------|".toList

def fileRows (results : List Result) : List (List Char) :=
  results.map fun r => (Markdown.fileRow r).toList

def issueRows (r : Result) : List (List Char) :=
  r.metrics.issues.map fun i => (Markdown.issueRow i).toList

/-- The report has one table of files with one line for each result, and one table of issues with
one line for each issue for every result that has some. -/
structure Intact (report : List (List Char)) (results : List Result) : Prop where
  files : rowsBelow fileSeparator report = [fileRows results]
  issues : rowsBelow issueSeparator report =
    (results.filter (!·.metrics.issues.isEmpty)).map issueRows

theorem mem_of_mem_rowsBelow {separator : List Char} {ls rows : List (List Char)}
    (h : rows ∈ rowsBelow separator ls) : ∀ l ∈ rows, l ∈ ls := by
  induction ls with
  | nil => simp [rowsBelow] at h
  | cons first rest ih =>
    rw [rowsBelow] at h
    split at h
    · rcases List.mem_cons.mp h with rfl | h
      · exact fun l hl => List.mem_cons_of_mem _ (List.takeWhile_subset _ hl)
      · exact fun l hl => List.mem_cons_of_mem _ (ih h l hl)
    · exact fun l hl => List.mem_cons_of_mem _ (ih h l hl)

theorem rowsBelow_append {separator : List Char} {a : List (List Char)} (h : separator ∉ a)
    (b : List (List Char)) : rowsBelow separator (a ++ b) = rowsBelow separator b := by
  induction a with
  | nil => rfl
  | cons l a ih =>
    obtain ⟨hl, ha⟩ := not_or.mp (mt List.mem_cons.mpr h)
    rw [List.cons_append, rowsBelow, if_neg (Ne.symm hl), ih ha]

/-- A separator, rows and a blank line make one table. -/
theorem rowsBelow_table {separator : List Char} (hsep : separator ≠ []) {rows : List (List Char)}
    (hblank : [] ∉ rows) (hrows : separator ∉ rows) (rest : List (List Char)) :
    rowsBelow separator (separator :: rows ++ [] :: rest) = rows :: rowsBelow separator rest := by
  have hfilled : ∀ l ∈ rows, (!l.isEmpty) = true := by
    rintro l hl
    cases l with
    | nil => exact absurd hl hblank
    | cons c l => rfl
  have hbehind : rowsBelow separator (rows ++ [] :: rest) = rowsBelow separator rest := by
    rw [rowsBelow_append hrows, rowsBelow, if_neg (Ne.symm hsep)]
  rw [List.cons_append, rowsBelow, if_pos rfl, hbehind, List.takeWhile_append_of_pos hfilled]
  simp

def reportLines (colored : Bool) (seconds : Nat) (results : List Result) : List (List Char) :=
  Text.lines (render .markdown colored (Clock.text seconds) results).toList

theorem lines_unlines (ls : List String) :
    Text.lines (unlines ls).toList = ls.flatMap (fun l => Text.lines l.toList) ++ [[]] := by
  induction ls with
  | nil => rfl
  | cons l ls ih =>
    have htext : (unlines (l :: ls)).toList = l.toList ++ '\n' :: (unlines ls).toList := by
      simp [unlines, String.toList_join]
    rw [htext, lines_joined, ih, List.flatMap_cons, List.append_assoc]

/-- Texts without line feeds are the lines they were. -/
theorem flatMap_lines {ls : List String} (h : ∀ l ∈ ls, '\n' ∉ l.toList) :
    ls.flatMap (fun l => Text.lines l.toList) = ls.map String.toList := by
  rw [List.flatMap_congr fun l hl => lines_of_not_mem (h l hl)]
  exact List.map_eq_flatMap.symm

/-- What stands before the tables of files and issues is printed, so its lines are known. -/
theorem reportLines_eq (colored : Bool) (seconds : Nat) (results : List Result) :
    reportLines colored seconds results =
      (Markdown.headerLines (Clock.text seconds)).map String.toList ++
      (Markdown.summaryLines (.ofResults results)).map String.toList ++
      ((Markdown.fileLines results ++ Markdown.issueSection results).flatMap
        (fun l => Text.lines l.toList) ++ [[]]) := by
  have hfeed : isControl '\n' = true := by decide
  have hheader := flatMap_lines (not_mem_of_printed hfeed (printed_header (printed_clock seconds)))
  have hsummary := flatMap_lines (not_mem_of_printed hfeed (printed_summary (.ofResults results)))
  rw [reportLines, render, lines_unlines, Markdown.lines, ← hheader, ← hsummary]
  simp only [List.flatMap_append, List.append_assoc]

/-- Separators begin with a pipe and a dash, and no other line of a report does. -/
def Unruled (l : List Char) : Prop := l[1]? ≠ some '-'

instance (l : List Char) : Decidable (Unruled l) := inferInstanceAs (Decidable (_ ≠ _))

def separators : List (List Char) := [fileSeparator, issueSeparator]

theorem Unruled.ne {l separator : List Char} (h : Unruled l) (hs : separator ∈ separators) :
    separator ≠ l := by
  rintro rfl
  have hruled : ∀ s ∈ separators, ¬Unruled s := by decide
  exact hruled separator hs h

theorem unruled_row (c : String) (cells : List String) :
    Unruled (Markdown.row (c :: cells)).toList := by
  simp [Unruled, TableRows.toList_row, TableRows.padded]

theorem unruled_header (time : String) :
    ∀ l ∈ (Markdown.headerLines time).map String.toList, Unruled l := by
  simp +decide [Markdown.headerLines, Unruled]

/-- The summary has a separator of its own. -/
theorem unruled_summary (s : Summary) :
    ∀ l ∈ (Markdown.summaryLines s).map String.toList,
      Unruled l ∨ l = "|--------|-------|".toList := by
  simp +decide [Markdown.summaryLines, unruled_row]

theorem unruled_fileRows (results : List Result) : ∀ l ∈ fileRows results, Unruled l := by
  rw [fileRows, List.forall_mem_map]
  exact fun r _ => unruled_row _ _

theorem unruled_issueRows (r : Result) : ∀ l ∈ issueRows r, Unruled l := by
  rw [issueRows, List.forall_mem_map]
  exact fun i _ => unruled_row _ _

/-- The tables of files and issues are found behind the summary. -/
theorem rowsBelow_reportLines {separator : List Char} (hs : separator ∈ separators) (colored : Bool)
    (seconds : Nat) (results : List Result) :
    rowsBelow separator (reportLines colored seconds results) =
      rowsBelow separator ((Markdown.fileLines results ++ Markdown.issueSection results).flatMap
        (fun l => Text.lines l.toList) ++ [[]]) := by
  rw [reportLines_eq]
  apply rowsBelow_append
  rw [List.mem_append, not_or]
  constructor
  · intro hm
    exact (unruled_header _ _ hm).ne hs rfl
  · intro hm
    rcases unruled_summary _ _ hm with hunruled | hsummary
    · exact hunruled.ne hs rfl
    · subst hsummary
      exact absurd hs (by decide)

/-- A result that brings no line feed into a report. -/
def IsOneLine (r : Result) : Prop :=
  '\n' ∉ r.identifier.toList ∧ ∀ i ∈ r.metrics.issues, '\n' ∉ i.message.toList

theorem newline_mem_fileRow_iff (r : Result) :
    '\n' ∈ (Markdown.fileRow r).toList ↔ '\n' ∈ r.identifier.toList := by
  rw [← List.count_pos_iff, count_fileRow (by decide), List.count_pos_iff]

theorem newline_mem_issueRow_iff (i : Issue) :
    '\n' ∈ (Markdown.issueRow i).toList ↔ '\n' ∈ i.message.toList := by
  rw [← List.count_pos_iff, count_issueRow (by decide), List.count_pos_iff]

theorem nil_not_mem_fileRows (results : List Result) : [] ∉ fileRows results := by
  simp [fileRows, Markdown.fileRow, Markdown.row]

theorem nil_not_mem_issueRows (r : Result) : [] ∉ issueRows r := by
  simp [issueRows, Markdown.issueRow, Markdown.row]

/-- The lines above the separator of the file table. -/
def fileHead : List (List Char) := ["## Files".toList, [],
  (Markdown.row ["File", "Maintainability", "Complexity", "Lines", "Issues"]).toList]

/-- The lines above the separator of an issue table. -/
def issueHead (r : Result) : List (List Char) := [("### " ++ r.identifier).toList, [],
  (Markdown.row ["Line", "Column", "Type", "Message"]).toList]

theorem map_fileLines {results : List Result} (hne : results ≠ []) :
    (Markdown.fileLines results).map String.toList =
      fileHead ++ (fileSeparator :: fileRows results ++ [[]]) := by
  have hempty : results.isEmpty = false := by simpa using hne
  simp only [Markdown.fileLines, hempty, Bool.false_eq_true, ↓reduceIte, List.map_append,
    List.map_cons, List.map_nil, List.map_map, fileRows, List.cons_append, List.nil_append]
  rfl

theorem map_issueLines (r : Result) : (Markdown.issueLines r).map String.toList =
    issueHead r ++ (issueSeparator :: issueRows r ++ [[]]) := by
  simp only [Markdown.issueLines, List.map_append, List.map_cons, List.map_nil, List.map_map,
    issueRows, List.cons_append, List.nil_append]
  rfl

theorem unruled_fileHead : ∀ l ∈ fileHead, Unruled l := by decide

theorem unruled_issueHead (r : Result) : ∀ l ∈ issueHead r, Unruled l := by
  have hheading : Unruled ("### " ++ r.identifier).toList := by simp [Unruled]
  simp only [issueHead, List.forall_mem_cons]
  exact ⟨hheading, by decide, unruled_row _ _, by simp⟩

theorem not_mem_of_unruled {ls : List (List Char)} (h : ∀ l ∈ ls, Unruled l) {separator : List Char}
    (hs : separator ∈ separators) : separator ∉ ls := fun hm => (h separator hm).ne hs rfl

/-- The lines of the issue tables hold one table of issues for each result. -/
theorem rowsBelow_issueTables (found : List Result) (rest : List (List Char)) :
    rowsBelow issueSeparator ((found.flatMap Markdown.issueLines).map String.toList ++ rest) =
      found.map issueRows ++ rowsBelow issueSeparator rest := by
  have hs : issueSeparator ∈ separators := by decide
  induction found with
  | nil => rfl
  | cons r found ih =>
    rw [List.flatMap_cons, List.map_append, map_issueLines, List.append_assoc, List.append_assoc,
      rowsBelow_append (not_mem_of_unruled (unruled_issueHead r) hs), List.append_assoc,
      List.singleton_append,
      rowsBelow_table (by decide) (nil_not_mem_issueRows r)
        (not_mem_of_unruled (unruled_issueRows r) hs),
      ih]
    rfl

/-- They hold no table of files. -/
theorem fileSeparator_not_mem_issueTables (found : List Result) :
    fileSeparator ∉ (found.flatMap Markdown.issueLines).map String.toList := by
  have hs : fileSeparator ∈ separators := by decide
  rw [List.map_flatMap, List.mem_flatMap]
  rintro ⟨r, _, hm⟩
  rw [map_issueLines, List.mem_append, List.cons_append, List.mem_cons, List.mem_append] at hm
  rcases hm with hm | hm | hm | hm
  · exact not_mem_of_unruled (unruled_issueHead r) hs hm
  · exact absurd hm (by decide)
  · exact not_mem_of_unruled (unruled_issueRows r) hs hm
  · exact absurd hm (by decide)

theorem map_issueSection (results : List Result) : ∃ head : List (List Char),
    (∀ l ∈ head, Unruled l) ∧ (Markdown.issueSection results).map String.toList = head ++
      ((results.filter (!·.metrics.issues.isEmpty)).flatMap Markdown.issueLines).map
        String.toList := by
  simp only [Markdown.issueSection]
  split
  · rename_i hnone
    exact ⟨[], by simp, by rw [List.isEmpty_iff.mp hnone]; rfl⟩
  · exact ⟨["## Issues".toList, []], by decide, by rw [List.map_append]; rfl⟩

/-- Without line feeds in its texts, a report has exactly its rows as lines. -/
theorem intact_of_isOneLine (colored : Bool) (seconds : Nat) {results : List Result}
    (hne : results ≠ []) (h : ∀ r ∈ results, IsOneLine r) :
    Intact (reportLines colored seconds results) results := by
  have hfile : fileSeparator ∈ separators := by decide
  have hissue : issueSeparator ∈ separators := by decide
  have hfeed : isControl '\n' = true := by decide
  let found := results.filter (!·.metrics.issues.isEmpty)
  obtain ⟨head, hhead, hsection⟩ := map_issueSection results
  have hlines : (Markdown.fileLines results ++ Markdown.issueSection results).flatMap
      (fun l => Text.lines l.toList) ++ [[]] = fileHead ++ (fileSeparator :: fileRows results ++
        [] :: (head ++ ((found.flatMap Markdown.issueLines).map String.toList ++ [[]]))) := by
    rw [flatMap_lines, List.map_append, map_fileLines hne, hsection]
    · simp only [List.append_assoc, List.cons_append, List.nil_append, found]
    · rw [List.forall_mem_append]
      have hname : ∀ r ∈ results, '\n' ∉ r.identifier.toList := fun r hr => (h r hr).1
      exact ⟨not_mem_fileLines hfeed hname,
        not_mem_issueSection hfeed hname fun r hr => (h r hr).2⟩
  constructor
  · rw [rowsBelow_reportLines hfile, hlines,
      rowsBelow_append (not_mem_of_unruled unruled_fileHead hfile),
      rowsBelow_table (by decide) (nil_not_mem_fileRows results)
        (not_mem_of_unruled (unruled_fileRows results) hfile),
      rowsBelow_append (not_mem_of_unruled hhead hfile),
      rowsBelow_append (fileSeparator_not_mem_issueTables found)]
    rfl
  · have htable : issueSeparator ∉ fileSeparator :: fileRows results :=
      List.not_mem_cons_of_ne_of_not_mem (by decide)
        (not_mem_of_unruled (unruled_fileRows results) hissue)
    have hblank : issueSeparator ∉ ([] :: head : List (List Char)) :=
      List.not_mem_cons_of_ne_of_not_mem (by decide) (not_mem_of_unruled hhead hissue)
    rw [rowsBelow_reportLines hissue, hlines,
      rowsBelow_append (not_mem_of_unruled unruled_fileHead hissue), rowsBelow_append htable,
      ← List.cons_append, rowsBelow_append hblank, rowsBelow_issueTables]
    exact List.append_nil _

/-- The rows of a table are lines of the report, so none of them has a line feed. -/
theorem isOneLine_of_intact {colored : Bool} {seconds : Nat} {results : List Result}
    (h : Intact (reportLines colored seconds results) results) : ∀ r ∈ results, IsOneLine r := by
  have hrow : ∀ separator, ∀ rows ∈ rowsBelow separator (reportLines colored seconds results),
      ∀ l ∈ rows, '\n' ∉ l :=
    fun _ _ hrows l hl => newline_not_mem_lines (mem_of_mem_rowsBelow hrows l hl)
  intro r hr
  constructor
  · have hfiles :
        fileRows results ∈ rowsBelow fileSeparator (reportLines colored seconds results) := by
      rw [h.files]
      exact List.mem_singleton_self _
    rw [← newline_mem_fileRow_iff]
    exact hrow _ _ hfiles _ (List.mem_map_of_mem hr)
  · intro i hi
    have hissues :
        issueRows r ∈ rowsBelow issueSeparator (reportLines colored seconds results) := by
      rw [h.issues]
      refine List.mem_map_of_mem (List.mem_filter.mpr ⟨hr, ?_⟩)
      simpa using List.ne_nil_of_mem hi
    rw [← newline_mem_issueRow_iff]
    exact hrow _ _ hissues _ (List.mem_map_of_mem hi)

/-- The tables of a report have one line for each result and each issue exactly if no identifier and
no message holds a line feed. A row takes one line more for every line feed of its text. -/
theorem intact_iff_isOneLine (colored : Bool) (seconds : Nat) {results : List Result}
    (hne : results ≠ []) :
    (Intact (reportLines colored seconds results) results ↔
      ∀ r ∈ results, '\n' ∉ r.identifier.toList ∧
        ∀ i ∈ r.metrics.issues, '\n' ∉ i.message.toList) ∧
    (∀ r ∈ results, (Text.lines (Markdown.fileRow r).toList).length =
      r.identifier.toList.count '\n' + 1) ∧
    ∀ r ∈ results, ∀ i ∈ r.metrics.issues, (Text.lines (Markdown.issueRow i).toList).length =
      i.message.toList.count '\n' + 1 := by
  refine ⟨⟨isOneLine_of_intact, intact_of_isOneLine colored seconds hne⟩, ?_, ?_⟩
  · intro r _
    rw [length_lines, count_fileRow (by decide)]
  · intro r _ i _
    rw [length_lines, count_issueRow (by decide)]

/-- Pipes and a carriage return in the texts. -/
theorem intact_iff_isOneLine_piped :
    let results : List Result := [
      ⟨"a|b.js", 1, 98, 1, [⟨.suggestion, "TODO | comment\r", 1, 4⟩]⟩, .failure "c.js" "gone"]
    results ≠ [] ∧ Intact (reportLines false 0 results) results := by
  intro results
  have hne : results ≠ [] := by decide
  have hone : ∀ r ∈ results, '\n' ∉ r.identifier.toList ∧
      ∀ i ∈ r.metrics.issues, '\n' ∉ i.message.toList := by decide
  exact ⟨hne, (intact_iff_isOneLine false 0 hne).1.mpr hone⟩

/-- A name with line feeds ends the table of files in its first row. -/
theorem table_ends_early :
    let results : List Result := [⟨"a\n\nb.js", 1, 98, 1, []⟩]
    rowsBelow fileSeparator (reportLines false 0 results) = [["| a".toList]] ∧
      ¬Intact (reportLines false 0 results) results := by
  intro results
  have hrows : rowsBelow fileSeparator (reportLines false 0 results) = [["| a".toList]] := by
    rw [rowsBelow_reportLines (by decide)]
    decide +kernel
  refine ⟨hrows, fun h => ?_⟩
  have hfiles := h.files
  rw [hrows] at hfiles
  exact absurd hfiles (by decide +kernel)

end SourceGauge.Proofs.ReportTables
