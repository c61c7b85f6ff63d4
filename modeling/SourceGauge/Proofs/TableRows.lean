import Mathlib
import SourceGauge.Report.Markdown

namespace SourceGauge.Proofs.TableRows
open Report

/-- The pieces between the pipes without a backslash directly in front. `held` is the current piece,
last character first. -/
def piecesHeld (held : List Char) : List Char → List (List Char)
  | [] => [held.reverse]
  | c :: rest =>
    if c = '|' ∧ held.head? ≠ some '\\' then held.reverse :: piecesHeld [] rest
    else piecesHeld (c :: held) rest

def pieces (row : List Char) : List (List Char) := piecesHeld [] row

/-- Takes away the backslash in front of each pipe. -/
def unescape : List Char → List Char
  | '\\' :: '|' :: rest => '|' :: unescape rest
  | c :: rest => c :: unescape rest
  | [] => []

/-- The text of a cell, which has a blank on either side. -/
def cellText? : List Char → Option String
  | ' ' :: rest =>
    if rest.getLast? = some ' ' then some (String.ofList (unescape rest.dropLast)) else none
  | _ => none

/-- The texts of the cells of a row, which begins and ends with a pipe. -/
def read? (row : String) : Option (List String) :=
  match pieces row.toList with
  | [] :: cells => if cells.getLast? = some [] then cells.dropLast.mapM cellText? else none
  | _ => none

def escaped (text : List Char) : List Char := text.flatMap Markdown.escapeChar

theorem escaped_cons (c : Char) (text : List Char) :
    escaped (c :: text) = Markdown.escapeChar c ++ escaped text := List.flatMap_cons

theorem escapeChar_pipe : Markdown.escapeChar '|' = ['\\', '|'] := rfl

theorem escapeChar_of_ne {c : Char} (h : c ≠ '|') : Markdown.escapeChar c = [c] := if_neg h

/-- No escaped text begins with a pipe, so a backslash in front of it escapes nothing. -/
theorem head?_escaped (text : List Char) : (escaped text).head? ≠ some '|' := by
  cases text with
  | nil => simp [escaped]
  | cons c text =>
    rw [escaped_cons]
    by_cases hc : c = '|'
    · subst hc
      simp [escapeChar_pipe]
    · simpa [escapeChar_of_ne hc] using hc

theorem unescape_cons (c : Char) {rest : List Char} (h : rest.head? ≠ some '|') :
    unescape (c :: rest) = c :: unescape rest := by
  rw [unescape]
  rintro rest rfl rfl
  exact h rfl

theorem unescape_escaped (text : List Char) : unescape (escaped text) = text := by
  induction text with
  | nil => rfl
  | cons c text ih =>
    rw [escaped_cons]
    by_cases hc : c = '|'
    · subst hc
      simp only [escapeChar_pipe, List.cons_append, List.nil_append, unescape, ih]
    · rw [escapeChar_of_ne hc, List.singleton_append, unescape_cons c (head?_escaped text), ih]

/-- An escaped text goes into one piece as a whole. -/
theorem piecesHeld_escaped (held text rest : List Char) :
    piecesHeld held (escaped text ++ rest) = piecesHeld ((escaped text).reverse ++ held) rest := by
  induction text generalizing held with
  | nil => rfl
  | cons c text ih =>
    rw [escaped_cons]
    by_cases hc : c = '|'
    · subst hc
      simp [escapeChar_pipe, piecesHeld, ih]
    · simp [escapeChar_of_ne hc, piecesHeld, hc, ih]

/-- A cell as it stands in a row. -/
def padded (cell : List Char) : List Char := ' ' :: cell ++ [' ']

theorem toList_row (cells : List String) :
    (Markdown.row cells).toList = '|' :: cells.flatMap fun c => padded c.toList ++ ['|'] := by
  simp [Markdown.row, padded, String.toList_join, List.flatMap_map]

theorem pieces_padded (text rest : List Char) :
    pieces (padded (escaped text) ++ '|' :: rest) = padded (escaped text) :: pieces rest := by
  simp [pieces, padded, piecesHeld, piecesHeld_escaped]

theorem pieces_cells (texts : List String) :
    pieces ((texts.map Markdown.escapeCell).flatMap fun c => padded c.toList ++ ['|']) =
      texts.map (fun t => padded (escaped t.toList)) ++ [[]] := by
  induction texts with
  | nil => rfl
  | cons t texts ih =>
    have hcell : (Markdown.escapeCell t).toList = escaped t.toList := String.toList_ofList
    rw [List.map_cons, List.flatMap_cons, hcell, List.append_assoc, List.singleton_append,
      pieces_padded, ih]
    rfl

theorem cellText?_padded (text : String) :
    cellText? (padded (escaped text.toList)) = some text := by
  simp [padded, cellText?, unescape_escaped]

theorem mapM_cellText? (texts : List String) :
    (texts.map fun t => padded (escaped t.toList)).mapM cellText? = some texts := by
  induction texts with
  | nil => rfl
  | cons t texts ih => simp [cellText?_padded, ih]

/-- A row gives back the texts of its cells. -/
theorem read?_row (texts : List String) :
    read? (Markdown.row (texts.map Markdown.escapeCell)) = some texts := by
  have hpieces : pieces (Markdown.row (texts.map Markdown.escapeCell)).toList =
      [] :: (texts.map (fun t => padded (escaped t.toList)) ++ [[]]) := by
    rw [toList_row, ← pieces_cells]
    rfl
  simp only [read?, hpieces, List.getLast?_concat, ↓reduceIte, List.dropLast_concat, mapM_cellText?]

theorem escapeCell_of_not_mem {text : String} (h : '|' ∉ text.toList) :
    Markdown.escapeCell text = text := by
  have hchars : ∀ c ∈ text.toList, Markdown.escapeChar c = [c] := by
    intro c hc
    apply escapeChar_of_ne
    rintro rfl
    exact h hc
  rw [Markdown.escapeCell, List.flatMap_congr hchars, List.flatMap_singleton', String.ofList_toList]

theorem toList_toString (n : Nat) : (toString n).toList = Nat.toDigits 10 n := Nat.toList_repr

theorem isDigit_toDigits {n : Nat} : ∀ c ∈ Nat.toDigits 10 n, c.isDigit = true :=
  fun _ hc => Nat.isDigit_of_mem_toDigits (by decide) (by decide) hc

theorem pipe_not_mem_toDigits (n : Nat) : '|' ∉ Nat.toDigits 10 n :=
  fun h => absurd (isDigit_toDigits _ h) (by decide)

theorem escapeCell_toString (n : Nat) : Markdown.escapeCell (toString n) = toString n := by
  apply escapeCell_of_not_mem
  rw [toList_toString]
  exact pipe_not_mem_toDigits n

theorem escapeCell_kind (kind : Issue.Kind) : Markdown.escapeCell kind.label = kind.label := by
  cases kind <;> exact escapeCell_of_not_mem (by decide)

/-- A score as it stands in the file table. -/
def scoreText (m : Metrics) : String := toString m.maintainability ++ "% (" ++ m.rating.label ++ ")"

theorem toList_scoreText (m : Metrics) :
    (scoreText m).toList =
      Nat.toDigits 10 m.maintainability ++
        '%' :: ' ' :: '(' :: (m.rating.label.toList ++ [')']) := by
  simp [scoreText]

theorem escapeCell_scoreText (m : Metrics) : Markdown.escapeCell (scoreText m) = scoreText m := by
  have hlabel : '|' ∉ m.rating.label.toList := by cases m.rating <;> decide
  apply escapeCell_of_not_mem
  simp [toList_scoreText, pipe_not_mem_toDigits, hlabel]

theorem read?_fileRow (r : Result) :
    read? (Markdown.fileRow r) = some [r.identifier, scoreText r.metrics,
      toString r.metrics.complexity, toString r.metrics.linesOfCode,
      toString r.metrics.issues.length] := by
  rw [← read?_row]
  simp only [List.map_cons, List.map_nil, escapeCell_toString, escapeCell_scoreText]
  rfl

theorem read?_issueRow (i : Issue) :
    read? (Markdown.issueRow i) =
      some [toString i.line, toString i.column, i.kind.label, i.message] := by
  rw [← read?_row]
  simp only [Markdown.issueRow, List.map_cons, List.map_nil, escapeCell_toString, escapeCell_kind]

theorem toDigits_injective {m n : Nat} (h : Nat.toDigits 10 m = Nat.toDigits 10 n) : m = n := by
  rw [← Nat.ofDigitChars_ten_toDigits (n := m), h, Nat.ofDigitChars_ten_toDigits]

theorem toString_inj {m n : Nat} : toString m = toString n ↔ m = n := by
  refine ⟨fun h => toDigits_injective ?_, congrArg toString⟩
  rw [← toList_toString, ← toList_toString, h]

/-- The digits in front tell the score, and the score tells its rating. -/
theorem scoreText_inj {m n : Metrics} :
    scoreText m = scoreText n ↔ m.maintainability = n.maintainability := by
  constructor
  · intro h
    have hdigits : ∀ k : Metrics, (scoreText k).toList.takeWhile Char.isDigit =
        Nat.toDigits 10 k.maintainability := by
      intro k
      rw [toList_scoreText, List.takeWhile_append_of_pos isDigit_toDigits]
      simp
    apply toDigits_injective
    rw [← hdigits, ← hdigits, h]
  · intro h
    simp only [scoreText, Metrics.rating, h]

theorem label_inj {k l : Issue.Kind} : k.label = l.label ↔ k = l := by
  cases k <;> cases l <;> decide

/-- Cut at the pipes without a backslash directly in front, a row of the file table gives five cells
and a row of an issue table gives four. Without their blanks and the backslashes in front of the
pipes that are left, the cells are the texts that were put there, whatever these hold. So two rows
are the same only if all that is shown in them is, down to the identifier of the file or the message
of the issue. -/
theorem rows_read_back :
    (∀ r : Result, read? (Markdown.fileRow r) = some [r.identifier,
      toString r.metrics.maintainability ++ "% (" ++ r.metrics.rating.label ++ ")",
      toString r.metrics.complexity, toString r.metrics.linesOfCode,
      toString r.metrics.issues.length]) ∧
    (∀ i : Issue, read? (Markdown.issueRow i) =
      some [toString i.line, toString i.column, i.kind.label, i.message]) ∧
    (∀ r s : Result, Markdown.fileRow r = Markdown.fileRow s ↔
      r.identifier = s.identifier ∧ r.metrics.maintainability = s.metrics.maintainability ∧
      r.metrics.complexity = s.metrics.complexity ∧
      r.metrics.linesOfCode = s.metrics.linesOfCode ∧
      r.metrics.issues.length = s.metrics.issues.length) ∧
    Function.Injective Markdown.issueRow := by
  refine ⟨read?_fileRow, read?_issueRow, ?_, ?_⟩
  · intro r s
    constructor
    · intro hrow
      have hread := congrArg read? hrow
      rw [read?_fileRow, read?_fileRow] at hread
      simpa only [Option.some.injEq, List.cons.injEq, and_true, toString_inj, scoreText_inj]
        using hread
    · rintro ⟨hidentifier, hscore, hcomplexity, hlines, hissues⟩
      simp only [Markdown.fileRow, Metrics.rating, hidentifier, hscore, hcomplexity, hlines,
        hissues]
  · intro i j hrow
    have hread := congrArg read? hrow
    rw [read?_issueRow, read?_issueRow] at hread
    simp only [Option.some.injEq, List.cons.injEq, and_true, toString_inj, label_inj] at hread
    obtain ⟨hline, hcolumn, hkind, hmessage⟩ := hread
    cases i
    cases j
    simp only [Issue.mk.injEq]
    exact ⟨hkind, hmessage, hline, hcolumn⟩

/-- A backslash in front of a pipe and one at the end, which a blank keeps apart from the next
pipe. -/
example : read? (Markdown.issueRow ⟨.error, "a\\|b\\", 1, 2⟩) =
    some ["1", "2", "error", "a\\|b\\"] := by
  decide +kernel

end SourceGauge.Proofs.TableRows
