import Mathlib
import SourceGauge.Proofs.IssuePlaces
import SourceGauge.Proofs.LineEdits

namespace SourceGauge.Proofs.CarriageReturns
open Text Complexity GreedyScan JoinedTexts NumberedLines IssuePlaces LineEdits

def withReturns (text : List Char) : List Char :=
  text.flatMap (fun c => if c = '\n' then ['\r', '\n'] else [c])

theorem withReturns_of_not_mem {line : List Char} (h : '\n' ∉ line) : withReturns line = line := by
  have hkept : ∀ c ∈ line, (if c = '\n' then ['\r', '\n'] else [c]) = [c] := by
    intro c hc
    apply if_neg
    rintro rfl
    exact h hc
  rw [withReturns, List.flatMap_congr hkept, List.flatMap_singleton']

theorem withReturns_joined {line : List Char} (h : '\n' ∉ line) (rest : List Char) :
    withReturns (line ++ '\n' :: rest) = (line ++ ['\r']) ++ '\n' :: withReturns rest := by
  have hline := withReturns_of_not_mem h
  simp only [withReturns, List.flatMap_append, List.flatMap_cons] at hline ⊢
  rw [hline]
  simp

theorem withReturns_join {above : List (List Char)} {last : List Char}
    (hfree : ∀ line ∈ above ++ [last], '\n' ∉ line) :
    withReturns (join '\n' (above ++ [last])) = join '\n' (above.map (· ++ ['\r']) ++ [last]) := by
  induction above with
  | nil => exact withReturns_of_not_mem (hfree last (by simp))
  | cons line above ih =>
    have hline : '\n' ∉ line := hfree line (by simp)
    have hrest := ih (fun l hl => hfree l (List.mem_cons_of_mem line hl))
    rw [List.cons_append, join_cons '\n' line (by simp), withReturns_joined hline, hrest,
      List.map_cons, List.cons_append, join_cons '\n' _ (by simp)]

/-- Every line but the last ends in a carriage return. -/
theorem lines_withReturns (text : List Char) : ∃ above last,
    lines text = above ++ [last] ∧
      lines (withReturns text) = above.map (· ++ ['\r']) ++ [last] := by
  obtain hnil | ⟨above, last, hlines⟩ := List.eq_nil_or_concat (lines text)
  · exact absurd hnil (splitHeld_ne_nil '\n' [] text)
  rw [List.concat_eq_append] at hlines
  have hfree : ∀ line ∈ above ++ [last], '\n' ∉ line := by
    intro line hline
    exact newline_not_mem_lines (hlines ▸ hline)
  have htext : text = join '\n' (above ++ [last]) := by rw [← hlines, lines, join_split]
  refine ⟨above, last, hlines, ?_⟩
  rw [htext, withReturns_join hfree]
  apply lines_join (by simp)
  intro line hline
  rcases List.mem_append.mp hline with hline | hline
  · obtain ⟨l, hl, rfl⟩ := List.mem_map.mp hline
    simpa using hfree l (by simp [hl])
  · exact hfree line (List.mem_append_right above hline)

theorem return_not_mem_words : ∀ word ∈ keywords ++ operators, '\r' ∉ word := by decide

theorem branches_return (line : List Char) : branches (line ++ ['\r']) = branches line := by
  have hcut := branches_cut return_not_mem_words (by decide) line []
  have hnil : branches [] = 0 := rfl
  rw [hcut, hnil, Nat.add_zero]

theorem isCommentLine_return (line : List Char) :
    isCommentLine (line ++ ['\r']) = isCommentLine line := by
  have hblank : isBlank '\r' = true := by decide
  have hopener : ∀ c, '\r' ∉ ['/', c] → ['/', c].isPrefixOf (trimStart line ++ ['\r']) =
      ['/', c].isPrefixOf (trimStart line) := by
    intro c hc
    exact isPrefixOf_cut hc (trimStart line) []
  simp only [isCommentLine]
  by_cases hempty : trimStart line = []
  · have htrim : trimStart (line ++ ['\r']) = [] := by
      rw [trimStart] at hempty ⊢
      rw [List.dropWhile_append, hempty]
      simp [hblank]
    rw [htrim, hempty]
  · have htrim : trimStart (line ++ ['\r']) = trimStart line ++ ['\r'] := by
      rw [trimStart] at hempty ⊢
      rw [List.dropWhile_append, if_neg (by simpa using hempty), trimStart]
    rw [htrim, hopener '/' (by decide), hopener '*' (by decide)]

theorem offset?_return {marker : List Char} (hne : marker ≠ []) (hout : '\r' ∉ marker)
    (line : List Char) : offset? marker (line ++ ['\r']) = offset? marker line := by
  induction line with
  | nil =>
    have hcut := isPrefixOf_cut hout [] []
    rw [List.nil_append] at hcut
    have hnil : marker.isPrefixOf ([] : List Char) = false := by
      cases marker with
      | nil => exact absurd rfl hne
      | cons m ms => rfl
    simp [offset?, hcut, hnil, hne]
  | cons c rest ih =>
    have hcut := isPrefixOf_cut hout (c :: rest) []
    rw [List.cons_append] at hcut
    rw [List.cons_append, offset?, offset?, hcut, ih]

/-- The warning for a line of exactly a hundred characters. -/
def full? (number : Nat) (line : List Char) : Option Issue :=
  if line.length = 100 then
    some ⟨.warning, "Line is too long (over 100 characters)", number, 101⟩
  else none

theorem longLine?_return (number : Nat) (line : List Char) :
    (Issue.longLine? number (line ++ ['\r'])).toList =
      (full? number line).toList ++ (Issue.longLine? number line).toList := by
  have hlong : ∀ l : List Char, Issue.longLine? number l =
      if 100 < l.length then some ⟨.warning, "Line is too long (over 100 characters)", number, 101⟩
      else none := fun _ => rfl
  have hlength : (line ++ ['\r']).length = line.length + 1 := by simp
  rw [hlong, hlong, full?, hlength]
  rcases lt_trichotomy line.length 100 with hshort | hfull | hover
  · rw [if_neg (by omega), if_neg (by omega), if_neg (by omega)]
    rfl
  · rw [if_pos (by omega), if_pos hfull, if_neg (by omega)]
    rfl
  · rw [if_pos (by omega), if_neg (by omega), if_pos hover]
    rfl

/-- The warning comes first in its line, and the markers stay where they are. -/
theorem ofLine_return (number : Nat) (line : List Char) :
    Issue.ofLine number (line ++ ['\r']) =
      (full? number line).toList ++ Issue.ofLine number line := by
  have hdebug : offset? Issue.debugPrintMarker (line ++ ['\r']) =
      offset? Issue.debugPrintMarker line :=
    offset?_return (by decide) (by decide) line
  have htodo : offset? Issue.todoMarker (line ++ ['\r']) = offset? Issue.todoMarker line :=
    offset?_return (by decide) (by decide) line
  simp only [Issue.ofLine, longLine?_return, Issue.debugPrint?, Issue.todo?, Issue.markerColumn?,
    hdebug, htodo, List.append_assoc]

/-- The warnings for lines of exactly a hundred characters, in lines numbered from `number` on. -/
def fullFrom (number : Nat) : List (List Char) → List Issue
  | [] => []
  | line :: rest => (full? number line).toList ++ fullFrom (number + 1) rest

theorem ofLinesFrom_return_perm (number : Nat) (ls : List (List Char)) :
    (Issue.ofLinesFrom number (ls.map (· ++ ['\r']))).Perm
      (Issue.ofLinesFrom number ls ++ fullFrom number ls) := by
  induction ls generalizing number with
  | nil => exact .nil
  | cons line rest ih =>
    simp only [List.map_cons, Issue.ofLinesFrom, fullFrom, ofLine_return, List.append_assoc]
    -- The warning of this line passes its other issues and then those of the lines below.
    calc (full? number line).toList ++ (Issue.ofLine number line ++
          Issue.ofLinesFrom (number + 1) (rest.map (· ++ ['\r'])))
      _ |>.Perm <| (full? number line).toList ++ (Issue.ofLine number line ++
          (Issue.ofLinesFrom (number + 1) rest ++ fullFrom (number + 1) rest)) :=
        ((ih (number + 1)).append_left _).append_left _
      _ |>.Perm <| Issue.ofLine number line ++ ((full? number line).toList ++
          (Issue.ofLinesFrom (number + 1) rest ++ fullFrom (number + 1) rest)) :=
        List.perm_append_comm_assoc ..
      _ |>.Perm <| Issue.ofLine number line ++ (Issue.ofLinesFrom (number + 1) rest ++
          ((full? number line).toList ++ fullFrom (number + 1) rest)) :=
        (List.perm_append_comm_assoc ..).append_left _

theorem ofLinesFrom_return_sublist (number : Nat) (ls : List (List Char)) :
    (Issue.ofLinesFrom number ls).Sublist (Issue.ofLinesFrom number (ls.map (· ++ ['\r']))) := by
  induction ls generalizing number with
  | nil => exact .slnil
  | cons line rest ih =>
    rw [List.map_cons, Issue.ofLinesFrom, Issue.ofLinesFrom, ofLine_return]
    exact (List.sublist_append_right _ _).append (ih (number + 1))

theorem branches_withReturns (text : List Char) : branches (withReturns text) = branches text := by
  obtain ⟨above, last, hlines, hreturns⟩ := lines_withReturns text
  have hsame : branches ∘ (· ++ ['\r']) = branches := funext branches_return
  rw [branches_eq_sum_lines, branches_eq_sum_lines text, hlines, hreturns]
  simp only [List.map_append, List.map_map, hsame]

theorem lineCount_withReturns (text : List Char) :
    LineCount.ofText (withReturns text) = LineCount.ofText text := by
  obtain ⟨above, last, hlines, hreturns⟩ := lines_withReturns text
  have hsame : isCommentLine ∘ (· ++ ['\r']) = isCommentLine := funext isCommentLine_return
  rw [LineCount.ofText, LineCount.ofText, hlines, hreturns]
  simp only [List.length_append, List.length_map, List.countP_append, List.countP_map, hsame]

/-- The issues of a text with carriage returns are those of the text and the warnings for lines that
are a hundred characters long without them. -/
theorem issues_withReturns (text : List Char) :
    (Issue.ofText (withReturns text)).Perm
        (Issue.ofText text ++ fullFrom 1 (lines text).dropLast) ∧
      (Issue.ofText text).Sublist (Issue.ofText (withReturns text)) := by
  obtain ⟨above, last, hlines, hreturns⟩ := lines_withReturns text
  have hlast : (lines text).dropLast = above := by simp [hlines]
  rw [hlast, Issue.ofText, Issue.ofText, hlines, hreturns, ofLinesFrom_append, ofLinesFrom_append,
    List.length_map]
  constructor
  · calc Issue.ofLinesFrom 1 (above.map (· ++ ['\r'])) ++
          Issue.ofLinesFrom (1 + above.length) [last]
      _ |>.Perm <| (Issue.ofLinesFrom 1 above ++ fullFrom 1 above) ++
          Issue.ofLinesFrom (1 + above.length) [last] :=
        (ofLinesFrom_return_perm 1 above).append_right _
      _ |>.Perm <| (Issue.ofLinesFrom 1 above ++ Issue.ofLinesFrom (1 + above.length) [last]) ++
          fullFrom 1 above := by
        rw [List.append_assoc, List.append_assoc]
        exact List.perm_append_comm.append_left _
  · exact (ofLinesFrom_return_sublist 1 above).append (.refl _)

/-- With a carriage return before each line feed a text has the same complexity, maintainability and
line counts. It keeps its issues in their order, and what comes in between, at the place that its
line and check give it, is one warning for each line but the last that is a hundred characters long
without its carriage return. -/
theorem metrics_withReturns (text : List Char) :
    let other := text.flatMap (fun c => if c = '\n' then ['\r', '\n'] else [c])
    Complexity.ofText other = Complexity.ofText text ∧
    Maintainability.ofText other = Maintainability.ofText text ∧
    (LineCount.ofText other).physical = (LineCount.ofText text).physical ∧
    (LineCount.ofText other).code = (LineCount.ofText text).code ∧
    (LineCount.ofText other).comment = (LineCount.ofText text).comment ∧
    (Issue.ofText other).Perm (Issue.ofText text ++ fullFrom 1 (lines text).dropLast) ∧
    (Issue.ofText text).Sublist (Issue.ofText other) ∧
    (Issue.ofText other).Pairwise
      (fun i j => i.line < j.line ∨ i.line = j.line ∧ rank i < rank j) := by
  intro other
  have hbranches : branches other = branches text := branches_withReturns text
  have hcount : LineCount.ofText other = LineCount.ofText text := lineCount_withReturns text
  have hcomplexity : Complexity.ofText other = Complexity.ofText text := by
    rw [Complexity.ofText, Complexity.ofText, hbranches]
  obtain ⟨hperm, hsublist⟩ := issues_withReturns text
  refine ⟨hcomplexity, ?_, by rw [hcount], by rw [hcount], by rw [hcount], hperm, hsublist,
    pairwise_ofLinesFrom 1 (lines other)⟩
  rw [Maintainability.ofText, hcount, hcomplexity, Maintainability.ofText]

end SourceGauge.Proofs.CarriageReturns
