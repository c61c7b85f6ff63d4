import Mathlib
import SourceGauge.Proofs.GreedyScan
import SourceGauge.Proofs.Segments
import SourceGauge.Result

namespace SourceGauge.Proofs.JoinedTexts
open Text Complexity GreedyScan

/-- A line feed ends the last line of what stands before it and nothing else. -/
theorem lines_joined (a b : List Char) : lines (a ++ '\n' :: b) = lines a ++ lines b :=
  Segments.split_append '\n' a b

theorem isIdentifierChar_newline : isIdentifierChar '\n' = false := by decide

/-- The counts of all words together start afresh where each of them does. -/
theorem total_joined {count : List Char → List Char → Nat} {words : List (List Char)}
    {a b joined : List Char}
    (h : ∀ word ∈ words, count joined word = count a word + count b word) :
    total (count joined) words = total (count a) words + total (count b) words := by
  induction words with
  | nil => rfl
  | cons word rest ih =>
    have hfirst := h word (by simp)
    have hrest := ih (fun w hw => h w (by simp [hw]))
    rw [total, total, total, hfirst, hrest]
    omega

theorem newline_not_mem_words : ∀ word ∈ keywords ++ operators, '\n' ∉ word := by decide

/-- Branches are counted afresh behind every character that is part of no keyword, operator or
identifier. -/
theorem branches_cut {d : Char} (hout : ∀ word ∈ keywords ++ operators, d ∉ word)
    (hi : isIdentifierChar d = false) (a b : List Char) :
    branches (a ++ d :: b) = branches a + branches b := by
  have hkeywords : total (countWholeWord (a ++ d :: b)) keywords =
      total (countWholeWord a) keywords + total (countWholeWord b) keywords := by
    apply total_joined
    intro word hw
    exact countWholeWord_cut (hout word (by simp [hw])) hi a b
  have hoperators : total (countSubstring (a ++ d :: b)) operators =
      total (countSubstring a) operators + total (countSubstring b) operators := by
    apply total_joined
    intro word hw
    exact countSubstring_cut (hout word (by simp [hw])) a b
  rw [branches, branches, branches, hkeywords, hoperators]
  omega

theorem branches_joined (a b : List Char) :
    branches (a ++ '\n' :: b) = branches a + branches b :=
  branches_cut newline_not_mem_words isIdentifierChar_newline a b

/-- The straight path is counted once. -/
theorem complexity_joined (a b : List Char) :
    Complexity.ofText (a ++ '\n' :: b) =
      min (2 ^ 32 - 1) (Complexity.ofText a + Complexity.ofText b - 1) := by
  have hceiling : ceiling = 2 ^ 32 - 1 := by decide
  -- A text at the ceiling keeps the joined text there, so the two cuts agree.
  simp only [Complexity.ofText, ofBranches, branches_joined, hceiling]
  omega

theorem physical_joined (a b : List Char) :
    (LineCount.ofText (a ++ '\n' :: b)).physical =
      (LineCount.ofText a).physical + (LineCount.ofText b).physical := by
  simp [LineCount.ofText, lines_joined]

theorem comment_joined (a b : List Char) :
    (LineCount.ofText (a ++ '\n' :: b)).comment =
      (LineCount.ofText a).comment + (LineCount.ofText b).comment := by
  simp [LineCount.ofText, lines_joined]

theorem comment_le_physical (text : List Char) :
    (LineCount.ofText text).comment ≤ (LineCount.ofText text).physical :=
  List.countP_le_length

theorem code_joined (a b : List Char) :
    (LineCount.ofText (a ++ '\n' :: b)).code =
      (LineCount.ofText a).code + (LineCount.ofText b).code := by
  have ha := comment_le_physical a
  have hb := comment_le_physical b
  simp only [LineCount.code, physical_joined, comment_joined]
  omega

/-- The issue as many lines further down. -/
def moved (count : Nat) (i : Issue) : Issue := { i with line := i.line + count }

/-- A check looks at the line only and copies its number. -/
theorem ofLine_moved (number count : Nat) (line : List Char) :
    Issue.ofLine (number + count) line = (Issue.ofLine number line).map (moved count) := by
  have hlong : (Issue.longLine? (number + count) line).toList =
      (Issue.longLine? number line).toList.map (moved count) := by
    unfold Issue.longLine?
    split <;> rfl
  have hmarker : ∀ (message : String) (column? : Option Nat),
      (column?.map (⟨.suggestion, message, number + count, ·⟩ : Nat → Issue)).toList =
        (column?.map (⟨.suggestion, message, number, ·⟩ : Nat → Issue)).toList.map
          (moved count) := by
    intro message column?
    cases column? <;> rfl
  simp only [Issue.ofLine, List.map_append, hlong, Issue.debugPrint?, Issue.todo?, hmarker]

theorem ofLinesFrom_moved (number count : Nat) (ls : List (List Char)) :
    Issue.ofLinesFrom (number + count) ls = (Issue.ofLinesFrom number ls).map (moved count) := by
  induction ls generalizing number with
  | nil => rfl
  | cons line rest ih =>
    have hnext : number + count + 1 = number + 1 + count := by omega
    rw [Issue.ofLinesFrom, Issue.ofLinesFrom, List.map_append, ofLine_moved, hnext, ih]

theorem ofLinesFrom_append (number : Nat) (ls ms : List (List Char)) :
    Issue.ofLinesFrom number (ls ++ ms) =
      Issue.ofLinesFrom number ls ++ Issue.ofLinesFrom (number + ls.length) ms := by
  induction ls generalizing number with
  | nil => rfl
  | cons line rest ih =>
    have hnext : number + 1 + rest.length = number + (line :: rest).length := by
      simp only [List.length_cons]
      omega
    rw [List.cons_append, Issue.ofLinesFrom, Issue.ofLinesFrom, ih, hnext, List.append_assoc]

theorem issues_joined (a b : List Char) :
    Issue.ofText (a ++ '\n' :: b) =
      Issue.ofText a ++ (Issue.ofText b).map (moved (LineCount.ofText a).physical) := by
  rw [Issue.ofText, lines_joined, ofLinesFrom_append, ofLinesFrom_moved]
  rfl

/-- What is measured of two texts with a line feed between them follows from what is measured of
each. Complexities add up with the straight path counted once, line counts add up, the issues of the
first text come first as they are, and those of the second come with their lines moved down by the
lines of the first and nothing else changed. -/
theorem metrics_joined (a b : List Char) :
    Complexity.ofText (a ++ '\n' :: b) =
      min (2 ^ 32 - 1) (Complexity.ofText a + Complexity.ofText b - 1) ∧
    (LineCount.ofText (a ++ '\n' :: b)).physical =
      (LineCount.ofText a).physical + (LineCount.ofText b).physical ∧
    (LineCount.ofText (a ++ '\n' :: b)).code =
      (LineCount.ofText a).code + (LineCount.ofText b).code ∧
    (LineCount.ofText (a ++ '\n' :: b)).comment =
      (LineCount.ofText a).comment + (LineCount.ofText b).comment ∧
    Issue.ofText (a ++ '\n' :: b) = Issue.ofText a ++ (Issue.ofText b).map (fun i =>
      { i with line := i.line + (LineCount.ofText a).physical }) ∧
    Metrics.ofText (a ++ '\n' :: b) = {
      complexity := min (2 ^ 32 - 1)
        ((Metrics.ofText a).complexity + (Metrics.ofText b).complexity - 1)
      maintainability := Maintainability.score
        ((LineCount.ofText a).code + (LineCount.ofText b).code)
        (min (2 ^ 32 - 1) ((Metrics.ofText a).complexity + (Metrics.ofText b).complexity - 1))
      linesOfCode := (Metrics.ofText a).linesOfCode + (Metrics.ofText b).linesOfCode
      issues := (Metrics.ofText a).issues ++ (Metrics.ofText b).issues.map (fun i =>
        { i with line := i.line + (Metrics.ofText a).linesOfCode }) } := by
  have hcomplexity := complexity_joined a b
  have hphysical := physical_joined a b
  have hcode := code_joined a b
  have hissues := issues_joined a b
  refine ⟨hcomplexity, hphysical, hcode, comment_joined a b, hissues, ?_⟩
  simp only [Metrics.ofText, Maintainability.ofText, hcomplexity, hphysical, hcode, hissues]
  rfl

end SourceGauge.Proofs.JoinedTexts
