import Mathlib
import SourceGauge.Proofs.NumberedLines
import SourceGauge.Proofs.ScoreRounding

namespace SourceGauge.Proofs.LineEdits
open Text Complexity JoinedTexts NumberedLines ScoreRounding

theorem branches_join (ls : List (List Char)) :
    branches (join '\n' ls) = (ls.map branches).sum := by
  induction ls with
  | nil => rfl
  | cons line rest ih =>
    cases rest with
    | nil => simp [join]
    | cons next rest =>
      rw [join_cons '\n' line (by simp), branches_joined, ih]
      simp only [List.map_cons, List.sum_cons]

/-- No keyword or operator reaches over the end of a line. -/
theorem branches_eq_sum_lines (text : List Char) :
    branches text = ((lines text).map branches).sum := by
  rw [← branches_join, lines, join_split]

theorem lines_join {ls : List (List Char)} (hne : ls ≠ []) (hfree : ∀ line ∈ ls, '\n' ∉ line) :
    lines (join '\n' ls) = ls :=
  Segments.split_join hne hfree

theorem lines_join_of_perm {text : List Char} {ls : List (List Char)} (h : ls.Perm (lines text)) :
    lines (join '\n' ls) = ls := by
  apply lines_join
  · rintro rfl
    exact splitHeld_ne_nil '\n' [] text h.nil_eq.symm
  · intro line hline
    exact newline_not_mem_lines (h.mem_iff.mp hline)

theorem complexity_of_perm {a b : List Char} (h : (lines a).Perm (lines b)) :
    Complexity.ofText a = Complexity.ofText b := by
  have hsum : ((lines a).map branches).sum = ((lines b).map branches).sum :=
    (h.map branches).sum_eq
  rw [Complexity.ofText, Complexity.ofText, branches_eq_sum_lines, branches_eq_sum_lines b, hsum]

theorem lineCount_of_perm {a b : List Char} (h : (lines a).Perm (lines b)) :
    LineCount.ofText a = LineCount.ofText b := by
  rw [LineCount.ofText, LineCount.ofText, h.length_eq, h.countP_eq]

theorem ofBranches_mono {m n : Nat} (h : m ≤ n) : ofBranches m ≤ ofBranches n := by
  simp only [ofBranches]
  omega

theorem complexity_le_joined (a b : List Char) :
    Complexity.ofText a ≤ Complexity.ofText (a ++ '\n' :: b) ∧
      Complexity.ofText b ≤ Complexity.ofText (a ++ '\n' :: b) := by
  simp only [Complexity.ofText, branches_joined]
  exact ⟨ofBranches_mono (by omega), ofBranches_mono (by omega)⟩

theorem maintainability_joined_le (a b : List Char) :
    Maintainability.ofText (a ++ '\n' :: b) ≤ Maintainability.ofText a ∧
      Maintainability.ofText (a ++ '\n' :: b) ≤ Maintainability.ofText b := by
  obtain ⟨ha, hb⟩ := complexity_le_joined a b
  simp only [Maintainability.ofText, code_joined]
  exact ⟨score_le_score (by omega) ha, score_le_score (by omega) hb⟩

theorem branches_eq_zero {line : List Char} (h : Complexity.ofText line = 1) :
    branches line = 0 := by
  have hceiling : ceiling = 2 ^ 32 - 1 := by decide
  simp only [Complexity.ofText, ofBranches, hceiling] at h
  omega

section
variable {text line : List Char} {above below : List (List Char)}

theorem lines_inserted (hsplit : lines text = above ++ below) (hfree : '\n' ∉ line) :
    lines (join '\n' (above ++ line :: below)) = above ++ line :: below := by
  apply lines_join (by simp)
  intro other hother
  rcases List.mem_cons.mp (List.perm_middle.mem_iff.mp hother) with rfl | hother
  · exact hfree
  · exact newline_not_mem_lines (hsplit ▸ hother)

theorem complexity_inserted (hsplit : lines text = above ++ below)
    (hone : Complexity.ofText line = 1) :
    Complexity.ofText (join '\n' (above ++ line :: below)) = Complexity.ofText text := by
  have hbranches : branches (join '\n' (above ++ line :: below)) = branches text := by
    rw [branches_join, branches_eq_sum_lines text, hsplit]
    simp [branches_eq_zero hone]
  rw [Complexity.ofText, hbranches, Complexity.ofText]

theorem lineCount_inserted (hsplit : lines text = above ++ below) (hfree : '\n' ∉ line)
    (hcomment : isCommentLine line = true) :
    LineCount.ofText (join '\n' (above ++ line :: below)) =
      { physical := (LineCount.ofText text).physical + 1
        comment := (LineCount.ofText text).comment + 1 } := by
  simp only [LineCount.ofText, lines_inserted hsplit hfree, hsplit, List.length_append,
    List.length_cons, List.countP_append, List.countP_cons_of_pos hcomment]
  rfl

end

/-- Lines can be edited without a trace in the score. In any other order they give the same
complexity, maintainability and line count. A text that goes on in another is no easier to maintain
and no less complex than either. A comment line without branches, put between any two lines or at an
end, adds one line and changes neither. -/
theorem metrics_edited :
    (∀ (text : List Char) (ls : List (List Char)), ls.Perm (lines text) →
      let other := Metrics.ofText (join '\n' ls)
      other.complexity = (Metrics.ofText text).complexity ∧
      other.maintainability = (Metrics.ofText text).maintainability ∧
      other.linesOfCode = (Metrics.ofText text).linesOfCode) ∧
    (∀ a b : List Char,
      let joined := Metrics.ofText (a ++ '\n' :: b)
      joined.maintainability ≤ (Metrics.ofText a).maintainability ∧
      joined.maintainability ≤ (Metrics.ofText b).maintainability ∧
      (Metrics.ofText a).complexity ≤ joined.complexity ∧
      (Metrics.ofText b).complexity ≤ joined.complexity) ∧
    (∀ (text line : List Char) (above below : List (List Char)), lines text = above ++ below →
      '\n' ∉ line → isCommentLine line = true → (Metrics.ofText line).complexity = 1 →
      let other := Metrics.ofText (join '\n' (above ++ line :: below))
      other.complexity = (Metrics.ofText text).complexity ∧
      other.maintainability = (Metrics.ofText text).maintainability ∧
      other.linesOfCode = (Metrics.ofText text).linesOfCode + 1) := by
  simp only [Metrics.ofText]
  refine ⟨?_, ?_, ?_⟩
  · intro text ls h
    have hlines : (lines (join '\n' ls)).Perm (lines text) := by rwa [lines_join_of_perm h]
    have hcomplexity := complexity_of_perm hlines
    have hcount := lineCount_of_perm hlines
    simp only [Maintainability.ofText, hcomplexity, hcount, and_self]
  · intro a b
    obtain ⟨ha, hb⟩ := maintainability_joined_le a b
    exact ⟨ha, hb, complexity_le_joined a b⟩
  · intro text line above below hsplit hfree hcomment hone
    have hcomplexity := complexity_inserted hsplit hone
    have hcount := lineCount_inserted hsplit hfree hcomment
    have hcode : (LineCount.ofText (join '\n' (above ++ line :: below))).code =
        (LineCount.ofText text).code := by
      simp only [hcount, LineCount.code]
      omega
    refine ⟨hcomplexity, ?_, by rw [hcount]⟩
    rw [Maintainability.ofText, hcode, hcomplexity, Maintainability.ofText]

/-- Two lines change places, and a comment whose words only look like keywords comes between
them. -/
theorem metrics_edited_sample :
    let text := "x\nif (a) b".toList
    let line := "  /* elseif */".toList
    (["if (a) b".toList, "x".toList].Perm (lines text) ∧
      (Metrics.ofText "if (a) b\nx".toList).complexity = (Metrics.ofText text).complexity) ∧
    (Metrics.ofText "x\nif (a) b".toList).maintainability ≤
      (Metrics.ofText "x".toList).maintainability ∧
    (lines text = ["x".toList] ++ ["if (a) b".toList] ∧ '\n' ∉ line ∧ isCommentLine line = true ∧
      (Metrics.ofText line).complexity = 1 ∧
      (Metrics.ofText "x\n  /* elseif */\nif (a) b".toList).linesOfCode =
        (Metrics.ofText text).linesOfCode + 1) := by
  intro text line
  have hperm : ["if (a) b".toList, "x".toList].Perm (lines text) := by decide
  have hsplit : lines text = ["x".toList] ++ ["if (a) b".toList] := by decide
  have hfree : '\n' ∉ line := by decide
  have hcomment : isCommentLine line = true := by decide
  have hone : (Metrics.ofText line).complexity = 1 := by decide +kernel
  obtain ⟨hreordered, hjoined, hinserted⟩ := metrics_edited
  exact ⟨⟨hperm, (hreordered text _ hperm).1⟩, (hjoined "x".toList "if (a) b".toList).1,
    hsplit, hfree, hcomment, hone, (hinserted text line _ _ hsplit hfree hcomment hone).2.2⟩

end SourceGauge.Proofs.LineEdits
