import Mathlib
import SourceGauge.Proofs.JoinedTexts

namespace SourceGauge.Proofs.NumberedLines
open Text JoinedTexts

/-- A stretch of the text without line feeds that none of its neighbours belongs to. The first line
has number one. -/
def IsLine (text : List Char) (number : Nat) (line : List Char) : Prop :=
  '\n' ∉ line ∧ ∃ before after, text = before ++ line ++ after ∧
    (∀ c ∈ before.getLast?, c = '\n') ∧ (∀ c ∈ after.head?, c = '\n') ∧
    number = before.count '\n' + 1

theorem newline_not_mem_lines {text line : List Char} (h : line ∈ lines text) : '\n' ∉ line :=
  Segments.not_mem_of_mem_split h

theorem isLine_join {segments : List (List Char)} (hfree : ∀ s ∈ segments, '\n' ∉ s) {k : Nat}
    {line : List Char} (hk : segments[k]? = some line) :
    IsLine (join '\n' segments) (k + 1) line := by
  induction segments generalizing k with
  | nil => simp at hk
  | cons s rest ih =>
    cases rest with
    | nil =>
      cases k with
      | zero =>
        cases hk
        exact ⟨hfree line (by simp), [], [], by simp [join], by simp, by simp, by simp⟩
      | succ k => simp at hk
    | cons t ts =>
      rw [join_cons '\n' s (by simp : t :: ts ≠ [])]
      cases k with
      | zero =>
        cases hk
        exact ⟨hfree line (by simp), [], '\n' :: join '\n' (t :: ts), by simp, by simp, by simp,
          by simp⟩
      | succ k =>
        obtain ⟨hline, before, after, htext, hbefore, hafter, hnumber⟩ :=
          ih (fun r hr => hfree r (List.mem_cons_of_mem s hr)) hk
        refine ⟨hline, s ++ '\n' :: before, after, by simp [htext], ?_, hafter, ?_⟩
        -- The line feed behind the first segment is the last one only if nothing follows it.
        · cases before with
          | nil => simp
          | cons b bs => simpa [List.getLast?_append, List.getLast?_cons_cons] using hbefore
        · have hs : s.count '\n' = 0 := List.count_eq_zero.mpr (hfree s (by simp))
          rw [hnumber, List.count_append, List.count_cons_self, hs]
          omega

theorem lines_of_not_mem {line : List Char} (h : '\n' ∉ line) : lines line = [line] :=
  Segments.split_of_not_mem h

theorem length_splitHeld (held text : List Char) :
    (splitHeld '\n' held text).length = text.count '\n' + 1 := by
  induction text generalizing held with
  | nil => rfl
  | cons c rest ih =>
    rw [splitHeld]
    split
    · rename_i hc
      rw [List.length_cons, ih, hc, List.count_cons_self]
    · rename_i hc
      rw [ih, List.count_cons_of_ne hc]

/-- There is one more line than there are line feeds. -/
theorem length_lines (text : List Char) : (lines text).length = text.count '\n' + 1 :=
  length_splitHeld [] text

/-- What follows a line that ends at the end of the text or before a line feed. -/
theorem lines_line_after {line after : List Char} (hline : '\n' ∉ line)
    (hafter : ∀ c ∈ after.head?, c = '\n') : (lines (line ++ after)).head? = some line := by
  cases after with
  | nil => simp [lines_of_not_mem hline]
  | cons c rest =>
    obtain rfl : c = '\n' := hafter c (by simp)
    rw [lines_joined, lines_of_not_mem hline]
    rfl

/-- The lines by their numbers are the segments in order. -/
theorem isLine_succ_iff {text line : List Char} {k : Nat} :
    IsLine text (k + 1) line ↔ (lines text)[k]? = some line := by
  constructor
  · rintro ⟨hline, before, after, rfl, hbefore, hafter, hnumber⟩
    have hhead := lines_line_after hline hafter
    obtain rfl | ⟨above, c, rfl⟩ := List.eq_nil_or_concat before
    · obtain rfl : k = 0 := by simpa using hnumber
      rw [List.nil_append, ← List.head?_eq_getElem?]
      exact hhead
    · obtain rfl : c = '\n' := hbefore c (by simp)
      have hk : k = (lines above).length := by
        rw [length_lines]
        simpa using hnumber
      have htext : above.concat '\n' ++ line ++ after = above ++ '\n' :: (line ++ after) := by simp
      rw [htext, lines_joined, hk, List.getElem?_append_right (Nat.le_refl _), Nat.sub_self,
        ← List.head?_eq_getElem?]
      exact hhead
  · intro h
    have hfree : ∀ s ∈ lines text, '\n' ∉ s := fun s hs => newline_not_mem_lines hs
    have hjoined := isLine_join hfree h
    rwa [lines, join_split] at hjoined

theorem IsLine.one_le {text line : List Char} {number : Nat} (h : IsLine text number line) :
    1 ≤ number := by
  obtain ⟨_, _, _, _, _, _, hnumber⟩ := h
  omega

theorem IsLine.le_physical {text line : List Char} {number : Nat} (h : IsLine text number line) :
    number ≤ (LineCount.ofText text).physical := by
  obtain ⟨k, rfl⟩ := Nat.exists_eq_add_of_le' h.one_le
  obtain ⟨hlt, _⟩ := List.getElem?_eq_some_iff.mp (isLine_succ_iff.mp h)
  exact hlt

end SourceGauge.Proofs.NumberedLines
