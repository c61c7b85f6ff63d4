import SourceGauge.Text.Lines

namespace SourceGauge.Proofs.Segments
open Text

variable {α : Type _}

theorem mem_join_of_mem {sep x : α} {ss : List (List α)} {s : List α} (hs : s ∈ ss) (hx : x ∈ s) :
    x ∈ join sep ss := by
  induction ss with
  | nil => cases hs
  | cons first rest ih =>
    cases rest with
    | nil =>
      obtain rfl : s = first := by simpa using hs
      exact hx
    | cons next rest =>
      rw [join_cons sep first (by simp)]
      rcases List.mem_cons.mp hs with rfl | hs
      · exact List.mem_append_left _ hx
      · exact List.mem_append_right _ (List.mem_cons_of_mem _ (ih hs))

theorem exists_of_mem_join {sep x : α} {ss : List (List α)} (hx : x ∈ join sep ss) (hne : x ≠ sep) :
    ∃ s ∈ ss, x ∈ s := by
  induction ss with
  | nil => cases hx
  | cons first rest ih =>
    cases rest with
    | nil => exact ⟨first, by simp, hx⟩
    | cons next rest =>
      rw [join_cons sep first (by simp)] at hx
      rcases List.mem_append.mp hx with hx | hx
      · exact ⟨first, by simp, hx⟩
      · rcases List.mem_cons.mp hx with rfl | hx
        · exact absurd rfl hne
        · obtain ⟨s, hs, hx⟩ := ih hx
          exact ⟨s, List.mem_cons_of_mem _ hs, hx⟩

variable [DecidableEq α]

theorem splitHeld_append (sep : α) (held a b : List α) :
    splitHeld sep held (a ++ sep :: b) = splitHeld sep held a ++ split sep b := by
  induction a generalizing held with
  | nil => simp [splitHeld, split]
  | cons c rest ih =>
    rw [List.cons_append, splitHeld, splitHeld]
    split
    · rw [ih, List.cons_append]
    · exact ih (c :: held)

theorem split_append (sep : α) (a b : List α) :
    split sep (a ++ sep :: b) = split sep a ++ split sep b :=
  splitHeld_append sep [] a b

theorem not_mem_of_mem_splitHeld {sep : α} {held text : List α} (hheld : sep ∉ held) :
    ∀ s ∈ splitHeld sep held text, sep ∉ s := by
  induction text generalizing held with
  | nil => simpa [splitHeld] using hheld
  | cons c rest ih =>
    rw [splitHeld]
    split
    · intro s hs
      rcases List.mem_cons.mp hs with rfl | hs
      · simpa using hheld
      · exact ih (by simp) s hs
    · rename_i hc
      have hne : sep ≠ c := fun he => hc he.symm
      exact ih (by simp [hne, hheld])

theorem not_mem_of_mem_split {sep : α} {text s : List α} (h : s ∈ split sep text) : sep ∉ s :=
  not_mem_of_mem_splitHeld (by simp) s h

theorem splitHeld_of_not_mem {sep : α} {held text : List α} (h : sep ∉ text) :
    splitHeld sep held text = [held.reverse ++ text] := by
  induction text generalizing held with
  | nil => simp [splitHeld]
  | cons c rest ih =>
    obtain ⟨hc, hrest⟩ := not_or.mp (fun hm => h (List.mem_cons.mpr hm))
    rw [splitHeld, if_neg (fun he => hc he.symm), ih hrest]
    simp

theorem split_of_not_mem {sep : α} {text : List α} (h : sep ∉ text) : split sep text = [text] :=
  splitHeld_of_not_mem h

/-- Splitting takes apart what was joined. -/
theorem split_join {sep : α} {ss : List (List α)} (hne : ss ≠ []) (hfree : ∀ s ∈ ss, sep ∉ s) :
    split sep (join sep ss) = ss := by
  induction ss with
  | nil => exact absurd rfl hne
  | cons s rest ih =>
    have hs : sep ∉ s := hfree s (by simp)
    cases rest with
    | nil => exact split_of_not_mem hs
    | cons next rest =>
      rw [join_cons sep s (by simp), split_append, split_of_not_mem hs,
        ih (by simp) (fun t ht => hfree t (by simp [ht]))]
      rfl

/-- An item other than the separator is in the text when it is in a segment. -/
theorem mem_iff_exists_split (sep : α) {x : α} (hne : x ≠ sep) (text : List α) :
    x ∈ text ↔ ∃ s ∈ split sep text, x ∈ s := by
  constructor
  · intro hx
    rw [← join_split sep text] at hx
    exact exists_of_mem_join hx hne
  · rintro ⟨s, hs, hx⟩
    rw [← join_split sep text]
    exact mem_join_of_mem hs hx

end SourceGauge.Proofs.Segments
