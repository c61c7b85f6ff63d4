import Mathlib
import SourceGauge.Proofs.GreedyScan

namespace SourceGauge.Proofs.WordOccurrences
open Text Complexity GreedyScan

/-- The word begins at this offset of the text. -/
def OccursAt (word text : List Char) (i : Nat) : Prop := word <+: text.drop i

instance (word text : List Char) : DecidablePred (OccursAt word text) :=
  fun i => inferInstanceAs (Decidable (word <+: text.drop i))

theorem occursAt_succ {word rest : List Char} {c : Char} {i : Nat} :
    OccursAt word (c :: rest) (i + 1) ↔ OccursAt word rest i := Iff.rfl

theorem OccursAt.add_length_le {word text : List Char} {i : Nat} (h : OccursAt word text i)
    (hne : word ≠ []) : i + word.length ≤ text.length := by
  have hpos : 0 < word.length := List.length_pos_iff.mpr hne
  have hlen := h.length_le
  rw [List.length_drop] at hlen
  omega

/-- The word occurs at this offset, and no identifier character stands right before or right
after. -/
def StandsAt (word text : List Char) (i : Nat) : Prop :=
  OccursAt word text i ∧ (∀ c ∈ (text.take i).getLast?, isIdentifierChar c = false) ∧
    ∀ c ∈ (text.drop (i + word.length)).head?, isIdentifierChar c = false

instance (word text : List Char) : DecidablePred (StandsAt word text) :=
  fun _ => inferInstanceAs (Decidable (_ ∧ _ ∧ _))

section Cut

variable {word : List Char} {d : Char} (hd : d ∉ word) (hi : isIdentifierChar d = false)
include hd hi

theorem standsAt_cut_left (hne : word ≠ []) (a b : List Char) {i : Nat} (hle : i ≤ a.length) :
    StandsAt word (a ++ d :: b) i ↔ StandsAt word a i := by
  have hoccurs : OccursAt word (a ++ d :: b) i ↔ OccursAt word a i := by
    rw [OccursAt, OccursAt, List.drop_append_of_le_length hle, ← List.isPrefixOf_iff_prefix,
      isPrefixOf_cut hd, List.isPrefixOf_iff_prefix]
  rw [StandsAt, StandsAt, hoccurs, List.take_append_of_le_length hle]
  refine and_congr_right fun hat => and_congr_right fun _ => ?_
  rw [List.drop_append_of_le_length (hat.add_length_le hne)]
  cases a.drop (i + word.length) with
  | nil => simp [hi]
  | cons c rest => rfl

omit hd in
theorem standsAt_cut_right (a b : List Char) (j : Nat) :
    StandsAt word (a ++ d :: b) (a.length + 1 + j) ↔ StandsAt word b j := by
  have hdrop : ∀ k, (a ++ d :: b).drop (a.length + 1 + k) = b.drop k := by
    intro k
    rw [Nat.add_assoc, List.drop_append, List.drop_eq_nil_of_le (by omega)]
    simp [Nat.add_comm 1 k]
  have htake : (a ++ d :: b).take (a.length + 1 + j) = a ++ d :: b.take j := by
    rw [Nat.add_assoc, List.take_append, List.take_of_length_le (by omega)]
    simp [Nat.add_comm 1 j]
  rw [StandsAt, StandsAt, OccursAt, OccursAt, Nat.add_assoc _ j, hdrop, hdrop, htake]
  refine and_congr_right fun _ => and_congr_left fun _ => ?_
  obtain hnil | ⟨front, c, hfront⟩ := List.eq_nil_or_concat (b.take j)
  · simp [hnil, hi]
  · simp [hfront, List.getLast?_append, List.getLast?_cons]

/-- Like the scan, the offsets where the word stands alone begin afresh behind a character that can
be no part of an identifier. -/
theorem count_standsAt_cut (hne : word ≠ []) (a b : List Char) :
    Nat.count (StandsAt word (a ++ d :: b)) (a ++ d :: b).length =
      Nat.count (StandsAt word a) a.length + Nat.count (StandsAt word b) b.length := by
  have hleft : Nat.count (StandsAt word (a ++ d :: b)) (a.length + 1) =
      Nat.count (StandsAt word a) (a.length + 1) := by
    simp only [Nat.count_eq_card_filter_range]
    congr 1
    refine Finset.filter_congr fun i hlt => standsAt_cut_left hd hi hne a b ?_
    have := Finset.mem_range.mp hlt
    omega
  have hend : ¬StandsAt word a a.length := by
    rintro ⟨hat, _⟩
    have := hat.add_length_le hne
    have := List.length_pos_iff.mpr hne
    omega
  have hlength : (a ++ d :: b).length = a.length + 1 + b.length := by
    simp
    omega
  rw [hlength, Nat.count_add, hleft, Nat.count_succ, if_neg hend]
  simp only [standsAt_cut_right hi]
  rfl

end Cut

/-- Inside a run of identifier characters the word stands alone only if it is the whole run. -/
theorem standsAt_run_iff {word run : List Char} (hne : word ≠ [])
    (hr : ∀ c ∈ run, isIdentifierChar c = true) {i : Nat} :
    StandsAt word run i ↔ i = 0 ∧ run = word := by
  constructor
  · rintro ⟨hat, hbefore, hafter⟩
    have hfits := hat.add_length_le hne
    have hpos : 0 < word.length := List.length_pos_iff.mpr hne
    have hzero : i = 0 := by
      by_contra hi
      have htake : run.take i ≠ [] := by
        intro hnil
        rcases List.take_eq_nil_iff.mp hnil with hzero | hnil
        · exact hi hzero
        · simp [hnil] at hfits
          omega
      have hlast := hbefore _ (List.getLast?_eq_some_getLast htake)
      have hmem := hr _ (List.mem_of_mem_take (List.getLast_mem htake))
      simp [hlast] at hmem
    subst hzero
    obtain ⟨rest, rfl⟩ := hat
    cases rest with
    | nil => simp
    | cons c rest =>
      have hc := hafter c (by simp)
      simp [hr c (by simp)] at hc
  · rintro ⟨rfl, rfl⟩
    simp [StandsAt, OccursAt]

theorem count_standsAt_eq_count_runs {word : List Char} (hne : word ≠ [])
    (hw : ∀ c ∈ word, isIdentifierChar c = true) (text : List Char) :
    Nat.count (StandsAt word text) text.length = (runs isIdentifierChar text).count word := by
  rw [← sum_map_indicator]
  refine eq_sum_runs (fun t => Nat.count (StandsAt word t) t.length) _ rfl ?_ ?_ text
  · intro a d b hi
    have hd : d ∉ word := by
      intro hm
      simp [hw d hm] at hi
    exact count_standsAt_cut hd hi hne a b
  · intro run hrun hr
    obtain ⟨n, hn⟩ := Nat.exists_eq_succ_of_ne_zero (List.length_pos_iff.mpr hrun).ne'
    simp only [hn, Nat.succ_eq_add_one, Nat.count_succ', standsAt_run_iff hne hr]
    simp

/-- A word of identifier characters is counted once for each of the offsets where it stands alone,
be they found by the scan or not, and once for each maximal run of identifier characters that is the
word. -/
theorem countWholeWord_eq_card_standsAt {word : List Char} (hne : word ≠ [])
    (hw : ∀ c ∈ word, isIdentifierChar c = true) (text : List Char) :
    (∃ offsets : Finset Nat, (∀ i, i ∈ offsets ↔ StandsAt word text i) ∧
      countWholeWord text word = offsets.card) ∧
    countWholeWord text word = (runs isIdentifierChar text).count word := by
  have hruns := countWholeWord_eq_count_runs hne hw text
  refine ⟨⟨(Finset.range text.length).filter (StandsAt word text), ?_, ?_⟩, hruns⟩
  · intro i
    rw [Finset.mem_filter, Finset.mem_range, and_iff_right_iff_imp]
    intro h
    have := h.1.add_length_le hne
    have := List.length_pos_iff.mpr hne
    omega
  · rw [hruns, ← count_standsAt_eq_count_runs hne hw, Nat.count_eq_card_filter_range]

/-- The word overlaps itself, and the scan drops a match that is glued on either side before the one
that counts. -/
theorem countWholeWord_eq_card_standsAt_glued :
    let word := "aa".toList
    let text := "aaa aa aaaa".toList
    word ≠ [] ∧ (∀ c ∈ word, isIdentifierChar c = true) ∧
    (∃ offsets : Finset Nat, (∀ i, i ∈ offsets ↔ StandsAt word text i) ∧
      countWholeWord text word = offsets.card) ∧
    countWholeWord text word = 1 := by
  intro word text
  have hne : word ≠ [] := by decide
  have hw : ∀ c ∈ word, isIdentifierChar c = true := List.all_eq_true.mp rfl
  exact ⟨hne, hw, (countWholeWord_eq_card_standsAt hne hw text).1, rfl⟩

/-- Of a word of other characters an occurrence that stands alone can be hidden by a glued one. -/
example : StandsAt "--".toList "a---".toList 2 ∧
    countWholeWord "a---".toList "--".toList = 0 := by
  have hdash : isIdentifierChar '-' = false := rfl
  exact ⟨⟨by decide, by simpa using hdash, by simp⟩, rfl⟩

/-- Offsets where the word occurs, so that no two of the occurrences share a character. -/
structure Apart (word text : List Char) (offsets : Finset Nat) : Prop where
  occurs : ∀ i ∈ offsets, OccursAt word text i
  disjoint : (offsets : Set Nat).PairwiseDisjoint fun i => Set.Ico i (i + word.length)

/-- The same offsets, seen from a text with one more character in front. -/
def moved (offsets : Finset Nat) : Finset Nat := offsets.map ⟨Nat.succ, Nat.succ_injective⟩

theorem mem_moved {offsets : Finset Nat} {i : Nat} : i ∈ moved offsets ↔ ∃ j ∈ offsets, j + 1 = i :=
  Finset.mem_map

theorem card_moved (offsets : Finset Nat) : (moved offsets).card = offsets.card :=
  Finset.card_map _

/-- Offsets behind the first character are those of the rest, moved by one. -/
theorem exists_moved {offsets : Finset Nat} (h : ∀ i ∈ offsets, 1 ≤ i) :
    ∃ later, offsets = moved later := by
  refine ⟨offsets.image Nat.pred, ?_⟩
  ext i
  simp only [mem_moved, Finset.mem_image]
  constructor
  · intro hi
    exact ⟨i - 1, ⟨i, hi, rfl⟩, Nat.succ_pred_eq_of_pos (h i hi)⟩
  · rintro ⟨_, ⟨j, hj, rfl⟩, rfl⟩
    rwa [Nat.pred_eq_sub_one, Nat.sub_add_cancel (h j hj)]

section Apart

variable {word : List Char} (hne : word ≠ [])
include hne

/-- Of two occurrences that share no character, the later one begins behind the earlier one. -/
theorem apart_iff {text : List Char} {offsets : Finset Nat} :
    Apart word text offsets ↔ (∀ i ∈ offsets, OccursAt word text i) ∧
      ∀ i ∈ offsets, ∀ j ∈ offsets, i < j → i + word.length ≤ j := by
  have hpos : 0 < word.length := List.length_pos_iff.mpr hne
  have hdisjoint : ∀ i j, Disjoint (Set.Ico i (i + word.length)) (Set.Ico j (j + word.length)) ↔
      i + word.length ≤ j ∨ j + word.length ≤ i := by
    intro i j
    rw [Set.Ico_disjoint_Ico]
    omega
  constructor
  · rintro ⟨hoccurs, happart⟩
    refine ⟨hoccurs, fun i hi j hj hlt => ?_⟩
    have := (hdisjoint i j).mp (happart hi hj hlt.ne)
    omega
  · rintro ⟨hoccurs, hbehind⟩
    refine ⟨hoccurs, fun i hi j hj hij => (hdisjoint i j).mpr ?_⟩
    rcases Nat.lt_or_gt_of_ne hij with hlt | hlt
    · exact .inl (hbehind i hi j hj hlt)
    · exact .inr (hbehind j hj i hi hlt)

theorem apart_moved_iff {rest : List Char} {c : Char} {offsets : Finset Nat} :
    Apart word (c :: rest) (moved offsets) ↔ Apart word rest offsets := by
  simp only [apart_iff hne, mem_moved, forall_exists_index, and_imp, forall_apply_eq_imp_iff₂,
    occursAt_succ]
  refine and_congr_right fun _ => forall₂_congr fun i _ => forall₂_congr fun j _ => ?_
  omega

/-- An occurrence at the very beginning goes with all that begin behind it. -/
theorem apart_insert {rest : List Char} {c : Char} (hhere : word <+: c :: rest)
    {later : Finset Nat} (h : Apart word rest later) (hlate : ∀ i ∈ later, word.length - 1 ≤ i) :
    Apart word (c :: rest) (insert 0 (moved later)) := by
  obtain ⟨hoccurs, hbehind⟩ := (apart_iff hne).mp ((apart_moved_iff hne (c := c)).mpr h)
  have hfirst : ∀ i ∈ moved later, word.length ≤ i := by
    intro i hi
    obtain ⟨j, hj, rfl⟩ := mem_moved.mp hi
    have := hlate j hj
    omega
  refine (apart_iff hne).mpr ⟨?_, ?_⟩
  · intro i hi
    rcases Finset.mem_insert.mp hi with rfl | hi
    · exact hhere
    · exact hoccurs i hi
  · intro i hi j hj hlt
    rcases Finset.mem_insert.mp hj with rfl | hj
    · omega
    rcases Finset.mem_insert.mp hi with rfl | hi
    · simpa using hfirst j hj
    · exact hbehind i hi j hj hlt

/-- Without their first member, offsets that are apart begin behind the word at the very beginning,
wherever the first member is. -/
theorem Apart.exists_erase {rest : List Char} {c : Char} {offsets : Finset Nat}
    (h : Apart word (c :: rest) offsets) : ∃ later, Apart word rest later ∧
      (∀ i ∈ later, word.length - 1 ≤ i) ∧ offsets.card ≤ later.card + 1 := by
  obtain rfl | hsome := offsets.eq_empty_or_nonempty
  · exact ⟨∅, (apart_iff hne).mpr (by simp), by simp, by simp⟩
  obtain ⟨hoccurs, hbehind⟩ := (apart_iff hne).mp h
  have hpos : 0 < word.length := List.length_pos_iff.mpr hne
  let first := offsets.min' hsome
  have hlate : ∀ i ∈ offsets.erase first, word.length ≤ i := by
    intro i hi
    obtain ⟨hne', hi⟩ := Finset.mem_erase.mp hi
    have hle : first ≤ i := offsets.min'_le i hi
    have := hbehind first (offsets.min'_mem hsome) i hi (lt_of_le_of_ne hle (Ne.symm hne'))
    omega
  obtain ⟨later, hlater⟩ := exists_moved fun i hi => hpos.trans_le (hlate i hi)
  have hrest : Apart word (c :: rest) (moved later) := by
    rw [← hlater]
    exact ⟨fun i hi => hoccurs i (Finset.mem_of_mem_erase hi),
      h.disjoint.subset (by simp)⟩
  refine ⟨later, (apart_moved_iff hne).mp hrest, ?_, ?_⟩
  · intro i hi
    have := hlate (i + 1) (hlater ▸ mem_moved.mpr ⟨i, hi, rfl⟩)
    omega
  · rw [← card_moved later, ← hlater]
    exact (Finset.card_erase_add_one (offsets.min'_mem hsome)).ge

/-- The matches that the scan finds are apart. -/
theorem exists_apart_of_sitesFrom (text : List Char) (before : Option Char) (skip : Nat) :
    ∃ offsets, Apart word text offsets ∧ (∀ i ∈ offsets, skip ≤ i) ∧
      offsets.card = (sitesFrom word before skip text).length := by
  induction text generalizing before skip with
  | nil => exact ⟨∅, (apart_iff hne).mpr (by simp), by simp, by simp [sitesFrom]⟩
  | cons c rest ih =>
    cases skip with
    | succ skip =>
      obtain ⟨later, hapart, hlate, hcard⟩ := ih (some c) skip
      refine ⟨moved later, (apart_moved_iff hne).mpr hapart, ?_,
        by rw [card_moved, hcard, sitesFrom]⟩
      intro i hi
      obtain ⟨j, hj, rfl⟩ := mem_moved.mp hi
      exact Nat.succ_le_succ (hlate j hj)
    | zero =>
      rw [sitesFrom]
      split
      · rename_i hhere
        obtain ⟨later, hapart, hlate, hcard⟩ := ih (some c) (word.length - 1)
        refine ⟨insert 0 (moved later),
          apart_insert hne (List.isPrefixOf_iff_prefix.mp hhere) hapart hlate, by simp, ?_⟩
        rw [Finset.card_insert_of_notMem (by simp [mem_moved]), card_moved, hcard, List.length_cons]
      · obtain ⟨later, hapart, _, hcard⟩ := ih (some c) 0
        exact ⟨moved later, (apart_moved_iff hne).mpr hapart, by simp, by rw [card_moved, hcard]⟩

/-- Offsets that are apart are no more than the matches of the scan. The one at the beginning may be
taken for the first of them, as it leaves the most room. -/
theorem card_le_of_apart {text : List Char} {offsets : Finset Nat} (h : Apart word text offsets)
    (before : Option Char) (skip : Nat) (hlate : ∀ i ∈ offsets, skip ≤ i) :
    offsets.card ≤ (sitesFrom word before skip text).length := by
  induction text generalizing before skip offsets with
  | nil =>
    have hnone : offsets = ∅ := by
      refine Finset.eq_empty_of_forall_notMem fun i hi => ?_
      have hfits := (h.occurs i hi).add_length_le hne
      have hpos := List.length_pos_iff.mpr hne
      rw [List.length_nil] at hfits
      omega
    simp [hnone]
  | cons c rest ih =>
    have hbehind : ∀ skip, (∀ i ∈ offsets, skip + 1 ≤ i) →
        offsets.card ≤ (sitesFrom word (some c) skip rest).length := by
      intro skip hlate
      obtain ⟨later, rfl⟩ := exists_moved fun i hi => (Nat.le_add_left 1 skip).trans (hlate i hi)
      rw [card_moved]
      refine ih ((apart_moved_iff hne).mp h) (some c) skip fun i hi => ?_
      exact Nat.le_of_succ_le_succ (hlate (i + 1) (mem_moved.mpr ⟨i, hi, rfl⟩))
    cases skip with
    | succ skip => exact hbehind skip hlate
    | zero =>
      rw [sitesFrom]
      split
      · obtain ⟨later, hapart, hfar, hcard⟩ := h.exists_erase hne
        have := ih hapart (some c) (word.length - 1) hfar
        rw [List.length_cons]
        omega
      · rename_i hhere
        refine hbehind 0 fun i hi => Nat.pos_of_ne_zero ?_
        rintro rfl
        exact hhere (List.isPrefixOf_iff_prefix.mpr (h.occurs 0 hi))

end Apart

/-- The scan finds as many matches as there can be occurrences of which no two share a character. -/
theorem countSubstring_isGreatest {word : List Char} (hne : word ≠ []) (text : List Char) :
    IsGreatest {n | ∃ offsets : Finset Nat, Apart word text offsets ∧ offsets.card = n}
      (countSubstring text word) := by
  have hempty : word.isEmpty = false := by simpa using hne
  simp only [countSubstring, sites, hempty, Bool.false_eq_true, ↓reduceIte]
  constructor
  · obtain ⟨offsets, hapart, _, hcard⟩ := exists_apart_of_sitesFrom hne text none 0
    exact ⟨offsets, hapart, hcard⟩
  · rintro _ ⟨offsets, hapart, rfl⟩
    exact card_le_of_apart hne hapart none 0 (fun i _ => Nat.zero_le i)

/-- Four occurrences that overlap each other, of which two can be had at once. -/
theorem countSubstring_isGreatest_overlapping :
    let word := "aba".toList
    let text := "ababababa".toList
    word ≠ [] ∧ (∀ i ∈ [0, 2, 4, 6], OccursAt word text i) ∧
    IsGreatest {n | ∃ offsets : Finset Nat, Apart word text offsets ∧ offsets.card = n} 2 := by
  intro word text
  have hne : word ≠ [] := by decide
  exact ⟨hne, by decide, countSubstring_isGreatest hne text⟩

end SourceGauge.Proofs.WordOccurrences
