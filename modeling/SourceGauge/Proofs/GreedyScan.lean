import Mathlib
import SourceGauge.Complexity

namespace SourceGauge.Proofs.GreedyScan
open Text Complexity

/-- The maximal runs of characters in a class, in order: the pieces, none of them empty, between the
characters outside the class. -/
def runs (inClass : Char → Bool) (text : List Char) : List (List Char) :=
  (text.splitOnP (fun c => !inClass c)).filter (fun run => !run.isEmpty)

@[simp] theorem runs_nil (inClass : Char → Bool) : runs inClass [] = [] := by
  simp [runs]

theorem runs_append_outside {inClass : Char → Bool} {d : Char} (hd : inClass d = false)
    (a b : List Char) : runs inClass (a ++ d :: b) = runs inClass a ++ runs inClass b := by
  unfold runs
  rw [List.splitOnP_append_cons a b (by simp [hd]), List.filter_append]

theorem runs_of_forall {inClass : Char → Bool} {run : List Char}
    (hr : ∀ c ∈ run, inClass c = true) (hne : run ≠ []) : runs inClass run = [run] := by
  unfold runs
  rw [List.splitOnP_eq_singleton (fun c hc => by simp [hr c hc])]
  simp [hne]

theorem runs_gap_append {inClass : Char → Bool} {gap : List Char}
    (hg : ∀ c ∈ gap, inClass c = false) (rest : List Char) :
    runs inClass (gap ++ rest) = runs inClass rest := by
  induction gap with
  | nil => rfl
  | cons d gap ih =>
    have hout := runs_append_outside (hg d (by simp)) [] (gap ++ rest)
    rw [List.nil_append] at hout
    rw [List.cons_append, hout, runs_nil, List.nil_append, ih (fun c hc => hg c (by simp [hc]))]

theorem runs_run_append {inClass : Char → Bool} {run rest : List Char} (hne : run ≠ [])
    (hr : ∀ c ∈ run, inClass c = true) (hrest : ∀ d ∈ rest.head?, inClass d = false) :
    runs inClass (run ++ rest) = run :: runs inClass rest := by
  cases rest with
  | nil => rw [List.append_nil, runs_of_forall hr hne, runs_nil]
  | cons d rest =>
    have hd : inClass d = false := hrest d (by simp)
    have hfirst := runs_append_outside hd [] rest
    rw [List.nil_append] at hfirst
    rw [runs_append_outside hd, runs_of_forall hr hne, hfirst, runs_nil]
    rfl

/-- A text lies within the class or is cut at its first character outside. -/
theorem forall_or_cut (inClass : Char → Bool) (text : List Char) :
    (∀ c ∈ text, inClass c = true) ∨
      ∃ a d b, text = a ++ d :: b ∧ (∀ c ∈ a, inClass c = true) ∧ inClass d = false := by
  induction text with
  | nil => exact .inl (by simp)
  | cons c rest ih =>
    cases hc : inClass c with
    | false => exact .inr ⟨[], c, rest, rfl, by simp, hc⟩
    | true =>
      rcases ih with hall | ⟨a, d, b, rfl, ha, hd⟩
      · exact .inl (by simpa [hc] using hall)
      · exact .inr ⟨c :: a, d, b, rfl, by simpa [hc] using ha, hd⟩

/-- A count that starts afresh behind every character outside a class is a sum over the maximal
runs, with `value` telling what it is on each of them. -/
theorem eq_sum_runs {inClass : Char → Bool} (count value : List Char → Nat) (hnil : count [] = 0)
    (hcut : ∀ a d b, inClass d = false → count (a ++ d :: b) = count a + count b)
    (hvalue : ∀ run, run ≠ [] → (∀ c ∈ run, inClass c = true) → count run = value run)
    (text : List Char) : count text = ((runs inClass text).map value).sum := by
  have hinside : ∀ run, (∀ c ∈ run, inClass c = true) →
      count run = ((runs inClass run).map value).sum := by
    intro run hr
    by_cases hne : run = []
    · subst hne
      simpa using hnil
    · simpa [runs_of_forall hr hne] using hvalue run hne hr
  rcases forall_or_cut inClass text with hall | ⟨a, d, b, rfl, ha, hd⟩
  · exact hinside text hall
  · rw [hcut a d b hd, runs_append_outside hd, List.map_append, List.sum_append, ← hinside a ha,
      ← eq_sum_runs count value hnil hcut hvalue b]
termination_by text.length

/-- Nothing behind a character that is no part of the word decides whether the word stands in front
of it. -/
theorem isPrefixOf_cut {word : List Char} {d : Char} (hd : d ∉ word) (a b : List Char) :
    word.isPrefixOf (a ++ d :: b) = word.isPrefixOf a := by
  induction word generalizing a with
  | nil => simp
  | cons w ws ih =>
    simp only [List.mem_cons, not_or] at hd
    cases a with
    | nil => simp [List.isPrefixOf, Ne.symm hd.1]
    | cons c cs => simp [List.isPrefixOf, ih hd.2]

/-- What stands before the text is seen by a match at its very start only. -/
theorem countP_sitesFrom_before (q : Site → Bool) (word : List Char) {x y : Option Char}
    (hq : ∀ after, q ⟨x, after⟩ = q ⟨y, after⟩) (skip : Nat) (text : List Char) :
    (sitesFrom word x skip text).countP q = (sitesFrom word y skip text).countP q := by
  cases text with
  | nil => simp [sitesFrom]
  | cons c rest =>
    cases skip with
    | succ skip => rfl
    | zero =>
      simp only [sitesFrom]
      split
      · simp only [List.countP_cons, hq]
      · rfl

/-- The step of the scan over a character that is no part of the word. The bound on `skip` says that
no match reaches past it, which every match keeps up. -/
theorem countP_sitesFrom_cut (q : Site → Bool) {word : List Char} {d : Char}
    (hne : word ≠ []) (hd : d ∉ word)
    (hbefore : ∀ after, q ⟨some d, after⟩ = q ⟨none, after⟩)
    (hafter : ∀ before, q ⟨before, some d⟩ = q ⟨before, none⟩)
    (a b : List Char) (before : Option Char) (skip : Nat) (hs : skip ≤ a.length) :
    (sitesFrom word before skip (a ++ d :: b)).countP q =
      (sitesFrom word before skip a).countP q + (sitesFrom word none 0 b).countP q := by
  induction a generalizing before skip with
  | nil =>
    have hskip : skip = 0 := by simpa using hs
    subst hskip
    have hfirst : word.isPrefixOf (d :: b) = false := by
      have hcut := isPrefixOf_cut hd [] b
      rw [List.nil_append] at hcut
      rw [hcut]
      cases word with
      | nil => exact absurd rfl hne
      | cons w ws => rfl
    simp only [List.nil_append, sitesFrom, hfirst, Bool.false_eq_true, ↓reduceIte,
      List.countP_nil, Nat.zero_add]
    exact countP_sitesFrom_before q word hbefore 0 b
  | cons c a ih =>
    cases skip with
    | succ skip =>
      simp only [List.cons_append, sitesFrom]
      exact ih (some c) skip (by simpa using hs)
    | zero =>
      have hcut := isPrefixOf_cut hd (c :: a) b
      rw [List.cons_append] at hcut
      simp only [List.cons_append, sitesFrom, hcut]
      split
      · rename_i hp
        have hlen : word.length ≤ (c :: a).length := (List.isPrefixOf_iff_prefix.mp hp).length_le
        have hsite : q ⟨before, ((c :: (a ++ d :: b)).drop word.length).head?⟩ =
            q ⟨before, ((c :: a).drop word.length).head?⟩ := by
          rw [← List.cons_append, List.drop_append_of_le_length hlen]
          cases (c :: a).drop word.length with
          | nil => simpa using hafter before
          | cons e es => rfl
        have hih := ih (some c) (word.length - 1) (by simp only [List.length_cons] at hlen; omega)
        simp only [List.countP_cons, hsite, hih]
        omega
      · exact ih (some c) 0 (Nat.zero_le _)

theorem countP_sites_cut (q : Site → Bool) {word : List Char} {d : Char} (hd : d ∉ word)
    (hbefore : ∀ after, q ⟨some d, after⟩ = q ⟨none, after⟩)
    (hafter : ∀ before, q ⟨before, some d⟩ = q ⟨before, none⟩) (a b : List Char) :
    (sites word (a ++ d :: b)).countP q = (sites word a).countP q + (sites word b).countP q := by
  unfold sites
  split
  · rfl
  · rename_i hne
    exact countP_sitesFrom_cut q (by simpa using hne) hd hbefore hafter a b none 0 (Nat.zero_le _)

/-- Occurrences are counted afresh behind every character that is no part of the word. -/
theorem countSubstring_cut {word : List Char} {d : Char} (hd : d ∉ word) (a b : List Char) :
    countSubstring (a ++ d :: b) word = countSubstring a word + countSubstring b word := by
  simpa [countSubstring] using countP_sites_cut (fun _ => true) hd (by simp) (by simp) a b

/-- Whole words are counted afresh behind every character that cannot be part of an identifier. -/
theorem countWholeWord_cut {word : List Char} {d : Char} (hd : d ∉ word)
    (hi : isIdentifierChar d = false) (a b : List Char) :
    countWholeWord (a ++ d :: b) word = countWholeWord a word + countWholeWord b word :=
  countP_sites_cut standsAlone hd (by simp [standsAlone, hi]) (by simp [standsAlone, hi]) a b

/-- Inside a run of identifier characters no match stands alone but one that starts the run. -/
theorem countP_standsAlone_glued (word : List Char) {c : Char} (hc : isIdentifierChar c = true)
    {rest : List Char} (hr : ∀ e ∈ rest, isIdentifierChar e = true) (skip : Nat) :
    (sitesFrom word (some c) skip rest).countP standsAlone = 0 := by
  induction rest generalizing c skip with
  | nil => simp [sitesFrom]
  | cons e rest ih =>
    have he : isIdentifierChar e = true := hr e (by simp)
    have ht : ∀ x ∈ rest, isIdentifierChar x = true := fun x hx => hr x (by simp [hx])
    cases skip with
    | succ skip => exact ih he ht skip
    | zero =>
      simp only [sitesFrom]
      split
      · simp only [List.countP_cons, ih he ht, standsAlone, Option.any_some, hc]
        rfl
      · exact ih he ht 0

/-- A run of identifier characters holds the whole word when it is the word, and else not at all. -/
theorem countWholeWord_run {word : List Char} (hne : word ≠ []) {run : List Char}
    (hr : ∀ c ∈ run, isIdentifierChar c = true) :
    countWholeWord run word = if run = word then 1 else 0 := by
  have hempty : word.isEmpty = false := by simpa using hne
  simp only [countWholeWord, sites, hempty, Bool.false_eq_true, ↓reduceIte]
  cases run with
  | nil => simp [sitesFrom, Ne.symm hne]
  | cons c rest =>
    have hc : isIdentifierChar c = true := hr c (by simp)
    have ht : ∀ e ∈ rest, isIdentifierChar e = true := fun e he => hr e (by simp [he])
    simp only [sitesFrom]
    split
    · rename_i hp
      obtain ⟨tail, he⟩ := List.isPrefixOf_iff_prefix.mp hp
      rw [List.countP_cons, countP_standsAlone_glued word hc ht, ← he, List.drop_left]
      cases tail with
      | nil => simp [standsAlone]
      | cons e es =>
        have hi : isIdentifierChar e = true := hr e (by rw [← he]; simp)
        simp [standsAlone, hi]
    · rename_i hp
      rw [countP_standsAlone_glued word hc ht, if_neg]
      rintro he
      exact hp (by rw [he]; simp)

theorem sum_map_indicator (word : List Char) (pieces : List (List Char)) :
    (pieces.map (fun piece => if piece = word then 1 else 0)).sum = pieces.count word := by
  induction pieces with
  | nil => rfl
  | cons piece rest ih =>
    by_cases he : piece = word
    · simp [he, ih, Nat.add_comm]
    · simp [he, ih]

/-- The greedy count of whole words is the number of maximal runs of identifier characters that are
the word: a glued match that is passed over hides no other. -/
theorem countWholeWord_eq_count_runs {word : List Char} (hne : word ≠ [])
    (hw : ∀ c ∈ word, isIdentifierChar c = true) (text : List Char) :
    countWholeWord text word = (runs isIdentifierChar text).count word := by
  rw [← sum_map_indicator]
  refine eq_sum_runs (fun t => countWholeWord t word) _ ?_ ?_ ?_ text
  · simp [countWholeWord, sites, sitesFrom]
  · intro a d b hd
    have hout : d ∉ word := by
      intro hm
      simp [hw d hm] at hd
    exact countWholeWord_cut hout hd a b
  · intro run _ hr
    exact countWholeWord_run hne hr

/-- Of `n` equal characters the scan for `m + 1` of them passes `skip` and then takes `m + 1` at a
time. -/
theorem length_sitesFrom_replicate (c : Char) (m n : Nat) (before : Option Char) (skip : Nat) :
    (sitesFrom (List.replicate (m + 1) c) before skip (List.replicate n c)).length =
      (n - skip) / (m + 1) := by
  induction n generalizing before skip with
  | zero => simp [sitesFrom]
  | succ n ih =>
    cases skip with
    | succ skip =>
      rw [List.replicate_succ (n := n), sitesFrom, ih]
      congr 1
      omega
    | zero =>
      have hp : (List.replicate (m + 1) c).isPrefixOf (c :: List.replicate n c) =
          decide (m + 1 ≤ n + 1) := by
        rw [← List.replicate_succ]
        rw [Bool.eq_iff_iff, List.isPrefixOf_iff_prefix, decide_eq_true_iff]
        constructor
        · intro hp
          simpa using hp.length_le
        · intro hle
          exact ⟨List.replicate (n + 1 - (m + 1)) c, by
            rw [List.replicate_append_replicate]
            congr 1
            omega⟩
      rw [List.replicate_succ (n := n), sitesFrom, hp]
      split
      · rename_i hle
        have hle : m + 1 ≤ n + 1 := by simpa using hle
        rw [List.length_cons, ih, List.length_replicate, Nat.sub_zero,
          Nat.div_eq_sub_div (Nat.succ_pos m) hle]
        congr 2
        omega
      · rename_i hle
        have hlt : n + 1 < m + 1 := by simpa using hle
        rw [ih, Nat.sub_zero, Nat.sub_zero, Nat.div_eq_of_lt hlt, Nat.div_eq_of_lt (by omega)]

/-- The greedy count of a word of one repeated character takes from each maximal run of that
character as many words as fit. -/
theorem countSubstring_replicate_eq_sum_runs (c : Char) (n : Nat) (text : List Char) :
    countSubstring text (List.replicate n c) =
      ((runs (· == c) text).map (fun run => run.length / n)).sum := by
  refine eq_sum_runs (fun t => countSubstring t (List.replicate n c)) _ ?_ ?_ ?_ text
  · simp [countSubstring, sites, sitesFrom]
  · intro a d b hd
    have hout : d ∉ List.replicate n c := by
      intro hm
      simp [List.eq_of_mem_replicate hm] at hd
    exact countSubstring_cut hout a b
  · intro run _ hr
    have he : run = List.replicate run.length c :=
      List.eq_replicate_of_mem (fun e hm => by simpa using hr e hm)
    cases n with
    | zero => simp [countSubstring, sites]
    | succ m =>
      have hlen := length_sitesFrom_replicate c m run.length none 0
      rw [← he, Nat.sub_zero] at hlen
      simpa [countSubstring, sites] using hlen

end SourceGauge.Proofs.GreedyScan
