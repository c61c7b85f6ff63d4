import Mathlib
import SourceGauge.Text.Bytes
import SourceGauge.Proofs.ComplexityRuns

namespace SourceGauge.Proofs.BranchBound
open Text Complexity GreedyScan ComplexityRuns

/-- Only a run of `?` comes close, for each of its characters counts and so does each of its
pairs. -/
theorem two_mul_weight_le (token : List Char) : 2 * weight token ≤ 3 * token.length := by
  cases token with
  | nil => rfl
  | cons c rest =>
    simp only [weight, List.head?_cons, Option.map_some, List.length_cons]
    cases kindOf c with
    | word =>
      -- One branch at most, and at least one character to charge it to.
      change 2 * (if c :: rest ∈ keywords then 1 else 0) ≤ _
      split <;> omega
    | conjunction => change 2 * ((rest.length + 1) / 2) ≤ _; omega
    | disjunction => change 2 * ((rest.length + 1) / 2) ≤ _; omega
    | question => change 2 * (rest.length + 1 + (rest.length + 1) / 2) ≤ _; omega
    | other => exact Nat.zero_le _

theorem two_mul_sum_weight_le (ts : List (List Char)) :
    2 * (ts.map weight).sum ≤ 3 * ts.flatten.length := by
  induction ts with
  | nil => rfl
  | cons t ts ih =>
    have ht := two_mul_weight_le t
    rw [List.map_cons, List.sum_cons, List.flatten_cons, List.length_append]
    omega

theorem branches_le (text : List Char) : branches text ≤ 3 * text.length / 2 := by
  have hcharged := two_mul_sum_weight_le (tokens text)
  have hflat : (tokens text).flatten = text := List.flatten_splitBy _ text
  rw [sum_weight_tokens, hflat] at hcharged
  omega

theorem runs_replicate_outside {inClass : Char → Bool} {c : Char} (hc : inClass c = false)
    (n : Nat) : runs inClass (List.replicate n c) = [] := by
  have hgap : ∀ d ∈ List.replicate n c, inClass d = false := by
    intro d hd
    rw [List.eq_of_mem_replicate hd, hc]
  have hruns := runs_gap_append hgap []
  rwa [List.append_nil, runs_nil] at hruns

/-- Question marks alone reach the bound. -/
theorem branches_replicate_question (n : Nat) : branches (List.replicate n '?') = 3 * n / 2 := by
  have hword := runs_replicate_outside (operator_chars '?' (by simp)) n
  have hand : runs (· == '&') (List.replicate n '?') = [] := runs_replicate_outside rfl n
  have hor : runs (· == '|') (List.replicate n '?') = [] := runs_replicate_outside rfl n
  rw [branches_eq_runs, hword, hand, hor]
  cases n with
  | zero => simp
  | succ n =>
    have hrun : runs (· == '?') (List.replicate (n + 1) '?') = [List.replicate (n + 1) '?'] :=
      runs_of_forall (fun c hc => by simp [List.eq_of_mem_replicate hc]) (by simp)
    simp only [hrun, List.countP_nil, List.map_nil, List.sum_nil, List.map_cons, List.sum_cons,
      List.length_replicate]
    omega

/-- The sum of the counts from a start on, in a word of so many bits. It fails as soon as a sum on
the way does not fit. -/
def wordSum (bits : Nat) : Nat → List Nat → Option Nat
  | sum, [] => some sum
  | sum, count :: counts =>
    if sum + count < capacity bits then wordSum bits (sum + count) counts else none

theorem wordSum_eq_some {bits start : Nat} {counts : List Nat}
    (h : start + counts.sum < capacity bits) :
    wordSum bits start counts = some (start + counts.sum) := by
  induction counts generalizing start with
  | nil => rfl
  | cons count counts ih =>
    rw [List.sum_cons, ← Nat.add_assoc] at h ⊢
    rw [wordSum, if_pos (Nat.lt_of_le_of_lt (Nat.le_add_right _ _) h), ih h]

/-- The counts of the keywords and then those of the operators. -/
def counts (text : List Char) : List Nat :=
  keywords.map (countWholeWord text) ++ operators.map (countSubstring text)

theorem total_eq_sum (count : List Char → Nat) (words : List (List Char)) :
    total count words = (words.map count).sum := by
  induction words with
  | nil => rfl
  | cons word words ih => rw [total, ih, List.map_cons, List.sum_cons]

theorem sum_counts (text : List Char) : (counts text).sum = branches text := by
  rw [counts, List.sum_append, ← total_eq_sum, ← total_eq_sum, branches]

theorem length_le_byteLength (text : List Char) : text.length ≤ byteLength text := by
  induction text with
  | nil => rfl
  | cons c rest ih =>
    have hc := c.utf8Size_pos
    rw [List.length_cons, byteLength]
    omega

theorem wordSum_counts {text : List Char} (h : byteLength text ≤ 2 ^ 63 - 1) :
    wordSum 64 0 (counts text) = some (branches text) := by
  have hlength := length_le_byteLength text
  have hbranches := branches_le text
  have hcapacity : capacity 64 = 2 ^ 64 := rfl
  have hfits : 0 + (counts text).sum < capacity 64 := by
    rw [sum_counts, hcapacity]
    omega
  rw [wordSum_eq_some hfits, sum_counts, Nat.zero_add]

theorem ofText_of_length {text : List Char} (h : 3 * (text.length + 2) < 2 ^ 33) :
    ofText text = branches text + 1 ∧ ofText text < ceiling := by
  have hbranches := branches_le text
  have hceiling : ceiling = 2 ^ 32 - 1 := by decide
  rw [ofText, ofBranches, hceiling]
  omega

/-- The keywords and operators of a text are counted at most three halves as often as it has
characters, which question marks alone reach. So their sum, formed count by count, fits into 64 bits
for every text of less than `2 ^ 63` bytes, and up to nearly two thirds of `2 ^ 32` characters the
complexity is exact and below the cap. -/
theorem branches_bounded (text : List Char) :
    branches text ≤ 3 * text.length / 2 ∧
    branches (List.replicate text.length '?') = 3 * text.length / 2 ∧
    (byteLength text ≤ 2 ^ 63 - 1 → wordSum 64 0 (counts text) = some (branches text)) ∧
    ((text.length : ℚ) < 2 ^ 32 * 2 / 3 - 2 →
      ofText text = branches text + 1 ∧ ofText text < ceiling) := by
  refine ⟨branches_le text, branches_replicate_question text.length, wordSum_counts, ?_⟩
  intro hlength
  have hthirds : 3 * ((text.length : ℚ) + 2) < 2 ^ 33 := by linarith
  exact ofText_of_length (by exact_mod_cast hthirds)

theorem branches_bounded_mixed :
    let text := "if (a ?? b) do {} while (c && d)".toList
    byteLength text ≤ 2 ^ 63 - 1 ∧ wordSum 64 0 (counts text) = some 7 ∧
    (text.length : ℚ) < 2 ^ 32 * 2 / 3 - 2 ∧ ofText text = 8 ∧ 8 < ceiling := by
  intro text
  have hbytes : byteLength text ≤ 2 ^ 63 - 1 := by decide
  have hlength : (text.length : ℚ) < 2 ^ 32 * 2 / 3 - 2 := by
    rw [show text.length = 32 from rfl]
    norm_num
  obtain ⟨_, _, hsum, hexact⟩ := branches_bounded text
  have hbranches : branches text = 7 := by decide +kernel
  rw [hbranches] at hsum hexact
  obtain ⟨hcomplexity, hbelow⟩ := hexact hlength
  rw [hcomplexity] at hbelow
  exact ⟨hbytes, hsum hbytes, hlength, hcomplexity, hbelow⟩

end SourceGauge.Proofs.BranchBound
