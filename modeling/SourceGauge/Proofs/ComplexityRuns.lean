import Mathlib
import SourceGauge.Proofs.GreedyScan

namespace SourceGauge.Proofs.ComplexityRuns
open Text Complexity GreedyScan

/-- What a character can be part of. -/
inductive Kind where
  | word
  | conjunction
  | disjunction
  | question
  | other
deriving DecidableEq

def kindOf (c : Char) : Kind :=
  if isIdentifierChar c then .word
  else if c = '&' then .conjunction
  else if c = '|' then .disjunction
  else if c = '?' then .question
  else .other

/-- One pass over the text that starts a token wherever the kind of character changes. -/
def tokens (text : List Char) : List (List Char) :=
  text.splitBy (fun a b => kindOf a == kindOf b)

/-- The branches that a token stands for, by the kind of its characters. -/
def weight (token : List Char) : Nat :=
  match token.head?.map kindOf with
  | some .word => if token ∈ keywords then 1 else 0
  | some .conjunction => token.length / 2
  | some .disjunction => token.length / 2
  | some .question => token.length + token.length / 2
  | _ => 0

theorem countP_mem_cons {word : List Char} {words : List (List Char)} (hout : word ∉ words)
    (pieces : List (List Char)) : pieces.countP (· ∈ word :: words) =
      pieces.count word + pieces.countP (· ∈ words) := by
  induction pieces with
  | nil => rfl
  | cons piece pieces ih =>
    rw [List.countP_cons, List.count_cons, List.countP_cons, ih]
    by_cases he : piece = word
    · simp [he, hout]
      omega
    · simp [he]
      omega

/-- Counting each of several different words counts the pieces that are one of them. -/
theorem total_count (pieces : List (List Char)) {words : List (List Char)} (hn : words.Nodup) :
    total (fun word => pieces.count word) words = pieces.countP (· ∈ words) := by
  induction words with
  | nil => simp [total]
  | cons word words ih =>
    obtain ⟨hout, hn⟩ := List.nodup_cons.mp hn
    rw [total, ih hn, countP_mem_cons hout]

theorem keyword_chars : ∀ word ∈ keywords, word ≠ [] ∧ ∀ c ∈ word, isIdentifierChar c = true := by
  have hall : keywords.all (fun word => !word.isEmpty && word.all isIdentifierChar) = true := rfl
  simpa using hall

theorem operator_chars : ∀ c ∈ ['&', '|', '?'], isIdentifierChar c = false := by
  have hall : ['&', '|', '?'].all (fun c => !isIdentifierChar c) = true := rfl
  simpa using hall

theorem total_countWholeWord (text : List Char) :
    total (countWholeWord text) keywords =
      (runs isIdentifierChar text).countP (· ∈ keywords) := by
  have hsame : ∀ words, (∀ word ∈ words, word ∈ keywords) → total (countWholeWord text) words =
      total (fun word => (runs isIdentifierChar text).count word) words := by
    intro words hsub
    induction words with
    | nil => rfl
    | cons word words ih =>
      obtain ⟨hne, hw⟩ := keyword_chars word (hsub word (by simp))
      rw [total, total, countWholeWord_eq_count_runs hne hw, ih (fun v hv => hsub v (by simp [hv]))]
  rw [hsame keywords (fun _ h => h), total_count _ (by decide)]

theorem total_countSubstring (text : List Char) :
    total (countSubstring text) operators =
      ((runs (· == '&') text).map (fun run => run.length / 2)).sum +
      ((runs (· == '|') text).map (fun run => run.length / 2)).sum +
      ((runs (· == '?') text).map (fun run => run.length + run.length / 2)).sum := by
  have hand := countSubstring_replicate_eq_sum_runs '&' 2 text
  have hor := countSubstring_replicate_eq_sum_runs '|' 2 text
  have hone := countSubstring_replicate_eq_sum_runs '?' 1 text
  have htwo := countSubstring_replicate_eq_sum_runs '?' 2 text
  simp only [List.replicate, Nat.div_one] at hand hor hone htwo
  have hboth : ((runs (· == '?') text).map (fun run => run.length + run.length / 2)).sum =
      ((runs (· == '?') text).map (fun run => run.length)).sum +
        ((runs (· == '?') text).map (fun run => run.length / 2)).sum := List.sum_map_add
  simp only [operators, total, hand, hor, hone, htwo, hboth]
  omega

theorem branches_eq_runs (text : List Char) :
    branches text = (runs isIdentifierChar text).countP (· ∈ keywords) +
      (((runs (· == '&') text).map (fun run => run.length / 2)).sum +
      ((runs (· == '|') text).map (fun run => run.length / 2)).sum +
      ((runs (· == '?') text).map (fun run => run.length + run.length / 2)).sum) := by
  rw [branches, total_countWholeWord, total_countSubstring]

/-- All characters of a token are of the kind of its first. -/
theorem token_uniform {token : List Char}
    (hc : token.IsChain (fun a b => (kindOf a == kindOf b) = true)) {a : Char}
    (ha : token.head? = some a) : ∀ c ∈ token, kindOf c = kindOf a := by
  induction token generalizing a with
  | nil => simp
  | cons b rest ih =>
    obtain rfl : b = a := by simpa using ha
    intro c hm
    rcases List.mem_cons.mp hm with rfl | hm
    · rfl
    · cases rest with
      | nil => simp at hm
      | cons d rest =>
        obtain ⟨hbd, hrest⟩ := List.isChain_cons_cons.mp hc
        rw [ih hrest rfl c hm]
        exact (by simpa using hbd : kindOf b = kindOf d).symm

/-- Pieces of one kind each, with a change of kind between neighbours, are the maximal runs of their
kinds. -/
theorem runs_flatten (k : Kind) (ts : List (List Char)) (hne : [] ∉ ts)
    (huniform : ∀ t ∈ ts, t.IsChain (fun a b => (kindOf a == kindOf b) = true))
    (hchange : ts.IsChain
      (fun t u => ∃ ht hu, (kindOf (t.getLast ht) == kindOf (u.head hu)) = false)) :
    runs (fun c => kindOf c == k) ts.flatten =
      ts.filter (fun t => t.head?.any (fun c => kindOf c == k)) := by
  induction ts with
  | nil => simp [runs]
  | cons t ts ih =>
    simp only [List.mem_cons, not_or] at hne
    have hrest := ih hne.2 (fun u hu => huniform u (by simp [hu])) hchange.tail
    obtain ⟨a, tail, rfl⟩ := List.exists_cons_of_ne_nil (Ne.symm hne.1)
    have hkind := token_uniform (huniform (a :: tail) (by simp)) rfl
    rw [List.flatten_cons]
    by_cases hk : kindOf a = k
    · have hnext : ∀ d ∈ ts.flatten.head?, (kindOf d == k) = false := by
        intro d hd
        cases ts with
        | nil => simp at hd
        | cons u us =>
          obtain ⟨⟨_, hu, hdiff⟩, _⟩ := List.isChain_cons_cons.mp hchange
          obtain ⟨e, es, rfl⟩ := List.exists_cons_of_ne_nil hu
          obtain rfl : e = d := by simpa using hd
          rw [hkind _ (List.getLast_mem _), hk] at hdiff
          rw [Bool.eq_false_iff] at hdiff ⊢
          intro he
          exact hdiff (by simpa using (beq_iff_eq.mp he).symm)
      rw [runs_run_append (List.cons_ne_nil a tail) (fun c hc => by simp [hkind c hc, hk]) hnext,
        hrest]
      simp [hk]
    · rw [runs_gap_append (fun c hc => by simp [hkind c hc, hk]), hrest]
      simp [hk]

/-- The tokens of one kind are the maximal runs of its characters. -/
theorem runs_eq_filter_tokens (k : Kind) (text : List Char) :
    runs (fun c => kindOf c == k) text =
      (tokens text).filter (fun t => t.head?.any (fun c => kindOf c == k)) := by
  have hflat : (tokens text).flatten = text := List.flatten_splitBy _ text
  have hruns := runs_flatten k (tokens text) (List.nil_notMem_splitBy _ text)
    (fun t ht => List.isChain_of_mem_splitBy ht)
    (List.isChain_getLast_head_splitBy (fun a b => kindOf a == kindOf b) text)
  rwa [hflat] at hruns

theorem kindOf_word (c : Char) : (kindOf c == .word) = isIdentifierChar c := by
  unfold kindOf
  split_ifs <;> simp_all

theorem kindOf_operator (c : Char) : (kindOf c == .conjunction) = (c == '&') ∧
    (kindOf c == .disjunction) = (c == '|') ∧ (kindOf c == .question) = (c == '?') := by
  unfold kindOf
  split_ifs with hi
  · have hne : c ∉ ['&', '|', '?'] := by
      intro hm
      simp [operator_chars c hm] at hi
    simp_all
  all_goals simp_all

/-- The weights add up kind by kind. -/
theorem sum_weight (ts : List (List Char)) :
    (ts.map weight).sum =
      (ts.filter (fun t => t.head?.any (fun c => kindOf c == .word))).countP (· ∈ keywords) +
      (((ts.filter (fun t => t.head?.any (fun c => kindOf c == .conjunction))).map
        (fun run => run.length / 2)).sum +
      ((ts.filter (fun t => t.head?.any (fun c => kindOf c == .disjunction))).map
        (fun run => run.length / 2)).sum +
      ((ts.filter (fun t => t.head?.any (fun c => kindOf c == .question))).map
        (fun run => run.length + run.length / 2)).sum) := by
  induction ts with
  | nil => rfl
  | cons t ts ih =>
    rw [List.map_cons, List.sum_cons, ih]
    cases t with
    | nil => simp [weight]
    | cons a tail =>
      cases hk : kindOf a <;> simp [weight, hk, List.countP_cons] <;> omega

theorem sum_weight_tokens (text : List Char) : ((tokens text).map weight).sum = branches text := by
  have hword := runs_eq_filter_tokens .word text
  have hand := runs_eq_filter_tokens .conjunction text
  have hor := runs_eq_filter_tokens .disjunction text
  have hquestion := runs_eq_filter_tokens .question text
  rw [sum_weight, ← hword, ← hand, ← hor, ← hquestion, branches_eq_runs]
  simp only [kindOf_word, kindOf_operator]

/-- The complexity is one more than the branches in the maximal runs: a run of identifier characters
counts when it is a keyword, a run of `&` or of `|` counts its pairs, and a run of `?` its
characters and its pairs. One pass over the tokens gives the same. -/
theorem ofText_eq_runs (text : List Char) :
    ofText text = min (2 ^ 32 - 1) (1 +
        (runs isIdentifierChar text).countP (· ∈ keywords) +
        ((runs (· == '&') text).map (fun run => run.length / 2)).sum +
        ((runs (· == '|') text).map (fun run => run.length / 2)).sum +
        ((runs (· == '?') text).map (fun run => run.length + run.length / 2)).sum) ∧
      ofText text = min (2 ^ 32 - 1) (1 + ((tokens text).map weight).sum) := by
  have hceiling : ceiling = 2 ^ 32 - 1 := by decide
  have hbranches := branches_eq_runs text
  rw [sum_weight_tokens, ofText, ofBranches, hceiling]
  constructor <;> omega

end SourceGauge.Proofs.ComplexityRuns
