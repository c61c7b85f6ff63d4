import Mathlib
import SourceGauge.Path

namespace SourceGauge.Proofs.PathOrder
open SourceGauge.Path

/-- The place of a component among all components. -/
def place (c : Component) : ℕ ×ₗ List Char := toLex (c.rank, c.text)

/-- The place of a path among all paths. -/
def order (path : List Char) : List (ℕ ×ₗ List Char) := (components path).map place

theorem place_injective : Function.Injective place := by
  intro a b h
  obtain ⟨hrank, htext⟩ := Prod.mk.inj (toLex.injective h)
  cases a <;> cases b <;> simp_all [Component.rank, Component.text]

theorem order_inj {p q : List Char} : order p = order q ↔ components p = components q :=
  place_injective.list_map.eq_iff

section

variable {α : Type*} [LinearOrder α]

theorem nil_le (bs : List α) : [] ≤ bs := by
  cases bs with
  | nil => exact le_rfl
  | cons b bs => exact le_of_lt (List.nil_lt_cons b bs)

theorem not_cons_le_nil (a : α) (as : List α) : ¬a :: as ≤ [] :=
  not_le_of_gt (List.nil_lt_cons a as)

/-- The first difference decides. -/
theorem cons_le_cons_iff {a b : α} {as bs : List α} :
    a :: as ≤ b :: bs ↔ a < b ∨ (a = b ∧ as ≤ bs) := by
  simp only [le_iff_lt_or_eq, List.cons_lt_cons_iff, List.cons.injEq, or_assoc, ← and_or_left]

end

theorem textLe_iff (as bs : List Char) : textLe as bs = true ↔ as ≤ bs := by
  induction as generalizing bs with
  | nil => simp [textLe, nil_le]
  | cons a as ih =>
    cases bs with
    | nil => simp [textLe, not_cons_le_nil]
    | cons b bs =>
      rw [textLe, cons_le_cons_iff]
      by_cases hab : a = b
      · simp [hab, ih]
      · simp [hab]

theorem le_iff_place (a b : Component) : a.le b = true ↔ place a ≤ place b := by
  simp [Component.le, place, Prod.Lex.toLex_le_toLex, textLe_iff]

theorem componentsLe_iff (as bs : List Component) :
    componentsLe as bs = true ↔ as.map place ≤ bs.map place := by
  induction as generalizing bs with
  | nil => simp [componentsLe, nil_le]
  | cons a as ih =>
    cases bs with
    | nil => simp [componentsLe, not_cons_le_nil]
    | cons b bs =>
      rw [componentsLe, List.map_cons, List.map_cons, cons_le_cons_iff]
      by_cases hab : a = b
      · simp [hab, ih]
      · have hne : place a ≠ place b := fun h => hab (place_injective h)
        simp [hab, hne, le_iff_place, le_iff_lt_or_eq]

theorem le_iff_order (p q : List Char) : Path.le p q = true ↔ order p ≤ order q :=
  componentsLe_iff (components p) (components q)

/-- Sorting brings paths with different components into strict order. -/
theorem pairwise_mergeSort_lt {paths : List (List Char)}
    (h : paths.Pairwise fun p q => components p ≠ components q) :
    (paths.mergeSort Path.le).Pairwise fun p q => order p < order q := by
  have hsorted : (paths.mergeSort Path.le).Pairwise fun p q => Path.le p q = true := by
    apply List.pairwise_mergeSort
    · intro p q r hpq hqr
      rw [le_iff_order] at *
      exact le_trans hpq hqr
    · intro p q
      rw [Bool.or_eq_true, le_iff_order, le_iff_order]
      exact le_total _ _
  have hdistinct : (paths.mergeSort Path.le).Pairwise fun p q => components p ≠ components q :=
    (List.mergeSort_perm paths Path.le).pairwise_iff (fun hne he => hne he.symm) |>.mpr h
  refine hsorted.imp₂ (fun p q hle hne => ?_) hdistinct
  exact lt_of_le_of_ne ((le_iff_order p q).mp hle) fun he => hne (order_inj.mp he)

/-- Two strictly increasing lists of the same paths are the same. -/
theorem eq_of_perm {as bs : List (List Char)} (hperm : as.Perm bs)
    (ha : as.Pairwise fun p q => order p < order q)
    (hb : bs.Pairwise fun p q => order p < order q) : as = bs := by
  refine hperm.eq_of_pairwise ?_ ha hb
  intro p q _ _ hpq hqp
  exact absurd hpq (lt_asymm hqp)

end SourceGauge.Proofs.PathOrder
