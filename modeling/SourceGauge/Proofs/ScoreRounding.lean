import SourceGauge.Maintainability
import SourceGauge.Proofs.DoubleArithmetic

namespace SourceGauge.Proofs.ScoreRounding
open Float.Model Float.Model.UnpackedFloat Maintainability DoublePacking DoubleRounding
  DoubleArithmetic

theorem denotes_zero : Denotes 0 0 := .zero (s := .positive) rfl

theorem denotes_half : Denotes 0.5 (1 / 2) :=
  denotes_of_parts (m := 2 ^ 52) (e := -53) rfl (by norm_num)

theorem denotes_one : Denotes 1 1 :=
  denotes_of_parts (m := 2 ^ 52) (e := -52) rfl (by norm_num)

theorem denotes_two : Denotes 2 2 :=
  denotes_of_parts (m := 2 ^ 52) (e := -51) rfl (by norm_num)

theorem denotes_hundred : Denotes 100 100 :=
  denotes_of_parts (m := 100 * 2 ^ 46) (e := -46) rfl (by norm_num)

theorem denotes_wholeFrom : Denotes 4503599627370496 (2 ^ 52) :=
  denotes_of_parts (m := 2 ^ 52) (e := 0) rfl (by norm_num)

section
variable {x : Float} {q a : ℚ}

/-- A double has 53 bits, so one from `2 ^ 52` on has none left for a fraction. -/
theorem floor_eq_self (h : Denotes x q) (hq : 2 ^ 52 ≤ q) : (⌊q⌋ : ℚ) = q := by
  cases h with
  | zero h => norm_num at hq
  | @finite s m e hm h =>
    cases s with
    | negative =>
      have hpos := size_pos hm e
      rw [signed] at hq
      linarith
    | positive =>
      obtain ⟨hcanonical, -⟩ := canonical_of_unpack h
      have he : 0 ≤ e := by
        by_contra hneg
        have hsize : (m : ℚ) * 2 ^ e < 2 ^ 53 * 2 ^ (-1 : ℤ) := by
          calc (m : ℚ) * 2 ^ e ≤ m * 2 ^ (-1 : ℤ) := by
                gcongr
                · norm_num
                · omega
            _ < 2 ^ 53 * 2 ^ (-1 : ℤ) := by
                gcongr
                exact_mod_cast hcanonical.lt
        norm_num [signed] at hq hsize
        linarith
      lift e to Nat using he
      rw [signed, zpow_natCast]
      exact_mod_cast Int.floor_natCast (m * 2 ^ e)

theorem denotes_cut (h : Denotes x q) (hq : 0 ≤ q) : Denotes (cut x) ⌊q⌋ := by
  have hlt := lt_iff h denotes_wholeFrom
  unfold cut
  by_cases hsmall : q < 2 ^ 52
  · rw [if_pos (hlt.mpr hsmall)]
    have hnonneg : 0 ≤ ⌊q⌋ := Int.floor_nonneg.mpr hq
    have hfloor : ⌊q⌋ < 2 ^ 53 := Int.floor_lt.mpr (hsmall.trans (by norm_num))
    have hround := rounds_toFloat x.toUInt64
    rw [toNat_toUInt64 h hq (hsmall.trans (by norm_num))] at hround
    rw [natCast_floor_eq_intCast_floor hq] at hround
    exact hround.exact (representable_int (by omega) rfl)
  · rw [if_neg (fun hx => hsmall (hlt.mp hx)), floor_eq_self h (not_lt.mp hsmall)]
    exact h

theorem denotes_floor (h : Denotes x q) : Denotes (floor x) ⌊q⌋ := by
  have hlt := lt_iff h denotes_zero
  unfold floor
  by_cases hq : q < 0
  · rw [if_pos (hlt.mpr hq)]
    have habove : Denotes (-cut (-x)) ⌈q⌉ := by
      have hcut := denotes_neg (denotes_cut (denotes_neg h) (by linarith))
      rwa [Int.floor_neg, Int.cast_neg, neg_neg] at hcut
    have hlt' := lt_iff h habove
    by_cases hfraction : q < ⌈q⌉
    · -- what has a fraction is small, so the whole number below is exact
      rw [if_pos (hlt'.mpr hfraction)]
      have hsmall : -q < 2 ^ 52 := by
        by_contra hlarge
        have hwhole := floor_eq_self (denotes_neg h) (not_lt.mp hlarge)
        rw [Int.floor_neg, Int.cast_neg, neg_inj] at hwhole
        exact hfraction.ne' hwhole
      have hfloor : ⌊q⌋ = ⌈q⌉ - 1 := by
        rw [Int.floor_eq_iff, Int.cast_sub, Int.cast_one, sub_add_cancel]
        exact ⟨by linarith [Int.ceil_lt_add_one q], hfraction⟩
      have hrange : -2 ^ 52 ≤ ⌊q⌋ ∧ ⌊q⌋ < 0 :=
        ⟨Int.le_floor.mpr (by push_cast; linarith), Int.floor_lt.mpr (by exact_mod_cast hq)⟩
      have hvalue : (⌈q⌉ : ℚ) - 1 = ⌊q⌋ := by
        rw [hfloor, Int.cast_sub, Int.cast_one]
      rw [← hvalue]
      exact (rounds_sub habove denotes_one).exact (representable_int (by omega) hvalue)
    · rw [if_neg (fun hx => hfraction (hlt'.mp hx))]
      have hwhole : ⌈q⌉ = ⌊q⌋ :=
        le_antisymm (Int.le_floor.mpr (not_lt.mp hfraction)) (Int.floor_le_ceil q)
      rwa [← hwhole]
  · rw [if_neg (fun hx => hq (hlt.mp hx))]
    exact denotes_cut h (not_lt.mp hq)

theorem atMost_floor (h : AtMost x a) (ha : a < 0) : AtMost (floor x) a := by
  obtain hinf | ⟨p, h, hp⟩ := h
  · have hneg : (-x).toModel.unpack = .infinity .positive := by rw [unpack_neg, hinf]; rfl
    have habove : (-(-x)).toModel.unpack = .infinity .negative := by rw [unpack_neg, hneg]; rfl
    have hcut : cut (-x) = -x := by
      apply if_neg
      rw [lt_iff_compare, hneg]
      nofun
    have hfloor : floor x = -(-x) := by
      rw [floor, if_pos (lt_of_atMost (.inl hinf) denotes_zero ha), hcut]
      apply if_neg
      rw [lt_iff_compare, hinf, habove]
      nofun
    exact .inl (hfloor ▸ habove)
  · exact .inr ⟨⌊p⌋, denotes_floor h, (Int.floor_le p).trans hp⟩

theorem denotes_clamp (h : Denotes x q) : Denotes (clamp x) (max 0 (min 100 q)) := by
  have hlow := lt_iff h denotes_zero
  have hhigh := lt_iff denotes_hundred h
  unfold clamp
  by_cases hq : q < 0
  · rw [if_pos (hlow.mpr hq), max_eq_left ((min_le_right _ _).trans hq.le)]
    exact denotes_zero
  · rw [if_neg (fun hx => hq (hlow.mp hx))]
    by_cases hq' : 100 < q
    · rw [if_pos (hhigh.mpr hq'), min_eq_left hq'.le, max_eq_right (by norm_num)]
      exact denotes_hundred
    · rw [if_neg (fun hx => hq' (hhigh.mp hx)), min_eq_right (not_lt.mp hq'),
        max_eq_right (not_lt.mp hq)]
      exact h

theorem clamp_atMost (h : AtMost x a) (ha : a < 0) : clamp x = 0 :=
  if_pos (lt_of_atMost h denotes_zero ha)

theorem denotes_roundHalfUp (h : Denotes x q) (hq : Representable (q + 1 / 2)) :
    Denotes (roundHalfUp x) ⌊q + 1 / 2⌋ :=
  denotes_floor ((rounds_add h denotes_half).exact hq)

theorem atMost_roundHalfUp (h : AtMost x a) (ha : a ≤ -2) : AtMost (roundHalfUp x) (-1 / 2) := by
  have hhalf : AtMost 0.5 (1 / 2) := .inr ⟨1 / 2, denotes_half, le_rfl⟩
  have hadd : AtMost (x + 0.5) (-1 / 2) :=
    (atMost_add h hhalf (by linarith)).mono (by linarith)
  exact atMost_floor hadd (by norm_num)

end

/-- What is left of a hundred points, without rounding. -/
def points (codeLines complexity : Nat) : ℚ := 100 - codeLines / 2 - 2 * complexity

section
variable {c k : Nat}

theorem denotes_codeLines (hc : c < 2 ^ 53) :
    Denotes (Float.ofNat c * codeLinePenalty) (c / 2) := by
  have hmul := rounds_mul (denotes_ofNat hc) denotes_half
  rw [mul_one_div] at hmul
  exact hmul.exact (representable_half (n := c) (by omega) (by push_cast; rfl))

theorem denotes_complexity (hk : k < 2 ^ 53) :
    Denotes (Float.ofNat k * complexityPenalty) (2 * k) := by
  have hmul := rounds_mul (denotes_ofNat hk) denotes_two
  rw [mul_comm] at hmul
  apply hmul.exact
  exact ⟨k, 1, by omega, by decide, by decide, by rw [zpow_one, mul_comm, Int.cast_natCast]⟩

theorem atLeast_codeLines (c : Nat) : AtLeast (Float.ofNat c * codeLinePenalty) (c / 8) := by
  by_cases hc : c < 2 ^ 53
  · exact .inr ⟨c / 2, denotes_codeLines hc, by linarith [c.cast_nonneg (α := ℚ)]⟩
  · have hlarge : (2 : ℚ) ^ 53 ≤ c := by exact_mod_cast not_lt.mp hc
    have hround := (rounds_ofNat (not_lt.mp hc)).high (by linarith)
    exact (atLeast_mul hround denotes_half (by norm_num) (by linarith)).mono (by linarith)

theorem atLeast_complexity (k : Nat) : AtLeast (Float.ofNat k * complexityPenalty) (k / 2) := by
  by_cases hk : k < 2 ^ 53
  · exact .inr ⟨2 * k, denotes_complexity hk, by linarith [k.cast_nonneg (α := ℚ)]⟩
  · have hlarge : (2 : ℚ) ^ 53 ≤ k := by exact_mod_cast not_lt.mp hk
    have hround := (rounds_ofNat (not_lt.mp hk)).high (by linarith)
    exact (atLeast_mul hround denotes_two (by norm_num) (by linarith)).mono (by linarith)

theorem denotes_left (hc : c < 2 ^ 53) :
    Denotes (100 - Float.ofNat c * codeLinePenalty) (100 - c / 2) := by
  apply (rounds_sub denotes_hundred (denotes_codeLines hc)).exact
  exact representable_half (n := 200 - c) (by omega) (by push_cast; ring)

theorem denotes_raw (h : c + 4 * k < 2 ^ 53) : Denotes (raw c k) (points c k) := by
  have hc : c < 2 ^ 53 := by omega
  have hk : k < 2 ^ 53 := by omega
  apply (rounds_sub (denotes_left hc) (denotes_complexity hk)).exact
  exact representable_half (n := 200 - (c + 4 * k : Nat)) (by omega) (by push_cast; ring)

theorem atMost_raw (h : 2 ^ 53 ≤ c + 4 * k) : AtMost (raw c k) (-2) := by
  have hc0 : (0 : ℚ) ≤ c := c.cast_nonneg
  have hk0 : (0 : ℚ) ≤ k := k.cast_nonneg
  by_cases hc : c < 2 ^ 52
  · have hk : (2 : ℚ) ^ 50 ≤ k := by exact_mod_cast (by omega : 2 ^ 50 ≤ k)
    have hleft : AtMost (100 - Float.ofNat c * codeLinePenalty) 100 :=
      .inr ⟨100 - c / 2, denotes_left (by omega), by linarith⟩
    exact (atMost_sub hleft (atLeast_complexity k) (by linarith)).mono (by linarith)
  · have hlarge : (2 : ℚ) ^ 52 ≤ c := by exact_mod_cast not_lt.mp hc
    have hhundred : AtMost 100 100 := .inr ⟨100, denotes_hundred, le_rfl⟩
    have hleft := atMost_sub hhundred (atLeast_codeLines c) (by linarith)
    exact (atMost_sub hleft (atLeast_complexity k) (by linarith)).mono (by linarith)

end

section
variable (c k : Nat)

theorem points_le : points c k ≤ 100 := by
  have hc : (0 : ℚ) ≤ c := c.cast_nonneg
  have hk : (0 : ℚ) ≤ k := k.cast_nonneg
  rw [points]
  linarith

theorem points_nonpos {c k : Nat} (h : 200 ≤ c + 4 * k) : points c k ≤ 0 := by
  have hcast : (200 : ℚ) ≤ c + 4 * k := by exact_mod_cast h
  rw [points]
  linarith

theorem points_add_half :
    points c k + 1 / 2 = ((201 - (c + 4 * k : Nat) : Int) : ℚ) / 2 := by
  rw [points]
  push_cast
  ring

theorem floor_points : ⌊points c k + 1 / 2⌋ = (201 - (c + 4 * k : Nat)) / 2 := by
  rw [points_add_half]
  exact Rat.floor_intCast_div_natCast _ 2

/-- Clamping before or after rounding half up is the same, as both ends are whole. -/
theorem floor_clamped (q : ℚ) :
    ⌊max 0 (min 100 q) + 1 / 2⌋ = max 0 (min 100 ⌊q + 1 / 2⌋) := by
  have hmono : Monotone fun q : ℚ => ⌊q + 1 / 2⌋ :=
    fun p q hpq => Int.floor_le_floor (by linarith)
  calc ⌊max 0 (min 100 q) + 1 / 2⌋
      = max ⌊(0 : ℚ) + 1 / 2⌋ (min ⌊(100 : ℚ) + 1 / 2⌋ ⌊q + 1 / 2⌋) :=
        (hmono.map_max ..).trans (congrArg _ (hmono.map_min ..))
    _ = max 0 (min 100 ⌊q + 1 / 2⌋) := by norm_num

/-- The clamped points are exact, also where the points themselves are not. -/
theorem denotes_clamp_raw :
    Denotes (clamp (raw c k)) (max 0 (min 100 (points c k))) := by
  by_cases h : c + 4 * k < 2 ^ 53
  · exact denotes_clamp (denotes_raw h)
  · have hpoints : min 100 (points c k) ≤ 0 :=
      (min_le_right _ _).trans (points_nonpos (by omega))
    rw [clamp_atMost (atMost_raw (not_lt.mp h)) (by norm_num), max_eq_left hpoints]
    exact denotes_zero

theorem representable_clamped :
    Representable (max 0 (min 100 (points c k)) + 1 / 2) := by
  rw [min_eq_right (points_le c k)]
  by_cases h : 200 ≤ c + 4 * k
  · rw [max_eq_left (points_nonpos h)]
    exact representable_half (n := 1) (by decide) (by norm_num)
  · have hcast : (c : ℚ) + 4 * k < 200 := by exact_mod_cast not_le.mp h
    rw [max_eq_right (by rw [points]; linarith)]
    exact representable_half (by omega) (points_add_half c k)

/-- The other order: the rounded points, clamped. -/
theorem denotes_clamp_roundHalfUp :
    Denotes (clamp (roundHalfUp (raw c k))) (max 0 (min 100 ⌊points c k + 1 / 2⌋) : Int) := by
  push_cast
  by_cases h : c + 4 * k < 2 ^ 53
  · apply denotes_clamp
    apply denotes_roundHalfUp (denotes_raw h)
    exact representable_half (by omega) (points_add_half c k)
  · have hround := atMost_roundHalfUp (atMost_raw (not_lt.mp h)) le_rfl
    have hfloor : ⌊points c k + 1 / 2⌋ ≤ 0 := by
      rw [floor_points]
      omega
    have hpoints : min (100 : ℚ) ⌊points c k + 1 / 2⌋ ≤ 0 :=
      (min_le_right _ _).trans (by exact_mod_cast hfloor)
    rw [clamp_atMost hround (by norm_num), max_eq_left hpoints]
    exact denotes_zero

/-- A whole number in range is what the conversion to a byte gives. -/
theorem toUInt8_eq {y : Float} {n : Int} (h : Denotes y n) (h0 : 0 ≤ n) (h100 : n ≤ 100) :
    (y.toUInt8.toNat : Int) = n := by
  lift n to Nat using h0
  have hlt : (n : ℚ) < 2 ^ 8 := by exact_mod_cast (by omega : n < 2 ^ 8)
  rw [Int.cast_natCast] at h
  rw [toNat_toUInt8 h n.cast_nonneg hlt, Nat.floor_natCast]

theorem score_eq_floor :
    (score c k : Int) = ⌊max 0 (min 100 (points c k)) + 1 / 2⌋ := by
  have hrange := floor_clamped (points c k)
  exact toUInt8_eq (denotes_roundHalfUp (denotes_clamp_raw c k) (representable_clamped c k))
    (by omega) (by omega)

theorem clamp_roundHalfUp_toUInt8 :
    (clamp (roundHalfUp (raw c k))).toUInt8.toNat = score c k := by
  have hscore := score_eq_floor c k
  rw [floor_clamped] at hscore
  have hswapped := toUInt8_eq (denotes_clamp_roundHalfUp c k) (by omega) (by omega)
  omega

theorem score_eq :
    score c k = if 200 ≤ c + 4 * k then 0 else (201 - (c + 4 * k)) / 2 := by
  have hscore := score_eq_floor c k
  rw [floor_clamped, floor_points] at hscore
  split <;> omega

/-- More code lines and more complexity never raise the score. -/
theorem score_le_score {c d k l : Nat} (hc : c ≤ d) (hk : k ≤ l) : score d l ≤ score c k := by
  rw [score_eq, score_eq]
  split <;> split <;> omega

/-- In doubles of any size the score is the one of exact arithmetic: half a point off per code line
and two per unit of complexity, kept within 0 and 100 and rounded half up. It does not matter which
of the two comes first, and no penalty raises the score. -/
theorem score_exact_antitone (codeLines complexity : Nat) :
    score codeLines complexity =
      (if 200 ≤ codeLines + 4 * complexity then 0
        else (201 - (codeLines + 4 * complexity)) / 2) ∧
    (score codeLines complexity : Int) =
      ⌊max 0 (min 100 ((100 : ℚ) - codeLines / 2 - 2 * complexity)) + 1 / 2⌋ ∧
    (score codeLines complexity : Int) =
      max 0 (min 100 ⌊(100 : ℚ) - codeLines / 2 - 2 * complexity + 1 / 2⌋) ∧
    (clamp (roundHalfUp (raw codeLines complexity))).toUInt8.toNat =
      score codeLines complexity ∧
    score codeLines complexity ≤ 100 ∧
    (∀ more, codeLines ≤ more → score more complexity ≤ score codeLines complexity) ∧
    (∀ more, complexity ≤ more → score codeLines more ≤ score codeLines complexity) := by
  have hfloor := score_eq_floor codeLines complexity
  have hclosed := score_eq codeLines complexity
  refine ⟨hclosed, hfloor, hfloor.trans (floor_clamped _),
    clamp_roundHalfUp_toUInt8 codeLines complexity, ?_, ?_, ?_⟩
  · rw [hclosed]
    split <;> omega
  · intro more hmore
    rw [hclosed, score_eq]
    split <;> split <;> omega
  · intro more hmore
    rw [hclosed, score_eq]
    split <;> split <;> omega

end

end SourceGauge.Proofs.ScoreRounding
