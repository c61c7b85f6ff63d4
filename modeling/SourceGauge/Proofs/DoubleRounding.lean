import Mathlib
import SourceGauge.Proofs.DoublePacking

namespace SourceGauge.Proofs.DoubleRounding
open Float.Model Float.Model.UnpackedFloat DoublePacking

theorem mantissa_shiftRight (em : ExtendedMantissa) (k : Nat) :
    (em >>> k).mantissa = em.mantissa / 2 ^ k := by
  induction k with
  | zero => exact (Nat.div_one _).symm
  | succ k ih =>
    have hstep : em >>> (k + 1) = (em >>> k).shiftRightOne := rfl
    rw [hstep, ExtendedMantissa.shiftRightOne, ih, Nat.div_div_eq_div_mul, Nat.pow_succ]

theorem shiftRight_of_dvd {m k : Nat} (h : 2 ^ k ∣ m) :
    (⟨m, false, false⟩ : ExtendedMantissa) >>> k = ⟨m / 2 ^ k, false, false⟩ := by
  induction k with
  | zero => simp [HShiftRight.hShiftRight, Nat.repeat]
  | succ k ih =>
    have hk : 2 ^ k ∣ m := (pow_dvd_pow 2 (Nat.le_succ k)).trans h
    have heven : m / 2 ^ k % 2 = 0 := by
      obtain ⟨n, rfl⟩ := h
      rw [Nat.pow_succ, Nat.mul_assoc, Nat.mul_div_cancel_left _ (Nat.two_pow_pos k),
        Nat.mul_mod_right]
    have hstep : (⟨m, false, false⟩ : ExtendedMantissa) >>> (k + 1) =
        ((⟨m, false, false⟩ : ExtendedMantissa) >>> k).shiftRightOne := rfl
    rw [hstep, ih hk]
    simp [ExtendedMantissa.shiftRightOne, heven, Nat.div_div_eq_div_mul, Nat.pow_succ]

theorem roundedMantissa_bounds (em : ExtendedMantissa) :
    em.mantissa ≤ em.roundedMantissa ∧ em.roundedMantissa ≤ em.mantissa + 1 := by
  obtain ⟨m, round, sticky⟩ := em
  cases round <;> cases sticky <;>
    simp only [ExtendedMantissa.roundedMantissa, ExtendedMantissa.accuracy,
      Accuracy.roundToNearestEven] <;> omega

/-- How many bits of a mantissa are rounded away: those over 53, and those below `2 ^ -1074`. -/
def excess (m : Nat) (e : Int) : Nat := (max (m.log2 + e - 52) (-1074) - e).toNat

theorem targetExponent_eq (m : Nat) (e : Int) :
    Format.binary64.targetExponent (totalExponent m e) = max (m.log2 + e - 52) (-1074) := by
  simp only [Format.targetExponent, totalExponent, Format.mantissaBits, Format.minExponent]
  norm_num
  omega

theorem shiftToTargetExponent_eq (m : Nat) (e : Int) :
    shiftToTargetExponent .binary64 m e .exact =
      ((⟨m, false, false⟩ : ExtendedMantissa) >>> excess m e, e + excess m e) := by
  unfold shiftToTargetExponent shiftToExponent
  rw [targetExponent_eq]
  rfl

section
variable {m : Nat} {e : Int}

theorem excess_eq_zero (hm : m < 2 ^ 53) (he : -1074 ≤ e) : excess m e = 0 := by
  have hlog : m.log2 ≤ 52 := by
    by_cases h0 : m = 0
    · simp [h0]
    · exact Nat.lt_succ_iff.mp ((Nat.log2_lt h0).mpr hm)
  unfold excess
  omega

theorem excess_carry (he : -1074 ≤ e) : excess (2 ^ 53) e = 1 := by
  rw [excess, Nat.log2_two_pow]
  omega

theorem le_excess (m : Nat) (e : Int) : -1074 ≤ e + excess m e ∧ m.log2 ≤ 52 + excess m e := by
  unfold excess
  omega

theorem div_excess_lt (m : Nat) (e : Int) : m / 2 ^ excess m e < 2 ^ 53 := by
  rw [Nat.div_lt_iff_lt_mul (Nat.two_pow_pos _), ← Nat.pow_add]
  have hle := (le_excess m e).2
  calc m < 2 ^ (m.log2 + 1) := Nat.lt_log2_self
    _ ≤ 2 ^ (53 + excess m e) := Nat.pow_le_pow_right (by decide) (by omega)

/-- What is left of a mantissa fills its 53 bits, or the exponent is the least one. -/
theorem div_excess_full (hm : 2 ^ 52 ≤ m ∨ e ≤ -1074) :
    2 ^ 52 ≤ m / 2 ^ excess m e ∨ e + excess m e = -1074 := by
  by_cases hlog : 52 ≤ m.log2 ∧ -1074 ≤ m.log2 + e - 52
  · have hm0 : m ≠ 0 := by
      intro h0
      simp [h0] at hlog
    have hexcess : m.log2 = 52 + excess m e := by
      unfold excess
      omega
    apply Or.inl
    rw [Nat.le_div_iff_mul_le (Nat.two_pow_pos _), ← Nat.pow_add, ← hexcess]
    exact Nat.log2_self_le hm0
  · apply Or.inr
    have hlog' : 2 ^ 52 ≤ m → 52 ≤ m.log2 := fun h => (Nat.le_log2 (by omega)).mpr h
    unfold excess
    omega

/-- Where more bits are cut off than there are, the number is below the least one. -/
theorem least_of_lt_two_pow (hm : 0 < m) (h : m < 2 ^ excess m e) : e + excess m e = -1074 := by
  have hlog : m.log2 < excess m e := (Nat.log2_lt hm.ne').mpr h
  unfold excess at hlog ⊢
  omega

end

/-- A rounded mantissa is one of the two neighbours of the cut one, and the cut one itself where
nothing but zeros goes. One that reaches `2 ^ 53` is halved. -/
theorem roundWithAccuracy_eq (s : Sign) (m : Nat) (e : Int) :
    ∃ r, m / 2 ^ excess m e ≤ r ∧ r ≤ 2 ^ 53 ∧
      (2 ^ excess m e ∣ m → r = m / 2 ^ excess m e) ∧
      roundWithAccuracy .binary64 s m e .exact =
        if h : r = 0 then .zero s
        else if r < 2 ^ 53 then .finite s r (e + excess m e) (Nat.pos_of_ne_zero h)
        else .finite s (2 ^ 52) (e + excess m e + 1) (by decide) := by
  let em := (⟨m, false, false⟩ : ExtendedMantissa) >>> excess m e
  have hmantissa : em.mantissa = m / 2 ^ excess m e := mantissa_shiftRight _ _
  obtain ⟨hlow, hhigh⟩ := roundedMantissa_bounds em
  have hlt := div_excess_lt m e
  have hge := (le_excess m e).1
  have hround : roundWithAccuracy .binary64 s m e .exact =
      if h : ((⟨em.roundedMantissa, false, false⟩ : ExtendedMantissa) >>>
          excess em.roundedMantissa (e + excess m e)).mantissa = 0 then .zero s
      else .finite s _ (e + excess m e + excess em.roundedMantissa (e + excess m e))
        (Nat.pos_of_ne_zero h) := by
    rw [roundWithAccuracy, shiftToTargetExponent_eq]
    simp only [shiftToTargetExponent_eq]
    rfl
  refine ⟨em.roundedMantissa, by omega, by omega, ?_, ?_⟩
  · intro hdvd
    simp only [em, shiftRight_of_dvd hdvd]
    rfl
  · rw [hround]
    simp only [mantissa_shiftRight]
    by_cases hsmall : em.roundedMantissa < 2 ^ 53
    · simp only [excess_eq_zero hsmall hge, hsmall]
      simp
    · have hcarry : em.roundedMantissa = 2 ^ 53 := by omega
      simp only [hcarry, excess_carry hge]
      simp

/-- A size on the side of a sign. -/
def signed : Sign → ℚ → ℚ
  | .negative, q => -q
  | .positive, q => q

/-- The number that a double stands for. -/
inductive Denotes (x : Float) : ℚ → Prop
  | zero {s : Sign} (h : x.toModel.unpack = .zero s) : Denotes x 0
  | finite {s : Sign} {m : Nat} {e : Int} {hm : 0 < m} (h : x.toModel.unpack = .finite s m e hm) :
      Denotes x (signed s (m * 2 ^ e))

/-- Not above `q`: a number that is not, or negative infinity. -/
def AtMost (x : Float) (q : ℚ) : Prop :=
  x.toModel.unpack = .infinity .negative ∨ ∃ p, Denotes x p ∧ p ≤ q

/-- Not below `q`: a number that is not, or infinity. -/
def AtLeast (x : Float) (q : ℚ) : Prop :=
  x.toModel.unpack = .infinity .positive ∨ ∃ p, Denotes x p ∧ q ≤ p

theorem AtMost.mono {x : Float} {p q : ℚ} (h : AtMost x p) (hpq : p ≤ q) : AtMost x q := by
  obtain h | ⟨r, h, hr⟩ := h
  · exact .inl h
  · exact .inr ⟨r, h, hr.trans hpq⟩

theorem AtLeast.mono {x : Float} {p q : ℚ} (h : AtLeast x q) (hpq : p ≤ q) : AtLeast x p := by
  obtain h | ⟨r, h, hr⟩ := h
  · exact .inl h
  · exact .inr ⟨r, h, hpq.trans hr⟩

/-- The numbers with 53 bits and an exponent in range. -/
def Representable (q : ℚ) : Prop :=
  ∃ n j : Int, n.natAbs < 2 ^ 53 ∧ -1074 ≤ j ∧ j ≤ 971 ∧ q = n * 2 ^ j

/-- What is relied on of a rounded result: a number that fits is kept, and one from 1 on keeps its
sign and at least half its size. -/
structure Rounds (x : Float) (q : ℚ) : Prop where
  exact : Representable q → Denotes x q
  low : q ≤ -1 → AtMost x (q / 2)
  high : 1 ≤ q → AtLeast x (q / 2)

theorem Denotes.rounds {x : Float} {q : ℚ} (h : Denotes x q) : Rounds x q where
  exact _ := h
  low hq := .inr ⟨q, h, by linarith⟩
  high hq := .inr ⟨q, h, by linarith⟩

theorem rounds_pack_zero (s : Sign) : Rounds (.ofModel (.pack (.zero s))) 0 :=
  (Denotes.zero (unpack_pack_zero s)).rounds

section
variable {m : Nat} {e : Int}

theorem mul_zpow_shift (q : ℚ) (e : Int) (k : Nat) : q * 2 ^ e = q / 2 ^ k * 2 ^ (e + k) := by
  rw [zpow_add₀ two_ne_zero, zpow_natCast]
  field_simp

/-- Only zeros of a representable number are cut off. -/
theorem two_pow_excess_dvd {n : Nat} {j : Int} (hn : n < 2 ^ 53) (hj : -1074 ≤ j)
    (h : (m : ℚ) * 2 ^ e = n * 2 ^ j) : 2 ^ excess m e ∣ m := by
  by_cases hm : m = 0
  · simp [hm]
  by_cases hje : e ≤ j
  · -- the bits of `m` below `j` are zeros, and no more than those are cut off
    obtain ⟨k, rfl⟩ := Int.le.dest hje
    have hcast : (m : ℚ) = n * 2 ^ k := by
      rw [mul_zpow_shift m e k] at h
      have hdiv := mul_right_cancel₀ (zpow_ne_zero _ two_ne_zero) h
      rwa [div_eq_iff (by positivity)] at hdiv
    have heq : m = n * 2 ^ k := by exact_mod_cast hcast
    have hlog : m.log2 < 53 + k := by
      rw [Nat.log2_lt hm, heq, Nat.pow_add]
      exact Nat.mul_lt_mul_of_pos_right hn (Nat.two_pow_pos _)
    have hle : excess m e ≤ k := by
      unfold excess
      omega
    exact (pow_dvd_pow 2 hle).trans ⟨n, heq.trans (Nat.mul_comm _ _)⟩
  · have hle : (m : ℚ) * 2 ^ j ≤ n * 2 ^ j := by
      rw [← h]
      gcongr
      · norm_num
      · omega
    have hmn : m ≤ n := by exact_mod_cast le_of_mul_le_mul_right hle (by positivity)
    rw [excess_eq_zero (by omega) (by omega)]
    exact one_dvd m

/-- A cut mantissa is more than half the whole one. -/
theorem half_le_div_excess (h : 1 ≤ (m : ℚ) * 2 ^ e) :
    (m : ℚ) * 2 ^ e / 2 ≤ (m / 2 ^ excess m e : ℕ) * 2 ^ (e + excess m e) := by
  have hm : 0 < m := by
    apply Nat.pos_of_ne_zero
    intro h0
    norm_num [h0] at h
  have hle : 2 ^ excess m e ≤ m := by
    by_contra hlt
    have hltq : (m : ℚ) / 2 ^ excess m e < 1 := by
      rw [div_lt_one (by positivity)]
      exact_mod_cast Nat.lt_of_not_le hlt
    rw [mul_zpow_shift _ _ (excess m e), least_of_lt_two_pow hm (Nat.lt_of_not_le hlt)] at h
    have hsmall : (2 : ℚ) ^ (-1074 : ℤ) ≤ 1 := zpow_le_one_of_nonpos₀ (by norm_num) (by norm_num)
    nlinarith [show (0 : ℚ) < 2 ^ (-1074 : ℤ) by positivity]
  have hdouble : m ≤ 2 * (m / 2 ^ excess m e) * 2 ^ excess m e := by
    have hpos : 0 < m / 2 ^ excess m e := Nat.div_pos hle (Nat.two_pow_pos _)
    have hlt : m < 2 ^ excess m e * (m / 2 ^ excess m e + 1) :=
      Nat.lt_mul_div_succ m (Nat.two_pow_pos _)
    nlinarith
  have hdiv : (m : ℚ) / 2 ^ excess m e ≤ 2 * (m / 2 ^ excess m e : ℕ) := by
    rw [div_le_iff₀ (by positivity)]
    exact_mod_cast hdouble
  rw [mul_zpow_shift _ _ (excess m e)]
  nlinarith [show (0 : ℚ) < 2 ^ (e + excess m e) by positivity]

/-- Packing a canonical number keeps it, or it is too large. -/
theorem denotes_pack (s : Sign) (hm : 0 < m) (h : Canonical m e) :
    Denotes (.ofModel (.pack (.finite s m e hm))) (signed s (m * 2 ^ e)) ∨
      (Float.Model.pack (.finite s m e hm)).unpack = .infinity s ∧
        2 ^ 53 * 2 ^ (971 : ℤ) ≤ (m : ℚ) * 2 ^ e := by
  have hpack := unpack_pack_finite s hm h
  by_cases he : e ≤ 971
  · rw [if_pos he] at hpack
    exact .inl (.finite hpack)
  · rw [if_neg he] at hpack
    have hfull : 2 ^ 52 ≤ m := h.full.resolve_right (by omega)
    refine .inr ⟨hpack, ?_⟩
    calc (2 : ℚ) ^ 53 * 2 ^ (971 : ℤ) = 2 ^ 52 * 2 ^ (971 + 1 : ℤ) := by
          rw [zpow_add_one₀ two_ne_zero]
          ring
      _ ≤ (m : ℚ) * 2 ^ e := by
        gcongr
        · exact_mod_cast hfull
        · norm_num
        · omega

/-- What a rounded number is: a neighbour of the cut mantissa, or infinity where that is too
large. -/
theorem exists_rounded (s : Sign) (hm : 2 ^ 52 ≤ m ∨ e ≤ -1074) :
    ∃ r, m / 2 ^ excess m e ≤ r ∧ (2 ^ excess m e ∣ m → r = m / 2 ^ excess m e) ∧
      (Denotes (.ofModel (.pack (roundWithAccuracy .binary64 s m e .exact)))
          (signed s (r * 2 ^ (e + excess m e))) ∨
        (Float.Model.pack (roundWithAccuracy .binary64 s m e .exact)).unpack = .infinity s ∧
          2 ^ 53 * 2 ^ (971 : ℤ) ≤ (r : ℚ) * 2 ^ (e + excess m e)) := by
  obtain ⟨r, hlow, hhigh, hexact, hround⟩ := roundWithAccuracy_eq s m e
  refine ⟨r, hlow, hexact, ?_⟩
  rw [hround]
  have hleast := (le_excess m e).1
  by_cases hzero : r = 0
  · subst hzero
    have hvalue : signed s ((0 : Nat) * 2 ^ (e + excess m e)) = 0 := by
      cases s <;> simp [signed]
    rw [dif_pos rfl, hvalue]
    exact .inl (.zero (unpack_pack_zero s))
  rw [dif_neg hzero]
  by_cases hlt : r < 2 ^ 53
  · rw [if_pos hlt]
    apply denotes_pack
    exact ⟨hlt, hleast, (div_excess_full hm).imp_left (fun hfull => hfull.trans hlow)⟩
  · -- the carry: `2 ^ 53` units are `2 ^ 52` units of twice the size
    obtain rfl : r = 2 ^ 53 := by omega
    have hcarry : ((2 ^ 53 : Nat) : ℚ) * 2 ^ (e + excess m e) =
        (2 ^ 52 : Nat) * 2 ^ (e + excess m e + 1) := by
      rw [zpow_add_one₀ two_ne_zero]
      push_cast
      ring
    rw [if_neg hlt, hcarry]
    exact denotes_pack s (by decide) ⟨by norm_num, by omega, .inl le_rfl⟩

/-- Rounding on sizes: one with 53 bits is kept, and one from 1 on keeps at least half. -/
theorem exists_size (s : Sign) (hm : 2 ^ 52 ≤ m ∨ e ≤ -1074) :
    ∃ size : ℚ,
      (∀ (n : Nat) (j : Int), n < 2 ^ 53 → -1074 ≤ j → (m : ℚ) * 2 ^ e = n * 2 ^ j →
        size = m * 2 ^ e) ∧
      (1 ≤ (m : ℚ) * 2 ^ e → (m : ℚ) * 2 ^ e / 2 ≤ size) ∧
      (Denotes (.ofModel (.pack (roundWithAccuracy .binary64 s m e .exact))) (signed s size) ∨
        (Float.Model.pack (roundWithAccuracy .binary64 s m e .exact)).unpack = .infinity s ∧
          2 ^ 53 * 2 ^ (971 : ℤ) ≤ size) := by
  obtain ⟨r, hlow, hexact, hround⟩ := exists_rounded s hm
  refine ⟨r * 2 ^ (e + excess m e), ?_, ?_, hround⟩
  · intro n j hn hj h
    have hdvd := two_pow_excess_dvd hn hj h
    rw [hexact hdvd, mul_zpow_shift m e (excess m e), Nat.cast_div hdvd (by positivity),
      Nat.cast_pow, Nat.cast_ofNat]
  · intro h
    calc (m : ℚ) * 2 ^ e / 2 ≤ (m / 2 ^ excess m e : ℕ) * 2 ^ (e + excess m e) :=
          half_le_div_excess h
      _ ≤ r * 2 ^ (e + excess m e) := by gcongr

theorem abs_signed (s : Sign) (q : ℚ) : |signed s q| = |q| := by
  cases s
  · exact abs_neg q
  · rfl

theorem rounds_roundWithAccuracy (s : Sign) (hm : 2 ^ 52 ≤ m ∨ e ≤ -1074) :
    Rounds (.ofModel (.pack (roundWithAccuracy .binary64 s m e .exact)))
      (signed s (m * 2 ^ e)) := by
  have hnonneg : (0 : ℚ) ≤ m * 2 ^ e := by positivity
  obtain ⟨size, hexact, hhalf, hround⟩ := exists_size s hm
  constructor
  · rintro ⟨n, j, hn, hj, hj', hq⟩
    have hsize : (m : ℚ) * 2 ^ e = n.natAbs * 2 ^ j := by
      have habs := congrArg (|·|) hq
      simp only [abs_signed, abs_of_nonneg hnonneg, abs_mul] at habs
      rw [habs, Nat.cast_natAbs, Int.cast_abs, abs_of_pos (by positivity : (0 : ℚ) < 2 ^ j)]
    have hfits : (m : ℚ) * 2 ^ e < 2 ^ 53 * 2 ^ (971 : ℤ) := by
      calc (m : ℚ) * 2 ^ e = n.natAbs * 2 ^ j := hsize
        _ ≤ n.natAbs * 2 ^ (971 : ℤ) := by
          gcongr
          norm_num
        _ < 2 ^ 53 * 2 ^ (971 : ℤ) := by
          gcongr
          exact_mod_cast hn
    rw [hexact _ j hn hj hsize] at hround
    exact hround.resolve_right (fun hlarge => absurd hlarge.2 (not_le.mpr hfits))
  · intro hq
    cases s with
    | positive => exact absurd hq (by simp only [signed]; linarith)
    | negative =>
      have hsize := hhalf (by simp only [signed] at hq; linarith)
      apply hround.symm.imp And.left
      exact fun hround => ⟨_, hround, by simp only [signed]; linarith⟩
  · intro hq
    cases s with
    | positive => exact hround.symm.imp And.left (fun hround => ⟨_, hround, hhalf hq⟩)
    | negative => exact absurd hq (by simp only [signed]; linarith)

/-- A short mantissa is first written with more bits. -/
theorem rounds_round (s : Sign) (hm : 0 < m) :
    Rounds (.ofModel (.pack (UnpackedFloat.round .binary64 s m e))) (signed s (m * 2 ^ e)) := by
  let k := (e - max (m.log2 + e - 52) (-1074)).toNat
  have hround : UnpackedFloat.round .binary64 s m e =
      roundWithAccuracy .binary64 s (m * 2 ^ k) (e - k) .exact := by
    rw [UnpackedFloat.round, targetExponent_eq, decreaseExponent, Nat.shiftLeft_eq]
  have hvalue : (m : ℚ) * 2 ^ e = (m * 2 ^ k : Nat) * 2 ^ (e - k) := by
    rw [zpow_sub₀ two_ne_zero, zpow_natCast]
    push_cast
    field_simp
  rw [hround, hvalue]
  apply rounds_roundWithAccuracy
  have hfull : 2 ^ (m.log2 + k) ≤ m * 2 ^ k := by
    rw [Nat.pow_add]
    exact Nat.mul_le_mul_right _ (Nat.log2_self_le hm.ne')
  by_cases hlog : 52 ≤ m.log2 + k
  · exact .inl ((Nat.pow_le_pow_right (by decide) hlog).trans hfull)
  · exact .inr (by omega)

theorem rounds_normalize (n e : Int) (s : Sign) :
    Rounds (.ofModel (.pack (UnpackedFloat.normalize .binary64 n e s))) (n * 2 ^ e) := by
  obtain hneg | rfl | hpos := lt_trichotomy n 0
  · obtain ⟨k, rfl⟩ : ∃ k : Nat, n = -k := ⟨(-n).toNat, by omega⟩
    have hvalue : ((-k : Int) : ℚ) * 2 ^ e = signed .negative (k * 2 ^ e) := by
      rw [Int.cast_neg, Int.cast_natCast, neg_mul, signed]
    rw [UnpackedFloat.normalize, compare_lt_iff_lt.mpr hneg, neg_neg, Int.toNat_natCast, hvalue]
    exact rounds_round .negative (by omega)
  · rw [Int.cast_zero, zero_mul]
    exact rounds_pack_zero s
  · lift n to Nat using hpos.le
    rw [UnpackedFloat.normalize, compare_gt_iff_gt.mpr hpos]
    exact rounds_round .positive (by omega)

end

end SourceGauge.Proofs.DoubleRounding
