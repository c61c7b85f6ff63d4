import Mathlib
import SourceGauge.Proofs.DoubleRounding

namespace SourceGauge.Proofs.DoubleArithmetic
open Float.Model Float.Model.UnpackedFloat DoublePacking DoubleRounding

section
variable {x y : Float} {p q a b : ℚ}

theorem size_pos {m : Nat} (hm : 0 < m) (e : Int) : (0 : ℚ) < m * 2 ^ e := by
  positivity

/-- The parts of a double are packed without loss, also under another sign. -/
theorem unpack_pack_parts {s : Sign} {m : Nat} {e : Int} {hm : 0 < m}
    (h : x.toModel.unpack = .finite s m e hm) (t : Sign) :
    (Float.Model.pack (.finite t m e hm)).unpack = .finite t m e hm := by
  obtain ⟨hcanonical, he⟩ := canonical_of_unpack h
  exact (unpack_pack_finite t hm hcanonical).trans (if_pos he)

theorem unpack_neg (x : Float) : (-x).toModel.unpack = x.toModel.unpack.neg := by
  change (Float.Model.pack x.toModel.unpack.neg).unpack = _
  cases h : x.toModel.unpack with
  | notANumber => rfl
  | infinity s => exact unpack_pack_infinity _
  | zero s => exact unpack_pack_zero _
  | finite s m e hm => exact unpack_pack_parts h _

theorem denotes_neg (h : Denotes x q) : Denotes (-x) (-q) := by
  cases h with
  | zero h =>
    rw [neg_zero]
    exact .zero (by rw [unpack_neg, h, UnpackedFloat.neg])
  | @finite s m e hm h =>
    have hsign : -signed s (m * 2 ^ e) = signed (-s) (m * 2 ^ e) := by
      cases s
      · exact neg_neg _
      · rfl
    rw [hsign]
    exact .finite (by rw [unpack_neg, h, UnpackedFloat.neg])

theorem atMost_neg (h : AtLeast x q) : AtMost (-x) (-q) := by
  obtain h | ⟨p, h, hp⟩ := h
  · exact .inl (by rw [unpack_neg, h]; rfl)
  · exact .inr ⟨-p, denotes_neg h, neg_le_neg hp⟩

theorem apply_decreaseExponent (s : Sign) {m : Nat} {e t : Int} (h : t ≤ e) :
    (s.apply (decreaseExponent m e t).1 : ℚ) * 2 ^ t = signed s (m * 2 ^ e) := by
  obtain ⟨k, rfl⟩ := Int.le.dest h
  have hk : (t + k - t).toNat = k := by omega
  rw [decreaseExponent, hk, Nat.shiftLeft_eq, zpow_add₀ two_ne_zero, zpow_natCast]
  cases s <;> simp only [Sign.apply, signed] <;> push_cast <;> ring

theorem add_eq (x y : Float) : x + y =
    .ofModel (.pack (UnpackedFloat.add .binary64 x.toModel.unpack y.toModel.unpack)) := rfl

theorem rounds_add (hx : Denotes x p) (hy : Denotes y q) : Rounds (x + y) (p + q) := by
  cases hx with
  | zero hx =>
    rw [zero_add, add_eq, hx]
    cases hy with
    | zero hy =>
      rw [hy, UnpackedFloat.add]
      split <;> exact rounds_pack_zero _
    | finite hy =>
      rw [hy]
      exact (Denotes.finite (unpack_pack_parts hy _)).rounds
  | @finite s₁ m₁ e₁ _ hx =>
    rw [add_eq, hx]
    cases hy with
    | zero hy =>
      rw [hy, add_zero]
      exact (Denotes.finite (unpack_pack_parts hx _)).rounds
    | @finite s₂ m₂ e₂ _ hy =>
      rw [hy, ← apply_decreaseExponent s₁ (min_le_left e₁ e₂),
        ← apply_decreaseExponent s₂ (min_le_right e₁ e₂), ← add_mul, ← Int.cast_add]
      exact rounds_normalize _ _ _

theorem atMost_add (hx : AtMost x a) (hy : AtMost y b) (h : a + b ≤ -1) :
    AtMost (x + y) ((a + b) / 2) := by
  have hinfinite (hsum : UnpackedFloat.add .binary64 x.toModel.unpack y.toModel.unpack =
      .infinity .negative) : AtMost (x + y) ((a + b) / 2) :=
    .inl (by rw [add_eq, hsum]; exact unpack_pack_infinity _)
  obtain hx | ⟨p, hx, hp⟩ := hx
  · obtain hy | ⟨q, hy, -⟩ := hy
    · exact hinfinite (by rw [hx, hy]; rfl)
    · cases hy with
      | zero hy => exact hinfinite (by rw [hx, hy]; rfl)
      | finite hy => exact hinfinite (by rw [hx, hy]; rfl)
  · obtain hy | ⟨q, hy, hq⟩ := hy
    · cases hx with
      | zero hx => exact hinfinite (by rw [hx, hy]; rfl)
      | finite hx => exact hinfinite (by rw [hx, hy]; rfl)
    · exact ((rounds_add hx hy).low (by linarith)).mono (by linarith)

theorem sub_parts (u v : UnpackedFloat) :
    UnpackedFloat.sub .binary64 u v = UnpackedFloat.add .binary64 u v.neg := by
  cases u with
  | notANumber => rfl
  | infinity s => cases v <;> rfl
  | zero s => cases v <;> rfl
  | finite s m e hm =>
    cases v with
    | notANumber => rfl
    | infinity t => rfl
    | zero t => rfl
    | finite t n f hn =>
      have hsign (i j : Int) : i - t.apply j = i + (-t).apply j := by
        cases t
        · exact sub_neg_eq_add i j
        · exact sub_eq_add_neg i j
      simp only [UnpackedFloat.sub, UnpackedFloat.add, UnpackedFloat.neg, hsign]

theorem sub_eq (x y : Float) : x - y = x + -y := by
  rw [add_eq, unpack_neg, ← sub_parts]
  rfl

theorem rounds_sub (hx : Denotes x p) (hy : Denotes y q) : Rounds (x - y) (p - q) := by
  rw [sub_eq, sub_eq_add_neg]
  exact rounds_add hx (denotes_neg hy)

theorem atMost_sub (hx : AtMost x a) (hy : AtLeast y b) (h : a - b ≤ -1) :
    AtMost (x - y) ((a - b) / 2) := by
  rw [sub_eq_add_neg] at h
  rw [sub_eq, sub_eq_add_neg]
  exact atMost_add hx (atMost_neg hy) h

theorem signed_mul (s t : Sign) (p q : ℚ) : signed s p * signed t q = signed (s * t) (p * q) := by
  cases s with
  | positive =>
    cases t
    · exact mul_neg p q
    · rfl
  | negative =>
    cases t
    · exact neg_mul_neg p q
    · exact neg_mul p q

theorem mul_eq (x y : Float) : x * y =
    .ofModel (.pack (UnpackedFloat.mul .binary64 x.toModel.unpack y.toModel.unpack)) := rfl

theorem rounds_mul (hx : Denotes x p) (hy : Denotes y q) : Rounds (x * y) (p * q) := by
  cases hx with
  | zero hx =>
    rw [mul_eq, hx, zero_mul]
    cases hy with
    | zero hy =>
      rw [hy]
      exact rounds_pack_zero _
    | finite hy =>
      rw [hy]
      exact rounds_pack_zero _
  | @finite s₁ m₁ e₁ hm₁ hx =>
    rw [mul_eq, hx]
    cases hy with
    | zero hy =>
      rw [hy, mul_zero]
      exact rounds_pack_zero _
    | @finite s₂ m₂ e₂ hm₂ hy =>
      have hsize : (m₁ * 2 ^ e₁ : ℚ) * (m₂ * 2 ^ e₂) = (m₁ * m₂ : Nat) * 2 ^ (e₁ + e₂) := by
        rw [zpow_add₀ two_ne_zero, Nat.cast_mul]
        ring
      rw [hy, signed_mul, hsize]
      apply rounds_roundWithAccuracy
      obtain ⟨hcanonical₁, -⟩ := canonical_of_unpack hx
      obtain ⟨hcanonical₂, -⟩ := canonical_of_unpack hy
      -- one full mantissa makes a long product, and two short ones a small product
      obtain hfull₁ | hleast₁ := hcanonical₁.full
      · exact .inl (hfull₁.trans (Nat.le_mul_of_pos_right _ hm₂))
      · obtain hfull₂ | hleast₂ := hcanonical₂.full
        · exact .inl (hfull₂.trans (Nat.le_mul_of_pos_left _ hm₁))
        · exact .inr (by omega)

theorem atLeast_mul (hx : AtLeast x a) (hy : Denotes y q) (hq : 0 < q) (h : 1 ≤ a * q) :
    AtLeast (x * y) (a * q / 2) := by
  obtain hx | ⟨p, hx, hp⟩ := hx
  · cases hy with
    | zero hy => exact absurd hq (lt_irrefl 0)
    | @finite s m e hm hy =>
      cases s with
      | negative =>
        exact absurd hq (not_lt.mpr (neg_nonpos.mpr (size_pos hm e).le))
      | positive =>
        exact .inl (by rw [mul_eq, hx, hy]; exact unpack_pack_infinity _)
  · have hle : a * q ≤ p * q := mul_le_mul_of_nonneg_right hp hq.le
    exact ((rounds_mul hx hy).high (by linarith)).mono (by linarith)

theorem size_lt_of_exponent_lt {m n : Nat} {e f : Int} (hm : m < 2 ^ 53) (hn : Canonical n f)
    (he : -1074 ≤ e) (h : e < f) : (m : ℚ) * 2 ^ e < n * 2 ^ f := by
  have hfull : 2 ^ 52 ≤ n := hn.full.resolve_right (by omega)
  calc (m : ℚ) * 2 ^ e < 2 ^ 53 * 2 ^ e := by
        gcongr
        exact_mod_cast hm
    _ = 2 ^ 52 * 2 ^ (e + 1) := by
        rw [zpow_add_one₀ two_ne_zero]
        ring
    _ ≤ n * 2 ^ f := by
        gcongr
        · exact_mod_cast hfull
        · norm_num
        · omega

/-- Canonical numbers compare as their exponents do, and under one exponent as their
mantissas. -/
theorem size_lt_iff {m n : Nat} {e f : Int} (hm : Canonical m e) (hn : Canonical n f) :
    (m : ℚ) * 2 ^ e < n * 2 ^ f ↔ (compare e f).then (compare m n) = .lt := by
  rw [Ordering.then_eq_lt, compare_lt_iff_lt, compare_eq_iff_eq, compare_lt_iff_lt]
  obtain hlt | rfl | hgt := lt_trichotomy e f
  · simp only [size_lt_of_exponent_lt hm.lt hn hm.least hlt, hlt, true_or]
  · have hpos : (0 : ℚ) < 2 ^ e := by positivity
    simp only [mul_lt_mul_iff_left₀ hpos, Nat.cast_lt, lt_irrefl, true_and, false_or]
  · have hsize := size_lt_of_exponent_lt hn.lt hm hn.least hgt
    simp only [not_lt.mpr hsize.le, not_lt.mpr hgt.le, hgt.ne', false_and, or_false]

theorem lt_iff_compare (x y : Float) :
    x < y ↔ UnpackedFloat.compare x.toModel.unpack y.toModel.unpack = some .lt := by
  change decide ((UnpackedFloat.compare x.toModel.unpack y.toModel.unpack == some .lt) = true) =
    true ↔ _
  rw [decide_eq_true_iff, beq_iff_eq]

theorem lt_iff (hx : Denotes x p) (hy : Denotes y q) : x < y ↔ p < q := by
  rw [lt_iff_compare]
  cases hx with
  | zero hx =>
    rw [hx]
    cases hy with
    | zero hy =>
      rw [hy]
      exact iff_of_false nofun (lt_irrefl 0)
    | @finite t n f hn hy =>
      rw [hy]
      have hpos := size_pos hn f
      cases t with
      | negative => exact iff_of_false nofun (not_lt.mpr (neg_nonpos.mpr hpos.le))
      | positive => exact iff_of_true rfl hpos
  | @finite s m e hm hx =>
    rw [hx]
    have hpos := size_pos hm e
    cases hy with
    | zero hy =>
      rw [hy]
      cases s with
      | negative => exact iff_of_true rfl (neg_neg_of_pos hpos)
      | positive => exact iff_of_false nofun (not_lt.mpr hpos.le)
    | @finite t n f hn hy =>
      rw [hy]
      have hpos' := size_pos hn f
      obtain ⟨hcanonical, -⟩ := canonical_of_unpack hx
      obtain ⟨hcanonical', -⟩ := canonical_of_unpack hy
      cases s with
      | negative =>
        cases t with
        | negative =>
          change some ((compare e f).then (compare m n)).swap = some .lt ↔
            -((m : ℚ) * 2 ^ e) < -(n * 2 ^ f)
          rw [neg_lt_neg_iff, size_lt_iff hcanonical' hcanonical, Ordering.swap_then,
            ← Std.OrientedCmp.eq_swap, ← Std.OrientedCmp.eq_swap, Option.some_inj]
        | positive => exact iff_of_true rfl ((neg_neg_of_pos hpos).trans hpos')
      | positive =>
        cases t with
        | negative =>
          exact iff_of_false nofun (not_lt.mpr ((neg_nonpos.mpr hpos'.le).trans hpos.le))
        | positive =>
          rw [UnpackedFloat.compare, Option.some_inj]
          exact (size_lt_iff hcanonical hcanonical').symm

/-- Negative infinity is below every number. -/
theorem lt_of_atMost (hx : AtMost x a) (hy : Denotes y q) (h : a < q) : x < y := by
  obtain hx | ⟨p, hx, hp⟩ := hx
  · rw [lt_iff_compare, hx]
    cases hy with
    | zero hy => rw [hy]; rfl
    | finite hy => rw [hy]; rfl
  · exact (lt_iff hx hy).mpr (hp.trans_lt h)

theorem roundToInt_positive (m : Nat) (e : Int) :
    roundToInt .positive m e = ⌊(m : ℚ) * 2 ^ e⌋ := by
  have hshift : roundToInt .positive m e = (m * 2 ^ e.toNat / 2 ^ (-e).toNat : Nat) := by
    have hk : (0 - (e - e.toNat)).toNat = (-e).toNat := by omega
    simp only [roundToInt, decreaseExponent, shiftToExponent, sub_zero, hk, mantissa_shiftRight,
      Nat.shiftLeft_eq, ExtendedMantissa.ofMantissaAndAccuracy, Sign.apply]
  have hvalue : (m : ℚ) * 2 ^ e = (m * 2 ^ e.toNat : Nat) / (2 ^ (-e).toNat : Nat) := by
    have he : e = e.toNat - (-e).toNat := by omega
    conv_lhs => rw [he, zpow_sub₀ two_ne_zero, zpow_natCast, zpow_natCast]
    push_cast
    ring
  rw [hshift, hvalue, Rat.floor_natCast_div_natCast, Int.natCast_div]

theorem toInt_eq_floor (hx : Denotes x q) (hq : 0 ≤ q) (l h : Int) :
    UnpackedFloat.toInt l h x.toModel.unpack = ⌊q⌋ := by
  cases hx with
  | zero hx => rw [hx, UnpackedFloat.toInt, Int.floor_zero]
  | @finite s m e hm hx =>
    cases s with
    | negative => exact absurd hq (not_le.mpr (neg_neg_of_pos (size_pos hm e)))
    | positive => rw [hx, UnpackedFloat.toInt, roundToInt_positive, signed]

theorem toNat_toUInt64 (hx : Denotes x q) (hq : 0 ≤ q) (hlt : q < 2 ^ 64) :
    x.toUInt64.toNat = ⌊q⌋₊ := by
  have hfloor : ⌊q⌋₊ < UInt64.size := (Nat.floor_lt hq).mpr (by exact_mod_cast hlt)
  rw [Float.toUInt64, Float.Model.toUInt64, UnpackedFloat.toUInt64, toInt_eq_floor hx hq,
    Int.floor_toNat, UInt64.toNat_ofNatClamp_of_lt hfloor]

theorem toNat_toUInt8 (hx : Denotes x q) (hq : 0 ≤ q) (hlt : q < 2 ^ 8) :
    x.toUInt8.toNat = ⌊q⌋₊ := by
  have hfloor : ⌊q⌋₊ < UInt8.size := (Nat.floor_lt hq).mpr (by exact_mod_cast hlt)
  rw [Float.toUInt8, Float.Model.toUInt8, UnpackedFloat.toUInt8, toInt_eq_floor hx hq,
    Int.floor_toNat, UInt8.toNat_ofNatClamp_of_lt hfloor]

theorem rounds_toFloat (n : UInt64) : Rounds n.toFloat n.toNat := by
  have hround := rounds_normalize n.toNat 0 .positive
  rw [zpow_zero, mul_one] at hround
  exact hround

theorem representable_int {n : Int} (hn : n.natAbs < 2 ^ 53) (hq : q = n) : Representable q :=
  ⟨n, 0, hn, by decide, by decide, by rw [hq, zpow_zero, mul_one]⟩

theorem representable_half {n : Int} (hn : n.natAbs < 2 ^ 53) (hq : q = n / 2) :
    Representable q :=
  ⟨n, -1, hn, by decide, by decide, by rw [hq, zpow_neg_one, div_eq_mul_inv]⟩

theorem denotes_of_parts {m : Nat} {e : Int} {hm : 0 < m}
    (h : x.toModel.unpack = .finite .positive m e hm) (hq : q = m * 2 ^ e) : Denotes x q := by
  rw [hq]
  exact .finite h

/-- Up to 53 bits a whole number is converted by way of a word. -/
theorem denotes_ofNat {n : Nat} (hn : n < 2 ^ 53) : Denotes (Float.ofNat n) n := by
  have hn' : Representable n := representable_int (n := n) (by omega) (Int.cast_natCast n).symm
  have hfloat : Denotes n.toUInt64.toFloat n := by
    have hround := rounds_toFloat n.toUInt64
    rw [UInt64.toNat_ofNat_of_lt' (hn.trans (by decide))] at hround
    exact hround.exact hn'
  have hone : Denotes (Float.ofBits 4607182418800017408) 1 :=
    denotes_of_parts (m := 2 ^ 52) (e := -52) rfl (by norm_num)
  have hofNat : Float.ofNat n = n.toUInt64.toFloat * Float.ofBits 4607182418800017408 := by
    change Float.ofScientific n false 0 = _
    rw [Float.ofScientific, dif_pos ⟨hn, by decide⟩]
    rfl
  have hmul := rounds_mul hfloat hone
  rw [mul_one, ← hofNat] at hmul
  exact hmul.exact hn'

/-- Beyond 53 bits a whole number is rounded as a mantissa with 53 zeros behind. -/
theorem rounds_ofNat {n : Nat} (hn : 2 ^ 53 ≤ n) : Rounds (Float.ofNat n) n := by
  have hofNat : Float.ofNat n = .ofModel (.pack (roundWithAccuracy .binary64 .positive
      (n <<< 53 * 10 ^ (0 : Int).toNat) (-53 + 0) .exact)) := by
    change Float.ofScientific n false 0 = _
    rw [Float.ofScientific, dif_neg (fun h => absurd h.1 (not_lt.mpr hn))]
    change Float.ofModel (.pack (UnpackedFloat.ofScientific .binary64 n 0)) = _
    have hlarge : (0 : Int) ≤ 2 ^ Format.binary64.exponentBits + n.log2 := by positivity
    rw [UnpackedFloat.ofScientific, dif_neg (by omega), if_neg (by decide),
      if_neg (not_lt.mpr (neg_nonpos.mpr hlarge)), if_pos le_rfl, UnpackedFloat.mul]
    rfl
  have hmantissa : n <<< 53 * 10 ^ (0 : Int).toNat = n * 2 ^ 53 := by
    rw [Nat.shiftLeft_eq, Int.toNat_zero, pow_zero, mul_one]
  have hvalue : (n : ℚ) = signed .positive ((n * 2 ^ 53 : Nat) * 2 ^ (-53 + 0 : Int)) := by
    rw [signed, Nat.cast_mul, mul_assoc]
    norm_num
  rw [hofNat, hmantissa, hvalue]
  exact rounds_roundWithAccuracy .positive (.inl (by omega))

end
end SourceGauge.Proofs.DoubleArithmetic
