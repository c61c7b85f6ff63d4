import Mathlib

namespace SourceGauge.Proofs.DoublePacking
open Float.Model Float.Model.UnpackedFloat

/-- The mantissas and exponents that doubles have: 53 bits are in use, and fewer only under the
least exponent. -/
structure Canonical (m : Nat) (e : Int) : Prop where
  lt : m < 2 ^ 53
  least : -1074 ≤ e
  full : 2 ^ 52 ≤ m ∨ e = -1074

theorem toNat_pos {n : Nat} {m : BitVec n} (h : m ≠ 0#n) : 0 < m.toNat :=
  Nat.pos_of_ne_zero (fun h0 => h (BitVec.eq_of_toNat_eq (by simpa using h0)))

/-- A double by its three parts: sign, exponent and mantissa. -/
def ofParts (s : Sign) (e : BitVec 11) (m : BitVec 52) : UnpackedFloat :=
  if e = -1#11 then (if m = 0#52 then .infinity s else .notANumber)
  else if e = 0#11 then
    (if h : m = 0#52 then .zero s else .finite s m.toNat (-1074) (toNat_pos h))
  else .finite s (2 ^ 52 + m.toNat) (e.toNat - 1075) (by omega)

theorem unpack_eq_ofParts (b : BitVec 64) :
    UnpackedFloat.unpack .binary64 b =
      ofParts (Sign.ofBitVec (@unpackSign .binary64 b)) (@unpackExponent .binary64 b)
        (@unpackMantissa .binary64 b) := by
  have himplicit (m : BitVec 52) : (1#1 ++ m).toNat = 2 ^ 52 + m.toNat := by
    rw [BitVec.toNat_append, ← Nat.shiftLeft_add_eq_or_of_lt m.isLt]
    rfl
  unfold UnpackedFloat.unpack ofParts
  simp only [himplicit]
  split
  · rfl
  · split
    · rename_i he
      simp only [he]
      rfl
    · rfl

/-- The sign stands above the other 63 bits. -/
theorem sign_packComponents (s : Sign) (e : BitVec 11) (m : BitVec 52) :
    Sign.ofBitVec (@unpackSign .binary64 (packComponents .binary64 s e m)) = s := by
  have htop : (s.toBitVec ++ e ++ m).extractLsb' 63 1 = s.toBitVec := by
    rw [BitVec.extractLsb'_append_eq_of_le (by decide),
      BitVec.extractLsb'_append_eq_of_le (by decide)]
    exact BitVec.extractLsb'_eq_self
  change Sign.ofBitVec ((s.toBitVec ++ e ++ m).extractLsb' 63 1) = s
  rw [htop]
  cases s <;> rfl

theorem unpack_packComponents (s : Sign) (e : BitVec 11) (m : BitVec 52) :
    UnpackedFloat.unpack .binary64 (packComponents .binary64 s e m) = ofParts s e m := by
  rw [unpack_eq_ofParts, unpackMantissa_packComponents, unpackExponent_packComponents,
    sign_packComponents]

theorem unpack_pack_zero (s : Sign) : (Float.Model.pack (.zero s)).unpack = .zero s :=
  unpack_packComponents s 0 0

theorem unpack_pack_infinity (s : Sign) : (Float.Model.pack (.infinity s)).unpack = .infinity s :=
  unpack_packComponents s (-1) 0

section
variable {m : Nat} {e : Int}

theorem ofParts_normal (s : Sign) (hm : 0 < m) (h : Canonical m e) (hfull : 2 ^ 52 ≤ m)
    (he : e ≤ 971) :
    ofParts s (BitVec.ofNat 11 (e + 1075).toNat) (BitVec.ofNat 52 m) = .finite s m e hm := by
  have hlt := h.lt
  have hleast := h.least
  have hexponent : (BitVec.ofNat 11 (e + 1075).toNat).toNat = (e + 1075).toNat := by
    rw [BitVec.toNat_ofNat, Nat.mod_eq_of_lt (by omega)]
  have hmantissa : (BitVec.ofNat 52 m).toNat = m - 2 ^ 52 := by
    rw [BitVec.toNat_ofNat]
    omega
  have hfinite : BitVec.ofNat 11 (e + 1075).toNat ≠ -1#11 := by
    intro heq
    have htop : (e + 1075).toNat = 2047 := hexponent.symm.trans (congrArg BitVec.toNat heq)
    omega
  have hne : BitVec.ofNat 11 (e + 1075).toNat ≠ 0#11 := by
    intro heq
    have hzero : (e + 1075).toNat = 0 := hexponent.symm.trans (congrArg BitVec.toNat heq)
    omega
  rw [ofParts, if_neg hfinite, if_neg hne]
  congr 1 <;> omega

theorem ofParts_subnormal (s : Sign) (hm : 0 < m) (hlt : m < 2 ^ 52) :
    ofParts s 0#11 (BitVec.ofNat 52 m) = .finite s m (-1074) hm := by
  have hmantissa : (BitVec.ofNat 52 m).toNat = m := by
    rw [BitVec.toNat_ofNat, Nat.mod_eq_of_lt hlt]
  have hne : BitVec.ofNat 52 m ≠ 0#52 := by
    intro heq
    rw [heq, BitVec.toNat_ofNat, Nat.zero_mod] at hmantissa
    exact hm.ne hmantissa
  rw [ofParts, if_neg (by decide), if_pos rfl, dif_neg hne]
  congr 1

/-- Packing keeps every canonical number up to the largest exponent. -/
theorem unpack_pack_finite (s : Sign) (hm : 0 < m) (h : Canonical m e) :
    (Float.Model.pack (.finite s m e hm)).unpack =
      if e ≤ 971 then .finite s m e hm else .infinity s := by
  have hleast := h.least
  have hbias : (e + Format.binary64.exponentBias +
      Format.binary64.mantissaBitsWithoutImplicit).toNat = (e + 1075).toNat := by
    simp only [Format.exponentBias]
    norm_num
    omega
  have hlog : m.log2 + 1 = Format.binary64.mantissaBits ↔ 2 ^ 52 ≤ m := by
    have hlt : m.log2 < 53 := (Nat.log2_lt hm.ne').mpr h.lt
    rw [← Nat.le_log2 hm.ne']
    change m.log2 + 1 = 53 ↔ 52 ≤ m.log2
    omega
  change UnpackedFloat.unpack .binary64 (UnpackedFloat.pack .binary64 (.finite s m e hm)) = _
  rw [UnpackedFloat.pack]
  simp only [hbias, hlog]
  by_cases he : e ≤ 971
  · rw [if_neg (by norm_num; omega), if_pos he]
    by_cases hfull : 2 ^ 52 ≤ m
    · rw [if_pos hfull]
      exact (unpack_packComponents s _ _).trans (ofParts_normal s hm h hfull he)
    · obtain rfl : e = -1074 := h.full.resolve_left hfull
      rw [if_neg hfull]
      exact (unpack_packComponents s _ _).trans (ofParts_subnormal s hm (Nat.lt_of_not_le hfull))
  · rw [if_pos (by norm_num; omega), if_neg he]
    exact unpack_pack_infinity s

end

/-- Every double that is a number and not zero is canonical. -/
theorem canonical_of_unpack {v : Float.Model} {s : Sign} {m : Nat} {e : Int} {hm : 0 < m}
    (h : v.unpack = .finite s m e hm) : Canonical m e ∧ e ≤ 971 := by
  rw [Float.Model.unpack, unpack_eq_ofParts] at h
  generalize @unpackExponent .binary64 v.toBits.toBitVec = exponent at h
  generalize @unpackMantissa .binary64 v.toBits.toBitVec = mantissa at h
  have hexponent : exponent.toNat < 2 ^ 11 := exponent.isLt
  have hmantissa : mantissa.toNat < 2 ^ 52 := mantissa.isLt
  unfold ofParts at h
  split at h
  · split at h <;> cases h
  · rename_i hfinite
    split at h
    · split at h
      · cases h
      · cases h
        exact ⟨⟨by omega, le_refl _, .inr rfl⟩, by decide⟩
    · rename_i hne
      cases h
      have hpos : 0 < exponent.toNat := toNat_pos hne
      have htop : exponent.toNat ≠ 2047 := fun he => hfinite (BitVec.eq_of_toNat_eq he)
      exact ⟨⟨by omega, by omega, .inl (by omega)⟩, by omega⟩

end SourceGauge.Proofs.DoublePacking
