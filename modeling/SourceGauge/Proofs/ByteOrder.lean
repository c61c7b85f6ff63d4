import Mathlib

namespace SourceGauge.Proofs.ByteOrder

/-- The bytes of the UTF-8 form of a text, as numbers. -/
def utf8 (s : String) : List Nat := s.toUTF8.data.toList.map UInt8.toNat

/-- A code point behind `lead` with so many more digits to the base 64. -/
def digits (lead : Nat) : Nat → Nat → List Nat
  | 0, v => [lead + v]
  | n + 1, v => digits lead n (v / 64) ++ [128 + v % 64]

/-- The bytes of one code point. -/
def code (v : Nat) : List Nat :=
  if v < 0x80 then digits 0 0 v
  else if v < 0x800 then digits 0xc0 1 v
  else if v < 0x10000 then digits 0xe0 2 v
  else digits 0xf0 3 v

/-- The digits of the smaller code point fall behind before they end, whatever follows them. -/
theorem digits_append_lt (lead n : Nat) {v w : Nat} (h : v < w) (x y : List Nat) :
    digits lead n v ++ x < digits lead n w ++ y := by
  induction n generalizing v w x y with
  | zero =>
    simp only [digits, List.cons_append, List.nil_append]
    exact List.cons_lt_cons_iff.mpr (.inl (by omega))
  | succ n ih =>
    simp only [digits, List.append_assoc]
    by_cases hq : v / 64 < w / 64
    · exact ih hq _ _
    · have he : v / 64 = w / 64 := by omega
      have hlast : 128 + v % 64 < 128 + w % 64 := by omega
      rw [he]
      exact List.append_left_lt (List.cons_lt_cons_iff.mpr (.inl hlast))

theorem code_append_lt {v w : Nat} (h : v < w) (x y : List Nat) : code v ++ x < code w ++ y := by
  unfold code
  split_ifs
  all_goals first
    | exact digits_append_lt _ _ h x y
    | (exfalso; omega)
    | (simp only [digits, List.cons_append, List.nil_append]
       exact List.cons_lt_cons_iff.mpr (.inl (by omega)))

theorem map_toNat_utf8EncodeChar (c : Char) :
    (String.utf8EncodeChar c).map UInt8.toNat = code c.toNat := by
  have hc : c.toNat < 0x110000 := by
    rcases c.valid with hv | hv
    · exact Nat.lt_trans hv (by omega)
    · exact hv.2
  have hval : c.val.toNat = c.toNat := rfl
  simp only [String.utf8EncodeChar, hval, code]
  generalize c.toNat = v at hc
  split_ifs
  all_goals first
    | (exfalso; omega)
    | (simp [digits]
       omega)

theorem utf8_eq_flatMap (s : String) : utf8 s = s.toList.flatMap (fun c => code c.toNat) := by
  have hbytes : s.toUTF8.data.toList = s.toList.flatMap String.utf8EncodeChar := by
    rw [String.toUTF8_eq_toByteArray, ← String.utf8Encode_toList]
    exact List.toList_data_toByteArray
  rw [utf8, hbytes, List.map_flatMap]
  simp only [map_toNat_utf8EncodeChar]

theorem flatMap_code_lt {l m : List Char} (h : l < m) :
    l.flatMap (fun c => code c.toNat) < m.flatMap (fun c => code c.toNat) := by
  induction l generalizing m with
  | nil =>
    cases m with
    | nil => exact absurd h (List.lt_irrefl [])
    | cons d m =>
      have hne : code d.toNat ≠ [] := by
        unfold code
        split_ifs <;> simp [digits]
      obtain ⟨b, bs, he⟩ := List.exists_cons_of_ne_nil hne
      rw [List.flatMap_nil, List.flatMap_cons, he]
      exact List.nil_lt_cons b _
  | cons c l ih =>
    cases m with
    | nil => exact absurd h (List.not_lt_nil _)
    | cons d m =>
      rw [List.flatMap_cons, List.flatMap_cons]
      rcases List.cons_lt_cons_iff.mp h with hlt | ⟨rfl, hlt⟩
      · exact code_append_lt hlt _ _
      · exact List.append_left_lt (ih hlt)

/-- The order of texts is the order of their UTF-8 forms. -/
theorem utf8_lt_utf8_iff (s t : String) : utf8 s < utf8 t ↔ s < t := by
  have hmono : ∀ {a b : String}, a < b → utf8 a < utf8 b := by
    intro a b h
    rw [utf8_eq_flatMap, utf8_eq_flatMap]
    exact flatMap_code_lt h
  refine ⟨?_, hmono⟩
  intro h
  rcases lt_trichotomy s t with hlt | rfl | hlt
  · exact hlt
  · exact absurd h (lt_irrefl _)
  · exact absurd (hmono hlt) (lt_asymm h)

end SourceGauge.Proofs.ByteOrder
