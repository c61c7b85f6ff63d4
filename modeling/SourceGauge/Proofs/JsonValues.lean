import Mathlib
import SourceGauge.Json.Printer
import SourceGauge.Json.Reader

namespace SourceGauge.Proofs.JsonValues
open Json

/-- What can stand behind a printed value. -/
def Closes (rest : List Char) : Prop := ∀ c ∈ rest.head?, c = ',' ∨ c = '\n'

/-- A printed value opens with a character that is neither blank nor a closing bracket. -/
def Opens (text : List Char) : Prop :=
  ∃ c tail, text = c :: tail ∧ c ∉ [' ', '\n', '\t', '\r'] ∧ c ≠ ']'

/-- The text of a value, and nothing else, is what a reader takes for the value, blanks before it
aside. -/
structure Written (reader : Reader α) (text : List Char) (a : α) : Prop where
  opens : Opens text
  reads : ∀ cs rest, skipBlanks cs = text ++ rest → Closes rest → reader cs = .ok (a, rest)

theorem ok_bind (a : α) (f : α → Except ε β) : (Except.ok a >>= f) = f a := rfl

theorem pure_ok (a : α) : (pure a : Except ε α) = .ok a := rfl

theorem closes_comma (rest : List Char) : Closes (',' :: rest) := by
  intro c hc
  exact .inl (by simpa using hc.symm)

theorem closes_newline (depth : Nat) (rest : List Char) : Closes (newline depth ++ rest) := by
  intro c hc
  exact .inr (by simpa [newline] using hc.symm)

theorem skipBlanks_opens {text : List Char} (h : Opens text) (rest : List Char) :
    skipBlanks (text ++ rest) = text ++ rest := by
  obtain ⟨c, tail, rfl, hc, _⟩ := h
  simp only [List.mem_cons, not_or] at hc
  simp [skipBlanks, hc]

theorem skipBlanks_newline (depth : Nat) (cs : List Char) :
    skipBlanks (newline depth ++ cs) = skipBlanks cs := by
  have hspaces : ∀ n, skipBlanks (List.replicate n ' ' ++ cs) = skipBlanks cs := by
    intro n
    induction n with
    | zero => rfl
    | succ n ih =>
      rw [List.replicate_succ, List.cons_append, skipBlanks, List.dropWhile_cons_of_pos (by rfl)]
      exact ih
  rw [newline, List.cons_append, skipBlanks, List.dropWhile_cons_of_pos (by rfl)]
  exact hspaces _

theorem skipBlanks_comma (cs : List Char) : skipBlanks (',' :: cs) = ',' :: cs := rfl

theorem hexValue?_hexDigit : ∀ n < 16, Text.hexValue? (hexDigit n) = some n := by decide

theorem hexStart_four (high : Option Nat) (a b c d : Char) (rest : List Char) :
    hexStart high (a :: b :: c :: d :: rest) = .ok (.hex 4 0 high) := by
  have ha := a.utf8Size_pos
  have hb := b.utf8Size_pos
  have hc := c.utf8Size_pos
  have hd := d.utf8Size_pos
  simp only [hexStart, List.take_succ_cons, List.take_zero, Text.byteLength]
  rw [if_neg (by omega)]

theorem hexDone_small {n : Nat} (h : n < 32) :
    hexDone false n none = .ok (.plain, [Char.ofNat n]) := by
  have hlow : ¬0xDC00 ≤ n := by omega
  have hhigh : ¬0xD800 ≤ n := by omega
  simp [hexDone, hlow, hhigh]

/-- Four digits of a control character are read as the character. -/
theorem stringFrom_control {c : Char} (h : c.toNat < 32) (held rest : List Char) :
    stringFrom false .plain held
        ('\\' :: 'u' :: '0' :: '0' :: hexDigit (c.toNat / 16) :: hexDigit (c.toNat % 16) :: rest) =
      stringFrom false .plain (c :: held) rest := by
  have hfirst := hexValue?_hexDigit (c.toNat / 16) (by omega)
  have hsecond := hexValue?_hexDigit (c.toNat % 16) (by omega)
  have hzero : Text.hexValue? '0' = some 0 := by decide
  have hsum : c.toNat / 16 * 16 + c.toNat % 16 = c.toNat := by omega
  have hback : Char.ofNat c.toNat = c := Char.ofNat_toNat c
  simp [stringFrom, hexStart_four, hzero, hfirst, hsecond, hsum, hexDone_small h, hback]

theorem stringFrom_escapeChar (c : Char) (held rest : List Char) :
    stringFrom false .plain held (escapeChar c ++ rest) =
      stringFrom false .plain (c :: held) rest := by
  unfold escapeChar
  split_ifs with hquote hbackslash hback hfeed hline hreturn htab hcontrol
  · subst hquote; rfl
  · subst hbackslash; rfl
  · subst hback; rfl
  · subst hfeed; rfl
  · subst hline; rfl
  · subst hreturn; rfl
  · subst htab; rfl
  · exact stringFrom_control hcontrol held rest
  · rw [List.singleton_append, stringFrom, if_neg hquote, if_neg hbackslash, if_neg hcontrol]

theorem stringFrom_escaped (s held rest : List Char) :
    stringFrom false .plain held (s.flatMap escapeChar ++ '"' :: rest) =
      .ok (held.reverse ++ s, rest) := by
  induction s generalizing held with
  | nil => simp [stringFrom]
  | cons c s ih =>
    rw [List.flatMap_cons, List.append_assoc, stringFrom_escapeChar, ih]
    simp

/-- Whatever a string holds, its quoted form is read back. -/
theorem stringBody_escaped (s rest : List Char) :
    stringBody (s.flatMap escapeChar ++ '"' :: rest) = .ok (s, rest) :=
  stringFrom_escaped s [] rest

theorem opens_quoted (s : String) : Opens (quoted s) := ⟨'"', _, rfl, by decide, by decide⟩

theorem quoted_append (s : String) (rest : List Char) :
    quoted s ++ rest = '"' :: (s.toList.flatMap escapeChar ++ '"' :: rest) := by
  simp [quoted]

theorem written_string (s : String) : Written string (quoted s) s := by
  refine ⟨opens_quoted s, ?_⟩
  intro cs rest hcs _
  rw [quoted_append] at hcs
  simp only [string, hcs, stringBody_escaped]
  simp [Except.map]

theorem digitsValue_decimal (n : Nat) : digitsValue (decimal n) = n :=
  (Nat.ofDigitChars_eq_foldl (b := 10)).symm.trans Nat.ofDigitChars_ten_toDigits

theorem isDigit_decimal {n : Nat} : ∀ c ∈ decimal n, c.isDigit = true :=
  fun _ hc => Nat.isDigit_of_mem_toDigits (by decide) (by decide) hc

/-- Only zero is written with a zero in front. -/
theorem head?_decimal {n : Nat} (h : (decimal n).head? = some '0') : n = 0 := by
  induction n using Nat.strongRecOn with
  | ind n ih =>
    rw [decimal, Nat.toDigits_eq_if (by decide)] at h
    split at h
    · rename_i hlt
      have hdigit : n.digitChar = '0' := by simpa using h
      have hall : ∀ m < 10, m.digitChar = '0' → m = 0 := by decide
      exact hall n hlt hdigit
    · rename_i hge
      rw [List.head?_append_of_ne_nil _ Nat.toDigits_ne_nil] at h
      have hzero := ih (n / 10) (by omega) h
      omega

theorem decimal_cons (n : Nat) : ∃ d ds, decimal n = d :: ds ∧ d.isDigit = true := by
  obtain ⟨d, ds, he⟩ := List.exists_cons_of_ne_nil (Nat.toDigits_ne_nil (b := 10) (n := n))
  exact ⟨d, ds, he, isDigit_decimal d (by rw [decimal, he]; simp)⟩

theorem closes_head {rest : List Char} (h : Closes rest) :
    rest = [] ∨ ∃ c tail, rest = c :: tail ∧ (c = ',' ∨ c = '\n') := by
  cases rest with
  | nil => exact .inl rfl
  | cons c tail => exact .inr ⟨c, tail, rfl, h c rfl⟩

theorem someDigits_decimal (n : Nat) {rest : List Char} (h : Closes rest) :
    someDigits (decimal n ++ rest) = .ok (decimal n, rest) := by
  have hstop : rest.takeWhile Char.isDigit = [] ∧ rest.dropWhile Char.isDigit = rest := by
    rcases closes_head h with rfl | ⟨c, tail, rfl, rfl | rfl⟩
    · exact ⟨rfl, rfl⟩
    · exact ⟨rfl, rfl⟩
    · exact ⟨rfl, rfl⟩
  have htake : (decimal n ++ rest).takeWhile Char.isDigit = decimal n := by
    rw [List.takeWhile_append_of_pos isDigit_decimal, hstop.1, List.append_nil]
  have hdrop : (decimal n ++ rest).dropWhile Char.isDigit = rest := by
    rw [List.dropWhile_append_of_pos isDigit_decimal, hstop.2]
  obtain ⟨d, ds, he, hd⟩ := decimal_cons n
  rw [he, List.cons_append] at htake hdrop ⊢
  rw [someDigits, if_pos hd, htake, hdrop]

theorem integerDigits_decimal (n : Nat) {rest : List Char} (h : Closes rest) :
    integerDigits (decimal n ++ rest) = .ok (decimal n, rest) := by
  -- A zero in front is refused unless it stands alone.
  have hzero : ¬((decimal n).head? = some '0' ∧ (decimal n).length ≠ 1) := by
    rintro ⟨hhead, hlength⟩
    rw [head?_decimal hhead] at hlength
    exact hlength rfl
  rw [integerDigits, someDigits_decimal n h, ok_bind]
  exact if_neg (by simpa using hzero)

theorem fraction_closes {rest : List Char} (h : Closes rest) :
    fraction rest = .ok (none, rest) := by
  rcases closes_head h with rfl | ⟨c, tail, rfl, rfl | rfl⟩ <;> rfl

theorem exponent_closes {rest : List Char} (h : Closes rest) :
    exponent rest = .ok (none, rest) := by
  rcases closes_head h with rfl | ⟨c, tail, rfl, rfl | rfl⟩ <;> rfl

theorem number_decimal {n : Nat} (hn : n < capacity 64) {rest : List Char} (h : Closes rest) :
    number (decimal n ++ rest) = .ok (some n, rest) := by
  have hsign : (decimal n ++ rest).head? ≠ some '-' := by
    obtain ⟨d, ds, he, hd⟩ := decimal_cons n
    rw [he]
    rintro hminus
    obtain rfl : d = '-' := by simpa using hminus
    exact absurd hd (by decide)
  simp only [number, hsign, ↓reduceIte, integerDigits_decimal n h, fraction_closes h,
    exponent_closes h, ok_bind, digitsValue_decimal, hn]
  rfl

theorem opens_decimal (n : Nat) : Opens (decimal n) := by
  obtain ⟨d, ds, he, hd⟩ := decimal_cons n
  refine ⟨d, ds, he, ?_, ?_⟩
  · intro hm
    simp only [List.mem_cons, List.not_mem_nil, or_false] at hm
    rcases hm with rfl | rfl | rfl | rfl <;> exact absurd hd (by decide)
  · rintro rfl
    exact absurd hd (by decide)

/-- A number that fits into a field of at most 64 bits is read back. -/
theorem written_natural {n bits : Nat} (h : n < 2 ^ bits) (hbits : bits ≤ 64) :
    Written (natural (capacity bits)) (decimal n) n := by
  have hbound : n < capacity bits := h
  have hlarge : n < capacity 64 := Nat.lt_of_lt_of_le h (Nat.pow_le_pow_right (by decide) hbits)
  refine ⟨opens_decimal n, ?_⟩
  intro cs rest hcs hrest
  have hnumber := number_decimal hlarge hrest
  obtain ⟨d, ds, he, hd⟩ := decimal_cons n
  rw [he, List.cons_append] at hcs hnumber
  simp only [natural, hcs, hd, Bool.or_true, ↓reduceIte, hnumber, ok_bind, hbound]
  rfl

/-- The items of printed brackets after the first one. -/
def following (depth : Nat) (items : List (List Char)) : List Char :=
  items.flatMap fun item => ',' :: newline (depth + 1) ++ item

theorem enclose_cons_append (opening closing : Char) (depth : Nat) (item : List Char)
    (items : List (List Char)) (rest : List Char) :
    enclose opening closing depth (item :: items) ++ rest =
      opening :: (newline (depth + 1) ++ (item ++
        (following depth items ++ (newline depth ++ closing :: rest)))) := by
  simp [enclose, following]

theorem following_cons_append (depth : Nat) (item : List Char) (items : List (List Char))
    (rest : List Char) :
    following depth (item :: items) ++ rest =
      ',' :: (newline (depth + 1) ++ (item ++ (following depth items ++ rest))) := by
  simp [following]

theorem closes_following (depth : Nat) (items : List (List Char)) (rest : List Char) :
    Closes (following depth items ++ (newline depth ++ rest)) := by
  cases items with
  | nil => exact closes_newline depth rest
  | cons item items =>
    rw [following_cons_append]
    exact closes_comma _

/-- Every item takes a character, so a bound by the length of the text is one by the items. -/
theorem length_le_following (depth : Nat) (items : List (List Char)) :
    items.length ≤ (following depth items).length := by
  induction items with
  | nil => simp
  | cons item items ih =>
    have hsplit := congrArg List.length (following_cons_append depth item items [])
    simp only [List.append_nil, List.length_cons, List.length_append] at hsplit ⊢
    omega

theorem opens_enclose {opening : Char} (closing : Char) (depth : Nat) (items : List (List Char))
    (hblank : opening ∉ [' ', '\n', '\t', '\r']) (hbracket : opening ≠ ']') :
    Opens (enclose opening closing depth items) := by
  cases items with
  | nil => exact ⟨opening, [closing], rfl, hblank, hbracket⟩
  | cons item items => exact ⟨opening, _, rfl, hblank, hbracket⟩

theorem nextItem_first (depth : Nat) {text : List Char} (h : Opens text) (rest : List Char) :
    nextItem true (newline depth ++ (text ++ rest)) = .ok (some (text ++ rest)) := by
  have hskip := skipBlanks_opens h rest
  obtain ⟨c, tail, rfl, _, hc⟩ := h
  rw [List.cons_append] at hskip ⊢
  rw [nextItem, skipBlanks_newline, hskip]
  simp

theorem nextItem_next (depth : Nat) {text : List Char} (h : Opens text) (rest : List Char) :
    nextItem false (',' :: (newline depth ++ (text ++ rest))) = .ok (some (text ++ rest)) := by
  have hskip := skipBlanks_opens h rest
  rw [← skipBlanks_newline depth] at hskip
  obtain ⟨c, tail, rfl, _, hc⟩ := h
  rw [List.cons_append] at hskip ⊢
  rw [nextItem, skipBlanks_comma]
  simp [hskip, hc]

theorem closeArray_newline (depth : Nat) (rest : List Char) :
    closeArray (newline depth ++ ']' :: rest) = .ok rest := by
  rw [closeArray, skipBlanks_newline]
  rfl

theorem nextItem_end (first : Bool) (depth : Nat) (rest : List Char) :
    nextItem first (newline depth ++ ']' :: rest) = .ok none := by
  rw [nextItem, skipBlanks_newline]
  rfl

/-- A step of the loop over an item that was announced. -/
theorem itemsFrom_step {item : Reader α} {text : List Char} {a : α} (h : Written item text a)
    {first : Bool} {cs rest : List Char} (hnext : nextItem first cs = .ok (some (text ++ rest)))
    (hrest : Closes rest) (fuel : Nat) (held : List α) :
    itemsFrom item (fuel + 1) first held cs = itemsFrom item fuel false (a :: held) rest := by
  have hread := h.reads (text ++ rest) rest (skipBlanks_opens h.opens rest) hrest
  rw [itemsFrom, hnext, ok_bind]
  simp only [hread, ok_bind]

theorem itemsFrom_following {item : Reader α} {print : α → List Char} {as : List α}
    (h : ∀ a ∈ as, Written item (print a) a) (depth : Nat) {fuel : Nat} (hf : as.length < fuel)
    (held : List α) (rest : List Char) :
    itemsFrom item fuel false held
        (following depth (as.map print) ++ (newline depth ++ ']' :: rest)) =
      .ok (held.reverse ++ as, rest) := by
  induction as generalizing fuel held with
  | nil =>
    obtain ⟨fuel, rfl⟩ := Nat.exists_eq_succ_of_ne_zero (Nat.ne_zero_of_lt hf)
    have hend : following depth ([].map print) ++ (newline depth ++ ']' :: rest) =
      newline depth ++ ']' :: rest := rfl
    rw [hend, Nat.succ_eq_add_one, itemsFrom, nextItem_end, ok_bind]
    simp [closeArray_newline, ok_bind, pure_ok]
  | cons a as ih =>
    obtain ⟨fuel, rfl⟩ := Nat.exists_eq_succ_of_ne_zero (Nat.ne_zero_of_lt hf)
    have hfirst := h a (by simp)
    rw [List.map_cons, following_cons_append, Nat.succ_eq_add_one,
      itemsFrom_step hfirst (nextItem_next _ hfirst.opens _) (closes_following depth _ _),
      ih (fun b hb => h b (by simp [hb])) (by simpa using hf)]
    simp

/-- An array is read back when each of its items is. -/
theorem written_array {item : Reader α} {print : α → List Char} {as : List α}
    (h : ∀ a ∈ as, Written item (print a) a) (depth : Nat) :
    Written (array item) (enclose '[' ']' depth (as.map print)) as := by
  refine ⟨opens_enclose ']' depth _ (by decide) (by decide), ?_⟩
  intro cs rest hcs _
  cases as with
  | nil =>
    have hempty : skipBlanks cs = '[' :: ']' :: rest := hcs
    simp only [array, hempty]
    rfl
  | cons a as =>
    rw [List.map_cons, enclose_cons_append] at hcs
    have hfirst := h a (by simp)
    have hrest : ∀ b ∈ as, Written item (print b) b := fun b hb => h b (by simp [hb])
    have hlength := length_le_following depth (as.map print)
    simp only [array, hcs]
    rw [itemsFrom_step hfirst (nextItem_first _ hfirst.opens _) (closes_following depth _ _),
      itemsFrom_following hrest]
    · rfl
    -- The fuel is the length of the text, and every item left takes part of it.
    · simp only [List.length_append, List.length_map, List.length_cons] at hlength ⊢
      omega

/-- Reading members in the order in which they are printed fills the fields from `s` to `t`. -/
inductive Fills (take : String → σ → Reader σ) : σ → List (List Char) → σ → Prop
  | nil (s : σ) : Fills take s [] s
  | cons {s next t : σ} {members : List (List Char)} (name : String) (text : List Char)
      (first : ∀ rest, Closes rest →
        take name s (':' :: ' ' :: (text ++ rest)) = .ok (next, rest))
      (more : Fills take next members t) : Fills take s (member name text :: members) t

theorem colon_colon (rest : List Char) : colon (':' :: rest) = .ok rest := rfl

/-- A field that is not set yet takes the value behind its name. -/
theorem once_written {value : Reader α} {text : List Char} {a : α} (h : Written value text a)
    (set : Option α → σ) {rest : List Char} (hrest : Closes rest) :
    once none value set (':' :: ' ' :: (text ++ rest)) = .ok (set (some a), rest) := by
  have hskip : skipBlanks (' ' :: (text ++ rest)) = text ++ rest := skipBlanks_opens h.opens rest
  simp only [once, colon_colon, ok_bind, h.reads _ rest hskip hrest]
  rfl

theorem Fills.once {take : String → σ → Reader σ} {s t : σ} {name : String} {value : Reader α}
    {text : List Char} {a : α} {set : Option α → σ} {members : List (List Char)}
    (h : Written value text a) (htake : take name s = Json.once none value set)
    (more : Fills take (set (some a)) members t) :
    Fills take s (member name text :: members) t := by
  refine .cons name text ?_ more
  intro rest hrest
  rw [htake]
  exact once_written h set hrest

theorem member_append (name : String) (text rest : List Char) :
    member name text ++ rest =
      '"' :: (name.toList.flatMap escapeChar ++ '"' :: (':' :: ' ' :: (text ++ rest))) := by
  simp [member, quoted]

theorem nextKey_first (depth : Nat) (rest : List Char) :
    nextKey true (newline depth ++ '"' :: rest) = .ok (some rest, []) := by
  rw [nextKey, skipBlanks_newline]
  rfl

theorem nextKey_next (depth : Nat) (rest : List Char) :
    nextKey false (',' :: (newline depth ++ '"' :: rest)) = .ok (some rest, []) := by
  have hquote : skipBlanks (newline depth ++ '"' :: rest) = '"' :: rest := by
    rw [skipBlanks_newline]
    rfl
  rw [nextKey, skipBlanks_comma]
  simp [hquote]

theorem nextKey_end (depth : Nat) (rest : List Char) :
    nextKey false (newline depth ++ '}' :: rest) = .ok (none, rest) := by
  rw [nextKey, skipBlanks_newline]
  rfl

/-- A step of the loop over a member that was announced. -/
theorem membersFrom_step {take : String → σ → Reader σ} {s next : σ} {name : String}
    {text cs rest : List Char} {first : Bool}
    (hnext : nextKey first cs = .ok
      (some (name.toList.flatMap escapeChar ++ '"' :: (':' :: ' ' :: (text ++ rest))), []))
    (htake : take name s (':' :: ' ' :: (text ++ rest)) = .ok (next, rest)) (fuel : Nat) :
    membersFrom take (fuel + 1) first s cs = membersFrom take fuel false next rest := by
  rw [membersFrom, hnext, ok_bind]
  simp only [stringBody_escaped, ok_bind, String.ofList_toList, htake]

theorem membersFrom_following {take : String → σ → Reader σ} {s t : σ}
    {items : List (List Char)} (h : Fills take s items t) (depth : Nat) {fuel : Nat}
    (hf : items.length < fuel) (rest : List Char) :
    membersFrom take fuel false s (following depth items ++ (newline depth ++ '}' :: rest)) =
      .ok (t, rest) := by
  induction h generalizing fuel with
  | nil s =>
    obtain ⟨fuel, rfl⟩ := Nat.exists_eq_succ_of_ne_zero (Nat.ne_zero_of_lt hf)
    have hend : following depth [] ++ (newline depth ++ '}' :: rest) =
      newline depth ++ '}' :: rest := rfl
    rw [hend, Nat.succ_eq_add_one, membersFrom, nextKey_end, ok_bind]
    rfl
  | cons name text first more ih =>
    obtain ⟨fuel, rfl⟩ := Nat.exists_eq_succ_of_ne_zero (Nat.ne_zero_of_lt hf)
    rw [following_cons_append, member_append, Nat.succ_eq_add_one,
      membersFrom_step (nextKey_next _ _) (first _ (closes_following depth _ _)),
      ih (by simpa using hf)]

/-- The members of a printed object, after its opening bracket, fill the fields. -/
theorem members_filled {take : String → σ → Reader σ} {s t : σ} {item : List Char}
    {items : List (List Char)} (h : Fills take s (item :: items) t) (depth : Nat)
    (rest : List Char) :
    members take s (newline (depth + 1) ++ (item ++
      (following depth items ++ (newline depth ++ '}' :: rest)))) = .ok (t, rest) := by
  cases h with
  | cons name text first more =>
    have hlength := length_le_following depth items
    rw [members, member_append,
      membersFrom_step (nextKey_first _ _) (first _ (closes_following depth _ _)),
      membersFrom_following more]
    simp only [List.length_append, List.length_cons] at hlength ⊢
    omega

/-- An object is read back when its members fill the fields and the filled fields give the value. -/
theorem written_record {take : String → σ → Reader σ} {s t : σ} {item : List Char}
    {items : List (List Char)} (h : Fills take s (item :: items) t) {ordered named : Reader α}
    {a : α} (hnamed : ∀ cs rest, members take s cs = .ok (t, rest) → named cs = .ok (a, rest))
    (depth : Nat) : Written (record ordered named) (enclose '{' '}' depth (item :: items)) a := by
  refine ⟨opens_enclose '}' depth _ (by decide) (by decide), ?_⟩
  intro cs rest hcs _
  rw [enclose_cons_append] at hcs
  simp only [record, hcs]
  exact hnamed _ rest (members_filled h depth rest)

end SourceGauge.Proofs.JsonValues
