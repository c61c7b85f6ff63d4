import Mathlib
import SourceGauge.Path
import SourceGauge.Proofs.Segments

namespace SourceGauge.Proofs.PathAncestors
open SourceGauge.Path Segments

/-- The path so many steps above another one. -/
def above : Nat → List Char → Option (List Char)
  | 0, path => some path
  | steps + 1, path => (parent? path).bind (above steps)

theorem getElem?_ancestors (limit : Nat) (path : List Char) (k : Nat) :
    (ancestors limit path)[k]? = if k < limit then above k path else none := by
  induction limit generalizing path k with
  | zero => simp [ancestors]
  | succ limit ih =>
    rw [ancestors]
    cases k with
    | zero => simp [above]
    | succ k =>
      rw [List.getElem?_cons_succ, above]
      cases parent? path with
      | none => simp
      | some p => simp [ih]

/-- The nearer ones come first. -/
theorem ancestors_eq_append {limit k : Nat} (hk : k < limit) {path q : List Char}
    (hq : above k path = some q) :
    ∃ rest, ancestors limit path = ancestors k path ++ q :: rest := by
  induction k generalizing limit path with
  | zero =>
    obtain ⟨limit, rfl⟩ := Nat.exists_eq_succ_of_ne_zero (Nat.ne_of_gt hk)
    cases hq
    exact ⟨_, rfl⟩
  | succ k ih =>
    obtain ⟨limit, rfl⟩ := Nat.exists_eq_succ_of_ne_zero (Nat.ne_of_gt (Nat.zero_lt_of_lt hk))
    obtain ⟨p, hp, hq⟩ := Option.bind_eq_some_iff.mp hq
    obtain ⟨rest, hrest⟩ := ih (Nat.lt_of_succ_lt_succ hk) hq
    refine ⟨rest, ?_⟩
    simp only [ancestors, hp, hrest, List.cons_append]

/-- What stands before the pieces of a path. -/
def front (path : List Char) : List Char := path.take (headLength path)

theorem front_append_join (path : List Char) :
    front path ++ Text.join '/' (pieces path) = path := by
  rw [front, pieces, Text.join_split, List.take_append_drop]

theorem isAbsolute_iff {path : List Char} :
    isAbsolute path = true ↔ ∃ rest, path = '/' :: rest := by
  cases path <;> simp [isAbsolute]

theorem isAbsolute_iff_front {path : List Char} : isAbsolute path = true ↔ front path = ['/'] := by
  constructor
  · intro habsolute
    obtain ⟨rest, rfl⟩ := isAbsolute_iff.mp habsolute
    rfl
  · intro hfront
    rw [isAbsolute_iff, ← front_append_join path, hfront]
    exact ⟨_, rfl⟩

/-- The fronts and pieces that paths have. -/
structure IsSpelling (front : List Char) (ps : List (List Char)) : Prop where
  ne_nil : ps ≠ []
  slash_free : ∀ p ∈ ps, '/' ∉ p
  fits : front = ['/'] ∨ (front = ['.'] ∧ ps.head? = some []) ∨
    (front = [] ∧ (ps = [[]] ∨ ∀ p ∈ ps.head?, isNoise p = false))

/-- What the first piece is followed by, if anything. -/
theorem exists_join_cons (p : List Char) (rest : List (List Char)) :
    ∃ after, Text.join '/' (p :: rest) = p ++ after ∧ ∀ c ∈ after.head?, c = '/' := by
  cases rest with
  | nil => exact ⟨[], by simp [Text.join], by simp⟩
  | cons q rest => exact ⟨'/' :: Text.join '/' (q :: rest), rfl, by simp⟩

theorem isNoise_iff {p : List Char} : isNoise p = true ↔ p = [] ∨ p = ['.'] := by
  simp [isNoise]

theorem hasLeadingDot_iff {path : List Char} :
    hasLeadingDot path = true ↔ ∃ after, path = '.' :: after ∧ ∀ c ∈ after.head?, c = '/' := by
  constructor
  · intro h
    unfold hasLeadingDot at h
    split at h
    · exact ⟨[], rfl, by simp⟩
    · exact ⟨_, rfl, by simp⟩
    · cases h
  · rintro ⟨after, rfl, hslash⟩
    cases after with
    | nil => rfl
    | cons c rest =>
      obtain rfl : c = '/' := hslash c (by simp)
      rfl

theorem isSpelling_pieces (path : List Char) : IsSpelling (front path) (pieces path) := by
  refine ⟨Text.splitHeld_ne_nil '/' [] _, fun p hp => not_mem_of_mem_split hp, ?_⟩
  by_cases habsolute : isAbsolute path = true
  · exact .inl (isAbsolute_iff_front.mp habsolute)
  by_cases hdot : hasLeadingDot path = true
  · right; left
    obtain ⟨after, rfl, hslash⟩ := hasLeadingDot_iff.mp hdot
    cases after with
    | nil => exact ⟨rfl, rfl⟩
    | cons c rest =>
      obtain rfl : c = '/' := hslash c (by simp)
      exact ⟨rfl, congrArg List.head? (split_append '/' [] rest)⟩
  · right; right
    have hlength : headLength path = 0 := by simp [headLength, habsolute, hdot]
    have hpath : Text.join '/' (pieces path) = path := by
      simpa [front, hlength] using front_append_join path
    refine ⟨by simp [front, hlength], ?_⟩
    cases hps : pieces path with
    | nil => exact absurd hps (Text.splitHeld_ne_nil '/' [] _)
    | cons p rest =>
      obtain ⟨after, hafter, hslash⟩ := exists_join_cons p rest
      rw [← hpath, hps, hafter] at habsolute hdot
      by_cases hnoise : isNoise p = true
      · left
        -- The first piece would be part of the front, unless there is nothing else.
        rcases isNoise_iff.mp hnoise with rfl | rfl
        · cases after with
          | nil =>
            rw [hps, hafter] at hpath
            rw [← hps, ← hpath]
            rfl
          | cons c more =>
            obtain rfl : c = '/' := hslash c (by simp)
            exact absurd rfl habsolute
        · exact absurd (hasLeadingDot_iff.mpr ⟨after, rfl, hslash⟩) hdot
      · right
        simpa using hnoise

theorem headLength_of_isSpelling {f : List Char} {ps : List (List Char)} (h : IsSpelling f ps) :
    headLength (f ++ Text.join '/' ps) = f.length := by
  obtain ⟨hne, hfree, hfits⟩ := h
  cases ps with
  | nil => exact absurd rfl hne
  | cons p rest =>
    obtain ⟨after, hafter, hslash⟩ := exists_join_cons p rest
    rw [hafter]
    rcases hfits with rfl | ⟨rfl, hp⟩ | ⟨rfl, hp⟩
    · rfl
    · obtain rfl : p = [] := by simpa using hp
      simp [headLength, hasLeadingDot_iff.mpr ⟨after, rfl, hslash⟩]
    · rcases hp with hnil | hp
      · cases hnil
        cases hafter
        rfl
      · -- Neither a slash nor a dot that stands alone begins a piece that counts.
        have hnoise : isNoise p = false := hp p rfl
        have habsolute : ¬isAbsolute (p ++ after) = true := by
          intro habsolute
          obtain ⟨rest, hrest⟩ := isAbsolute_iff.mp habsolute
          cases p with
          | nil => cases hnoise
          | cons c p =>
            obtain rfl : c = '/' := by simpa using congrArg List.head? hrest
            exact hfree _ List.mem_cons_self (by simp)
        have hdot : ¬hasLeadingDot (p ++ after) = true := by
          intro hdot
          obtain ⟨rest, hrest, hrestSlash⟩ := hasLeadingDot_iff.mp hdot
          cases p with
          | nil => cases hnoise
          | cons c p =>
            obtain ⟨rfl, rfl⟩ := List.cons.inj hrest
            cases p with
            | nil => cases hnoise
            | cons d p =>
              obtain rfl : d = '/' := hrestSlash d (by simp)
              exact hfree _ List.mem_cons_self (by simp)
        simp [headLength, habsolute, hdot]

theorem front_of_isSpelling {f : List Char} {ps : List (List Char)} (h : IsSpelling f ps) :
    front (f ++ Text.join '/' ps) = f := by
  rw [front, headLength_of_isSpelling h, List.take_left]

theorem pieces_of_isSpelling {f : List Char} {ps : List (List Char)} (h : IsSpelling f ps) :
    pieces (f ++ Text.join '/' ps) = ps := by
  rw [pieces, headLength_of_isSpelling h, List.drop_left, split_join h.ne_nil h.slash_free]

theorem trimNoise_concat_noise (ps : List (List Char)) {p : List Char} (h : isNoise p = true) :
    trimNoise (ps ++ [p]) = trimNoise ps :=
  List.rdropWhile_concat_pos isNoise ps p h

theorem trimNoise_concat_name (ps : List (List Char)) {p : List Char} (h : isNoise p = false) :
    trimNoise (ps ++ [p]) = ps ++ [p] :=
  List.rdropWhile_concat_neg isNoise ps p (by simp [h])

theorem prefix_trimNoise (ps : List (List Char)) : trimNoise ps <+: ps :=
  List.rdropWhile_prefix isNoise ps

theorem trimNoise_idem (ps : List (List Char)) : trimNoise (trimNoise ps) = trimNoise ps :=
  List.rdropWhile_idempotent isNoise ps

/-- The same front and the first of the pieces, without slashes and dots at the end. -/
def cut (path : List Char) (ps : List (List Char)) : List Char :=
  front path ++ Text.join '/' (trimNoise ps)

/-- The path itself without the slashes and dots at its end. -/
def trimmed (path : List Char) : List Char := cut path (pieces path)

/-- What is left of a path is spelled by the pieces that are left. -/
theorem cut_spelling {path : List Char} {ps : List (List Char)} (hps : ps <+: pieces path) :
    front (cut path ps) = front path ∧ trimNoise (pieces (cut path ps)) = trimNoise ps := by
  obtain ⟨_, hfree, hfits⟩ := isSpelling_pieces path
  have hsub : trimNoise ps <+: pieces path := (prefix_trimNoise ps).trans hps
  cases hleft : trimNoise ps with
  | nil =>
    have hspelling : IsSpelling (front path) [[]] := by
      refine ⟨by simp, by simp, ?_⟩
      rcases hfits with hfront | ⟨hfront, _⟩ | ⟨hfront, _⟩
      · exact .inl hfront
      · exact .inr (.inl ⟨hfront, rfl⟩)
      · exact .inr (.inr ⟨hfront, .inl rfl⟩)
    have hcut : cut path ps = front path ++ Text.join '/' [[]] := by
      rw [cut, hleft]
      rfl
    rw [hcut, front_of_isSpelling hspelling, pieces_of_isSpelling hspelling]
    exact ⟨rfl, rfl⟩
  | cons p rest =>
    rw [hleft] at hsub
    have hhead : (pieces path).head? = some p := by
      obtain ⟨more, hmore⟩ := hsub
      rw [← hmore]
      rfl
    have hspelling : IsSpelling (front path) (p :: rest) := by
      refine ⟨by simp, fun q hq => hfree q (hsub.subset hq), ?_⟩
      rw [hhead] at hfits
      rcases hfits with hfront | hfront | ⟨hfront, hnil | hname⟩
      · exact .inl hfront
      · exact .inr (.inl hfront)
      · have hnone : trimNoise ps = [] := by
          refine List.rdropWhile_eq_nil_iff.mpr (fun q hq => ?_)
          have hq : q ∈ pieces path := hps.subset hq
          rw [hnil, List.mem_singleton] at hq
          rw [hq]
          rfl
        rw [hleft] at hnone
        cases hnone
      · exact .inr (.inr ⟨hfront, .inr hname⟩)
    rw [cut, hleft, front_of_isSpelling hspelling, pieces_of_isSpelling hspelling, ← hleft,
      trimNoise_idem]
    exact ⟨rfl, rfl⟩

theorem front_trimmed (path : List Char) : front (trimmed path) = front path :=
  (cut_spelling List.prefix_rfl).1

theorem trimNoise_pieces_trimmed (path : List Char) :
    trimNoise (pieces (trimmed path)) = trimNoise (pieces path) :=
  (cut_spelling List.prefix_rfl).2

theorem join_prefix_join {ps qs : List (List Char)} (h : ps <+: qs) :
    Text.join '/' ps <+: Text.join '/' qs := by
  obtain ⟨rest, rfl⟩ := h
  induction ps with
  | nil => exact List.nil_prefix
  | cons p ps ih =>
    by_cases hps : ps = []
    · subst hps
      obtain ⟨after, hafter, _⟩ := exists_join_cons p rest
      exact ⟨after, hafter.symm⟩
    · rw [List.cons_append, Text.join_cons '/' p hps, Text.join_cons '/' p (by simp [hps]),
        List.prefix_append_right_inj, List.cons_prefix_cons]
      exact ⟨rfl, ih⟩

theorem prefix_cut {path : List Char} {ps : List (List Char)} (hps : ps <+: pieces path) :
    cut path ps <+: path := by
  have hprefix : cut path ps <+: front path ++ Text.join '/' (pieces path) :=
    (List.prefix_append_right_inj _).mpr (join_prefix_join ((prefix_trimNoise ps).trans hps))
  rwa [front_append_join] at hprefix

/-- A component that is neither empty nor a dot nor two dots. -/
structure IsNormal (name : List Char) : Prop where
  not_noise : isNoise name = false
  not_up : name ≠ ['.', '.']
  slash_free : '/' ∉ name

theorem headLength_append_slash {base : List Char} (hne : base ≠ []) (rest : List Char) :
    headLength (base ++ '/' :: rest) = headLength base := by
  cases base with
  | nil => exact absurd rfl hne
  | cons c base =>
    have habsolute : isAbsolute (c :: base ++ '/' :: rest) = isAbsolute (c :: base) := rfl
    have hdot : hasLeadingDot (c :: base ++ '/' :: rest) = hasLeadingDot (c :: base) := by
      rw [Bool.eq_iff_iff, hasLeadingDot_iff, hasLeadingDot_iff]
      cases base <;> simp
    rw [headLength, headLength, habsolute, hdot]

theorem headLength_le_one (path : List Char) : headLength path ≤ 1 := by
  unfold headLength
  split <;> omega

theorem pieces_append_slash {base : List Char} (hne : base ≠ []) (rest : List Char) :
    front (base ++ '/' :: rest) = front base ∧
      pieces (base ++ '/' :: rest) = pieces base ++ Text.split '/' rest := by
  have hlength : headLength base ≤ base.length :=
    Nat.le_trans (headLength_le_one base) (List.length_pos_iff.mpr hne)
  rw [front, pieces, headLength_append_slash hne, List.take_append_of_le_length hlength,
    List.drop_append_of_le_length hlength, split_append]
  exact ⟨rfl, rfl⟩

theorem join_eq (base : List Char) {name : List Char} (hname : IsNormal name) :
    (base = [] ∧ join base name = name) ∨
    (∃ b, base = b ++ ['/'] ∧ join base name = b ++ '/' :: name) ∨
    (base ≠ [] ∧ join base name = base ++ '/' :: name) := by
  have hrelative : ¬isAbsolute name = true := by
    intro habsolute
    obtain ⟨rest, rfl⟩ := isAbsolute_iff.mp habsolute
    exact hname.slash_free List.mem_cons_self
  unfold join
  rw [if_neg hrelative]
  by_cases hempty : base = []
  · subst hempty
    exact .inl ⟨rfl, rfl⟩
  by_cases hslash : base.getLast? = some '/'
  · obtain ⟨b, rfl⟩ := List.getLast?_eq_some_iff.mp hslash
    exact .inr (.inl ⟨b, rfl, by simp⟩)
  · exact .inr (.inr ⟨hempty, by simp [hempty, hslash]⟩)

theorem join_ne_nil (base : List Char) {name : List Char} (hname : IsNormal name) :
    join base name ≠ [] := by
  have hne : name ≠ [] := by
    rintro rfl
    cases hname.not_noise
  rcases join_eq base hname with ⟨_, hjoin⟩ | ⟨b, _, hjoin⟩ | ⟨_, hjoin⟩ <;> simp [hjoin, hne]

theorem isSpelling_singleton {f name : List Char} (hname : IsNormal name)
    (hf : f = ['/'] ∨ f = []) : IsSpelling f [name] := by
  refine ⟨by simp, by simpa using hname.slash_free, ?_⟩
  rcases hf with rfl | rfl
  · exact .inl rfl
  · exact .inr (.inr ⟨rfl, .inr (by simpa using hname.not_noise)⟩)

/-- A joined name is the last piece. -/
theorem join_spelling (base : List Char) {name : List Char} (hname : IsNormal name) :
    front (join base name) = front base ∧ ∃ ps, pieces (join base name) = ps ++ [name] ∧
      trimNoise ps = trimNoise (pieces base) := by
  have hsplit : Text.split '/' name = [name] := split_of_not_mem hname.slash_free
  rcases join_eq base hname with ⟨rfl, hjoin⟩ | ⟨b, rfl, hjoin⟩ | ⟨hne, hjoin⟩
  · have hspelling := isSpelling_singleton hname (.inr rfl)
    rw [hjoin]
    exact ⟨front_of_isSpelling hspelling, [], pieces_of_isSpelling hspelling, rfl⟩
  · rw [hjoin]
    by_cases hb : b = []
    · have hspelling := isSpelling_singleton hname (.inl rfl)
      subst hb
      exact ⟨front_of_isSpelling hspelling, [], pieces_of_isSpelling hspelling, rfl⟩
    · obtain ⟨hfront, hpieces⟩ := pieces_append_slash hb name
      obtain ⟨hfrontSlash, hpiecesSlash⟩ := pieces_append_slash hb []
      refine ⟨hfront.trans hfrontSlash.symm, pieces b, by rw [hpieces, hsplit], ?_⟩
      rw [hpiecesSlash]
      exact (trimNoise_concat_noise (pieces b) rfl).symm
  · obtain ⟨hfront, hpieces⟩ := pieces_append_slash hne name
    rw [hjoin]
    exact ⟨hfront, pieces base, by rw [hpieces, hsplit], rfl⟩

/-- The parent is spelled by the same front and all pieces but the last that counts. -/
theorem parent?_eq (path : List Char) :
    parent? path =
      if (trimNoise (pieces path)).isEmpty then (if front path = ['.'] then some [] else none)
      else some (cut path (trimNoise (pieces path)).dropLast) := rfl

theorem parent?_trimmed (path : List Char) : parent? (trimmed path) = parent? path := by
  rw [parent?_eq, parent?_eq, cut, cut, front_trimmed, trimNoise_pieces_trimmed]

theorem parent?_join (base : List Char) {name : List Char} (hname : IsNormal name) :
    parent? (join base name) = some (trimmed base) := by
  obtain ⟨hfront, ps, hpieces, hps⟩ := join_spelling base hname
  rw [parent?_eq, cut, hfront, hpieces, trimNoise_concat_name ps hname.not_noise,
    List.dropLast_concat, hps]
  simp [trimmed, cut]

/-- Above the names that were joined to it stands the directory itself. -/
theorem above_foldl_join (dir : List Char) {names : List (List Char)}
    (hnames : ∀ name ∈ names, IsNormal name) :
    above names.length (names.foldl join dir) = some (if names = [] then dir else trimmed dir) := by
  induction names using List.reverseRecOn with
  | nil => rfl
  | append_singleton names name ih =>
    have hname : IsNormal name := hnames name (by simp)
    have hbelow := ih (fun n hn => hnames n (by simp [hn]))
    rw [List.length_append, List.length_singleton, List.foldl_append, List.foldl_cons,
      List.foldl_nil, above, parent?_join _ hname, Option.bind_some]
    cases names with
    | nil => rfl
    | cons first rest =>
      -- Trimming only matters to the spelling, not to what stands above.
      rw [List.length_cons, above, parent?_trimmed]
      exact hbelow

theorem filter_trimNoise (ps : List (List Char)) :
    (trimNoise ps).filter (!isNoise ·) = ps.filter (!isNoise ·) := by
  induction ps using List.reverseRecOn with
  | nil => rfl
  | append_singleton ps p ih =>
    cases hp : isNoise p with
    | true => simp [trimNoise_concat_noise ps hp, ih, hp]
    | false => rw [trimNoise_concat_name ps hp]

theorem not_noise_of_trimNoise {ps qs : List (List Char)} {p : List Char}
    (h : trimNoise qs = ps ++ [p]) : isNoise p = false := by
  rw [Bool.eq_false_iff]
  intro hp
  have hidem := trimNoise_idem qs
  rw [h, trimNoise_concat_noise ps hp] at hidem
  have hlength := (prefix_trimNoise ps).length_le
  simp [hidem] at hlength

/-- The front decides about the first component. -/
theorem headComponents_eq (path : List Char) :
    headComponents path =
      if front path = ['/'] then [.root] else if front path = ['.'] then [.current] else [] := by
  unfold headComponents
  by_cases habsolute : isAbsolute path = true
  · rw [if_pos habsolute, if_pos (isAbsolute_iff_front.mp habsolute)]
  by_cases hdot : hasLeadingDot path = true
  · obtain ⟨after, rfl, _⟩ := hasLeadingDot_iff.mp hdot
    rw [if_neg habsolute, if_pos hdot]
    simp [front, headLength, hdot]
  · simp [front, headLength, habsolute, hdot]

@[simp] theorem components_nil : components [] = [] := rfl

theorem components_eq_trimNoise (path : List Char) :
    components path =
      headComponents path ++ ((trimNoise (pieces path)).filter (!isNoise ·)).map component := by
  rw [filter_trimNoise, components]

/-- A path of noise alone has a front or is empty. -/
theorem eq_nil_of_trimNoise {path : List Char} (hfront : front path = [])
    (hnoise : trimNoise (pieces path) = []) : path = [] := by
  have hall : ∀ p ∈ pieces path, isNoise p = true := List.rdropWhile_eq_nil_iff.mp hnoise
  have hpath := front_append_join path
  obtain ⟨hne, _, hfits⟩ := isSpelling_pieces path
  rw [hfront] at hfits hpath
  rcases hfits with hroot | ⟨hdot, _⟩ | ⟨_, hnil | hname⟩
  · cases hroot
  · cases hdot
  · rw [hnil] at hpath
    exact hpath.symm
  · obtain ⟨p, rest, hps⟩ := List.exists_cons_of_ne_nil hne
    have hp : isNoise p = true := hall p (by simp [hps])
    rw [hname p (by simp [hps])] at hp
    cases hp

/-- What a step up does. At the root and at the empty path there is none, and from any other path it
takes off the last component and leaves a beginning of the text. -/
theorem parent?_cases (path : List Char) :
    (parent? path = none ∧ (components path = [.root] ∨ path = [])) ∨
    ∃ q c, parent? path = some q ∧ c ≠ .root ∧ components path = components q ++ [c] ∧
      q <+: path := by
  have hcomponents := components_eq_trimNoise path
  have hparent := parent?_eq path
  rcases List.eq_nil_or_concat' (trimNoise (pieces path)) with hnil | ⟨ps, p, hps⟩
  · -- Nothing but noise behind the front, so the front is the only component.
    rw [hnil] at hcomponents hparent
    rw [headComponents_eq] at hcomponents
    by_cases hdot : front path = ['.']
    · refine .inr ⟨[], .current, by simpa [hdot] using hparent, by simp, ?_, List.nil_prefix⟩
      simpa [hdot] using hcomponents
    · refine .inl ⟨by simpa [hdot] using hparent, ?_⟩
      by_cases hroot : front path = ['/']
      · exact .inl (by simpa [hroot] using hcomponents)
      · have hfront : front path = [] := by
          rcases (isSpelling_pieces path).fits with hslash | ⟨hslash, _⟩ | ⟨hnone, _⟩
          · exact absurd hslash hroot
          · exact absurd hslash hdot
          · exact hnone
        exact .inr (eq_nil_of_trimNoise hfront hnil)
  · have hprefix : ps <+: pieces path :=
      List.IsPrefix.trans ⟨[p], hps.symm⟩ (prefix_trimNoise (pieces path))
    obtain ⟨hfront, hpieces⟩ := cut_spelling hprefix
    have hp : isNoise p = false := not_noise_of_trimNoise hps
    refine .inr ⟨cut path ps, component p, ?_, ?_, ?_, prefix_cut hprefix⟩
    · rw [hparent, hps, List.dropLast_concat]
      simp
    · unfold component
      split <;> simp
    · rw [hcomponents, components_eq_trimNoise (cut path ps), headComponents_eq, headComponents_eq,
        hfront, hpieces, hps, filter_trimNoise ps, List.filter_append, List.map_append,
        List.append_assoc]
      simp [hp]

/-- A path that ends in a name stands in a directory, which has all components but that name. -/
theorem parent?_of_components {path : List Char} {cs : List Component} {name : List Char}
    (h : components path = cs ++ [.name name]) :
    ∃ q, parent? path = some q ∧ components q = cs ∧ q <+: path := by
  rcases parent?_cases path with ⟨_, hroot | hnil⟩ | ⟨q, c, hq, _, hcomponents, hprefix⟩
  · have hlast : [] ++ [Component.root] = cs ++ [.name name] := hroot.symm.trans h
    cases (List.append_inj' hlast rfl).2
  · simp [hnil] at h
  · rw [h] at hcomponents
    obtain ⟨hcs, _⟩ := List.append_inj' hcomponents rfl
    exact ⟨q, hq, hcs.symm, hprefix⟩

/-- However it is spelled, a path that goes on from a directory leads back to it. -/
theorem above_of_components {dir start : List Char} {names : List (List Char)}
    (h : components start = components dir ++ names.map .name) :
    ∃ q, above names.length start = some q ∧ components q = components dir ∧ q <+: start := by
  induction names using List.reverseRecOn generalizing start with
  | nil => exact ⟨start, rfl, by simpa using h, List.prefix_rfl⟩
  | append_singleton names name ih =>
    rw [List.map_append, ← List.append_assoc] at h
    obtain ⟨p, hp, hcomponents, hprefix⟩ := parent?_of_components h
    obtain ⟨q, hq, hdir, hqp⟩ := ih hcomponents
    refine ⟨q, ?_, hdir, hqp.trans hprefix⟩
    rw [List.length_append, List.length_singleton, above, hp, Option.bind_some, hq]

/-- The pieces of a path that count. -/
def steps (path : List Char) : List (List Char) := (Text.split '/' path).filter (!isNoise ·)

theorem steps_eq_filter_pieces (path : List Char) :
    steps path = (pieces path).filter (!isNoise ·) := by
  by_cases habsolute : isAbsolute path = true
  · obtain ⟨rest, rfl⟩ := isAbsolute_iff.mp habsolute
    change (Text.split '/' ([] ++ '/' :: rest)).filter (!isNoise ·) = _
    rw [split_append]
    rfl
  by_cases hdot : hasLeadingDot path = true
  · obtain ⟨after, rfl, hslash⟩ := hasLeadingDot_iff.mp hdot
    have hpieces : pieces ('.' :: after) = Text.split '/' after := by
      simp [pieces, headLength, hdot]
    rw [hpieces]
    cases after with
    | nil => rfl
    | cons c rest =>
      obtain rfl : c = '/' := hslash c (by simp)
      change (Text.split '/' (['.'] ++ '/' :: rest)).filter (!isNoise ·) =
        (Text.split '/' ([] ++ '/' :: rest)).filter (!isNoise ·)
      rw [split_append, split_append]
      rfl
  · simp [steps, pieces, headLength, habsolute, hdot]

/-- The piece that a component is written as, for those that are pieces. -/
def Component.piece? : Component → Option (List Char)
  | .root => none
  | .current => none
  | c => some c.text

theorem piece?_component (p : List Char) : Component.piece? (component p) = some p := by
  unfold component
  split
  · rename_i hp
    rw [hp]
    rfl
  · rfl

/-- Spellings with the same components have the same pieces that count. -/
theorem steps_eq_filterMap (path : List Char) :
    steps path = (components path).filterMap Component.piece? := by
  have hhead : (headComponents path).filterMap Component.piece? = [] := by
    rw [headComponents_eq]
    split
    · rfl
    · split <;> rfl
  rw [components, List.filterMap_append, hhead, List.filterMap_map, steps_eq_filter_pieces]
  have hpieces : Component.piece? ∘ component = some := funext piece?_component
  rw [hpieces, List.filterMap_some, List.nil_append]

theorem isAbsolute_iff_root_mem (path : List Char) :
    isAbsolute path = true ↔ .root ∈ components path := by
  constructor
  · intro habsolute
    simp [components, headComponents, habsolute]
  · intro hroot
    by_contra habsolute
    rcases List.mem_append.mp hroot with hhead | hpiece
    · rw [headComponents, if_neg habsolute] at hhead
      split at hhead <;> simp at hhead
    · obtain ⟨p, _, hp⟩ := List.mem_map.mp hpiece
      have hpiece := piece?_component p
      rw [hp] at hpiece
      cases hpiece

theorem components_trimmed (path : List Char) : components (trimmed path) = components path := by
  rw [components_eq_trimNoise, components_eq_trimNoise path, headComponents_eq, headComponents_eq,
    front_trimmed, trimNoise_pieces_trimmed]

theorem isAbsolute_join (base : List Char) {name : List Char} (hname : IsNormal name) :
    isAbsolute (join base name) = isAbsolute base := by
  obtain ⟨hfront, _⟩ := join_spelling base hname
  rw [Bool.eq_iff_iff, isAbsolute_iff_front, isAbsolute_iff_front, hfront]

/-- The pieces before a joined name are those of the path it is joined to. -/
theorem split_join_name (base : List Char) {name : List Char} (hname : IsNormal name) :
    ∃ ps, Text.split '/' (join base name) = ps ++ [name] ∧ ps.filter (!isNoise ·) = steps base := by
  have hsplit : Text.split '/' name = [name] := split_of_not_mem hname.slash_free
  rcases join_eq base hname with ⟨rfl, hjoin⟩ | ⟨b, rfl, hjoin⟩ | ⟨_, hjoin⟩
  · exact ⟨[], by rw [hjoin, hsplit]; rfl, rfl⟩
  · refine ⟨Text.split '/' b, by rw [hjoin, split_append, hsplit], ?_⟩
    rw [steps, split_append, List.filter_append]
    exact (List.append_nil _).symm
  · exact ⟨Text.split '/' base, by rw [hjoin, split_append, hsplit], rfl⟩

/-- What is written in a joined path, slashes and dots aside. -/
theorem mem_join_iff (base : List Char) {name : List Char} (hname : IsNormal name) {c : Char}
    (hslash : c ≠ '/') (hdot : c ≠ '.') :
    c ∈ join base name ↔ (∃ p ∈ steps base, c ∈ p) ∨ c ∈ name := by
  obtain ⟨ps, hsplit, hsteps⟩ := split_join_name base hname
  rw [mem_iff_exists_split '/' hslash, hsplit, ← hsteps]
  constructor
  · rintro ⟨p, hp, hc⟩
    rcases List.mem_append.mp hp with hp | hp
    · refine .inl ⟨p, List.mem_filter.mpr ⟨hp, ?_⟩, hc⟩
      rw [Bool.not_eq_true', Bool.eq_false_iff]
      intro hnoise
      rcases isNoise_iff.mp hnoise with rfl | rfl
      · cases hc
      · exact hdot (List.mem_singleton.mp hc)
    · obtain rfl := List.mem_singleton.mp hp
      exact .inr hc
  · rintro (⟨p, hp, hc⟩ | hc)
    · exact ⟨p, List.mem_append_left _ (List.mem_filter.mp hp).1, hc⟩
    · exact ⟨name, by simp, hc⟩

end SourceGauge.Proofs.PathAncestors
