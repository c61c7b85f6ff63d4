import Mathlib
import SourceGauge.Proofs.PathAncestors

namespace SourceGauge.Proofs.PathAscent
open SourceGauge.Path PathAncestors

theorem components_of_parent? {path q : List Char} (h : parent? path = some q) :
    ∃ c, c ≠ .root ∧ components path = components q ++ [c] ∧ q <+: path := by
  rcases parent?_cases path with ⟨hnone, _⟩ | ⟨p, c, hp, hc, hcomponents, hbegins⟩
  · rw [hnone] at h
    cases h
  · obtain rfl : p = q := Option.some.inj (hp.symm.trans h)
    exact ⟨c, hc, hcomponents, hbegins⟩

theorem top_of_parent? {path : List Char} (h : parent? path = none) :
    components path = [.root] ∨ path = [] := by
  rcases parent?_cases path with ⟨_, htop⟩ | ⟨p, _, hp, _⟩
  · exact htop
  · rw [hp] at h
    cases h

/-- The texts differ since the components do. -/
theorem ne_of_parent? {path q : List Char} (h : parent? path = some q) : q ≠ path := by
  rintro rfl
  obtain ⟨c, _, hcomponents, _⟩ := components_of_parent? h
  exact List.cons_ne_nil c [] (List.self_eq_append_right.mp hcomponents)

theorem length_lt_of_parent? {path q : List Char} (h : parent? path = some q) :
    q.length < path.length := by
  obtain ⟨_, _, _, hbegins⟩ := components_of_parent? h
  refine Nat.lt_of_le_of_ne hbegins.length_le ?_
  intro hlength
  exact ne_of_parent? h (hbegins.eq_of_length hlength)

theorem isAbsolute_of_parent? {path q : List Char} (h : parent? path = some q) :
    isAbsolute q = isAbsolute path := by
  obtain ⟨c, hc, hcomponents, _⟩ := components_of_parent? h
  rw [Bool.eq_iff_iff, isAbsolute_iff_root_mem, isAbsolute_iff_root_mem, hcomponents]
  simp [hc.symm]

/-- The components other than the root. -/
def depth (path : List Char) : Nat := (components path).countP (· ≠ .root)

theorem depth_of_parent? {path q : List Char} (h : parent? path = some q) :
    depth path = depth q + 1 := by
  obtain ⟨c, hc, hcomponents, _⟩ := components_of_parent? h
  simp [depth, hcomponents, hc]

theorem depth_of_parent?_none {path : List Char} (h : parent? path = none) : depth path = 0 := by
  rcases top_of_parent? h with hroot | rfl
  · simp [depth, hroot]
  · rfl

/-- So many steps up take off so many components. -/
theorem components_above {k : Nat} {path q : List Char} (hq : above k path = some q) :
    components q = (components path).rdrop k := by
  induction k generalizing path with
  | zero =>
    cases hq
    rw [List.rdrop_zero]
  | succ k ih =>
    obtain ⟨p, hp, hq⟩ := Option.bind_eq_some_iff.mp hq
    obtain ⟨c, _, hcomponents, _⟩ := components_of_parent? hp
    rw [hcomponents, List.rdrop_concat_succ, ih hq]

/-- The path and everything above it. -/
def ascent (path : List Char) : List (List Char) :=
  path :: match _h : parent? path with
    | none => []
    | some q => ascent q
termination_by path.length
decreasing_by exact length_lt_of_parent? ‹_›

theorem ascent_top {path : List Char} (h : parent? path = none) : ascent path = [path] := by
  rw [ascent]
  split
  · rfl
  · rename_i hq
    rw [h] at hq
    cases hq

theorem ascent_step {path q : List Char} (h : parent? path = some q) :
    ascent path = path :: ascent q := by
  rw [ascent]
  split
  · rename_i hnone
    rw [h] at hnone
    cases hnone
  · rename_i p hp
    rw [Option.some.inj (hp.symm.trans h)]

/-- What holds at the top and is kept by every step down holds of every path. -/
theorem ascent_induction {motive : List Char → Prop}
    (top : ∀ path, parent? path = none → motive path)
    (step : ∀ path q, parent? path = some q → motive q → motive path) (path : List Char) :
    motive path := by
  induction path using ascent.induct with
  | case1 path ih =>
    cases h : parent? path with
    | none => exact top path h
    | some q => exact step path q h (ih q h)

/-- A limit cuts the way off. -/
theorem ancestors_eq_take (limit : Nat) (path : List Char) :
    ancestors limit path = (ascent path).take limit := by
  induction limit generalizing path with
  | zero => rfl
  | succ limit ih =>
    rw [ancestors]
    cases h : parent? path with
    | none => simp [ascent_top h]
    | some q => rw [ascent_step h, List.take_succ_cons, ← ih]

theorem length_ascent (path : List Char) : (ascent path).length = 1 + depth path := by
  induction path using ascent_induction with
  | top path h => simp [ascent_top h, depth_of_parent?_none h]
  | step path q h ih =>
    rw [ascent_step h, List.length_cons, ih, depth_of_parent? h]
    omega

theorem head?_ascent (path : List Char) : (ascent path).head? = some path := by
  rw [ascent]
  rfl

theorem isChain_ascent (path : List Char) :
    (ascent path).IsChain (fun nearer farther => farther <+: nearer ∧ farther ≠ nearer) := by
  induction path using ascent_induction with
  | top path h =>
    rw [ascent_top h]
    exact .singleton path
  | step path q h ih =>
    obtain ⟨_, _, _, hbegins⟩ := components_of_parent? h
    rw [ascent_step h]
    refine .cons ih ?_
    intro next hnext
    obtain rfl : q = next := Option.some.inj ((head?_ascent q).symm.trans hnext)
    exact ⟨hbegins, ne_of_parent? h⟩

/-- The way up ends at the root, or at the empty path if it does not start from the root. -/
theorem getLast?_ascent (path : List Char) : ∃ last, (ascent path).getLast? = some last ∧
    if isAbsolute path then components last = [.root] else last = [] := by
  induction path using ascent_induction with
  | top path h =>
    refine ⟨path, by rw [ascent_top h]; rfl, ?_⟩
    split
    · rename_i habsolute
      rcases top_of_parent? h with hroot | rfl
      · exact hroot
      · cases habsolute
    · rename_i hrelative
      rcases top_of_parent? h with hroot | hnil
      · exact absurd ((isAbsolute_iff_root_mem path).mpr (by simp [hroot])) hrelative
      · exact hnil
  | step path q h ih =>
    obtain ⟨last, hlast, htop⟩ := ih
    refine ⟨last, ?_, ?_⟩
    · rw [ascent_step h, List.getLast?_cons, hlast]
      rfl
    · rwa [isAbsolute_of_parent? h] at htop

/-- However a path is spelled, its ancestors are a finite way up, cut off at the limit: one path for
each component but the root and one more, each with one component less than the one before it and a
shorter beginning of its text. If the limit allows, the last of them is the root, or the empty
path. -/
theorem ancestors_climb (limit : Nat) (start : List Char) :
    ancestors limit start = (ascent start).take limit ∧
    (ancestors limit start).length = min limit (1 + (components start).countP (· ≠ .root)) ∧
    (∀ k q, (ancestors limit start)[k]? = some q → components q = (components start).rdrop k) ∧
    (ancestors limit start).IsChain (fun nearer farther => farther <+: nearer ∧ farther ≠ nearer) ∧
    (1 + (components start).countP (· ≠ .root) ≤ limit →
      ∃ last, (ancestors limit start).getLast? = some last ∧
        if isAbsolute start then components last = [.root] else last = []) := by
  have htake := ancestors_eq_take limit start
  have hlength : (ascent start).length = 1 + (components start).countP (· ≠ .root) :=
    length_ascent start
  refine ⟨htake, ?_, ?_, ?_, ?_⟩
  · rw [htake, List.length_take, hlength]
  · intro k q hq
    rw [getElem?_ancestors] at hq
    split at hq
    · exact components_above hq
    · cases hq
  · rw [htake]
    exact (isChain_ascent start).take limit
  · intro hlimit
    rw [htake, List.take_of_length_le (hlength.trans_le hlimit)]
    exact getLast?_ascent start

/-- Two paths with slashes and dots in all places, the first of them from the root. -/
theorem ancestors_climb_cluttered :
    let rooted := "//.//a/./..//".toList
    let loose := "././/a//b/.".toList
    1 + (components rooted).countP (· ≠ .root) ≤ 3 ∧
    (∃ last, (ancestors 3 rooted).getLast? = some last ∧ components last = [.root]) ∧
    1 + (components loose).countP (· ≠ .root) ≤ 9 ∧
    (∃ last, (ancestors 9 loose).getLast? = some last ∧ last = []) ∧
    ancestors 9 loose = [loose, "././/a".toList, ".".toList, []] := by
  intro rooted loose
  have hrooted : 1 + (components rooted).countP (· ≠ .root) ≤ 3 := by decide
  have hloose : 1 + (components loose).countP (· ≠ .root) ≤ 9 := by decide
  obtain ⟨_, _, _, _, hroot⟩ := ancestors_climb 3 rooted
  obtain ⟨_, _, _, _, hnil⟩ := ancestors_climb 9 loose
  exact ⟨hrooted, hroot hrooted, hloose, hnil hloose, by decide⟩

end SourceGauge.Proofs.PathAscent
