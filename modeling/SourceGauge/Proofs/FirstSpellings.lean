import Mathlib
import SourceGauge.Proofs.CommandFailure

namespace SourceGauge.Proofs.FirstSpellings
open Selection SelectionFailure

theorem same_iff {p q : List Char} :
    Path.same p q = true ↔ Path.components p = Path.components q := by simp [Path.same]

theorem any_same_iff {p : List Char} {paths : List (List Char)} :
    paths.any (Path.same p) = true ↔ ∃ q ∈ paths, Path.components q = Path.components p := by
  simp only [List.any_eq_true, same_iff, eq_comm (a := Path.components p)]

/-- The paths of a list that are the same as no earlier one. -/
structure KeepsFirst (paths kept : List (List Char)) : Prop where
  distinct : kept.Pairwise fun p q => Path.components p ≠ Path.components q
  covers : ∀ p ∈ paths, ∃ q ∈ kept, Path.components q = Path.components p
  first : ∀ q ∈ kept, paths.find? (Path.same q) = some q
  order : kept.Pairwise fun p q => paths.idxOf p < paths.idxOf q

theorem KeepsFirst.mem {paths kept : List (List Char)} (h : KeepsFirst paths kept) {q : List Char}
    (hq : q ∈ kept) : q ∈ paths :=
  List.mem_of_find?_eq_some (h.first q hq)

theorem KeepsFirst.nodup {paths kept : List (List Char)} (h : KeepsFirst paths kept) : kept.Nodup :=
  h.distinct.imp fun hne he => hne (congrArg Path.components he)

theorem KeepsFirst.subset {paths kept other : List (List Char)} (h : KeepsFirst paths kept)
    (ho : KeepsFirst paths other) : kept ⊆ other := by
  intro q hq
  obtain ⟨r, hr, hsame⟩ := ho.covers q (h.mem hq)
  have hpred : Path.same r = Path.same q := by
    funext p
    simp only [Path.same, hsame]
  have hfirst := ho.first r hr
  rw [hpred, h.first q hq] at hfirst
  exact Option.some.inj hfirst ▸ hr

/-- There is only one way to keep the first spellings. -/
theorem KeepsFirst.unique {paths kept other : List (List Char)} (h : KeepsFirst paths kept)
    (ho : KeepsFirst paths other) : kept = other := by
  have hperm : kept.Perm other :=
    (List.perm_ext_iff_of_nodup h.nodup ho.nodup).mpr fun _ =>
      ⟨fun hq => h.subset ho hq, fun hq => ho.subset h hq⟩
  refine hperm.eq_of_pairwise ?_ h.order ho.order
  intro p q _ _ hpq hqp
  exact absurd hpq (Nat.lt_asymm hqp)

theorem keepsFirst_nil : KeepsFirst [] [] := ⟨.nil, by simp, by simp, .nil⟩

/-- What was found before does not change what is kept of it. -/
theorem KeepsFirst.append {paths kept : List (List Char)} (h : KeepsFirst paths kept)
    (more : List (List Char)) :
    (∀ q ∈ kept, (paths ++ more).find? (Path.same q) = some q) ∧
      kept.Pairwise fun p q => (paths ++ more).idxOf p < (paths ++ more).idxOf q := by
  constructor
  · intro q hq
    rw [List.find?_append, h.first q hq]
    rfl
  · refine h.order.imp_of_mem fun hp hq hlt => ?_
    rwa [List.idxOf_append_of_mem (h.mem hp), List.idxOf_append_of_mem (h.mem hq)]

theorem KeepsFirst.old {paths kept : List (List Char)} (h : KeepsFirst paths kept) {p : List Char}
    (hp : paths.any (Path.same p) = true) : KeepsFirst (paths ++ [p]) kept := by
  obtain ⟨hfirst, horder⟩ := h.append [p]
  refine ⟨h.distinct, ?_, hfirst, horder⟩
  intro q hq
  rcases List.mem_append.mp hq with hq | hq
  · exact h.covers q hq
  · obtain ⟨r, hr, hsame⟩ := any_same_iff.mp hp
    obtain ⟨s, hs, hsr⟩ := h.covers r hr
    rw [List.mem_singleton.mp hq]
    exact ⟨s, hs, hsr.trans hsame⟩

theorem KeepsFirst.new {paths kept : List (List Char)} (h : KeepsFirst paths kept) {p : List Char}
    (hp : ¬paths.any (Path.same p) = true) : KeepsFirst (paths ++ [p]) (kept ++ [p]) := by
  have hother : ∀ q ∈ paths, Path.components q ≠ Path.components p :=
    fun q hq hsame => hp (any_same_iff.mpr ⟨q, hq, hsame⟩)
  have hnotmem : p ∉ paths := fun hmem => hother p hmem rfl
  obtain ⟨hfirst, horder⟩ := h.append [p]
  refine ⟨?_, ?_, ?_, ?_⟩
  · rw [List.pairwise_append]
    refine ⟨h.distinct, List.pairwise_singleton _ p, fun q hq r hr => ?_⟩
    rw [List.mem_singleton.mp hr]
    exact hother q (h.mem hq)
  · intro q hq
    rcases List.mem_append.mp hq with hq | hq
    · obtain ⟨r, hr, hsame⟩ := h.covers q hq
      exact ⟨r, List.mem_append_left _ hr, hsame⟩
    · exact ⟨q, List.mem_append_right _ hq, rfl⟩
  · intro q hq
    rcases List.mem_append.mp hq with hq | hq
    · exact hfirst q hq
    · obtain rfl := List.mem_singleton.mp hq
      have hnone : paths.find? (Path.same q) = none := by
        rw [List.find?_eq_none]
        exact fun r hr hsame => hother r hr (same_iff.mp hsame).symm
      rw [List.find?_append, hnone, Option.none_or, List.find?_singleton, if_pos (same_iff.mpr rfl)]
  · rw [List.pairwise_append]
    refine ⟨horder, List.pairwise_singleton _ p, fun q hq r hr => ?_⟩
    rw [List.mem_singleton.mp hr, List.idxOf_append_of_mem (h.mem hq),
      List.idxOf_append_of_notMem hnotmem]
    exact Nat.lt_add_right _ (List.idxOf_lt_length_of_mem (h.mem hq))

/-- Only which paths were seen matters, not their order or how often. -/
theorem dedupFrom_congr {seen other : List (List Char)}
    (h : ∀ p, seen.any (Path.same p) = other.any (Path.same p)) (paths : List (List Char)) :
    dedupFrom seen paths = dedupFrom other paths := by
  induction paths generalizing seen other with
  | nil => rfl
  | cons p rest ih =>
    have hcons : ∀ q, (p :: seen).any (Path.same q) = (p :: other).any (Path.same q) := by
      intro q
      rw [List.any_cons, List.any_cons, h q]
    rw [dedupFrom, dedupFrom, h p, ih h, ih hcons]

theorem dedupFrom_append (seen paths more : List (List Char)) :
    dedupFrom seen (paths ++ more) = dedupFrom seen paths ++ dedupFrom (paths ++ seen) more := by
  induction paths generalizing seen with
  | nil => rfl
  | cons p rest ih =>
    rw [List.cons_append, dedupFrom, dedupFrom]
    split
    · rename_i hold
      rw [ih seen]
      congr 1
      apply dedupFrom_congr
      intro q
      -- The dropped path stands for one that was seen.
      rw [Bool.eq_iff_iff, any_same_iff, any_same_iff]
      obtain ⟨r, hr, hsame⟩ := any_same_iff.mp hold
      constructor
      · rintro ⟨s, hs, hsq⟩
        exact ⟨s, List.mem_cons_of_mem p hs, hsq⟩
      · rintro ⟨s, hs, hsq⟩
        rcases List.mem_cons.mp hs with rfl | hs
        · exact ⟨r, List.mem_append_right _ hr, hsame.trans hsq⟩
        · exact ⟨s, hs, hsq⟩
    · rw [ih (p :: seen), List.cons_append]
      congr 2
      apply dedupFrom_congr
      intro q
      simp only [List.any_append, List.any_cons, List.cons_append, Bool.or_left_comm]

theorem dedupFrom_of_seen {seen paths : List (List Char)}
    (h : ∀ p ∈ paths, seen.any (Path.same p) = true) : dedupFrom seen paths = [] := by
  induction paths with
  | nil => rfl
  | cons p rest ih =>
    rw [dedupFrom, if_pos (h p List.mem_cons_self), ih fun q hq => h q (List.mem_cons_of_mem p hq)]

/-- Paths that were all found before can be left out. -/
theorem dedup_covered {before covered : List (List Char)}
    (h : ∀ p ∈ covered, before.any (Path.same p) = true) (after : List (List Char)) :
    dedup (before ++ (covered ++ after)) = dedup (before ++ after) := by
  have hnone : dedupFrom (before ++ []) covered = [] := dedupFrom_of_seen (by simpa using h)
  rw [dedup, dedup, dedupFrom_append, dedupFrom_append, dedupFrom_append, hnone, List.nil_append]
  congr 1
  apply dedupFrom_congr
  intro q
  rw [Bool.eq_iff_iff, any_same_iff, any_same_iff]
  constructor
  · rintro ⟨s, hs, hsq⟩
    rcases List.mem_append.mp hs with hs | hs
    · obtain ⟨r, hr, hsame⟩ := any_same_iff.mp (h s hs)
      exact ⟨r, List.mem_append_left _ hr, hsame.trans hsq⟩
    · exact ⟨s, hs, hsq⟩
  · rintro ⟨s, hs, hsq⟩
    exact ⟨s, List.mem_append_right _ hs, hsq⟩

theorem dedup_concat (paths : List (List Char)) (p : List Char) :
    dedup (paths ++ [p]) = if paths.any (Path.same p) then dedup paths else dedup paths ++ [p] := by
  rw [dedup, dedupFrom_append, List.append_nil, dedupFrom]
  split
  · exact List.append_nil _
  · rfl

theorem keepsFirst_dedup (paths : List (List Char)) : KeepsFirst paths (dedup paths) := by
  induction paths using List.reverseRecOn with
  | nil => exact keepsFirst_nil
  | append_singleton paths p ih =>
    rw [dedup_concat]
    split
    · rename_i hold
      exact ih.old hold
    · rename_i hnew
      exact ih.new hnew

section

variable {fs : FileSystem} {extensions patterns : List String}

/-- The walks follow each other, and the first that fails decides. -/
theorem walkAll_cons (root : List Char) (roots : List (List Char)) :
    (walkAll fs extensions patterns (root :: roots)).1 = do
      let files ← (walk fs extensions patterns root).1
      let others ← (walkAll fs extensions patterns roots).1
      return files ++ others := by
  rw [walkAll]
  rcases walk fs extensions patterns root with ⟨found, log⟩
  cases found with
  | error e => rfl
  | ok files =>
    rcases walkAll fs extensions patterns roots with ⟨others, log⟩
    cases others <;> rfl

theorem walkAll_append (roots more : List (List Char)) :
    (walkAll fs extensions patterns (roots ++ more)).1 = do
      let files ← (walkAll fs extensions patterns roots).1
      let others ← (walkAll fs extensions patterns more).1
      return files ++ others := by
  induction roots with
  | nil =>
    cases h : (walkAll fs extensions patterns more).1 <;>
      simp [walkAll, h, bind, Except.bind, pure, Except.pure]
  | cons root roots ih =>
    rw [List.cons_append, walkAll_cons, walkAll_cons, ih]
    cases (walk fs extensions patterns root).1 with
    | error e => rfl
    | ok files =>
      cases (walkAll fs extensions patterns roots).1 with
      | error e => rfl
      | ok others =>
        cases (walkAll fs extensions patterns more).1 with
        | error e => rfl
        | ok rest => simp [bind, Except.bind, pure, Except.pure]

theorem walkAll_of_walks {roots : List (List Char)} {walks : List (List (List Char))}
    (h : List.Forall₂ (fun root files => (walk fs extensions patterns root).1 = .ok files)
      roots walks) :
    (walkAll fs extensions patterns roots).1 = .ok walks.flatten := by
  induction h with
  | nil => rfl
  | cons hroot hroots ih =>
    rw [walkAll_cons, hroot, ih]
    rfl

theorem subset_walkAll {roots paths files : List (List Char)} {root : List Char}
    (h : (walkAll fs extensions patterns roots).1 = .ok paths) (hroot : root ∈ roots)
    (hfiles : (walk fs extensions patterns root).1 = .ok files) : files ⊆ paths := by
  obtain ⟨before, after, rfl⟩ := List.append_of_mem hroot
  rw [walkAll_append, walkAll_cons, hfiles] at h
  cases hb : (walkAll fs extensions patterns before).1 with
  | error e => simp [hb, bind, Except.bind] at h
  | ok first =>
    cases ha : (walkAll fs extensions patterns after).1 with
    | error e => simp [hb, ha, bind, Except.bind] at h
    | ok last =>
      simp only [hb, ha, bind, Except.bind, pure, Except.pure, Except.ok.injEq] at h
      rw [← h]
      intro p hp
      simp [hp]

theorem select_eq_map (roots : List (List Char)) :
    (select fs extensions patterns roots).1 = (walkAll fs extensions patterns roots).1.map dedup :=
  rfl

end

/-- The walk of the root finds nothing that the walks of the other roots do not find as well. -/
def Covered (fs : FileSystem) (extensions patterns : List String) (roots : List (List Char))
    (root : List Char) : Prop :=
  ∃ files, (walk fs extensions patterns root).1 = .ok files ∧
    ∀ p ∈ files, ∃ other ∈ roots, ∃ found, (walk fs extensions patterns other).1 = .ok found ∧
      ∃ q ∈ found, Path.components q = Path.components p

section

variable {fs : FileSystem} {extensions patterns : List String}

theorem select_covered {before : List (List Char)} {root : List Char}
    (h : Covered fs extensions patterns before root) (after : List (List Char)) :
    (select fs extensions patterns (before ++ root :: after)).1 =
      (select fs extensions patterns (before ++ after)).1 := by
  obtain ⟨files, hfiles, hcovered⟩ := h
  rw [select_eq_map, select_eq_map, walkAll_append, walkAll_append, walkAll_cons, hfiles]
  cases hb : (walkAll fs extensions patterns before).1 with
  | error e => rfl
  | ok first =>
    cases (walkAll fs extensions patterns after).1 with
    | error e => rfl
    | ok last =>
      have hseen : ∀ p ∈ files, first.any (Path.same p) = true := by
        intro p hp
        obtain ⟨other, hother, found, hfound, q, hq, hsame⟩ := hcovered p hp
        exact any_same_iff.mpr ⟨q, subset_walkAll hb hother hfound hq, hsame⟩
      exact congrArg Except.ok (dedup_covered hseen last)

/-- A root that was walked before is covered by itself, or it has made the selection fail. -/
theorem select_repeated {before : List (List Char)} {root : List Char} (h : root ∈ before)
    (after : List (List Char)) :
    (select fs extensions patterns (before ++ root :: after)).1 =
      (select fs extensions patterns (before ++ after)).1 := by
  cases hroot : (walk fs extensions patterns root).1 with
  | ok files =>
    exact select_covered ⟨files, hroot, fun p hp => ⟨root, h, files, hroot, p, hp, rfl⟩⟩ after
  | error e =>
    have hfails : Fails (walkAll fs extensions patterns before).1 :=
      (fails_walkAll_iff fs extensions patterns before).mpr ⟨root, h, e, hroot⟩
    obtain ⟨first, hfirst⟩ := hfails
    rw [select_eq_map, select_eq_map, walkAll_append, walkAll_append, hfirst]
    rfl

theorem select_adding_nothing {before more : List (List Char)}
    (h : ∀ root ∈ more, root ∈ before ∨ Covered fs extensions patterns before root)
    (after : List (List Char)) :
    (select fs extensions patterns (before ++ more ++ after)).1 =
      (select fs extensions patterns (before ++ after)).1 := by
  induction more with
  | nil => rw [List.append_nil]
  | cons root more ih =>
    have hrest := ih fun r hr => h r (List.mem_cons_of_mem root hr)
    rw [List.append_assoc] at hrest
    rw [List.append_assoc, List.cons_append, ← hrest]
    rcases h root List.mem_cons_self with hrepeated | hcovered
    · exact select_repeated hrepeated (more ++ after)
    · exact select_covered hcovered (more ++ after)

end

/-- Two files. -/
def overlapping : FileSystem where
  entries := [(["a.ts".toList], .file ⟨#[]⟩), (["b.ts".toList], .file ⟨#[]⟩)]

end SourceGauge.Proofs.FirstSpellings
