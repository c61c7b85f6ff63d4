import Mathlib
import SourceGauge.Proofs.FirstSpellings
import SourceGauge.Proofs.WalkedFiles
import SourceGauge.Proofs.WrittenFiles

namespace SourceGauge.Proofs.SelectedOnce
open SourceGauge.Path Selection PathAncestors EntryOrder WalkedFiles WrittenFiles FirstSpellings

def LinkFree (fs : FileSystem) : Prop := ∀ loc, ¬IsLink fs loc

theorem linkFree_of_entries {fs : FileSystem}
    (h : ∀ e ∈ fs.entries, e.2.isFile = true ∨ e.2.isDirectory = true) : LinkFree fs := by
  rintro loc ⟨target, hlink⟩
  rw [FileSystem.lookup?] at hlink
  split at hlink
  · cases hlink
  · obtain ⟨e, hfound, hentry⟩ := Option.map_eq_some_iff.mp hlink
    have hkind := h e (List.mem_of_find?_eq_some hfound)
    simp [hentry, Entry.isFile, Entry.isDirectory] at hkind

/-- One of the components leads to the directory above. -/
def Climbs (path : List Char) : Prop := .parent ∈ components path

def SamePlace (fs : FileSystem) (p q : List Char) : Prop :=
  ∃ loc, fs.locate false p = .ok loc ∧ fs.locate false q = .ok loc

section

variable {fs : FileSystem}

theorem eq_of_leads (hlinks : LinkFree fs)
    {follow : Location → List (List Char) → Except FileSystem.Fault Location} {l loc : Location}
    {ps : List (List Char)} (h : Leads fs false follow loc l ps) (hup : ['.', '.'] ∉ ps) :
    loc = (ps.filter (!isNoise ·)).reverse ++ l := by
  induction h with
  | here => rfl
  | noise hpiece hrest ih =>
    rw [List.filter_cons_of_neg (by simp [hpiece])]
    exact ih fun hmem => hup (List.mem_cons_of_mem _ hmem)
  | up hrest ih => exact absurd List.mem_cons_self hup
  | create hname hloc hcreating hfree => cases hcreating
  | file hname hloc hfile =>
    rw [List.filter_cons_of_pos (by simp [hname.not_noise]), ← hloc]
    rfl
  | directory hname hdirectory hrest ih =>
    rw [List.filter_cons_of_pos (by simp [hname.not_noise]), List.reverse_cons, List.append_assoc]
    exact ih fun hmem => hup (List.mem_cons_of_mem _ hmem)
  | link hname hlink hend => exact absurd ⟨_, hlink⟩ (hlinks _)

theorem leads_of_resolve {creating : Bool} {links : Nat} {l loc : Location} {ps : List (List Char)}
    (h : FileSystem.resolve fs creating links l ps = .ok loc) :
    ∃ follow, Leads fs creating follow loc l ps := by
  cases links with
  | zero => exact ⟨_, leads_of_advance h⟩
  | succ links => exact ⟨_, leads_of_advance h⟩

theorem components_eq (path : List Char) :
    components path = headComponents path ++ (steps path).map component := by
  rw [steps_eq_filter_pieces, components]

/-- What a path spells is the place it leads to. -/
theorem eq_of_locate (hlinks : LinkFree fs) {path : List Char} (hclimbs : ¬Climbs path)
    {loc : Location} (h : fs.locate false path = .ok loc) :
    loc = (steps path).reverse ++ if isAbsolute path then [] else fs.working := by
  obtain ⟨_, hresolve⟩ := locate_eq_ok_iff.mp h
  obtain ⟨follow, hleads⟩ := leads_of_resolve hresolve
  refine eq_of_leads hlinks hleads fun hup => hclimbs ?_
  have hstep : ['.', '.'] ∈ steps path := List.mem_filter.mpr ⟨hup, by decide⟩
  rw [Climbs, components_eq]
  exact List.mem_append_right _ (List.mem_map_of_mem hstep)

theorem isAbsolute_iff_headComponents {path : List Char} :
    isAbsolute path = true ↔ headComponents path = [.root] := by
  unfold headComponents
  split
  · simp_all
  · split <;> simp_all

/-- Spellings of one place that begin alike are the same path. -/
theorem components_eq_of_samePlace (hlinks : LinkFree fs) {p q : List Char} (hp : ¬Climbs p)
    (hq : ¬Climbs q) (hhead : headComponents p = headComponents q) (h : SamePlace fs p q) :
    components p = components q := by
  obtain ⟨loc, hlocp, hlocq⟩ := h
  have habsolute : isAbsolute p = isAbsolute q := by
    rw [Bool.eq_iff_iff, isAbsolute_iff_headComponents, isAbsolute_iff_headComponents, hhead]
  have hsteps : (steps p).reverse = (steps q).reverse := by
    have hplace := (eq_of_locate hlinks hp hlocp).symm.trans (eq_of_locate hlinks hq hlocq)
    rw [habsolute] at hplace
    exact List.append_cancel_right hplace
  rw [components_eq, components_eq, hhead, List.reverse_injective hsteps]

end

theorem headComponents_joinAll (root : List Char) {names : List (List Char)}
    (hnames : ∀ name ∈ names, IsNormal name) :
    headComponents (joinAll root names) = headComponents root := by
  induction names generalizing root with
  | nil => rfl
  | cons name names ih =>
    obtain ⟨hfront, _⟩ := join_spelling root (hnames name List.mem_cons_self)
    have hrest := ih (join root name) fun n hn => hnames n (List.mem_cons_of_mem name hn)
    rw [headComponents_eq (join root name), hfront, ← headComponents_eq] at hrest
    exact hrest

/-- Names below a root lead nowhere up. -/
theorem climbs_joinAll (root : List Char) {names : List (List Char)}
    (hnames : ∀ name ∈ names, IsNormal name) : Climbs (joinAll root names) ↔ Climbs root := by
  rw [Climbs, Climbs, components_joinAll root hnames]
  simp

section

variable {fs : FileSystem} {extensions patterns : List String}

/-- A path that is found begins as its root does, and climbs only if its root does. -/
def IsFoundUnder (root p : List Char) : Prop :=
  headComponents p = headComponents root ∧ (Climbs p ↔ Climbs root)

/-- How a path begins is told by its components: pieces are names or lead up. -/
theorem headComponents_eq_filter (path : List Char) :
    headComponents path = (components path).filter fun c => c = .root || c = .current := by
  have hpieces : ((steps path).map component).filter (fun c => c = .root || c = .current) = [] := by
    rw [List.filter_eq_nil_iff]
    intro c hc
    obtain ⟨piece, _, rfl⟩ := List.mem_map.mp hc
    unfold component
    split <;> simp
  rw [components_eq, List.filter_append, hpieces, List.append_nil]
  unfold headComponents
  split
  · rfl
  · split <;> rfl

/-- The root that stands for standard input and the path that is visited for it are names. -/
theorem isFoundUnder_standardInput {root : List Char} (h : isStandardInput root = true) :
    IsFoundUnder root standardInput.path := by
  have hroot : components root = components ['-'] := by simpa [isStandardInput, Path.same] using h
  rw [IsFoundUnder, headComponents_eq_filter root, Climbs, Climbs, hroot]
  decide

theorem isFoundUnder_of_mem_walk (htree : IsTree fs) {root : List Char} {files : List (List Char)}
    (h : (walk fs extensions patterns root).1 = .ok files) {p : List Char} (hp : p ∈ files) :
    IsFoundUnder root p := by
  have hself : files = [root] → IsFoundUnder root p := by
    rintro rfl
    rw [List.mem_singleton.mp hp]
    exact ⟨rfl, Iff.rfl⟩
  cases hloc : fs.locate false root with
  | error fault =>
    simp only [walk, hloc, Except.ok.injEq] at h
    exact hself h.symm
  | ok loc =>
    cases hdirectory : fs.hasDirectory loc with
    | false =>
      simp only [walk, hloc, hdirectory, Bool.not_false, ↓reduceIte, Except.ok.injEq] at h
      exact hself h.symm
    | true =>
      rw [walk_directory ⟨hloc, hdirectory⟩] at h
      obtain ⟨compiled, found, _, hfound, rfl⟩ := filesBelow_eq_ok_iff.mp h
      obtain ⟨v, hv, rfl, _⟩ := mem_choose_iff.mp hp
      rcases visited_eq_ok htree hfound with ⟨hinput, rfl⟩ | ⟨below, _, hnames, rfl⟩
      · rw [List.mem_singleton.mp hv]
        exact isFoundUnder_standardInput hinput
      · obtain ⟨names, hmem, rfl⟩ := List.mem_map.mp hv
        exact ⟨headComponents_joinAll root (hnames names hmem),
          climbs_joinAll root (hnames names hmem)⟩

theorem exists_walk_of_mem {roots paths : List (List Char)}
    (h : (walkAll fs extensions patterns roots).1 = .ok paths) {p : List Char} (hp : p ∈ paths) :
    ∃ root ∈ roots, ∃ files, (walk fs extensions patterns root).1 = .ok files ∧ p ∈ files := by
  induction roots generalizing paths with
  | nil =>
    cases h
    cases hp
  | cons root roots ih =>
    rw [walkAll_cons] at h
    obtain ⟨files, hfiles, h⟩ := bind_eq_ok_iff.mp h
    obtain ⟨others, hothers, h⟩ := bind_eq_ok_iff.mp h
    cases h
    rcases List.mem_append.mp hp with hp | hp
    · exact ⟨root, List.mem_cons_self, files, hfiles, hp⟩
    · obtain ⟨other, hother, found, hfound, hp⟩ := ih hothers hp
      exact ⟨other, List.mem_cons_of_mem root hother, found, hfound, hp⟩

variable {roots files : List (List Char)}

theorem exists_keepsFirst (h : (select fs extensions patterns roots).1 = .ok files) :
    ∃ paths, (walkAll fs extensions patterns roots).1 = .ok paths ∧ KeepsFirst paths files := by
  rw [select_eq_map] at h
  cases hpaths : (walkAll fs extensions patterns roots).1 with
  | error e =>
    rw [hpaths] at h
    cases h
  | ok paths =>
    rw [hpaths] at h
    cases h
    exact ⟨paths, rfl, keepsFirst_dedup paths⟩

theorem exists_root_of_mem_select (htree : IsTree fs)
    (h : (select fs extensions patterns roots).1 = .ok files) {p : List Char} (hp : p ∈ files) :
    ∃ root ∈ roots, IsFoundUnder root p := by
  obtain ⟨paths, hpaths, hkeeps⟩ := exists_keepsFirst h
  obtain ⟨root, hroot, found, hfound, hp⟩ := exists_walk_of_mem hpaths (hkeeps.mem hp)
  exact ⟨root, hroot, isFoundUnder_of_mem_walk htree hfound hp⟩

theorem exists_same_of_mem_walk (h : (select fs extensions patterns roots).1 = .ok files)
    {root : List Char} (hroot : root ∈ roots) {found : List (List Char)}
    (hfound : (walk fs extensions patterns root).1 = .ok found) {p : List Char} (hp : p ∈ found) :
    ∃ q ∈ files, components q = components p := by
  obtain ⟨paths, hpaths, hkeeps⟩ := exists_keepsFirst h
  exact hkeeps.covers p (subset_walkAll hpaths hroot hfound hp)

/-- Two selected spellings of one place begin differently, or one of them climbs. -/
theorem pairwise_select (hlinks : LinkFree fs)
    (h : (select fs extensions patterns roots).1 = .ok files) :
    files.Pairwise fun p q =>
      SamePlace fs p q → headComponents p ≠ headComponents q ∨ Climbs p ∨ Climbs q := by
  obtain ⟨paths, _, hkeeps⟩ := exists_keepsFirst h
  refine hkeeps.distinct.imp fun hdistinct hsame => ?_
  by_contra hother
  simp only [not_or, not_not] at hother
  obtain ⟨hhead, hp, hq⟩ := hother
  exact hdistinct (components_eq_of_samePlace hlinks hp hq hhead hsame)

theorem pairwise_select_of_not_climbs (htree : IsTree fs) (hlinks : LinkFree fs)
    (h : (select fs extensions patterns roots).1 = .ok files)
    (hclimbs : ∀ root ∈ roots, ¬Climbs root) :
    files.Pairwise fun p q => SamePlace fs p q → headComponents p ≠ headComponents q := by
  have hstays : ∀ p ∈ files, ¬Climbs p := by
    intro p hp
    obtain ⟨root, hroot, _, hclimb⟩ := exists_root_of_mem_select htree h hp
    rw [hclimb]
    exact hclimbs root hroot
  refine (pairwise_select hlinks h).imp_of_mem fun hp hq hpair hsame => ?_
  rcases hpair hsame with hhead | hclimb | hclimb
  · exact hhead
  · exact absurd hclimb (hstays _ hp)
  · exact absurd hclimb (hstays _ hq)

/-- All spellings of one place begin differently, each in the way of a root. -/
theorem length_spellings_le (htree : IsTree fs) (hlinks : LinkFree fs)
    (h : (select fs extensions patterns roots).1 = .ok files)
    (hclimbs : ∀ root ∈ roots, ¬Climbs root) {beginnings : List (List Component)}
    (hroots : ∀ root ∈ roots, headComponents root ∈ beginnings) {loc : Location}
    {spellings : List (List Char)} (hsub : spellings.Sublist files)
    (hplace : ∀ p ∈ spellings, fs.locate false p = .ok loc) :
    spellings.length ≤ beginnings.length := by
  have honce : (spellings.map headComponents).Nodup := by
    rw [List.nodup_iff_pairwise_ne, List.pairwise_map]
    refine ((pairwise_select_of_not_climbs htree hlinks h hclimbs).sublist hsub).imp_of_mem ?_
    intro p q hp hq hpair
    exact hpair ⟨loc, hplace p hp, hplace q hq⟩
  have hamong : spellings.map headComponents ⊆ beginnings := by
    intro head hhead
    obtain ⟨p, hp, rfl⟩ := List.mem_map.mp hhead
    obtain ⟨root, hroot, hsame, _⟩ := exists_root_of_mem_select htree h (hsub.subset hp)
    rw [hsame]
    exact hroots root hroot
  have hlength := (honce.subperm hamong).length_le
  rwa [List.length_map] at hlength

end

/-- Whatever the walk of a root finds is selected. In a tree without links, two selected spellings
of one file begin differently, or one of them leads up to a directory above. If no root leads up,
then a file is selected at most once for each way in which the roots begin: with a slash, with a
dot, or with a name. So each is selected once if they all begin alike. -/
theorem select_once_for_each_beginning {fs : FileSystem} (htree : IsTree fs) (hlinks : LinkFree fs)
    {extensions patterns : List String} {roots files : List (List Char)}
    (h : (select fs extensions patterns roots).1 = .ok files) :
    (∀ root ∈ roots, ∀ found, (walk fs extensions patterns root).1 = .ok found →
      ∀ p ∈ found, ∃ q ∈ files, components q = components p) ∧
    (files.Pairwise fun p q =>
      SamePlace fs p q → headComponents p ≠ headComponents q ∨ Climbs p ∨ Climbs q) ∧
    ((∀ root ∈ roots, ¬Climbs root) →
      (∀ beginnings : List (List Component), (∀ root ∈ roots, headComponents root ∈ beginnings) →
        ∀ loc (spellings : List (List Char)), spellings.Sublist files →
          (∀ p ∈ spellings, fs.locate false p = .ok loc) → spellings.length ≤ beginnings.length) ∧
      ((∀ root ∈ roots, ∀ other ∈ roots, headComponents root = headComponents other) →
        files.Pairwise fun p q => ¬SamePlace fs p q)) := by
  refine ⟨?_, pairwise_select hlinks h, fun hclimbs => ⟨?_, fun halike => ?_⟩⟩
  · intro root hroot found hfound p hp
    exact exists_same_of_mem_walk h hroot hfound hp
  · intro beginnings hroots loc spellings hsub hplace
    exact length_spellings_le htree hlinks h hclimbs hroots hsub hplace
  · refine (pairwise_select_of_not_climbs htree hlinks h hclimbs).imp_of_mem ?_
    intro p q hp hq hpair hsame
    obtain ⟨root, hroot, hheadp, _⟩ := exists_root_of_mem_select htree h hp
    obtain ⟨other, hother, hheadq, _⟩ := exists_root_of_mem_select htree h hq
    exact hpair hsame (by rw [hheadp, hheadq, halike root hroot other hother])

theorem isTree_overlapping : IsTree overlapping := by decide

theorem linkFree_overlapping : LinkFree overlapping := linkFree_of_entries (by decide)

theorem select_once_for_each_beginning_overlapping :
    let alike := ["./b.ts".toList, ".//".toList, ".".toList]
    let files := ["./b.ts".toList, ".//a.ts".toList]
    let mixed := [".".toList, "a.ts".toList, "/a.ts".toList]
    let spellings := ["./a.ts".toList, "a.ts".toList, "/a.ts".toList]
    (select overlapping ["ts"] [] alike).1 = .ok files ∧
    (∃ q ∈ files, components q = components "./a.ts".toList) ∧
    (files.Pairwise fun p q => ¬SamePlace overlapping p q) ∧
    ∃ all, (select overlapping ["ts"] [] mixed).1 = .ok all ∧ spellings.Sublist all ∧
      (∀ p ∈ spellings, overlapping.locate false p = .ok ["a.ts".toList]) ∧
      spellings.length ≤ [[.current], [], [Component.root]].length := by
  intro alike files mixed spellings
  have halike : (select overlapping ["ts"] [] alike).1 = .ok files := by cbv
  have hmixed : (select overlapping ["ts"] [] mixed).1 =
      .ok ["./a.ts".toList, "./b.ts".toList, "a.ts".toList, "/a.ts".toList] := by cbv
  have hsub : spellings.Sublist
      ["./a.ts".toList, "./b.ts".toList, "a.ts".toList, "/a.ts".toList] := by
    decide
  have hplace : ∀ p ∈ spellings, overlapping.locate false p = .ok ["a.ts".toList] := by
    decide +kernel
  have hwalk : (walk overlapping ["ts"] [] ".".toList).1 =
      .ok ["./a.ts".toList, "./b.ts".toList] := by cbv
  obtain ⟨hcovers, _, honce⟩ :=
    select_once_for_each_beginning isTree_overlapping linkFree_overlapping halike
  obtain ⟨_, _, hthrice⟩ :=
    select_once_for_each_beginning isTree_overlapping linkFree_overlapping hmixed
  have hcovered := hcovers ".".toList (by simp [alike]) _ hwalk "./a.ts".toList (by simp)
  refine ⟨halike, hcovered, (honce ?_).2 ?_, _, hmixed, hsub, hplace,
    (hthrice ?_).1 _ ?_ _ _ hsub hplace⟩
  · unfold Climbs
    decide
  · decide
  · unfold Climbs
    decide
  · decide

/-- A root that lies below another one gives its file a second time, unless it begins alike. -/
theorem select_repeats_a_file :
    let roots := [".".toList, "a.ts".toList]
    let files := ["./a.ts".toList, "./b.ts".toList, "a.ts".toList]
    IsTree overlapping ∧ LinkFree overlapping ∧ (select overlapping ["ts"] [] roots).1 = .ok files ∧
    ¬files.Pairwise fun p q => ¬SamePlace overlapping p q := by
  intro roots files
  have hfirst : overlapping.locate false "./a.ts".toList = .ok ["a.ts".toList] := by decide +kernel
  have hagain : overlapping.locate false "a.ts".toList = .ok ["a.ts".toList] := by decide +kernel
  refine ⟨isTree_overlapping, linkFree_overlapping, by cbv, fun honce => ?_⟩
  exact (List.pairwise_cons.mp honce).1 "a.ts".toList (by simp) ⟨_, hfirst, hagain⟩

end SourceGauge.Proofs.SelectedOnce
