import Mathlib
import SourceGauge.Proofs.EntryOrder
import SourceGauge.Proofs.PathOrder
import SourceGauge.Proofs.SelectionFailure

namespace SourceGauge.Proofs.WalkedFiles
open Selection SelectionFailure PathAncestors PathOrder EntryOrder

theorem nameExtension?_of_not_mem {name : List Char} (h : '.' ∉ name) :
    Path.nameExtension? name = none := by
  have hall : ∀ c ∈ name.reverse, (c != '.') = true := by
    intro c hc
    simp only [bne_iff_ne, ne_eq]
    rintro rfl
    exact h (List.mem_reverse.mp hc)
  have hext : name.reverse.takeWhile (· != '.') = name.reverse :=
    List.takeWhile_eq_self_iff.mpr hall
  simp [Path.nameExtension?, hext]

theorem nameExtension?_append (stem : List Char) {ext : List Char} (h : '.' ∉ ext) :
    Path.nameExtension? (stem ++ '.' :: ext) = if stem = [] then none else some ext := by
  have hall : ∀ c ∈ ext.reverse, (c != '.') = true := by
    intro c hc
    simp only [bne_iff_ne, ne_eq]
    rintro rfl
    exact h (List.mem_reverse.mp hc)
  have hext : (stem ++ '.' :: ext).reverse.takeWhile (· != '.') = ext.reverse := by
    have hreverse : (stem ++ '.' :: ext).reverse = ext.reverse ++ '.' :: stem.reverse := by simp
    rw [hreverse, List.takeWhile_append_of_pos hall]
    simp
  have hstem : (stem ++ '.' :: ext).take ((stem ++ '.' :: ext).length - ext.length - 1) = stem := by
    have hlength : (stem ++ '.' :: ext).length - ext.length - 1 = stem.length := by simp; omega
    rw [hlength, List.take_left]
  have hshorter : ext.length ≠ (stem ++ '.' :: ext).length := by simp; omega
  simp only [Path.nameExtension?, hext, List.reverse_reverse, hstem, hshorter, decide_false,
    Bool.false_or, List.isEmpty_iff]

/-- An extension follows the last dot of a name, and something stands before that dot. -/
theorem nameExtension?_eq_some_iff {name ext : List Char} :
    Path.nameExtension? name = some ext ↔
      ∃ stem, name = stem ++ '.' :: ext ∧ stem ≠ [] ∧ '.' ∉ ext := by
  constructor
  · intro h
    have hdot : '.' ∈ name.reverse := by
      by_contra hdot
      rw [nameExtension?_of_not_mem (by simpa using hdot)] at h
      cases h
    obtain ⟨after, before, hname, hfree⟩ := List.eq_append_cons_of_mem hdot
    have hname : name = before.reverse ++ '.' :: after.reverse := by
      rw [← List.reverse_reverse name, hname]
      simp
    have hfree : '.' ∉ after.reverse := by simpa using hfree
    rw [hname, nameExtension?_append _ hfree] at h
    split at h
    · cases h
    · rename_i hstem
      cases h
      exact ⟨before.reverse, hname, hstem, hfree⟩
  · rintro ⟨stem, rfl, hstem, hfree⟩
    rw [nameExtension?_append stem hfree, if_neg hstem]

/-- No extensions ask for every file. Otherwise the name of the file ends with one of them, which
has no dot. The case of ASCII letters and the dots in front of what was asked for do not count. -/
def AskedFor (extensions : List String) (path : List Char) : Prop :=
  extensions = [] ∨
    ∃ stem ext, Path.fileName? path = some (stem ++ '.' :: ext) ∧ stem ≠ [] ∧ '.' ∉ ext ∧
      ∃ e ∈ extensions, ext.map Char.toLower = (e.toList.dropWhile (· == '.')).map Char.toLower

theorem isWanted_iff (extensions : List String) (path : List Char) :
    isWanted extensions path = true ↔ AskedFor extensions path := by
  simp only [isWanted, AskedFor, Bool.or_eq_true, List.isEmpty_iff, Option.any_eq_true,
    Path.extension?, Option.bind_eq_some_iff, nameExtension?_eq_some_iff, List.contains_iff_mem,
    List.mem_map, Selection.normalize]
  refine or_congr_right ⟨?_, ?_⟩
  · rintro ⟨ext, ⟨name, hname, stem, rfl, hstem, hfree⟩, e, he, hext⟩
    exact ⟨stem, ext, hname, hstem, hfree, e, he, hext.symm⟩
  · rintro ⟨stem, ext, hname, hstem, hfree, e, he, hext⟩
    exact ⟨ext, ⟨_, hname, stem, rfl, hstem, hfree⟩, e, he, hext.symm⟩

/-- The same extension once dots are put in front and the case of letters is left aside. -/
def Respelled (e other : String) : Prop :=
  ∃ m n, List.replicate m '.' ++ e.toList.map Char.toLower =
    List.replicate n '.' ++ other.toList.map Char.toLower

/-- The same extensions, respelled, in any order and repeated. -/
structure SameExtensions (extensions others : List String) : Prop where
  kept : ∀ e ∈ extensions, ∃ other ∈ others, Respelled e other
  only : ∀ other ∈ others, ∃ e ∈ extensions, Respelled e other

theorem toLower_eq_dot_iff (c : Char) : c.toLower = '.' ↔ c = '.' := by
  constructor
  · intro h
    unfold Char.toLower at h
    split at h
    · rename_i hupper
      have hval : (c.val + 32).toNat = 46 := congrArg (fun d : Char => d.val.toNat) h
      have hlow : 65 ≤ c.val.toNat := UInt32.le_iff_toNat_le.mp hupper.1
      have hhigh : c.val.toNat ≤ 90 := UInt32.le_iff_toNat_le.mp hupper.2
      have hsum : (c.val + 32).toNat = (c.val.toNat + 32) % 4294967296 := UInt32.toNat_add c.val 32
      omega
    · exact h
  · rintro rfl
    rfl

theorem normalize_eq (e : String) :
    normalize e = (e.toList.map Char.toLower).dropWhile (· == '.') := by
  have hdot : (fun c : Char => c == '.') ∘ Char.toLower = fun c => c == '.' := by
    funext c
    rw [Bool.eq_iff_iff]
    simp [toLower_eq_dot_iff]
  rw [Selection.normalize, List.dropWhile_map, hdot]

theorem normalize_respelled {e other : String} (h : Respelled e other) :
    normalize other = normalize e := by
  have hdots : ∀ (n : Nat) (text : List Char), (List.replicate n '.' ++ text).dropWhile (· == '.') =
      text.dropWhile (· == '.') := by
    intro n text
    apply List.dropWhile_append_of_pos
    intro c hc
    simp [List.eq_of_mem_replicate hc]
  obtain ⟨m, n, hsame⟩ := h
  rw [normalize_eq, normalize_eq, ← hdots n, ← hsame, hdots m]

theorem isWanted_same {extensions others : List String} (h : SameExtensions extensions others) :
    isWanted others = isWanted extensions := by
  have hempty : others.isEmpty = extensions.isEmpty := by
    cases extensions with
    | nil =>
      cases others with
      | nil => rfl
      | cons other others =>
        obtain ⟨e, he, _⟩ := h.only other List.mem_cons_self
        cases he
    | cons e extensions =>
      obtain ⟨other, hother, _⟩ := h.kept e List.mem_cons_self
      rw [List.isEmpty_cons, List.isEmpty_eq_false_iff]
      exact List.ne_nil_of_mem hother
  have hcontains : ∀ ext,
      (others.map normalize).contains ext = (extensions.map normalize).contains ext := by
    intro ext
    rw [Bool.eq_iff_iff, List.contains_iff_mem, List.contains_iff_mem, List.mem_map, List.mem_map]
    constructor
    · rintro ⟨other, hother, rfl⟩
      obtain ⟨e, he, hspelled⟩ := h.only other hother
      exact ⟨e, he, (normalize_respelled hspelled).symm⟩
    · rintro ⟨e, he, rfl⟩
      obtain ⟨other, hother, hspelled⟩ := h.kept e he
      exact ⟨other, hother, normalize_respelled hspelled⟩
  funext path
  simp only [isWanted, hempty, hcontains]

/-- The pattern is well-formed and matches the whole text. -/
def Matches (pattern : String) (text : List Char) : Prop :=
  ∃ tokens, Pattern.parse pattern = .ok tokens ∧ Pattern.accepts tokens text = true

theorem compile_cons (p : String) (patterns : List String) :
    compile (p :: patterns) = do
      let tokens ← (Pattern.parse p).mapError fun e => Error.pattern e.message
      let rest ← compile patterns
      return tokens :: rest := by
  rw [compile, List.mapM_cons]
  rfl

theorem mem_compile_iff {patterns : List String} {compiled : List (List Pattern.Token)}
    (h : compile patterns = .ok compiled) {tokens : List Pattern.Token} :
    tokens ∈ compiled ↔ ∃ p ∈ patterns, Pattern.parse p = .ok tokens := by
  induction patterns generalizing compiled with
  | nil =>
    cases h
    simp
  | cons p patterns ih =>
    rw [compile_cons] at h
    cases hp : Pattern.parse p with
    | error fault => simp [hp, Except.mapError, bind, Except.bind] at h
    | ok first =>
      cases hrest : compile patterns with
      | error e => simp [hp, hrest, Except.mapError, bind, Except.bind] at h
      | ok rest =>
        rw [hp, hrest] at h
        cases h
        rw [List.mem_cons, ih hrest]
        simp [hp, eq_comm]

theorem isLeftOut_iff {patterns : List String} {compiled : List (List Pattern.Token)}
    (h : compile patterns = .ok compiled) (path names : List Char) :
    isLeftOut compiled path names = true ↔ ∃ p ∈ patterns, Matches p path ∨ Matches p names := by
  simp only [isLeftOut, List.any_eq_true, mem_compile_iff h, Bool.or_eq_true, Matches, ← exists_or,
    ← and_or_left]
  constructor
  · rintro ⟨tokens, ⟨p, hp, hparse⟩, haccepts⟩
    exact ⟨p, hp, tokens, hparse, haccepts⟩
  · rintro ⟨p, hp, tokens, hparse, haccepts⟩
    exact ⟨tokens, ⟨p, hp, hparse⟩, haccepts⟩

theorem components_join (base : List Char) {name : List Char} (hname : IsNormal name) :
    Path.components (Path.join base name) = Path.components base ++ [.name name] := by
  obtain ⟨hfront, ps, hpieces, hps⟩ := join_spelling base hname
  have hsteps : ps.filter (!Path.isNoise ·) = (Path.pieces base).filter (!Path.isNoise ·) := by
    rw [← filter_trimNoise ps, hps, filter_trimNoise]
  have hlast : Path.component name = .name name := if_neg hname.not_up
  rw [Path.components, Path.components, headComponents_eq, headComponents_eq, hfront, hpieces,
    List.filter_append, hsteps]
  simp [hname.not_noise, hlast]

theorem components_joinAll (root : List Char) {names : List (List Char)}
    (hnames : ∀ name ∈ names, IsNormal name) :
    Path.components (joinAll root names) = Path.components root ++ names.map .name := by
  induction names generalizing root with
  | nil => simp [joinAll]
  | cons name names ih =>
    have hrest := ih (Path.join root name) fun n hn => hnames n (List.mem_cons_of_mem name hn)
    rw [components_join root (hnames name List.mem_cons_self), List.append_assoc] at hrest
    exact hrest

theorem eq_of_components_joinAll {root : List Char} {names others : List (List Char)}
    (hnames : ∀ name ∈ names, IsNormal name) (hothers : ∀ name ∈ others, IsNormal name)
    (h : Path.components (joinAll root names) = Path.components (joinAll root others)) :
    names = others := by
  rw [components_joinAll root hnames, components_joinAll root hothers,
    List.append_cancel_left_eq] at h
  exact List.map_injective_iff.mpr (fun _ _ he => by cases he; rfl) h

/-- With the place of the directory, the names below it are places of entries. -/
theorem map_below (fs : FileSystem) (dir : Location) :
    (fs.below dir).map (fun names => names.reverse ++ dir) =
      (fs.entries.map Prod.fst).filter fun loc => dir.isSuffixOf loc && decide (loc ≠ dir) := by
  rw [FileSystem.below]
  induction fs.entries with
  | nil => rfl
  | cons e rest ih =>
    obtain ⟨place, entry⟩ := e
    rw [List.map_cons, List.filter_cons, List.filterMap_cons]
    by_cases hbelow : (dir.isSuffixOf place && decide (place ≠ dir)) = true
    · obtain ⟨front, hfront⟩ := List.isSuffixOf_iff_suffix.mp (Bool.and_eq_true_iff.mp hbelow).1
      have hplace : (place.take (place.length - dir.length)).reverse.reverse ++ dir = place := by
        rw [← hfront]
        simp
      simp only [hbelow, ↓reduceIte, List.map_cons, ih, hplace]
    · simp only [hbelow, ↓reduceIte, Bool.false_eq_true, ih]

theorem nodup_below {fs : FileSystem} (htree : IsTree fs) (dir : Location) :
    (fs.below dir).Nodup := by
  have hplaces := htree.once.filter fun loc => dir.isSuffixOf loc && decide (loc ≠ dir)
  rw [← map_below] at hplaces
  exact hplaces.of_map _

theorem isNormal_below {fs : FileSystem} (htree : IsTree fs) {dir : Location}
    {names : List (List Char)} (hnames : names ∈ fs.below dir) : ∀ name ∈ names, IsNormal name := by
  intro name hname
  have hplace : names.reverse ++ dir ∈ (fs.below dir).map fun names => names.reverse ++ dir :=
    List.mem_map_of_mem hnames
  rw [map_below] at hplace
  obtain ⟨e, he, hloc⟩ := List.mem_map.mp (List.mem_filter.mp hplace).1
  refine htree.names e he name ?_
  rw [hloc]
  exact List.mem_append_left _ (List.mem_reverse.mpr hname)

theorem sublist_below {fs : FileSystem} {path : List Char} {loc : Location}
    {found : List (List (List Char))} (h : reached fs path loc = .ok found) :
    found.Sublist (fs.below loc) := by
  simp only [reached] at h
  generalize (if isPlaced fs path then booksAbove fs loc else []) = above at h
  split at h
  · cases h
  · cases h
    exact List.filter_sublist

/-- What is visited below a root is spelled by the root and names of files. -/
theorem visited_eq_ok {fs : FileSystem} (htree : IsTree fs) {root : List Char} {loc : Location}
    {found : List Visit} (h : visited fs root loc = .ok found) :
    (isStandardInput root = true ∧ found = [standardInput]) ∨
      ∃ below : List (List (List Char)), below.Nodup ∧
        (∀ names ∈ below, ∀ name ∈ names, IsNormal name) ∧
        found = below.map (visit root) := by
  unfold visited at h
  split at h
  · rename_i hinput
    cases h
    exact .inl ⟨hinput, rfl⟩
  · cases hreached : reached fs root loc with
    | error e =>
      rw [hreached] at h
      cases h
    | ok below =>
      rw [hreached] at h
      cases h
      exact .inr ⟨below, (sublist_below hreached).nodup (nodup_below htree loc),
        fun _ hnames => isNormal_below htree ((sublist_below hreached).subset hnames), rfl⟩

/-- A visited path is the root with names of files joined to it, and these names follow the root. -/
def IsBelow (root : List Char) (v : Visit) : Prop :=
  ∃ names, (∀ name ∈ names, IsNormal name) ∧ v = visit root names

theorem isBelow_of_mem_visited {fs : FileSystem} (htree : IsTree fs) {root : List Char}
    {loc : Location} {found : List Visit} (h : visited fs root loc = .ok found)
    (hroot : isStandardInput root = false) {v : Visit} (hv : v ∈ found) : IsBelow root v := by
  rcases visited_eq_ok htree h with ⟨hinput, _⟩ | ⟨below, _, hnames, rfl⟩
  · rw [hroot] at hinput
    cases hinput
  · obtain ⟨names, hmem, rfl⟩ := List.mem_map.mp hv
    exact ⟨names, hnames names hmem, rfl⟩

/-- No two visited paths are the same. -/
def Distinct (found : List Visit) : Prop :=
  found.Pairwise fun v u => Path.components v.path ≠ Path.components u.path

theorem distinct_visited {fs : FileSystem} (htree : IsTree fs) {root : List Char} {loc : Location}
    {found : List Visit} (h : visited fs root loc = .ok found) : Distinct found := by
  rcases visited_eq_ok htree h with ⟨_, rfl⟩ | ⟨below, honce, hnames, rfl⟩
  · exact List.pairwise_singleton _ _
  · rw [Distinct, List.pairwise_map]
    exact honce.imp_of_mem fun h₁ h₂ hne hsame =>
      hne (eq_of_components_joinAll (hnames _ h₁) (hnames _ h₂) hsame)

theorem Distinct.perm {found other : List Visit} (h : Distinct found) (hperm : found.Perm other) :
    Distinct other :=
  hperm.pairwise h fun hne => hne.symm

section

variable {fs : FileSystem} {extensions : List String} {compiled : List (List Pattern.Token)}
  {found : List Visit}

theorem mem_choose_iff {p : List Char} :
    p ∈ choose fs extensions compiled found ↔
      ∃ v ∈ found, v.path = p ∧ fs.isFile v.path = true ∧ isWanted extensions v.path = true ∧
        isLeftOut compiled v.path v.below = false := by
  rw [choose, List.mem_mergeSort, List.mem_map]
  constructor
  · rintro ⟨v, hv, rfl⟩
    obtain ⟨hfound, hkept⟩ := List.mem_filter.mp hv
    simp only [Bool.and_eq_true, Bool.not_eq_true', and_assoc] at hkept
    exact ⟨v, hfound, rfl, hkept⟩
  · rintro ⟨v, hfound, rfl, hkept⟩
    refine ⟨v, List.mem_filter.mpr ⟨hfound, ?_⟩, rfl⟩
    simpa only [Bool.and_eq_true, Bool.not_eq_true', and_assoc] using hkept

theorem pairwise_choose (h : Distinct found) :
    (choose fs extensions compiled found).Pairwise fun p q => order p < order q := by
  apply pairwise_mergeSort_lt
  rw [List.pairwise_map]
  exact h.filter _

theorem perm_choose {other : List Visit} (h : found.Perm other) :
    (choose fs extensions compiled found).Perm (choose fs extensions compiled other) :=
  (List.mergeSort_perm _ _).trans
    (((h.filter _).map _).trans (List.mergeSort_perm _ _).symm)

end

/-- What the walk of a directory finds. -/
def filesBelow (fs : FileSystem) (extensions patterns : List String) (root : List Char)
    (loc : Location) : Except Error (List (List Char)) := do
  let compiled ← compile patterns
  return choose fs extensions compiled (← visited fs root loc)

theorem bind_eq_ok_iff {x : Except ε α} {f : α → Except ε β} {b : β} :
    (x >>= f) = .ok b ↔ ∃ a, x = .ok a ∧ f a = .ok b := by
  cases x with
  | error e => simp [bind, Except.bind]
  | ok a => simp [bind, Except.bind]

section

variable {fs other : FileSystem} {extensions others patterns : List String} {root : List Char}
  {loc : Location}

theorem filesBelow_eq_ok_iff {files : List (List Char)} :
    filesBelow fs extensions patterns root loc = .ok files ↔
      ∃ compiled found, compile patterns = .ok compiled ∧ visited fs root loc = .ok found ∧
        choose fs extensions compiled found = files := by
  simp only [filesBelow, bind_eq_ok_iff, pure, Except.pure, Except.ok.injEq]
  constructor
  · rintro ⟨compiled, hcompiled, found, hfound, hfiles⟩
    exact ⟨compiled, found, hcompiled, hfound, hfiles⟩
  · rintro ⟨compiled, found, hcompiled, hfound, hfiles⟩
    exact ⟨compiled, hcompiled, found, hfound, hfiles⟩

/-- The number of files is logged when there are any to give. -/
theorem walk_directory (hroot : IsDirectory fs root loc) :
    walk fs extensions patterns root =
      (filesBelow fs extensions patterns root loc,
        match filesBelow fs extensions patterns root loc with
        | .error _ => []
        | .ok files => [Log.debug ("Selected " ++ toString files.length ++ " files under " ++
            String.ofList root)]) := by
  obtain ⟨hloc, hdirectory⟩ := hroot
  simp only [walk, hloc, hdirectory, Bool.not_true, Bool.false_eq_true, ↓reduceIte]
  rw [← filesBelow]
  cases filesBelow fs extensions patterns root loc <;> rfl

/-- Nothing of the order in which the entries are reached is left after sorting. -/
theorem filesBelow_rearranged (htree : IsTree fs) (h : Rearranged fs other) :
    filesBelow other extensions patterns root loc = filesBelow fs extensions patterns root loc := by
  have hchoose : choose other = choose fs := by
    funext
    simp only [choose, (h.alike htree).isFile]
  unfold filesBelow
  rw [hchoose]
  rcases h.visited htree root loc with ⟨e, hfs, hother⟩ | ⟨found, another, hfs, hother, hperm⟩
  · rw [hfs, hother]
  · have hdistinct : Distinct found := distinct_visited htree hfs
    have hsame : ∀ compiled, choose fs extensions compiled another =
        choose fs extensions compiled found := by
      intro compiled
      apply eq_of_perm (perm_choose hperm.symm)
      · exact pairwise_choose (hdistinct.perm hperm)
      · exact pairwise_choose hdistinct
    rw [hfs, hother]
    cases compile patterns with
    | error e => rfl
    | ok compiled => exact congrArg Except.ok (hsame compiled)

theorem filesBelow_same (h : SameExtensions extensions others) :
    filesBelow fs others patterns root loc = filesBelow fs extensions patterns root loc := by
  have hchoose : choose fs others = choose fs extensions := by
    funext
    simp only [choose, isWanted_same h]
  unfold filesBelow
  rw [hchoose]

end

/-- What is visited is a file whose extension is asked for, and no pattern matches its path or what
follows the root. -/
def Chosen (fs : FileSystem) (extensions patterns : List String) (v : Visit) : Prop :=
  fs.isFile v.path = true ∧ AskedFor extensions v.path ∧
    ∀ pattern ∈ patterns, ¬Matches pattern v.path ∧ ¬Matches pattern v.below

section

variable {fs : FileSystem} {extensions patterns more : List String} {root : List Char}

theorem AskedFor.mono (hne : extensions ≠ []) (hmore : extensions ⊆ more) {path : List Char}
    (h : AskedFor extensions path) : AskedFor more path := by
  rcases h with hnil | ⟨stem, ext, hname, hstem, hfree, e, he, hext⟩
  · exact absurd hnil hne
  · exact .inr ⟨stem, ext, hname, hstem, hfree, e, hmore he, hext⟩

theorem mem_choose_iff_chosen {compiled : List (List Pattern.Token)}
    (hcompiled : compile patterns = .ok compiled) {found : List Visit} {p : List Char} :
    p ∈ choose fs extensions compiled found ↔
      ∃ v ∈ found, v.path = p ∧ Chosen fs extensions patterns v := by
  have hleft : ∀ path below, isLeftOut compiled path below = false ↔
      ∀ pattern ∈ patterns, ¬Matches pattern path ∧ ¬Matches pattern below := by
    intro path below
    rw [← Bool.not_eq_true, isLeftOut_iff hcompiled]
    simp only [not_exists, not_and, not_or]
  rw [mem_choose_iff]
  simp only [hleft, isWanted_iff, Chosen]

theorem exists_compiled (h : ∀ p ∈ patterns, ¬Fails (Pattern.parse p)) :
    ∃ compiled, compile patterns = .ok compiled := by
  rw [← not_fails_iff, fails_compile_iff]
  rintro ⟨p, hp, hfails⟩
  exact h p hp hfails

/-- Further extensions lose no file. -/
theorem subset_of_more_extensions (hne : extensions ≠ []) (hmore : extensions ⊆ more)
    {loc : Location} {files : List (List Char)}
    (h : filesBelow fs extensions patterns root loc = .ok files) :
    ∃ larger, filesBelow fs more patterns root loc = .ok larger ∧ files ⊆ larger := by
  obtain ⟨compiled, found, hcompiled, hfound, rfl⟩ := filesBelow_eq_ok_iff.mp h
  refine ⟨_, filesBelow_eq_ok_iff.mpr ⟨compiled, found, hcompiled, hfound, rfl⟩, fun p hp => ?_⟩
  obtain ⟨v, hv, hp, hfile, hasked, hmatches⟩ := (mem_choose_iff_chosen hcompiled).mp hp
  exact (mem_choose_iff_chosen hcompiled).mpr
    ⟨v, hv, hp, hfile, hasked.mono hne hmore, hmatches⟩

/-- Further patterns gain no file. -/
theorem subset_of_more_patterns (hmore : patterns ⊆ more)
    (hvalid : ∀ p ∈ more, ¬Fails (Pattern.parse p)) {loc : Location} {files : List (List Char)}
    (h : filesBelow fs extensions patterns root loc = .ok files) :
    ∃ smaller, filesBelow fs extensions more root loc = .ok smaller ∧ smaller ⊆ files := by
  obtain ⟨compiled, found, hcompiled, hfound, rfl⟩ := filesBelow_eq_ok_iff.mp h
  obtain ⟨all, hall⟩ := exists_compiled hvalid
  refine ⟨_, filesBelow_eq_ok_iff.mpr ⟨all, found, hall, hfound, rfl⟩, fun p hp => ?_⟩
  obtain ⟨v, hv, hp, hfile, hasked, hmatches⟩ := (mem_choose_iff_chosen hall).mp hp
  exact (mem_choose_iff_chosen hcompiled).mpr
    ⟨v, hv, hp, hfile, hasked, fun pattern hpattern => hmatches pattern (hmore hpattern)⟩

end

/-- The walk of a directory does not depend on the order of the entries. It gives the files that it
visits, that have an extension that is asked for and that no pattern matches, in strictly increasing
order of their components. So it does not depend on how extensions are spelled, ordered or repeated,
a further extension loses no file, and a further pattern gains none. -/
theorem walk_sorted_selection {fs : FileSystem} (htree : IsTree fs) {root : List Char}
    {loc : Location} (hroot : IsDirectory fs root loc) (extensions patterns : List String) :
    (∀ other, Rearranged fs other →
      walk other extensions patterns root = walk fs extensions patterns root) ∧
    (∀ found, visited fs root loc = .ok found → (∀ p ∈ patterns, ¬Fails (Pattern.parse p)) →
      (isStandardInput root = false → ∀ v ∈ found, IsBelow root v) ∧
      ∃ files, (walk fs extensions patterns root).1 = .ok files ∧
        (files.Pairwise fun p q => order p < order q) ∧
        ∀ p, p ∈ files ↔ ∃ v ∈ found, v.path = p ∧ Chosen fs extensions patterns v) ∧
    (∀ others, SameExtensions extensions others →
      walk fs others patterns root = walk fs extensions patterns root) ∧
    (∀ files, (walk fs extensions patterns root).1 = .ok files →
      (∀ more, extensions ≠ [] → extensions ⊆ more →
        ∃ larger, (walk fs more patterns root).1 = .ok larger ∧ files ⊆ larger) ∧
      ∀ more, patterns ⊆ more → (∀ p ∈ more, ¬Fails (Pattern.parse p)) →
        ∃ smaller, (walk fs extensions more root).1 = .ok smaller ∧ smaller ⊆ files) := by
  simp only [walk_directory hroot]
  refine ⟨?_, ?_, ?_, ?_⟩
  · intro other hother
    have halike := hother.alike htree
    have hotherRoot : IsDirectory other root loc := by
      rw [IsDirectory, ← halike.locate, ← halike.hasDirectory]
      exact hroot
    rw [walk_directory hotherRoot, filesBelow_rearranged htree hother]
  · intro found hfound hvalid
    obtain ⟨compiled, hcompiled⟩ := exists_compiled hvalid
    refine ⟨fun hinput v hv => isBelow_of_mem_visited htree hfound hinput hv, _,
      filesBelow_eq_ok_iff.mpr ⟨compiled, found, hcompiled, hfound, rfl⟩, ?_,
      fun p => mem_choose_iff_chosen hcompiled⟩
    exact pairwise_choose (distinct_visited htree hfound)
  · intro others hothers
    rw [filesBelow_same hothers]
  · intro files hfiles
    exact ⟨fun more hne hmore => subset_of_more_extensions hne hmore hfiles,
      fun more hmore hvalid => subset_of_more_patterns hmore hvalid hfiles⟩

/-- Names that differ in a character below the slash, one with an extension in capitals, one that is
nothing but a dot and letters, and one in a directory of its own. -/
def cluttered : FileSystem where
  entries := [
    (["x.ts".toList, "a-b".toList], .file ⟨#[]⟩),
    (["a-b".toList], .directory),
    (["x.TS".toList, "a".toList], .file ⟨#[]⟩),
    (["a".toList], .directory),
    ([".ts".toList], .file ⟨#[]⟩),
    (["y.ts".toList, "gen".toList], .file ⟨#[]⟩),
    (["gen".toList], .directory)]

theorem isTree_cluttered : IsTree cluttered := by decide

theorem walk_sorted_selection_cluttered :
    let root := ".".toList
    let files := ["./a/x.TS".toList, "./a-b/x.ts".toList]
    let rearranged : FileSystem := { cluttered with entries := cluttered.entries.reverse }
    IsTree cluttered ∧ IsDirectory cluttered root [] ∧
    (walk cluttered [".tS"] ["gen/*"] root).1 = .ok files ∧
    (files.Pairwise fun p q => order p < order q) ∧
    (∃ v, IsBelow root v ∧ v.path = "./a/x.TS".toList ∧ Chosen cluttered [".tS"] ["gen/*"] v) ∧
    walk rearranged [".tS"] ["gen/*"] root = walk cluttered [".tS"] ["gen/*"] root ∧
    walk cluttered ["..ts", "TS"] ["gen/*"] root = walk cluttered [".tS"] ["gen/*"] root ∧
    (∃ larger, (walk cluttered [".tS", "md"] ["gen/*"] root).1 = .ok larger ∧ files ⊆ larger) ∧
    ∃ smaller, (walk cluttered [".tS"] ["gen/*", "a/**"] root).1 = .ok smaller ∧
      smaller ⊆ files := by
  intro root files rearranged
  have hroot : IsDirectory cluttered root [] := ⟨by cbv, by cbv⟩
  have hfound : ∃ found, visited cluttered root [] = .ok found := by
    rw [← not_fails_iff]
    decide +kernel
  have hvalid : ∀ p ∈ ["gen/*", "a/**"], ¬Fails (Pattern.parse p) := by decide +kernel
  have hwalk : (walk cluttered [".tS"] ["gen/*"] root).1 = .ok files := by cbv
  have hdotted : Respelled ".tS" "..ts" := ⟨1, 0, by decide⟩
  have hbare : Respelled ".tS" "TS" := ⟨0, 1, by decide⟩
  have hspelled : SameExtensions [".tS"] ["..ts", "TS"] :=
    ⟨by simp [hdotted], by simp [hdotted, hbare]⟩
  obtain ⟨found, hfound⟩ := hfound
  obtain ⟨horder, hexact, hsame, hmore⟩ :=
    walk_sorted_selection isTree_cluttered hroot [".tS"] ["gen/*"]
  obtain ⟨hbelow, chosen, hchosen, hsorted, hmem⟩ :=
    hexact found hfound fun p hp => hvalid p (List.mem_cons.mpr (.inl (List.mem_singleton.mp hp)))
  obtain rfl : files = chosen := Except.ok.inj (hwalk.symm.trans hchosen)
  obtain ⟨v, hfoundv, hv⟩ := (hmem "./a/x.TS".toList).mp List.mem_cons_self
  exact ⟨isTree_cluttered, hroot, hwalk, hsorted, ⟨v, hbelow (by decide) v hfoundv, hv⟩,
    horder rearranged ⟨(List.reverse_perm _).symm, rfl⟩, hsame _ hspelled,
    (hmore files hwalk).1 [".tS", "md"] (by simp) (by simp),
    (hmore files hwalk).2 ["gen/*", "a/**"] (by simp) hvalid⟩

end SourceGauge.Proofs.WalkedFiles
