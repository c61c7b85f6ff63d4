import Mathlib
import SourceGauge.Proofs.ConfigSearch

namespace SourceGauge.Proofs.NewConfiguration
open Command Config FileSystem CommandFailure ConfigSearch PathAncestors Segments WrittenFiles

section

variable {fs : FileSystem} {creating : Bool} {name : List Char}

/-- Slashes and dots before a name do not change where a path leads. -/
theorem advance_filter {follow : Location → List (List Char) → Except Fault Location}
    (hname : Path.isNoise name = false)
    (hfollow : ∀ l ps, follow l (ps ++ [name]) = follow l (ps.filter (!Path.isNoise ·) ++ [name]))
    (l : Location) (ps : List (List Char)) :
    advance fs creating follow l (ps ++ [name]) =
      advance fs creating follow l (ps.filter (!Path.isNoise ·) ++ [name]) := by
  -- With a name to come, neither the end of the path nor a slash at its end is in question.
  have hmore : ∀ qs : List (List Char), (qs ++ [name]).isEmpty = false := by simp
  have hslashed : ∀ qs : List (List Char), (qs ++ [name]).all List.isEmpty = false := by
    intro qs
    have hne : name ≠ [] := by
      rintro rfl
      cases hname
    simp [hne]
  induction ps generalizing l with
  | nil => rfl
  | cons p ps ih =>
    cases hp : Path.isNoise p with
    | true =>
      rw [List.cons_append, advance, if_pos hp, List.filter_cons_of_neg (by simp [hp]), ih]
    | false =>
      have hlink : ∀ l (qs : List (List Char)), follow l (qs ++ (ps ++ [name])) =
          follow l (qs ++ (ps.filter (!Path.isNoise ·) ++ [name])) := by
        intro l qs
        rw [← List.append_assoc, ← List.append_assoc, hfollow, hfollow l (qs ++ ps.filter _),
          List.filter_append, List.filter_append, List.filter_filter]
        simp
      rw [List.filter_cons_of_pos (by simp [hp]), List.cons_append, List.cons_append, advance,
        advance]
      simp only [hmore, hslashed, ih, hlink]

theorem resolve_filter (hname : Path.isNoise name = false) (links : Nat) (l : Location)
    (ps : List (List Char)) :
    resolve fs creating links l (ps ++ [name]) =
      resolve fs creating links l (ps.filter (!Path.isNoise ·) ++ [name]) := by
  induction links generalizing l ps with
  | zero => exact advance_filter hname (fun _ _ => rfl) l ps
  | succ links ih => exact advance_filter hname ih l ps

/-- A name in a directory is found under every spelling of the directory that is not too long. -/
theorem locate_join_of_components {dir other : List Char} {loc : Location} (hname : IsNormal name)
    (hsame : Path.components other = Path.components dir)
    (hfits : Text.byteLength (Path.join other name) < pathLimit)
    (h : fs.locate creating (Path.join dir name) = .ok loc) :
    fs.locate creating (Path.join other name) = .ok loc := by
  obtain ⟨husable, hresolve⟩ := locate_eq_ok_iff.mp h
  obtain ⟨ps, hsplit, hps⟩ := split_join_name dir hname
  obtain ⟨qs, hsplitOther, hqs⟩ := split_join_name other hname
  have hsteps : steps other = steps dir := by
    rw [steps_eq_filterMap, steps_eq_filterMap, hsame]
  have habsolute : Path.isAbsolute other = Path.isAbsolute dir := by
    rw [Bool.eq_iff_iff, isAbsolute_iff_root_mem, isAbsolute_iff_root_mem, hsame]
  refine locate_eq_ok_iff.mpr ⟨⟨?_, join_ne_nil other hname, hfits⟩, ?_⟩
  · have hnul := husable.nul_free
    rw [mem_join_iff _ hname (by decide) (by decide)] at hnul ⊢
    rwa [hsteps]
  · rw [hsplitOther, resolve_filter hname.not_noise, hqs, hsteps, ← hps,
      ← resolve_filter hname.not_noise, ← hsplit, isAbsolute_join other hname, habsolute,
      ← isAbsolute_join dir hname]
    exact hresolve

end

theorem byteLength_append (a b : List Char) :
    Text.byteLength (a ++ b) = Text.byteLength a + Text.byteLength b := by
  induction a with
  | nil => simp [Text.byteLength]
  | cons c a ih =>
    rw [List.cons_append, Text.byteLength, Text.byteLength, ih, Nat.add_assoc]

theorem byteLength_join_bounds (base : List Char) {name : List Char} (hname : IsNormal name) :
    Text.byteLength base + Text.byteLength name ≤ Text.byteLength (Path.join base name) ∧
      Text.byteLength (Path.join base name) ≤ Text.byteLength base + 1 + Text.byteLength name := by
  have hslash : ('/').utf8Size = 1 := by decide
  rcases join_eq base hname with ⟨rfl, hjoin⟩ | ⟨b, rfl, hjoin⟩ | ⟨_, hjoin⟩ <;>
    simp only [hjoin, byteLength_append, Text.byteLength, hslash] <;> omega

/-- A shorter spelling gives a shorter path. -/
theorem byteLength_join_le {base other name : List Char} (hname : IsNormal name)
    (h : other <+: base) :
    Text.byteLength (Path.join other name) ≤ Text.byteLength (Path.join base name) := by
  obtain ⟨rest, rfl⟩ := h
  cases rest with
  | nil => rw [List.append_nil]
  | cons c rest =>
    have hother := (byteLength_join_bounds other hname).2
    have hbase := (byteLength_join_bounds (other ++ c :: rest) hname).1
    rw [byteLength_append, Text.byteLength] at hbase
    have hc : 0 < c.utf8Size := c.utf8Size_pos
    omega

theorem isNormal_fileName : IsNormal fileName.toList := ⟨by decide, by decide, by decide⟩

/-- What the template says. -/
def templateConfig : Config where
  selection := some {
    extensions := some ["js", "jsx", "ts", "tsx"]
    ignore := ["**/node_modules/**", "**/dist/**", "**/*.min.js"] }
  output := some { defaultFormat := some .terminal }
  parallel := some {}

theorem ofText?_template : ofText? template.toList = some templateConfig := by decide +kernel

theorem writeText_of_initIn {fs files : FileSystem} {dir path : List Char} {force : Bool}
    (h : initIn fs dir force = (files, .ok path)) :
    path = fileIn dir ∧ fs.writeText (fileIn dir) template = .ok files := by
  simp only [initIn] at h
  split at h
  · cases h
  · split at h
    · cases h
    · rename_i hwrite
      cases h
      exact ⟨rfl, hwrite⟩

theorem initIn_of_contains {fs : FileSystem} {dir : List Char}
    (h : fs.contains (fileIn dir) = true) :
    initIn fs dir false = (fs, .error .alreadyConfigured) := by
  rw [fileIn] at h
  simp [initIn, h]

theorem files_of_initIn_failure {fs : FileSystem} {dir : List Char} {force : Bool} {f : Failure}
    (h : (initIn fs dir force).2 = .error f) : (initIn fs dir force).1 = fs := by
  simp only [initIn] at h ⊢
  split
  · rfl
  · split
    · rfl
    · rename_i hfree _ _ hwrite
      simp [hfree, hwrite] at h

theorem world_of_failure {w : World} {force : Bool} (h : (init w force).failure.isSome = true) :
    (init w force).world = w := by
  unfold init at h ⊢
  cases hdir : w.files.currentDirectory with
  | error fault => rfl
  | ok dir =>
    cases hdone : (initIn w.files dir force).2 with
    | error f => simp [hdone, files_of_initIn_failure hdone]
    | ok path => simp [hdir, hdone] at h

/-- A written template is loaded under every spelling of its directory that is not too long. -/
theorem loads_written {fs files : FileSystem} {dir other : List Char}
    (h : fs.writeText (fileIn dir) template = .ok files)
    (hsame : Path.components other = Path.components dir)
    (hfits : Text.byteLength (fileIn other) < pathLimit) :
    Loads files (fileIn other) templateConfig := by
  obtain ⟨loc, hloc, hfree, rfl⟩ := writeText_eq_ok_iff.mp h
  have hfound : (fs.put loc (.file template.toUTF8)).locate false (fileIn other) = .ok loc :=
    locate_join_of_components isNormal_fileName hsame hfits (locate_put hfree hloc)
  have hlookup := lookup?_put fs (not_isGiven_of_not_hasDirectory hfree) (.file template.toUTF8) loc
  rw [if_pos rfl] at hlookup
  exact loads_iff_content.mpr ⟨template.toUTF8, template,
    content?_eq_some_iff.mpr ⟨loc, hfound, hlookup⟩, dif_pos template.isValidUTF8,
    ofText?_template⟩

theorem contains_of_loads {fs : FileSystem} {path : List Char} {c : Config} (h : Loads fs path c) :
    fs.contains path = true := by
  have hfile : (fs.find? path).any Entry.isFile = true := h.1
  obtain ⟨e, he, _⟩ := Option.any_eq_true _ _ |>.mp hfile
  simp [contains, he]

/-- A search comes to a directory that is near enough, if nothing before it can be loaded. -/
theorem discover_of_above {fs : FileSystem} {start q : List Char} {k : Nat} {c : Config}
    (hk : k ≤ 9) (hq : above k start = some q)
    (hnearer : ∀ d ∈ Path.ancestors k start, ¬Loadable fs (fileIn d))
    (hloads : Loads fs (fileIn q) c) : (discover fs start).1 = c := by
  have hnear : k < searchDepth := Nat.lt_succ_of_le hk
  obtain ⟨rest, hrest⟩ := ancestors_eq_append hnear hq
  rw [discover_eq_search]
  refine search_of_reached ⟨(Path.ancestors k start).map fileIn, rest.map fileIn, ?_, ?_⟩ hloads
  · rw [searched, hrest, List.map_append, List.map_cons]
  · intro path hpath
    obtain ⟨d, hd, rfl⟩ := List.mem_map.mp hpath
    exact hnearer d hd

/-- Where there is a configuration already, a new one is refused without force, and whatever fails
leaves all files as they were. If the template is written, only the place that its path names
changes, what stands there is loaded under its path, and another attempt without force is refused. A
search that starts at most nine names below the directory and can load nothing nearer gives the
template. The path of its start is that of the directory with the names joined to it, or any other
path with the same components that is not too long for the system. -/
theorem initIn_guarded_then_found (fs : FileSystem) (dir : List Char) (force : Bool) :
    (fs.contains (fileIn dir) = true → initIn fs dir false = (fs, .error .alreadyConfigured)) ∧
    (∀ f, (initIn fs dir force).2 = .error f → (initIn fs dir force).1 = fs) ∧
    (∀ w, (init w force).failure.isSome = true → (init w force).world = w) ∧
    (∀ files path, initIn fs dir force = (files, .ok path) →
      path = fileIn dir ∧
      (∀ loc, files.lookup? loc ≠ fs.lookup? loc → fs.locate true path = .ok loc) ∧
      initIn files dir false = (files, .error .alreadyConfigured) ∧
      ∃ c, ofText? template.toList = some c ∧
        (load files path).1 = .ok c ∧
        (∀ names : List (List Char), (∀ name ∈ names, IsNormal name) → names.length ≤ 9 →
          (∀ d ∈ Path.ancestors names.length (names.foldl Path.join dir),
            ¬Loadable files (fileIn d)) →
          (discover files (names.foldl Path.join dir)).1 = c) ∧
        (∀ (start : List Char) (names : List (List Char)),
          Path.components start = Path.components dir ++ names.map .name →
          Text.byteLength (fileIn start) < pathLimit → names.length ≤ 9 →
          (∀ d ∈ Path.ancestors names.length start, ¬Loadable files (fileIn d)) →
          (discover files start).1 = c)) := by
  refine ⟨initIn_of_contains, fun f => files_of_initIn_failure, fun w => world_of_failure, ?_⟩
  intro files path hinit
  obtain ⟨rfl, hwrite⟩ := writeText_of_initIn hinit
  obtain ⟨loc, hloc, _⟩ := writeText_eq_ok_iff.mp hwrite
  have hfits : Text.byteLength (fileIn dir) < pathLimit := (locate_eq_ok_iff.mp hloc).1.fits
  have hloads : Loads files (fileIn dir) templateConfig := loads_written hwrite rfl hfits
  refine ⟨rfl, fun loc => lookup?_writeText hwrite, initIn_of_contains (contains_of_loads hloads),
    templateConfig, ofText?_template, congrArg Prod.fst (load_of_loads hloads), ?_, ?_⟩
  · intro names hnames hlength hnearer
    refine discover_of_above hlength (above_foldl_join dir hnames) hnearer ?_
    split
    · exact hloads
    · have hprefix : trimmed dir <+: dir := prefix_cut List.prefix_rfl
      have hshorter := byteLength_join_le isNormal_fileName hprefix
      exact loads_written hwrite (components_trimmed dir) (Nat.lt_of_le_of_lt hshorter hfits)
  · intro start names hcomponents hshort hlength hnearer
    obtain ⟨q, hq, hsame, hprefix⟩ := above_of_components hcomponents
    have hshorter := byteLength_join_le isNormal_fileName hprefix
    exact discover_of_above hlength hq hnearer
      (loads_written hwrite hsame (Nat.lt_of_le_of_lt hshorter hshort))

/-- A directory with a configuration of its own, below one with another and above one with a
malformed one. -/
def overgrown : FileSystem where
  entries := [
    (["d".toList], .directory),
    (["a".toList, "d".toList], .directory),
    ([fileName.toList, "a".toList, "d".toList], .file "[output\n".toUTF8),
    ([fileName.toList, "d".toList], .file "[parallel]\njobs = 3\n".toUTF8),
    ([fileName.toList], .file "[output]\ndefault_format = \"json\"\n".toUTF8)]

def renewed : FileSystem := overgrown.put [fileName.toList, "d".toList] (.file template.toUTF8)

theorem initIn_guarded_then_found_overgrown :
    initIn overgrown "d".toList false = (overgrown, .error .alreadyConfigured) ∧
    initIn overgrown "d".toList true = (renewed, .ok (fileIn "d".toList)) ∧
    ¬Loadable renewed (fileIn "d/a".toList) ∧
    (discover renewed "d/a".toList).1 = templateConfig := by
  have hrefused := initIn_guarded_then_found overgrown "d".toList true |>.1 (by decide +kernel)
  have hwritten : initIn overgrown "d".toList true = (renewed, .ok (fileIn "d".toList)) := rfl
  have hbroken : ¬Loadable renewed (fileIn "d/a".toList) := not_loadable_of_load (by decide +kernel)
  obtain ⟨_, _, _, c, hc, _, hfound, _⟩ :=
    (initIn_guarded_then_found overgrown "d".toList true).2.2.2 renewed _ hwritten
  obtain rfl : templateConfig = c := Option.some.inj (ofText?_template.symm.trans hc)
  refine ⟨hrefused, hwritten, hbroken, hfound ["a".toList] ?_ (by decide) ?_⟩
  · intro name hname
    obtain rfl := List.mem_singleton.mp hname
    exact ⟨by decide, by decide, by decide⟩
  · intro d hd
    obtain rfl := List.mem_singleton.mp hd
    exact hbroken

end SourceGauge.Proofs.NewConfiguration
