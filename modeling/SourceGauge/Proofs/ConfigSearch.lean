import Mathlib
import SourceGauge.Proofs.PathAncestors
import SourceGauge.Proofs.WrittenFiles

namespace SourceGauge.Proofs.ConfigSearch
open Config FileSystem PathAncestors WrittenFiles

/-- The configuration file of a directory. -/
def fileIn (dir : List Char) : List Char := Path.join dir fileName.toList

/-- The paths under which a configuration is searched, the nearest first. -/
def searched (start : List Char) : List (List Char) := (Path.ancestors searchDepth start).map fileIn

theorem getElem?_searched (start : List Char) (k : Nat) :
    (searched start)[k]? = if k < 10 then (above k start).map fileIn else none := by
  rw [searched, List.getElem?_map, getElem?_ancestors, searchDepth]
  split <;> rfl

/-- The content of the file that a path leads to. -/
def content? (fs : FileSystem) (path : List Char) : Option ByteArray := (fs.readBytes path).toOption

theorem content?_eq_some_iff {fs : FileSystem} {path : List Char} {content : ByteArray} :
    content? fs path = some content ↔
      ∃ loc, fs.locate false path = .ok loc ∧ fs.lookup? loc = some (.file content) := by
  unfold content? readBytes
  cases fs.locate false path with
  | error fault => simp [bind, Except.bind, Except.toOption]
  | ok loc =>
    simp only [bind, Except.bind, Except.ok.injEq, exists_eq_left']
    cases fs.lookup? loc with
    | none => simp [throw, throwThe, MonadExceptOf.throw, Except.toOption]
    | some e =>
      cases e with
      | file other => simp [pure, Except.pure, Except.toOption]
      | directory => simp [throw, throwThe, MonadExceptOf.throw, Except.toOption]
      | link target => simp [throw, throwThe, MonadExceptOf.throw, Except.toOption]

theorem isFile_eq_isSome_content? (fs : FileSystem) (path : List Char) :
    fs.isFile path = (content? fs path).isSome := by
  rw [Bool.eq_iff_iff, Option.isSome_iff_exists]
  simp only [content?_eq_some_iff, isFile, find?]
  cases fs.locate false path with
  | error fault => simp
  | ok loc =>
    cases hfound : fs.lookup? loc with
    | none => simp [hfound]
    | some e => cases e <;> simp [hfound, Entry.isFile]

/-- A path leads to a file whose text is a configuration. -/
def Loads (fs : FileSystem) (path : List Char) (c : Config) : Prop :=
  fs.isFile path = true ∧ ∃ text, fs.readText path = .ok text ∧ ofText? text.toList = some c

def Loadable (fs : FileSystem) (path : List Char) : Prop := ∃ c, Loads fs path c

/-- The record that a file could not be loaded. -/
def Warns (fs : FileSystem) (path : List Char) (record : Log.Record) : Prop :=
  ∃ e, (load fs path).1 = .error e ∧ record = Log.warn (e.message ++ ". Using defaults.")

/-- Whether a file can be loaded depends on its content only. -/
theorem loads_iff_content {fs : FileSystem} {path : List Char} {c : Config} :
    Loads fs path c ↔ ∃ content text, content? fs path = some content ∧
      String.fromUTF8? content = some text ∧ ofText? text.toList = some c := by
  unfold Loads
  rw [isFile_eq_isSome_content?]
  unfold content? readText
  cases fs.readBytes path with
  | error fault => simp [Except.toOption]
  | ok content =>
    cases htext : String.fromUTF8? content <;>
      simp [bind, Except.bind, throw, throwThe, MonadExceptOf.throw, pure, Except.pure,
        Except.toOption, htext]

theorem load_of_loads {fs : FileSystem} {path : List Char} {c : Config} (h : Loads fs path c) :
    load fs path = (.ok c, [Log.debug ("Loaded config from " ++ String.ofList path)]) := by
  obtain ⟨_, text, htext, hc⟩ := h
  simp only [load, htext, hc]

theorem not_loadable_of_load {fs : FileSystem} {path : List Char}
    (h : (load fs path).1.isOk = false) : ¬Loadable fs path := by
  rintro ⟨c, hc⟩
  rw [load_of_loads hc] at h
  cases h

theorem load_of_not_loadable {fs : FileSystem} {path : List Char} (hfile : fs.isFile path = true)
    (h : ¬Loadable fs path) : ∃ e, load fs path = (.error e, []) := by
  unfold load
  cases htext : fs.readText path with
  | error fault => exact ⟨_, rfl⟩
  | ok text =>
    cases hc : ofText? text.toList with
    | none =>
      refine ⟨.config (unparsable (String.ofList path)) (some (String.ofList path)), ?_⟩
      simp only [hc]
    | some c => exact absurd ⟨c, hfile, text, htext, hc⟩ h

/-- The search among some paths. Those that lead to no file are passed over. -/
def search (fs : FileSystem) (paths : List (List Char)) : Config × List Log.Record :=
  loadFirst fs (paths.filter fs.isFile)

theorem discover_eq_search (fs : FileSystem) (start : List Char) :
    discover fs start = search fs (searched start) := rfl

theorem search_loads {fs : FileSystem} {path : List Char} {c : Config} (h : Loads fs path c)
    (rest : List (List Char)) :
    search fs (path :: rest) = (c, [Log.debug ("Loaded config from " ++ String.ofList path)]) := by
  rw [search, List.filter_cons_of_pos h.1, loadFirst, load_of_loads h]

theorem search_missing {fs : FileSystem} {path : List Char} (h : fs.isFile path = false)
    (rest : List (List Char)) : search fs (path :: rest) = search fs rest := by
  rw [search, List.filter_cons_of_neg (by simp [h]), search]

theorem search_broken {fs : FileSystem} {path : List Char} {e : Error}
    (hfile : fs.isFile path = true) (h : load fs path = (.error e, [])) (rest : List (List Char)) :
    search fs (path :: rest) = ((search fs rest).1,
      Log.warn (e.message ++ ". Using defaults.") :: (search fs rest).2) := by
  rw [search, List.filter_cons_of_pos hfile, loadFirst, h]
  rfl

/-- Paths under which nothing can be loaded leave a warning for each file and nothing else. -/
theorem search_append {fs : FileSystem} {nearer : List (List Char)}
    (h : ∀ path ∈ nearer, ¬Loadable fs path) (rest : List (List Char)) :
    ∃ records, List.Forall₂ (Warns fs) (nearer.filter fs.isFile) records ∧
      search fs (nearer ++ rest) = ((search fs rest).1, records ++ (search fs rest).2) := by
  induction nearer with
  | nil => exact ⟨[], .nil, rfl⟩
  | cons path nearer ih =>
    obtain ⟨records, hrecords, hsearch⟩ := ih (fun p hp => h p (List.mem_cons_of_mem path hp))
    cases hfile : fs.isFile path with
    | false =>
      refine ⟨records, ?_, ?_⟩
      · rwa [List.filter_cons_of_neg (by simp [hfile])]
      · rw [List.cons_append, search_missing hfile, hsearch]
    | true =>
      obtain ⟨e, he⟩ := load_of_not_loadable hfile (h path (by simp))
      refine ⟨Log.warn (e.message ++ ". Using defaults.") :: records, ?_, ?_⟩
      · rw [List.filter_cons_of_pos hfile]
        exact .cons ⟨e, congrArg Prod.fst he, rfl⟩ hrecords
      · rw [List.cons_append, search_broken hfile he, hsearch]
        rfl

def warnings (log : List Log.Record) : List Log.Record := log.filter (·.level = .warn)

theorem warnings_append_debug {fs : FileSystem} {paths : List (List Char)}
    {records : List Log.Record} (h : List.Forall₂ (Warns fs) paths records) (message : String) :
    warnings (records ++ [Log.debug message]) = records := by
  have hall : ∀ record ∈ records, record.level = .warn := by
    induction h with
    | nil => simp
    | cons hwarns _ ih =>
      obtain ⟨e, _, rfl⟩ := hwarns
      simpa [Log.warn] using ih
  rw [warnings, List.filter_append, List.filter_eq_self.mpr (by simpa using hall)]
  simp [Log.debug]

/-- The first file that can be loaded decides. -/
theorem search_first {fs : FileSystem} {nearer : List (List Char)} {path : List Char} {c : Config}
    (hnearer : ∀ q ∈ nearer, ¬Loadable fs q) (hpath : Loads fs path c) (rest : List (List Char)) :
    let found := search fs (nearer ++ path :: rest)
    found.1 = c ∧ List.Forall₂ (Warns fs) (nearer.filter fs.isFile) (warnings found.2) := by
  intro found
  obtain ⟨records, hrecords, hsearch⟩ := search_append hnearer (path :: rest)
  rw [search_loads hpath] at hsearch
  have hlog : found.2 = records ++ [Log.debug ("Loaded config from " ++ String.ofList path)] :=
    congrArg Prod.snd hsearch
  rw [hlog, warnings_append_debug hrecords]
  exact ⟨congrArg Prod.fst hsearch, hrecords⟩

/-- Where nothing can be loaded the default is taken. -/
theorem search_none {fs : FileSystem} {paths : List (List Char)} (h : ∀ q ∈ paths, ¬Loadable fs q) :
    (search fs paths).1 = {} ∧
      List.Forall₂ (Warns fs) (paths.filter fs.isFile) (warnings (search fs paths).2) := by
  obtain ⟨records, hrecords, hsearch⟩ := search_append h []
  rw [List.append_nil] at hsearch
  have hlog : (search fs paths).2 = records ++ [Log.debug _] := congrArg Prod.snd hsearch
  rw [hlog, warnings_append_debug hrecords]
  exact ⟨congrArg Prod.fst hsearch, hrecords⟩

/-- A path that the search comes to, for nothing before it can be loaded. -/
def ReachedIn (fs : FileSystem) (paths : List (List Char)) (path : List Char) : Prop :=
  ∃ nearer rest, paths = nearer ++ path :: rest ∧ ∀ q ∈ nearer, ¬Loadable fs q

theorem ReachedIn.cons {fs : FileSystem} {paths : List (List Char)} {first path : List Char}
    (hfirst : ¬Loadable fs first) (h : ReachedIn fs paths path) :
    ReachedIn fs (first :: paths) path := by
  obtain ⟨nearer, rest, rfl, hnearer⟩ := h
  refine ⟨first :: nearer, rest, rfl, ?_⟩
  intro q hq
  rcases List.mem_cons.mp hq with rfl | hq
  · exact hfirst
  · exact hnearer q hq

theorem load_congr {fs other : FileSystem} {path : List Char}
    (h : content? other path = content? fs path) (hfile : fs.isFile path = true) :
    load other path = load fs path := by
  rw [isFile_eq_isSome_content?] at hfile
  obtain ⟨content, hcontent⟩ := Option.isSome_iff_exists.mp hfile
  have hread : ∀ {x : Except Fault ByteArray}, x.toOption = some content → x = .ok content := by
    intro x hx
    cases x with
    | error fault => cases hx
    | ok found => exact congrArg Except.ok (Option.some.inj hx)
  have hbytes : other.readBytes path = fs.readBytes path :=
    (hread (h.trans hcontent)).trans (hread hcontent).symm
  simp only [load, readText, hbytes]

/-- File systems with the same content under the paths that one search comes to give the same. -/
theorem search_congr {fs other : FileSystem} {paths : List (List Char)}
    (h : ∀ path, ReachedIn fs paths path → content? other path = content? fs path) :
    search other paths = search fs paths := by
  induction paths with
  | nil => rfl
  | cons path rest ih =>
    have hpath : content? other path = content? fs path := h path ⟨[], rest, rfl, by simp⟩
    have hfile : other.isFile path = fs.isFile path := by
      rw [isFile_eq_isSome_content?, isFile_eq_isSome_content?, hpath]
    cases hfs : fs.isFile path with
    | false =>
      have hmissing : ¬Loadable fs path := fun ⟨c, hc, _⟩ => by simp [hfs] at hc
      rw [search_missing hfs, search_missing (hfile.trans hfs)]
      exact ih (fun q hq => h q (hq.cons hmissing))
    | true =>
      have hload := load_congr hpath hfs
      by_cases hloads : Loadable fs path
      · obtain ⟨c, hc⟩ := hloads
        have hother := hload.trans (load_of_loads hc)
        rw [search_loads hc, search, List.filter_cons_of_pos (hfile.trans hfs), loadFirst, hother]
      · obtain ⟨e, he⟩ := load_of_not_loadable hfs hloads
        rw [search_broken hfs he, search_broken (hfile.trans hfs) (hload.trans he),
          ih (fun q hq => h q (hq.cons hloads))]

def IsFileOrFree (found : Option Entry) : Prop := ∀ e ∈ found, e.isFile = true

/-- The same directories and links. Files may come, go and change. -/
structure OnlyFilesDiffer (fs other : FileSystem) : Prop where
  working : other.working = fs.working
  changed : ∀ loc, other.lookup? loc ≠ fs.lookup? loc →
    IsFileOrFree (fs.lookup? loc) ∧ IsFileOrFree (other.lookup? loc)

theorem OnlyFilesDiffer.symm {fs other : FileSystem} (h : OnlyFilesDiffer fs other) :
    OnlyFilesDiffer other fs :=
  ⟨h.working.symm, fun loc hne => (h.changed loc hne.symm).symm⟩

theorem OnlyFilesDiffer.lookup? {fs other : FileSystem} (h : OnlyFilesDiffer fs other)
    {loc : Location} {e : Entry} (he : fs.lookup? loc = some e) (hkind : e.isFile = false) :
    other.lookup? loc = some e := by
  by_contra hne
  have hfile := (h.changed loc (by rwa [he])).1 e he
  simp [hkind] at hfile

section

variable {fs other : FileSystem} {loc : Location}

/-- A way goes through directories and links only, up to the file at its end. -/
theorem leads_other {follow again : Location → List (List Char) → Except Fault Location}
    (h : OnlyFilesDiffer fs other) (hend : other.lookup? loc = fs.lookup? loc)
    (hfollow : ∀ l pieces, follow l pieces = .ok loc → again l pieces = .ok loc) {l : Location}
    {pieces : List (List Char)} (hleads : Leads fs false follow loc l pieces) :
    Leads other false again loc l pieces := by
  induction hleads with
  | here => exact .here
  | noise hpiece hrest ih => exact .noise hpiece ih
  | up hrest ih => exact .up ih
  | create hname hloc hcreating hfree => cases hcreating
  | file hname hloc hfile => exact .file hname hloc (hend.trans hfile)
  | directory hname hdirectory hrest ih => exact .directory hname (h.lookup? hdirectory rfl) ih
  | link hname hlink hgoes => exact .link hname (h.lookup? hlink rfl) (hfollow _ _ hgoes)

theorem resolve_other (h : OnlyFilesDiffer fs other) (hend : other.lookup? loc = fs.lookup? loc)
    (links : Nat) {l : Location} {pieces : List (List Char)}
    (hresolve : resolve fs false links l pieces = .ok loc) :
    resolve other false links l pieces = .ok loc := by
  induction links generalizing l pieces with
  | zero => exact advance_of_leads (leads_other h hend (fun _ _ h => h) (leads_of_advance hresolve))
  | succ links ih =>
    exact advance_of_leads (leads_other h hend (fun _ _ h => ih h) (leads_of_advance hresolve))

theorem locate_other (h : OnlyFilesDiffer fs other) (hend : other.lookup? loc = fs.lookup? loc)
    {path : List Char} (hlocate : fs.locate false path = .ok loc) :
    other.locate false path = .ok loc := by
  obtain ⟨husable, hresolve⟩ := locate_eq_ok_iff.mp hlocate
  refine locate_eq_ok_iff.mpr ⟨husable, ?_⟩
  rw [h.working]
  exact resolve_other h hend linkLimit hresolve

/-- The file under a path stays what it is while only other files change. -/
theorem content?_other (h : OnlyFilesDiffer fs other) {path : List Char}
    (hplaces : ∀ loc, fs.locate false path = .ok loc ∨ other.locate false path = .ok loc →
      other.lookup? loc = fs.lookup? loc) : content? other path = content? fs path := by
  apply Option.ext
  intro content
  rw [content?_eq_some_iff, content?_eq_some_iff]
  constructor
  · rintro ⟨loc, hloc, hfile⟩
    have hsame := hplaces loc (.inr hloc)
    exact ⟨loc, locate_other h.symm hsame.symm hloc, hsame.symm.trans hfile⟩
  · rintro ⟨loc, hloc, hfile⟩
    have hsame := hplaces loc (.inl hloc)
    exact ⟨loc, locate_other h hsame hloc, hsame.trans hfile⟩

end

/-- A configuration is searched under the paths of the directory and of those above it, ten at most.
The first of them that leads to a file that can be loaded gives the configuration, and the default
is taken if there is none. There is one warning for each file before it, in order. Everything
depends on the content of the files under these paths up to the one that decides: file systems that
agree on it give the same configuration and the same log, and so does any change of other files. -/
theorem discover_nearest (fs : FileSystem) (start : List Char) :
    let found := discover fs start
    (∀ k, (searched start)[k]? = if k < 10 then (above k start).map fileIn else none) ∧
    (∀ nearer path rest c, searched start = nearer ++ path :: rest →
      (∀ q ∈ nearer, ¬Loadable fs q) → Loads fs path c →
      found.1 = c ∧ List.Forall₂ (Warns fs) (nearer.filter fs.isFile) (warnings found.2)) ∧
    ((∀ q ∈ searched start, ¬Loadable fs q) →
      found.1 = {} ∧
      List.Forall₂ (Warns fs) ((searched start).filter fs.isFile) (warnings found.2)) ∧
    (∀ other, (∀ path, ReachedIn fs (searched start) path →
      content? other path = content? fs path) → discover other start = found) ∧
    (∀ other, OnlyFilesDiffer fs other →
      (∀ path, ReachedIn fs (searched start) path →
        ∀ loc, fs.locate false path = .ok loc ∨ other.locate false path = .ok loc →
          other.lookup? loc = fs.lookup? loc) → discover other start = found) := by
  intro found
  have hcongr : ∀ other, (∀ path, ReachedIn fs (searched start) path →
      content? other path = content? fs path) → discover other start = found :=
    fun other h => search_congr h
  refine ⟨getElem?_searched start, ?_, search_none, hcongr, ?_⟩
  · intro nearer path rest c hpaths hnearer hpath
    have hfirst := search_first hnearer hpath rest
    rw [← hpaths] at hfirst
    exact hfirst
  · intro other hother hplaces
    apply hcongr
    intro path hpath
    exact content?_other hother (hplaces path hpath)

/-- A directory with a malformed configuration, below one with a configuration that asks for another
format than the default one. -/
def shadowed : FileSystem where
  entries := [
    (["a".toList], .directory),
    ([fileName.toList, "a".toList], .file "[output\n".toUTF8),
    ([fileName.toList], .file "[output]\ndefault_format = \"json\"\n".toUTF8)]

theorem discover_nearest_shadowed :
    let c : Config := { output := some { defaultFormat := some .json } }
    let found := discover shadowed "a".toList
    searched "a".toList = [fileIn "a".toList] ++ fileIn [] :: [] ∧
    ¬Loadable shadowed (fileIn "a".toList) ∧ Loads shadowed (fileIn []) c ∧
    found.1 = c ∧ List.Forall₂ (Warns shadowed) [fileIn "a".toList] (warnings found.2) := by
  intro c found
  have hpaths : searched "a".toList = [fileIn "a".toList] ++ fileIn [] :: [] := by decide
  have hbroken : ¬Loadable shadowed (fileIn "a".toList) := not_loadable_of_load (by decide +kernel)
  have hloads : Loads shadowed (fileIn []) c :=
    ⟨by decide +kernel, "[output]\ndefault_format = \"json\"\n", rfl, by decide +kernel⟩
  have hnearer : ∀ q ∈ [fileIn "a".toList], ¬Loadable shadowed q := by simpa using hbroken
  refine ⟨hpaths, hbroken, hloads, ?_⟩
  exact (discover_nearest shadowed "a".toList).2.1 _ _ _ c hpaths hnearer hloads

/-- Either a path that the search comes to can be loaded, or none can. -/
theorem exists_reached_or_none (fs : FileSystem) (paths : List (List Char)) :
    (∃ path c, ReachedIn fs paths path ∧ Loads fs path c) ∨ ∀ q ∈ paths, ¬Loadable fs q := by
  induction paths with
  | nil => exact .inr (by simp)
  | cons first rest ih =>
    by_cases hfirst : Loadable fs first
    · obtain ⟨c, hc⟩ := hfirst
      exact .inl ⟨first, c, ⟨[], rest, rfl, by simp⟩, hc⟩
    · rcases ih with ⟨path, c, hreached, hc⟩ | hnone
      · exact .inl ⟨path, c, hreached.cons hfirst, hc⟩
      · exact .inr (by simpa using ⟨hfirst, hnone⟩)

theorem search_of_reached {fs : FileSystem} {paths : List (List Char)} {path : List Char}
    {c : Config} (hreached : ReachedIn fs paths path) (hpath : Loads fs path c) :
    (search fs paths).1 = c := by
  obtain ⟨nearer, rest, rfl, hnearer⟩ := hreached
  exact (search_first hnearer hpath rest).1

theorem warns_of_mem {fs : FileSystem} {paths : List (List Char)} {records : List Log.Record}
    (h : List.Forall₂ (Warns fs) paths records) {record : Log.Record} (hrecord : record ∈ records) :
    ∃ path ∈ paths, Warns fs path record := by
  induction h with
  | nil => cases hrecord
  | cons hwarns _ ih =>
    rcases List.mem_cons.mp hrecord with rfl | hrecord
    · exact ⟨_, List.mem_cons_self, hwarns⟩
    · obtain ⟨path, hpath, hwarns⟩ := ih hrecord
      exact ⟨path, List.mem_cons_of_mem _ hpath, hwarns⟩

/-- A warning is about a file that was searched and could not be loaded. -/
theorem warned_file {fs : FileSystem} {paths : List (List Char)} {record : Log.Record}
    (hrecord : record ∈ (search fs paths).2) (hwarn : record.level = .warn) :
    ∃ path ∈ paths, fs.isFile path = true ∧ Warns fs path record := by
  have hmem : record ∈ warnings (search fs paths).2 :=
    List.mem_filter.mpr ⟨hrecord, by simpa using hwarn⟩
  have hfiles : ∃ nearer : List (List Char), (∀ q ∈ nearer, q ∈ paths) ∧
      List.Forall₂ (Warns fs) (nearer.filter fs.isFile) (warnings (search fs paths).2) := by
    rcases exists_reached_or_none fs paths with ⟨path, c, ⟨nearer, rest, rfl, hnearer⟩, hc⟩ | hnone
    · exact ⟨nearer, fun q hq => List.mem_append_left _ hq, (search_first hnearer hc rest).2⟩
    · exact ⟨paths, fun q hq => hq, (search_none hnone).2⟩
  obtain ⟨nearer, hsub, hwarnings⟩ := hfiles
  obtain ⟨path, hpath, hwarns⟩ := warns_of_mem hwarnings hmem
  obtain ⟨hin, hfile⟩ := List.mem_filter.mp hpath
  exact ⟨path, hsub path hin, hfile, hwarns⟩

/-- A warning names a file that was searched and could not be loaded. What it says about defaults
holds exactly if no file that the search still comes to gives anything else: the search goes on
after the warning. -/
theorem default_after_warning_iff (fs : FileSystem) (start : List Char) (record : Log.Record)
    (hrecord : record ∈ (discover fs start).2) (hwarn : record.level = .warn) :
    (∃ path ∈ searched start, fs.isFile path = true ∧ Warns fs path record) ∧
    ((discover fs start).1 = {} ↔
      ∀ path c, ReachedIn fs (searched start) path → Loads fs path c → c = {}) := by
  refine ⟨warned_file hrecord hwarn, ?_⟩
  rw [discover_eq_search]
  constructor
  · intro hdefault path c hreached hpath
    rw [← search_of_reached hreached hpath, hdefault]
  · intro hothers
    rcases exists_reached_or_none fs (searched start) with ⟨path, c, hreached, hpath⟩ | hnone
    · rw [search_of_reached hreached hpath, hothers path c hreached hpath]
    · exact (search_none hnone).1

def untrueWarning : Log.Record :=
  Log.warn ("Configuration error: Failed to parse a/.codemetrics.toml: TOML parse error. " ++
    "Using defaults.")

theorem default_after_warning_iff_shadowed :
    (untrueWarning ∈ (discover shadowed "a".toList).2 ∧ untrueWarning.level = .warn) ∧
    ∃ path ∈ searched "a".toList, shadowed.isFile path = true ∧
      Warns shadowed path untrueWarning := by
  have hlogged : untrueWarning ∈ (discover shadowed "a".toList).2 := by decide +kernel
  exact ⟨⟨hlogged, rfl⟩,
    (default_after_warning_iff shadowed "a".toList untrueWarning hlogged rfl).1⟩

/-- The log says that defaults are used, and the configuration of the directory above is. -/
theorem config_used_after_warning :
    untrueWarning ∈ (discover shadowed "a".toList).2 ∧
    (discover shadowed "a".toList).1 = { output := some { defaultFormat := some .json } } ∧
    (discover shadowed "a".toList).1 ≠ {} := by
  decide +kernel

end SourceGauge.Proofs.ConfigSearch
