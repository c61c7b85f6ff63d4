import Mathlib
import SourceGauge.CommandLine
import SourceGauge.Proofs.Segments

namespace SourceGauge.Proofs.SpelledOptions
open CommandLine

/-- One option on a command line. -/
inductive Item where
  | format (f : Report.Format)
  | output (file : String)
  /-- Extensions with commas between them. -/
  | ext (group : List String)
  | jobs (n : Nat)
  | config (file : String)
  | allFiles
  | noParallel
  | plain
  | quiet
  /-- A dash and one letter more than this number. -/
  | verbose (more : Nat)
deriving DecidableEq

namespace Item

def word : Item → String
  | format f => "--format=" ++ f.label
  | output file => "--output=" ++ file
  | ext group => "--ext=" ++ String.ofList (Text.join ',' (group.map String.toList))
  | jobs n => "--jobs=" ++ toString n
  | config file => "--config=" ++ file
  | allFiles => "--all-files"
  | noParallel => "--no-parallel"
  | plain => "--plain"
  | quiet => "--quiet"
  | verbose more => "-v" ++ String.ofList (List.replicate more 'v')

def name : Item → Name
  | format _ => .setting .format
  | output _ => .setting .output
  | ext _ => .setting .ext
  | jobs _ => .setting .jobs
  | config _ => .setting .config
  | allFiles => .switch .allFiles
  | noParallel => .switch .noParallel
  | plain => .switch .plain
  | quiet => .switch .quiet
  | verbose _ => .switch .verbose

/-- What an option adds to those before it. -/
def apply (o : Options) : Item → Options
  | format f => { o with format := some f }
  | output file => { o with output := some file }
  | ext group => { o with extensions := o.extensions ++ group }
  | jobs n => { o with jobs := some n }
  | config file => { o with config := some file }
  | allFiles => { o with allFiles := true }
  | noParallel => { o with noParallel := true }
  | plain => { o with plain := true }
  | quiet => { o with quiet := true }
  | verbose more => { o with verbosity := min 255 (o.verbosity + (more + 1)) }

/-- The values that can be written: no empty file, no comma in an extension, no number over 64
bits. -/
def Valid : Item → Prop
  | output file => file ≠ ""
  | config file => file ≠ ""
  | ext group => group ≠ [] ∧ ∀ e ∈ group, ',' ∉ e.toList
  | jobs n => n < 2 ^ 64
  | _ => True

end Item

theorem digitsValue?_digits {ds : List Char} (h : ∀ d ∈ ds, d.isDigit = true) :
    Text.digitsValue? 10 ds = some (Nat.ofDigitChars 10 ds 0) := by
  have hdigit : ∀ d : Char, d.isDigit = true → Text.digit? 10 d = some (d.toNat - 48) := by
    intro d hd
    have hlt : d.toNat - 48 < 10 := by
      rw [Char.isDigit, Bool.and_eq_true, decide_eq_true_eq, decide_eq_true_eq] at hd
      have : d.toNat ≤ '9'.toNat := hd.2
      have : '9'.toNat = 57 := rfl
      omega
    simp [Text.digit?, Text.hexValue?, hd, hlt]
  have hfold : ∀ start, ds.foldl (fun n? c => n?.bind fun n => (Text.digit? 10 c).map (n * 10 + ·))
      (some start) = some (Nat.ofDigitChars 10 ds start) := by
    induction ds with
    | nil => exact fun start => rfl
    | cons d ds ih =>
      intro start
      obtain ⟨hd, hds⟩ := List.forall_mem_cons.mp h
      rw [List.foldl_cons, Option.bind_some, hdigit d hd, Option.map_some, ih hds,
        Nat.ofDigitChars_cons, Nat.mul_comm]
      rfl
  exact hfold 0

theorem count?_toString {n : Nat} (h : n < 2 ^ 64) : count? (toString n).toList = some n := by
  have hdigits : ∀ d ∈ Nat.toDigits 10 n, d.isDigit = true :=
    fun _ hd => Nat.isDigit_of_mem_toDigits (by decide) (by decide) hd
  have hplus : (Nat.toDigits 10 n).head? ≠ some '+' :=
    fun hhead => absurd (hdigits '+' (List.mem_of_head? hhead)) (by decide)
  have hne : (Nat.toDigits 10 n).isEmpty = false := by simp
  rw [Nat.toString_eq_repr, Nat.toList_repr]
  simp only [count?, hplus, ↓reduceIte, hne, Bool.false_eq_true, digitsValue?_digits hdigits,
    Nat.ofDigitChars_ten_toDigits]
  exact Option.filter_some_pos (decide_eq_true h)

theorem split_joined {group : List String} (hne : group ≠ []) (h : ∀ e ∈ group, ',' ∉ e.toList) :
    (Text.split ',' (Text.join ',' (group.map String.toList))).map String.ofList = group := by
  have hfree : ∀ s ∈ group.map String.toList, ',' ∉ s := by simpa using h
  rw [Segments.split_join (by simpa using hne) hfree]
  simp [Function.comp_def]

theorem long_setting (r : Reading) (s : Setting) (value : List Char) :
    r.long ((Name.setting s).long.toList ++ '=' :: value) = r.attach s value := by
  cases s <;> rfl

theorem long_switch (r : Reading) (s : Switch) :
    r.long (Name.switch s).long.toList = r.flip s := by
  cases s <;> rfl

theorem word_setting (r : Reading) (s : Setting) (value : String) :
    r.word ("--" ++ (Name.setting s).long ++ "=" ++ value) = r.attach s value.toList := by
  rw [← long_setting]
  simp [Reading.word]

theorem word_switch (r : Reading) (s : Switch) :
    r.word ("--" ++ (Name.switch s).long) = r.flip s := by
  rw [← long_switch]
  simp [Reading.word]

/-- A valid option is a setting with a value that can be read, a switch, or letters. -/
theorem spelling_cases {i : Item} (hv : i.Valid) :
    (∃ s value, i.name = .setting s ∧ i.word = "--" ++ (Name.setting s).long ++ "=" ++ value ∧
      ∀ o, setValue o s value = .ok (i.apply o)) ∨
    (∃ s, i.name = .switch s ∧ i.word = "--" ++ (Name.switch s).long ∧
      ∀ o, setSwitch o s = .ok (i.apply o)) ∨
    ∃ more, i = .verbose more := by
  have hfile : ∀ file, file ≠ "" → nonempty file = .ok file := by
    intro file hne
    simp [nonempty, hne]
  cases i with
  | format f =>
    refine .inl ⟨.format, f.label, rfl, rfl, fun o => ?_⟩
    cases f <;> rfl
  | output file =>
    refine .inl ⟨.output, file, rfl, rfl, fun o => ?_⟩
    rw [setValue, hfile file hv]
    rfl
  | ext group =>
    refine .inl ⟨.ext, _, rfl, rfl, fun o => ?_⟩
    rw [setValue, String.toList_ofList, split_joined hv.1 hv.2]
    rfl
  | jobs n =>
    refine .inl ⟨.jobs, _, rfl, rfl, fun o => ?_⟩
    rw [setValue, count?_toString hv]
    rfl
  | config file =>
    refine .inl ⟨.config, file, rfl, rfl, fun o => ?_⟩
    rw [setValue, hfile file hv]
    rfl
  | allFiles => exact .inr (.inl ⟨.allFiles, rfl, rfl, fun _ => rfl⟩)
  | noParallel => exact .inr (.inl ⟨.noParallel, rfl, rfl, fun _ => rfl⟩)
  | plain => exact .inr (.inl ⟨.plain, rfl, rfl, fun _ => rfl⟩)
  | quiet => exact .inr (.inl ⟨.quiet, rfl, rfl, fun _ => rfl⟩)
  | verbose more => exact .inr (.inr ⟨more, rfl⟩)

theorem once_again (r : Reading) {n : Name} (hmem : n ∈ r.given) (honce : isRepeatable n = false) :
    r.once n = .error .conflict := by
  simp [Reading.once, hmem, honce]

theorem once_fresh (r : Reading) {n : Name} (h : n ∈ r.given → isRepeatable n = true) :
    r.once n = .ok { r with given := n :: r.given } := by
  have hfree : (r.given.contains n && !isRepeatable n) = false := by
    by_cases hmem : n ∈ r.given
    · simp [h hmem]
    · simp [hmem]
  rw [Reading.once, hfree]
  rfl

theorem flip_fresh (o : Options) {given : List Name} {s : Switch} {next : Options}
    (h : .switch s ∈ given → isRepeatable (.switch s) = true) (hset : setSwitch o s = .ok next) :
    Reading.flip ⟨o, given, .nothing⟩ s = .ok ⟨next, .switch s :: given, .nothing⟩ := by
  change (Reading.once ⟨o, given, .nothing⟩ (.switch s) >>= fun r =>
    setSwitch r.options s >>= fun o => pure { r with options := o }) = _
  rw [once_fresh _ h]
  change (setSwitch o s >>= fun _ => _) = _
  rw [hset]
  rfl

theorem attach_fresh (o : Options) {given : List Name} {s : Setting} {value : String}
    {next : Options} (h : .setting s ∈ given → isRepeatable (.setting s) = true)
    (hset : setValue o s value = .ok next) :
    Reading.attach ⟨o, given, .nothing⟩ s value.toList =
      .ok ⟨next, .setting s :: given, .nothing⟩ := by
  change (Reading.once ⟨o, given, .nothing⟩ (.setting s) >>= fun r =>
    setValue r.options s (String.ofList value.toList) >>= fun o => pure { r with options := o }) = _
  rw [once_fresh _ h, String.ofList_toList]
  change (setValue o s value >>= fun _ => _) = _
  rw [hset]
  rfl

/-- Each letter counts once more. -/
theorem short_letters (o : Options) (given : List Name) (more : Nat) :
    Reading.short ⟨o, given, .nothing⟩ ('v' :: List.replicate more 'v') =
      .ok ⟨(Item.verbose more).apply o,
        List.replicate (more + 1) (.switch .verbose) ++ given, .nothing⟩ := by
  have hletter : ∀ (o : Options) (given : List Name) (rest : List Char),
      Reading.short ⟨o, given, .nothing⟩ ('v' :: rest) =
        Reading.short ⟨(Item.verbose 0).apply o, .switch .verbose :: given, .nothing⟩ rest := by
    intro o given rest
    change (Reading.flip ⟨o, given, .nothing⟩ .verbose >>= fun r => r.short rest) = _
    rw [flip_fresh o (fun _ => rfl) rfl]
    rfl
  induction more generalizing o given with
  | zero => exact hletter o given []
  | succ more ih =>
    have hadd : (Item.verbose more).apply ((Item.verbose 0).apply o) =
        (Item.verbose (more + 1)).apply o := by
      simp only [Item.apply, Options.mk.injEq, true_and, and_true]
      omega
    rw [List.replicate_succ, hletter, ih, hadd, List.replicate_succ' (n := more + 1),
      List.append_assoc, List.singleton_append]

section Step

variable (o : Options) (given : List Name) {i : Item} (hv : i.Valid)
include hv

/-- An option that was given before and may be given once. -/
theorem word_again (hmem : i.name ∈ given) (honce : isRepeatable i.name = false) :
    Reading.word ⟨o, given, .nothing⟩ i.word = .error .conflict := by
  rcases spelling_cases hv with ⟨s, value, hname, hword, _⟩ | ⟨s, hname, hword, _⟩ | ⟨more, rfl⟩
  · rw [hname] at hmem honce
    rw [hword, word_setting]
    change (Reading.once ⟨o, given, .nothing⟩ (.setting s) >>= _) = _
    rw [once_again _ hmem honce]
    rfl
  · rw [hname] at hmem honce
    rw [hword, word_switch]
    change (Reading.once ⟨o, given, .nothing⟩ (.switch s) >>= _) = _
    rw [once_again _ hmem honce]
    rfl
  · cases honce

/-- Any other option adds what it says. -/
theorem word_fresh (h : i.name ∈ given → isRepeatable i.name = true) :
    ∃ later, Reading.word ⟨o, given, .nothing⟩ i.word = .ok ⟨i.apply o, later, .nothing⟩ ∧
      ∀ n, n ∈ later ↔ n = i.name ∨ n ∈ given := by
  rcases spelling_cases hv with
    ⟨s, value, hname, hword, hset⟩ | ⟨s, hname, hword, hset⟩ | ⟨more, rfl⟩
  · rw [hname] at h
    refine ⟨.setting s :: given, ?_, by simp [hname]⟩
    rw [hword, word_setting, attach_fresh o h (hset o)]
  · rw [hname] at h
    refine ⟨.switch s :: given, ?_, by simp [hname]⟩
    rw [hword, word_switch, flip_fresh o h (hset o)]
  · refine ⟨List.replicate (more + 1) (.switch .verbose) ++ given, ?_, by simp [Item.name]⟩
    rw [← short_letters]
    simp [Reading.word, Item.word]

end Step

theorem word_ne_dashes (i : Item) : i.word ≠ "--" := by
  intro h
  have hlist := congrArg String.toList h
  cases i <;> simp [Item.word] at hlist

theorem words_item (r : Reading) (i : Item) (rest : List String) :
    r.words (i.word :: rest) = r.word i.word >>= fun r => r.words rest := by
  rw [Reading.words]
  exact word_ne_dashes i

/-- The names of the options that may be given once. -/
def singles (items : List Item) : List Name := (items.map Item.name).filter (!isRepeatable ·)

/-- No option that may be given once is given again. -/
def Clear (given : List Name) (items : List Item) : Prop :=
  (singles items).Nodup ∧ ∀ n ∈ singles items, n ∉ given

theorem clear_cons {given later : List Name} {i : Item} {items : List Item}
    (hlater : ∀ n, n ∈ later ↔ n = i.name ∨ n ∈ given) :
    Clear given (i :: items) ↔
      (i.name ∈ given → isRepeatable i.name = true) ∧ Clear later items := by
  have hsingle : ∀ n ∈ singles items, isRepeatable n = false := by
    intro n hn
    simpa using (List.mem_filter.mp hn).2
  cases hi : isRepeatable i.name with
  | true =>
    have hne : ∀ n ∈ singles items, n ≠ i.name := by
      rintro n hn rfl
      simp [hsingle _ hn] at hi
    have hcons : singles (i :: items) = singles items := by simp [singles, hi]
    rw [Clear, Clear, hcons]
    simp only [hlater, not_or, implies_true, true_and]
    exact and_congr_right fun _ => forall₂_congr fun n hn => by simp [hne n hn]
  | false =>
    have hcons : singles (i :: items) = i.name :: singles items := by simp [singles, hi]
    rw [Clear, Clear, hcons, List.nodup_cons, List.forall_mem_cons]
    simp only [hlater, not_or, Bool.false_eq_true, imp_false]
    constructor
    · rintro ⟨⟨hout, hnodup⟩, hgiven, hfresh⟩
      exact ⟨hgiven, hnodup, fun n hn => ⟨fun he => hout (he ▸ hn), hfresh n hn⟩⟩
    · rintro ⟨hgiven, hnodup, hfresh⟩
      exact ⟨⟨fun hm => (hfresh _ hm).1 rfl, hnodup⟩, hgiven, fun n hn => (hfresh n hn).2⟩

/-- A run over options, none of them given again. -/
theorem words_of_clear (o : Options) {given : List Name} {items : List Item}
    (hv : ∀ i ∈ items, i.Valid) (hclear : Clear given items) (rest : List String) :
    ∃ later, Reading.words ⟨o, given, .nothing⟩ (items.map Item.word ++ rest) =
      Reading.words ⟨items.foldl Item.apply o, later, .nothing⟩ rest := by
  induction items generalizing o given with
  | nil => exact ⟨given, rfl⟩
  | cons i items ih =>
    obtain ⟨hi, hv⟩ := List.forall_mem_cons.mp hv
    have hfresh := ((clear_cons fun _ => List.mem_cons).mp hclear).1
    obtain ⟨next, hword, hnext⟩ := word_fresh o given hi hfresh
    obtain ⟨later, hrest⟩ := ih (i.apply o) hv ((clear_cons hnext).mp hclear).2
    refine ⟨later, ?_⟩
    rw [List.map_cons, List.cons_append, words_item, hword, List.foldl_cons, ← hrest]
    rfl

/-- A run over options, one of them given again. -/
theorem words_of_not_clear (o : Options) {given : List Name} {items : List Item}
    (hv : ∀ i ∈ items, i.Valid) (hclear : ¬Clear given items) (rest : List String) :
    Reading.words ⟨o, given, .nothing⟩ (items.map Item.word ++ rest) = .error .conflict := by
  induction items generalizing o given with
  | nil => exact absurd (by simp [Clear, singles]) hclear
  | cons i items ih =>
    obtain ⟨hi, hv⟩ := List.forall_mem_cons.mp hv
    rw [List.map_cons, List.cons_append, words_item]
    by_cases hfresh : i.name ∈ given → isRepeatable i.name = true
    · obtain ⟨next, hword, hnext⟩ := word_fresh o given hi hfresh
      have hrest : ¬Clear next items := fun h => hclear ((clear_cons hnext).mpr ⟨hfresh, h⟩)
      rw [hword, ← ih (i.apply o) hv hrest]
      rfl
    · obtain ⟨hmem, honce⟩ := Classical.not_imp.mp hfresh
      rw [word_again o given hi hmem (by simpa using honce)]
      rfl

/-- The paths that an analysis is given: the working directory when none is named. -/
def orHere (paths : List String) : List String := if paths.isEmpty then ["."] else paths

theorem foldlM_path (o : Options) (given : List Name) (seen paths : List String) :
    paths.foldlM Reading.path ⟨o, given, .paths seen⟩ = .ok ⟨o, given, .paths (seen ++ paths)⟩ := by
  induction paths generalizing seen with
  | nil => simp [pure, Except.pure]
  | cons p paths ih =>
    rw [List.foldlM_cons]
    change paths.foldlM Reading.path ⟨o, given, .paths (seen ++ [p])⟩ = _
    rw [ih, List.append_assoc, List.singleton_append]

theorem finish_of_settle {r settled : Reading} (h : r.settle = .ok settled) :
    r.finish =
      if settled.options.allFiles && !settled.options.extensions.isEmpty then .error .conflict
      else .ok { settled.options with paths := orHere settled.options.paths } := by
  rw [Reading.finish, h, orHere]
  change (if _ then _ else _) = _
  split
  · rfl
  · change Except.ok (if _ then _ else _) = _
    split <;> rfl

/-- Behind the two dashes only all files together with extensions can still go wrong. -/
theorem finish_words {o : Options} (ho : o.paths = []) (given : List Name) {paths : List String}
    (hpaths : ∀ p ∈ paths, p ≠ "") :
    (Reading.words ⟨o, given, .nothing⟩ ("--" :: paths) >>= Reading.finish) =
      if o.allFiles && !o.extensions.isEmpty then .error .conflict
      else .ok { o with paths := orHere paths } := by
  cases paths with
  | nil =>
    change Reading.finish ⟨o, given, .nothing⟩ = _
    rw [finish_of_settle rfl, ho]
  | cons p paths =>
    have hread : Reading.words ⟨o, given, .nothing⟩ ("--" :: p :: paths) =
        .ok ⟨o, given, .paths (p :: paths)⟩ := foldlM_path o given [p] paths
    have hsettle : Reading.settle ⟨o, given, .paths (p :: paths)⟩ =
        .ok ⟨{ o with paths := p :: paths }, given, .nothing⟩ := by
      have hnone : (p :: paths).any String.isEmpty = false := by simpa using hpaths
      simp [Reading.settle, Reading.addPaths, hnone, ho]
    rw [hread]
    change Reading.finish ⟨o, given, .paths (p :: paths)⟩ = _
    rw [finish_of_settle hsettle]

namespace Item

def format? : Item → Option Report.Format
  | format f => some f
  | _ => none

def output? : Item → Option String
  | output file => some file
  | _ => none

def jobs? : Item → Option Nat
  | jobs n => some n
  | _ => none

def config? : Item → Option String
  | config file => some file
  | _ => none

def extensions : Item → List String
  | ext group => group
  | _ => []

/-- How many letters are added to the verbosity. -/
def loudness : Item → Nat
  | verbose more => more + 1
  | _ => 0

end Item

/-- The options that the items come to, field by field. -/
def sumUp (items : List Item) : Options where
  paths := []
  format := (items.filterMap Item.format?).getLast?
  output := (items.filterMap Item.output?).getLast?
  extensions := items.flatMap Item.extensions
  allFiles := items.contains .allFiles
  jobs := (items.filterMap Item.jobs?).getLast?
  noParallel := items.contains .noParallel
  plain := items.contains .plain
  config := (items.filterMap Item.config?).getLast?
  verbosity := min 255 (items.map Item.loudness).sum
  quiet := items.contains .quiet

theorem sumUp_concat (items : List Item) (i : Item) :
    sumUp (items ++ [i]) = i.apply (sumUp items) := by
  -- the new item is compared first, so that the comparison computes
  have hcontains : ∀ j : Item, (items ++ [i]).contains j = (j == i || items.contains j) := by
    intro j
    rw [List.contains_append, List.contains_cons, List.contains_nil, Bool.or_false, Bool.or_comm]
  simp only [sumUp, hcontains, List.filterMap_append, List.flatMap_append, List.map_append,
    List.sum_append, List.getLast?_append, List.flatMap_singleton]
  cases i with
  | ext group => rfl
  | verbose more =>
    have hcap : ∀ n, min 255 (n + (more + 1)) = min 255 (min 255 n + (more + 1)) := by omega
    simp only [Item.extensions, List.append_nil, List.map_cons, List.map_nil, List.sum_singleton,
      Item.loudness]
    rw [hcap]
    rfl
  | _ =>
    simp only [Item.extensions, List.append_nil]
    rfl

theorem foldl_apply (items : List Item) : items.foldl Item.apply { paths := [] } = sumUp items := by
  induction items using List.reverseRecOn with
  | nil => rfl
  | append_singleton items i ih =>
    rw [List.foldl_append, List.foldl_cons, List.foldl_nil, ih, sumUp_concat]

/-- Options, two dashes and paths. -/
def commandLine (items : List Item) (paths : List String) : List String :=
  "analyze" :: (items.map Item.word ++ "--" :: paths)

theorem parse_commandLine (items : List Item) (paths : List String) :
    parse (commandLine items paths) =
      (Reading.words ⟨{ paths := [] }, [], .nothing⟩ (items.map Item.word ++ "--" :: paths) >>=
        Reading.finish).map Invocation.analyze := rfl

theorem parse_of_nodup {items : List Item} {paths : List String} (hv : ∀ i ∈ items, i.Valid)
    (hnodup : (singles items).Nodup) (hpaths : ∀ p ∈ paths, p ≠ "") :
    parse (commandLine items paths) =
      if (sumUp items).allFiles && !(sumUp items).extensions.isEmpty then .error .conflict
      else .ok (.analyze { sumUp items with paths := orHere paths }) := by
  have hclear : Clear [] items := ⟨hnodup, by simp⟩
  obtain ⟨later, hwords⟩ := words_of_clear { paths := [] } hv hclear ("--" :: paths)
  rw [foldl_apply] at hwords
  rw [parse_commandLine, hwords, finish_words rfl later hpaths]
  split <;> rfl

theorem parse_of_not_nodup {items : List Item} (hv : ∀ i ∈ items, i.Valid)
    (hnodup : ¬(singles items).Nodup) (paths : List String) :
    parse (commandLine items paths) = .error .conflict := by
  have hclear : ¬Clear [] items := fun h => hnodup h.1
  rw [parse_commandLine, words_of_not_clear _ hv hclear]
  rfl

/-- Options that a command line can ask for. -/
structure Expressible (o : Options) : Prop where
  paths : ∀ p ∈ o.paths, p ≠ ""
  output : ∀ file ∈ o.output, file ≠ ""
  config : ∀ file ∈ o.config, file ≠ ""
  extensions : ∀ e ∈ o.extensions, ',' ∉ e.toList
  allFiles : o.allFiles = true → o.extensions = []
  jobs : ∀ n ∈ o.jobs, n < 2 ^ 64
  verbosity : o.verbosity ≤ 255

def flag (given : Bool) (i : Item) : List Item := if given then [i] else []

/-- The items for what may be given once. -/
def onceItems (o : Options) : List Item :=
  o.format.toList.map .format ++ o.output.toList.map .output ++ o.jobs.toList.map .jobs ++
    o.config.toList.map .config ++ flag o.allFiles .allFiles ++ flag o.noParallel .noParallel ++
    flag o.plain .plain ++ flag o.quiet .quiet

/-- The items say what the options are, in any order. Extensions may be divided into groups, which
stand in order, and letters may stand in several words. -/
structure Spells (o : Options) (items : List Item) : Prop where
  once : (items.filter (!isRepeatable ·.name)).Perm (onceItems o)
  groups : ∀ group, .ext group ∈ items → group ≠ []
  extensions : items.flatMap Item.extensions = o.extensions
  verbosity : (items.map Item.loudness).sum = o.verbosity

@[simp] theorem mem_flag {given : Bool} {i j : Item} : j ∈ flag given i ↔ given = true ∧ j = i := by
  cases given <;> simp [flag]

theorem mem_onceItems_iff {o : Options} {i : Item} : i ∈ onceItems o ↔
    match i with
    | .format f => o.format = some f
    | .output file => o.output = some file
    | .jobs n => o.jobs = some n
    | .config file => o.config = some file
    | .allFiles => o.allFiles = true
    | .noParallel => o.noParallel = true
    | .plain => o.plain = true
    | .quiet => o.quiet = true
    | .ext _ => False
    | .verbose _ => False := by
  cases i <;> simp [onceItems]

theorem nodup_names_onceItems (o : Options) : ((onceItems o).map Item.name).Nodup := by
  have hsetting : ∀ {α : Type} (value? : Option α) (mk : α → Item) (n : Name),
      (∀ a, (mk a).name = n) → ((value?.toList.map mk).map Item.name).Sublist [n] := by
    intro α value? mk n hn
    cases value? <;> simp [hn]
  have hflag : ∀ given i, ((flag given i).map Item.name).Sublist [i.name] := by
    intro given i
    cases given <;> simp [flag]
  have hsub := ((((((((hsetting o.format .format (.setting .format) fun _ => rfl).append
    (hsetting o.output .output (.setting .output) fun _ => rfl)).append
    (hsetting o.jobs .jobs (.setting .jobs) fun _ => rfl)).append
    (hsetting o.config .config (.setting .config) fun _ => rfl)).append
    (hflag o.allFiles .allFiles)).append (hflag o.noParallel .noParallel)).append
    (hflag o.plain .plain)).append (hflag o.quiet .quiet))
  simp only [← List.map_append] at hsub
  exact hsub.nodup (by decide)

section Spelled

variable {o : Options} {items : List Item} (h : Spells o items)
include h

theorem Spells.mem_iff {i : Item} (hi : isRepeatable i.name = false) :
    i ∈ items ↔ i ∈ onceItems o := by
  rw [← h.once.mem_iff, List.mem_filter, hi]
  simp

theorem Spells.nodup : (singles items).Nodup := by
  rw [singles, List.filter_map]
  exact (h.once.map Item.name).nodup_iff.mpr (nodup_names_onceItems o)

theorem Spells.valid (ho : Expressible o) : ∀ i ∈ items, i.Valid := by
  intro i hi
  cases i with
  | output file => exact ho.output file (mem_onceItems_iff.mp ((h.mem_iff rfl).mp hi))
  | config file => exact ho.config file (mem_onceItems_iff.mp ((h.mem_iff rfl).mp hi))
  | jobs n => exact ho.jobs n (mem_onceItems_iff.mp ((h.mem_iff rfl).mp hi))
  | ext group =>
    refine ⟨h.groups group hi, fun e he => ho.extensions e ?_⟩
    rw [← h.extensions]
    exact List.mem_flatMap.mpr ⟨_, hi, he⟩
  | _ => trivial

/-- The last value of a setting that may be given once is the only one. -/
theorem Spells.getLast?_filterMap {α : Type} {value? : Item → Option α} {x : Option α}
    (hvalue : ∀ i, isRepeatable i.name = true → value? i = none)
    (hx : (onceItems o).filterMap value? = x.toList) : (items.filterMap value?).getLast? = x := by
  have hfilter : items.filterMap value? =
      (items.filter (!isRepeatable ·.name)).filterMap value? := by
    rw [List.filterMap_filter]
    refine List.filterMap_congr fun i _ => ?_
    cases hi : isRepeatable i.name <;> simp [hvalue, hi]
  have hperm := h.once.filterMap value?
  rw [hx] at hperm
  rw [hfilter]
  cases x with
  | none => rw [List.perm_nil.mp hperm]; rfl
  | some a => rw [List.perm_singleton.mp hperm]; rfl

theorem Spells.contains {i : Item} (hi : isRepeatable i.name = false) {given : Bool}
    (hgiven : i ∈ onceItems o ↔ given = true) : items.contains i = given := by
  rw [Bool.eq_iff_iff, List.contains_iff_mem, h.mem_iff hi, hgiven]

theorem Spells.sumUp_eq (ho : Expressible o) : sumUp items = { o with paths := [] } := by
  have hvalue : ∀ i : Item, isRepeatable i.name = true →
      i.format? = none ∧ i.output? = none ∧ i.jobs? = none ∧ i.config? = none := by
    intro i hi
    cases i with
    | ext group => exact ⟨rfl, rfl, rfl, rfl⟩
    | verbose more => exact ⟨rfl, rfl, rfl, rfl⟩
    | _ => cases hi
  have hformat : (items.filterMap Item.format?).getLast? = o.format := by
    refine h.getLast?_filterMap (fun i hi => (hvalue i hi).1) ?_
    simp [onceItems, List.filterMap_map, Function.comp_def, Item.format?, flag]
  have houtput : (items.filterMap Item.output?).getLast? = o.output := by
    refine h.getLast?_filterMap (fun i hi => (hvalue i hi).2.1) ?_
    simp [onceItems, List.filterMap_map, Function.comp_def, Item.output?, flag]
  have hjobs : (items.filterMap Item.jobs?).getLast? = o.jobs := by
    refine h.getLast?_filterMap (fun i hi => (hvalue i hi).2.2.1) ?_
    simp [onceItems, List.filterMap_map, Function.comp_def, Item.jobs?, flag]
  have hconfig : (items.filterMap Item.config?).getLast? = o.config := by
    refine h.getLast?_filterMap (fun i hi => (hvalue i hi).2.2.2) ?_
    simp [onceItems, List.filterMap_map, Function.comp_def, Item.config?, flag]
  have hallFiles := h.contains (i := .allFiles) rfl mem_onceItems_iff
  have hnoParallel := h.contains (i := .noParallel) rfl mem_onceItems_iff
  have hplain := h.contains (i := .plain) rfl mem_onceItems_iff
  have hquiet := h.contains (i := .quiet) rfl mem_onceItems_iff
  have hverbosity : min 255 (items.map Item.loudness).sum = o.verbosity := by
    rw [h.verbosity]
    exact min_eq_right ho.verbosity
  simp only [sumUp, hformat, houtput, hjobs, hconfig, hallFiles, hnoParallel, hplain, hquiet,
    h.extensions, hverbosity]

end Spelled

theorem repeats_nothing {o : Options} : ∀ i ∈ onceItems o,
    isRepeatable i.name = false ∧ i.extensions = [] ∧ i.loudness = 0 := by
  intro i hi
  rw [mem_onceItems_iff] at hi
  cases i with
  | ext group => cases hi
  | verbose more => cases hi
  | _ => exact ⟨rfl, rfl, rfl⟩

/-- What may be given once, all extensions in one group and a word for each letter. -/
theorem exists_spells (o : Options) : ∃ items, Spells o items := by
  let groups := flag (!o.extensions.isEmpty) (.ext o.extensions)
  let letters := List.replicate o.verbosity (Item.verbose 0)
  refine ⟨onceItems o ++ (groups ++ letters), ?_, ?_, ?_, ?_⟩
  · have honce : (onceItems o).filter (!isRepeatable ·.name) = onceItems o := by
      rw [List.filter_eq_self]
      intro i hi
      simp [(repeats_nothing i hi).1]
    have hrest : (groups ++ letters).filter (!isRepeatable ·.name) = [] := by
      rw [List.filter_eq_nil_iff, List.forall_mem_append]
      constructor
      · intro i hi
        rw [(mem_flag.mp hi).2]
        exact Bool.false_ne_true
      · intro i hi
        rw [List.eq_of_mem_replicate hi]
        exact Bool.false_ne_true
    rw [List.filter_append, honce, hrest, List.append_nil]
  · intro group hgroup
    simp only [List.mem_append, mem_onceItems_iff, groups, letters, mem_flag, List.mem_replicate,
      reduceCtorEq, and_false, or_false, false_or, Item.ext.injEq] at hgroup
    simpa [hgroup.2] using hgroup.1
  · have honce : (onceItems o).flatMap Item.extensions = [] := by
      rw [List.flatMap_eq_nil_iff]
      exact fun i hi => (repeats_nothing i hi).2.1
    have hletters : letters.flatMap Item.extensions = [] := by
      rw [List.flatMap_eq_nil_iff]
      intro i hi
      rw [List.eq_of_mem_replicate hi]
      rfl
    have hgroups : groups.flatMap Item.extensions = o.extensions := by
      by_cases hnone : o.extensions = []
      · simp [groups, flag, hnone]
      · simp [groups, flag, hnone, Item.extensions]
    rw [List.flatMap_append, List.flatMap_append, honce, hletters, hgroups, List.nil_append,
      List.append_nil]
  · have honce : ((onceItems o).map Item.loudness).sum = 0 := by
      rw [List.sum_eq_zero_iff, List.forall_mem_map]
      exact fun i hi => (repeats_nothing i hi).2.2
    have hgroups : (groups.map Item.loudness).sum = 0 := by
      by_cases hnone : o.extensions = []
      · simp [groups, flag, hnone]
      · simp [groups, flag, hnone, Item.loudness]
    have hletters : (letters.map Item.loudness).sum = o.verbosity := by
      simp [letters, Item.loudness]
    rw [List.map_append, List.map_append, List.sum_append, List.sum_append, honce, hgroups,
      hletters, Nat.zero_add, Nat.zero_add]

/-- Options that a command line can ask for are read back from each of their spellings, whatever the
order and the grouping, and every one of them has a spelling. Without paths the working directory is
analysed. An option that may be given once and is repeated, or all files together with extensions,
is a conflict. -/
theorem parse_spelled :
    (∀ o items, Expressible o → Spells o items →
      parse (commandLine items o.paths) = .ok (.analyze { o with paths := orHere o.paths })) ∧
    (∀ o, ∃ items, Spells o items) ∧
    ∀ items paths, (∀ i ∈ items, i.Valid) → (∀ p ∈ paths, p ≠ "") →
      ¬(singles items).Nodup ∨ (.allFiles ∈ items ∧ ∃ group, .ext group ∈ items) →
      parse (commandLine items paths) = .error .conflict := by
  refine ⟨?_, exists_spells, ?_⟩
  · intro o items ho h
    have hfree : (o.allFiles && !o.extensions.isEmpty) = false := by
      cases hall : o.allFiles with
      | false => rfl
      | true => simp [ho.allFiles hall]
    rw [parse_of_nodup (h.valid ho) h.nodup ho.paths, h.sumUp_eq ho, hfree]
    rfl
  · rintro items paths hv hpaths hconflict
    by_cases hnodup : (singles items).Nodup
    · obtain ⟨hall, group, hgroup⟩ := hconflict.resolve_left (not_not.mpr hnodup)
      have hboth : ((sumUp items).allFiles && !(sumUp items).extensions.isEmpty) = true := by
        have hext : items.flatMap Item.extensions ≠ [] := by
          intro hnil
          exact (hv _ hgroup).1 (List.flatMap_eq_nil_iff.mp hnil _ hgroup)
        simp [sumUp, hall, hext]
      rw [parse_of_nodup hv hnodup hpaths, hboth]
      rfl
    · exact parse_of_not_nodup hv hnodup paths

/-- Groups of extensions among the other options, values and paths that look like options, and both
conflicts. -/
theorem parse_spelled_shuffled :
    let o : Options :=
      { paths := ["--quiet", "--"], format := some .json, output := some "-=o",
        extensions := ["ts", "", "rs"], jobs := some 0, verbosity := 3, quiet := true }
    let items : List Item := [.verbose 1, .ext ["ts", ""], .quiet, .jobs 0, .output "-=o",
      .ext ["rs"], .verbose 0, .format .json]
    commandLine items o.paths = ["analyze", "-vv", "--ext=ts,", "--quiet", "--jobs=0",
      "--output=-=o", "--ext=rs", "-v", "--format=json", "--", "--quiet", "--"] ∧
    Expressible o ∧ Spells o items ∧ parse (commandLine items o.paths) = .ok (.analyze o) ∧
    (∀ i : Item, i ∈ items ++ [.jobs 1, .allFiles] → i.Valid) ∧
    parse (commandLine (items ++ [.jobs 1]) o.paths) = .error .conflict ∧
    parse (commandLine (items ++ [.allFiles]) o.paths) = .error .conflict := by
  intro o items
  have ho : Expressible o := by constructor <;> simp [o]
  have hspells : Spells o items := ⟨by decide, by simp [items], rfl, rfl⟩
  have hvalid : ∀ i : Item, i ∈ items ++ [.jobs 1, .allFiles] → i.Valid := by
    simp [items, Item.Valid]
  refine ⟨by decide, ho, hspells, parse_spelled.1 o items ho hspells, hvalid, ?_, ?_⟩
  · refine parse_spelled.2.2 _ _ (fun i hi => hvalid i ?_) ho.paths (.inl (by decide))
    simp only [List.mem_append, List.mem_cons] at hi ⊢
    tauto
  · refine parse_spelled.2.2 _ _ (fun i hi => hvalid i ?_) ho.paths
      (.inr ⟨by decide, ["rs"], by decide⟩)
    simp only [List.mem_append, List.mem_cons] at hi ⊢
    tauto

end SourceGauge.Proofs.SpelledOptions
