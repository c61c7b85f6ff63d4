import Mathlib
import SourceGauge.Proofs.SelectedResults
import SourceGauge.Proofs.SelectionFailure

namespace SourceGauge.Proofs.CommandFailure
open Command CommandEffect SelectionFailure SelectedResults

/-- The configuration that is named cannot be read, or its text is no configuration. -/
def ConfigUnusable (w : World) (o : Options) : Prop :=
  ∃ path, o.config = some path ∧
    (Fails (w.files.readText path.toList) ∨
      ∃ text, w.files.readText path.toList = .ok text ∧ Config.ofText? text.toList = none)

theorem fails_load_iff (fs : FileSystem) (path : List Char) :
    Fails (Config.load fs path).1 ↔ Fails (fs.readText path) ∨
      ∃ text, fs.readText path = .ok text ∧ Config.ofText? text.toList = none := by
  unfold Config.load
  cases fs.readText path with
  | error fault => simp [fails_error]
  | ok text => cases hc : Config.ofText? text.toList <;> simp [hc, fails_error, not_fails_ok]

theorem fails_configuration_iff (w : World) (o : Options) :
    Fails (configuration w o).1 ↔ ConfigUnusable w o := by
  unfold configuration ConfigUnusable
  cases o.config with
  -- What is found on the way up is skipped where it cannot be read.
  | none => simp [not_fails_ok]
  | some path => simp [fails_load_iff]

/-- A root is a directory and a pattern of the configuration is malformed. -/
def PatternUnusable (w : World) (o : Options) : Prop :=
  (∃ root ∈ o.paths, ∃ loc, IsDirectory w.files root.toList loc) ∧
    ∃ c, (configuration w o).1 = .ok c ∧ ∃ p ∈ c.ignorePatterns, Fails (Pattern.parse p)

/-- A root is a directory, and what is read above it is malformed. -/
def RulesUnusable (w : World) (o : Options) : Prop :=
  ∃ root ∈ o.paths, ∃ loc, IsDirectory w.files root.toList loc ∧
    MalformedAbove w.files root.toList loc

/-- Reading the selected files cannot fail the analysis, only selecting them can. -/
theorem fails_run_iff (fs : FileSystem) (s : Settings) (paths : List String) :
    Fails (Analysis.run fs s paths).1 ↔
      Fails (Selection.select fs s.extensions s.ignore (paths.map String.toList)).1 := by
  rw [run_eq_map_select, fails_map_iff]

theorem fails_run_resolve_iff {w : World} {o : Options} {c : Config}
    (hc : (configuration w o).1 = .ok c) :
    Fails (Analysis.run w.files (Settings.resolve o c w.environment) o.paths).1 ↔
      PatternUnusable w o ∨ RulesUnusable w o := by
  rw [fails_run_iff, fails_select_iff]
  simp only [PatternUnusable, RulesUnusable, hc, List.mem_map, Except.ok.injEq, exists_eq_left']
  constructor
  · rintro ⟨_, ⟨root, hroot, rfl⟩, loc, hloc, hp | hm⟩
    · exact .inl ⟨⟨root, hroot, loc, hloc⟩, hp⟩
    · exact .inr ⟨root, hroot, loc, hloc, hm⟩
  · rintro (⟨⟨root, hroot, loc, hloc⟩, hp⟩ | ⟨root, hroot, loc, hloc, hm⟩)
    · exact ⟨_, ⟨root, hroot, rfl⟩, loc, hloc, .inl hp⟩
    · exact ⟨_, ⟨root, hroot, rfl⟩, loc, hloc, .inr hm⟩

/-- Writing succeeds where a file can stand, and touches that place only. -/
theorem writeText_eq_ok_iff {fs files : FileSystem} {path : List Char} {text : String} :
    fs.writeText path text = .ok files ↔
      ∃ loc, fs.locate true path = .ok loc ∧ fs.hasDirectory loc = false ∧
        files = fs.put loc (.file text.toUTF8) := by
  unfold FileSystem.writeText
  cases fs.locate true path with
  | error fault => simp [bind, Except.bind]
  | ok loc =>
    cases hd : fs.hasDirectory loc with
    | true => simp [bind, Except.bind, throw, throwThe, MonadExceptOf.throw, hd]
    | false =>
      simp only [bind, Except.bind, pure, Except.pure, hd, Bool.false_eq_true, ↓reduceIte,
        Except.ok.injEq, exists_eq_left', true_and]
      exact eq_comm

/-- Whether a place can be written does not depend on the text. -/
theorem fails_writeText_iff (fs : FileSystem) (path : List Char) (text : String) :
    Fails (fs.writeText path text) ↔ ∀ other, Fails (fs.writeText path other) := by
  refine ⟨fun h other => ?_, fun h => h text⟩
  by_contra hok
  obtain ⟨files, hfiles⟩ := not_fails_iff.mp hok
  obtain ⟨loc, hloc, hfree, _⟩ := writeText_eq_ok_iff.mp hfiles
  exact not_fails_iff.mpr ⟨_, writeText_eq_ok_iff.mpr ⟨loc, hloc, hfree, rfl⟩⟩ h

/-- The file that is named for the report cannot be written. -/
def OutputUnusable (w : World) (o : Options) : Prop :=
  ∃ path, o.output = some path ∧ ∀ text, Fails (w.files.writeText path.toList text)

theorem failure_delivery_iff (w : World) (o : Options) (text : String) :
    (delivery w.files o.output text).failure.isSome = true ↔ OutputUnusable w o := by
  unfold delivery OutputUnusable
  cases o.output with
  | none => simp
  | some path =>
    simp only [Option.some.injEq, exists_eq_left', ← fails_writeText_iff w.files path.toList text]
    cases w.files.writeText path.toList text with
    | error fault => simp [fails_error]
    | ok files => simp [not_fails_ok]

/-- A place that is there without an entry is a directory, so it is never written. -/
theorem not_isGiven_of_not_hasDirectory {fs : FileSystem} {loc : Location}
    (hfree : fs.hasDirectory loc = false) : FileSystem.isGiven loc = false := by
  cases hgiven : FileSystem.isGiven loc with
  | false => rfl
  | true => simp [FileSystem.hasDirectory, FileSystem.lookup?, hgiven, Entry.isDirectory] at hfree

theorem lookup?_writeText {fs files : FileSystem} {path : List Char} {text : String}
    (h : fs.writeText path text = .ok files) {loc : Location}
    (hloc : files.lookup? loc ≠ fs.lookup? loc) : fs.locate true path = .ok loc := by
  obtain ⟨place, hplace, hfree, rfl⟩ := writeText_eq_ok_iff.mp h
  rw [FileSystem.lookup?_put fs (not_isGiven_of_not_hasDirectory hfree)] at hloc
  by_cases he : loc = place
  · rw [he, hplace]
  · exact absurd (if_neg he) hloc

/-- A failure leaves no trace, and no place but that of the report changes. -/
structure Tidy (fs : FileSystem) (output : Option String) (e : Effect) : Prop where
  failed : e.failure.isSome = true → e.files = fs ∧ e.output = ""
  printed : output = none → e.files = fs
  changed : ∀ loc, e.files.lookup? loc ≠ fs.lookup? loc →
    ∃ path, output = some path ∧ fs.locate true path.toList = .ok loc

theorem tidy_failure (fs : FileSystem) (output : Option String) (f : Failure) :
    Tidy fs output { failure := some f, files := fs } :=
  ⟨fun _ => ⟨rfl, rfl⟩, fun _ => rfl, fun _ h => absurd rfl h⟩

theorem tidy_delivery (fs : FileSystem) (output : Option String) (text : String) :
    Tidy fs output (delivery fs output text) := by
  cases output with
  | none => exact ⟨by simp [delivery], fun _ => rfl, fun _ h => absurd rfl h⟩
  | some path =>
    cases hw : fs.writeText path.toList text with
    | error fault =>
      simp only [delivery, hw]
      exact tidy_failure fs (some path) (.report path fault)
    | ok files =>
      simp only [delivery, hw]
      exact ⟨by simp, by simp, fun loc hloc => ⟨path, rfl, lookup?_writeText hw hloc⟩⟩

theorem tidy_analyze (w : World) (o : Options) : Tidy w.files o.output (effect (analyze w o)) := by
  rw [effect_analyze]
  split
  · exact tidy_failure w.files o.output _
  · split
    · exact tidy_failure w.files o.output _
    · exact tidy_delivery w.files o.output _

theorem failure_analyze_iff (w : World) (o : Options) :
    (effect (analyze w o)).failure.isSome = true ↔
      ConfigUnusable w o ∨ PatternUnusable w o ∨ RulesUnusable w o ∨ OutputUnusable w o := by
  rw [effect_analyze, ← fails_configuration_iff]
  cases hc : (configuration w o).1 with
  | error e => simp [fails_error]
  | ok c =>
    rw [← or_assoc (a := PatternUnusable w o), ← fails_run_resolve_iff hc]
    cases hr : (Analysis.run w.files (Settings.resolve o c w.environment) o.paths).1 with
    | error e => simp [hr, fails_error]
    | ok rs => simp [hr, not_fails_ok, failure_delivery_iff]

/-- A directory in a repository that is kept elsewhere, where the list of excluded files holds a
line that is no rule. -/
def broken : World where
  files := {
    entries := [
      ([".git".toList], .file "gitdir: g".toUTF8),
      (["g".toList], .directory),
      (["commondir".toList, "g".toList], .file "c".toUTF8),
      (["c".toList], .directory),
      (["info".toList, "c".toList], .directory),
      (["exclude".toList, "info".toList, "c".toList], .file "\x7b".toUTF8),
      (["sub".toList], .directory)] }
  environment := fun _ => none
  time := ""

theorem rulesUnusable_broken : RulesUnusable broken { paths := ["sub"] } := by
  have hroot : IsDirectory broken.files "sub".toList ["sub".toList] := ⟨by cbv, by cbv⟩
  have hread : broken.files.readBytes "c/info/exclude".toList = .ok "\x7b".toUTF8 := by cbv
  have hline : ∃ line ∈ textLines 1 (Ignore.rawLines "\x7b".toUTF8.toList), Malformed line := by
    decide +kernel
  have hfile : "c/info/exclude".toList ∈ ruleFiles broken.files (FileSystem.absolute []) := by
    decide +kernel
  have hrules : MalformedRules broken.files "c/info/exclude".toList := ⟨_, hread, hline⟩
  have hreads : ReadsAbove broken.files "sub".toList := ⟨by decide, .inr (by decide)⟩
  exact ⟨"sub", by simp, ["sub".toList], hroot, hreads, [], by simp, by simp,
    .inl ⟨_, hfile, hrules⟩⟩

end SourceGauge.Proofs.CommandFailure
