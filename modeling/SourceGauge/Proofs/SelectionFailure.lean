import Mathlib
import SourceGauge.Selection

namespace SourceGauge.Proofs.SelectionFailure
open Selection

/-- A computation without a result. -/
def Fails (x : Except ε α) : Prop := ∃ e, x = .error e

instance (x : Except ε α) : Decidable (Fails x) :=
  match x with
  | .error e => isTrue ⟨e, rfl⟩
  | .ok _ => isFalse (fun ⟨_, h⟩ => nomatch h)

theorem not_fails_ok (a : α) : ¬Fails (.ok a : Except ε α) := by
  rintro ⟨e, he⟩
  cases he

theorem fails_error (e : ε) : Fails (.error e : Except ε α) := ⟨e, rfl⟩

theorem not_fails_iff {x : Except ε α} : ¬Fails x ↔ ∃ a, x = .ok a := by
  cases x with
  | error e => simp [Fails]
  | ok a => simp [Fails]

theorem fails_map_iff (f : α → β) {x : Except ε α} : Fails (x.map f) ↔ Fails x := by
  cases x with
  | error e => simp [Fails, Except.map]
  | ok a => simp [Fails, Except.map]

theorem fails_mapError_iff (f : ε → δ) {x : Except ε α} : Fails (x.mapError f) ↔ Fails x := by
  cases x with
  | error e => simp [Fails, Except.mapError]
  | ok a => simp [Fails, Except.mapError]

/-- The first failure of two steps decides. -/
theorem bind_eq_error_iff {x : Except ε α} {f : α → Except ε β} {e : ε} :
    (x >>= f) = .error e ↔ x = .error e ∨ ∃ a, x = .ok a ∧ f a = .error e := by
  cases x with
  | error e => simp [bind, Except.bind]
  | ok a => simp [bind, Except.bind]

theorem fails_bind_iff {x : Except ε α} {f : α → Except ε β} :
    Fails (x >>= f) ↔ Fails x ∨ ∃ a, x = .ok a ∧ Fails (f a) := by
  simp only [Fails, bind_eq_error_iff, exists_or, ← exists_and_left]
  rw [exists_comm]

theorem fails_mapM_iff (f : α → Except ε β) (as : List α) :
    Fails (as.mapM f) ↔ ∃ a ∈ as, Fails (f a) := by
  induction as with
  | nil =>
    have hnil : ¬Fails (pure [] : Except ε (List β)) := not_fails_ok []
    simpa using hnil
  | cons a as ih =>
    have hpure : ∀ bs : List β, ¬Fails (pure bs : Except ε (List β)) := not_fails_ok
    rw [List.mapM_cons, fails_bind_iff]
    constructor
    · rintro (ha | ⟨b, _, hrest⟩)
      · exact ⟨a, by simp, ha⟩
      · rcases fails_bind_iff.mp hrest with has | ⟨bs, _, hbs⟩
        · obtain ⟨c, hc, hfails⟩ := ih.mp has
          exact ⟨c, by simp [hc], hfails⟩
        · exact absurd hbs (hpure (b :: bs))
    · rintro ⟨c, hc, hfails⟩
      by_cases ha : Fails (f a)
      · exact .inl ha
      · obtain ⟨b, hb⟩ := not_fails_iff.mp ha
        rcases List.mem_cons.mp hc with rfl | hc
        · exact absurd hfails ha
        · exact .inr ⟨b, hb, fails_bind_iff.mpr (.inl (ih.mpr ⟨c, hc, hfails⟩))⟩

theorem fails_compile_iff (patterns : List String) :
    Fails (compile patterns) ↔ ∃ p ∈ patterns, Fails (Pattern.parse p) := by
  simp only [compile, fails_mapM_iff, fails_mapError_iff]

/-- The lines of an ignore file that are read: those before the first that is no text, without a
mark in front of them all. -/
def textLines (number : Nat) : List (List UInt8) → List (List Char)
  | [] => []
  | bytes :: rest =>
    match Ignore.decode? bytes with
    | some line =>
      (if number = 1 then line.dropWhile (· == Ignore.byteOrderMark) else line) ::
        textLines (number + 1) rest
    | none => []

/-- A line that is neither empty nor a comment and holds no rule. -/
def Malformed (line : List Char) : Prop :=
  line.head? ≠ some '#' ∧ Ignore.trimLine line ≠ [] ∧
    Fails (Ignore.Rule.ofLine (Ignore.trimLine line))

instance (line : List Char) : Decidable (Malformed line) :=
  inferInstanceAs (Decidable (_ ∧ _ ∧ _))

/-- A line adds a fault exactly when it is malformed. -/
theorem faults_add (r : Ignore.Reading) (number : Nat) (line : List Char) :
    (r.add number line).cut = r.cut ∧
      ∃ new, (r.add number line).faults = r.faults ++ new ∧ (new ≠ [] ↔ Malformed line) := by
  unfold Ignore.Reading.add Malformed
  by_cases hcomment : line.head? = some '#'
  · exact ⟨by simp [hcomment], [], by simp [hcomment], by simp [hcomment]⟩
  · by_cases hempty : Ignore.trimLine line = []
    · exact ⟨by simp [hcomment, hempty], [], by simp [hcomment, hempty], by simp [hempty]⟩
    · cases hrule : Ignore.Rule.ofLine (Ignore.trimLine line) with
      | ok rule =>
        exact ⟨by simp [hcomment, hempty, hrule], [], by simp [hcomment, hempty, hrule],
          by simp [not_fails_ok]⟩
      | error e =>
        exact ⟨by simp [hcomment, hempty, hrule], [_], by simp [hcomment, hempty, hrule]; rfl,
          by simp [hcomment, hempty, fails_error]⟩

/-- Reading adds a fault for each malformed line and one for the line where it breaks off. -/
theorem faults_readLines {r : Ignore.Reading} (hr : r.cut = false) (number : Nat)
    (ls : List (List UInt8)) :
    ∃ new, (Ignore.readLines r number ls).faults.length =
        r.faults.length + new + (Ignore.readLines r number ls).cut.toNat ∧
      (0 < new ↔ ∃ line ∈ textLines number ls, Malformed line) := by
  induction ls generalizing r number with
  | nil => exact ⟨0, by simp [Ignore.readLines, hr], by simp [textLines]⟩
  | cons bytes rest ih =>
    rw [Ignore.readLines, textLines]
    cases Ignore.decode? bytes with
    | none => exact ⟨0, by simp, by simp⟩
    | some line =>
      simp only [List.mem_cons, exists_eq_or_imp]
      generalize (if number = 1 then line.dropWhile (· == Ignore.byteOrderMark) else line) = text
      obtain ⟨hcut, added, hadd, hadded⟩ := faults_add r number text
      obtain ⟨new, hlength, hnew⟩ := ih (hcut.trans hr) (number + 1)
      refine ⟨added.length + new, ?_, ?_⟩
      · rw [hlength, hadd, List.length_append]
        omega
      · rw [← hadded, ← hnew, ← List.length_pos_iff]
        omega

/-- An ignore file with a malformed line before the first that is no text. -/
def MalformedRules (fs : FileSystem) (path : List Char) : Prop :=
  ∃ content, fs.readBytes path = .ok content ∧
    ∃ line ∈ textLines 1 (Ignore.rawLines content.toList), Malformed line

theorem complaints_ne_nil_iff {r : Ignore.Reading} {malformed : Nat}
    (h : r.faults.length = malformed + r.cut.toNat) : r.complaints ≠ [] ↔ 0 < malformed := by
  unfold Ignore.Reading.complaints
  cases hcut : r.cut with
  | false =>
    rw [hcut, Bool.toNat_false, Nat.add_zero] at h
    simp [← List.length_pos_iff, h]
  -- The line where the text breaks off is a fault, but no complaint when it is the only one.
  | true =>
    rw [hcut, Bool.toNat_true] at h
    simp only [Bool.true_and, decide_eq_true_eq, h]
    split
    · simp only [ne_eq, not_true_eq_false, false_iff]
      omega
    · rw [← List.length_pos_iff, h]
      omega

theorem complaints_readFile_iff (fs : FileSystem) (path : List Char) :
    (Ignore.readFile fs path).complaints ≠ [] ↔ MalformedRules fs path := by
  unfold Ignore.readFile MalformedRules
  cases fs.readBytes path with
  | error e => simp [Ignore.Reading.complaints]
  | ok content =>
    obtain ⟨new, hlength, hnew⟩ := faults_readLines (r := {}) rfl 1 (Ignore.rawLines content.toList)
    have hcount : (Ignore.readRules content).faults.length =
        new + (Ignore.readRules content).cut.toNat := by
      simpa [Ignore.readRules] using hlength
    simp only [Except.ok.injEq, exists_eq_left', ← hnew]
    exact complaints_ne_nil_iff hcount

/-- A step that fails with something to say. -/
def Complains (x : Except (List String) α) : Prop :=
  ∃ complaints, x = .error complaints ∧ complaints ≠ []

theorem not_complains_ok (a : α) : ¬Complains (.ok a) := by
  rintro ⟨_, h, _⟩
  cases h

theorem complains_error_iff (complaints : List String) :
    Complains (.error complaints : Except (List String) α) ↔ complaints ≠ [] := by
  simp [Complains]

theorem complains_bind_iff {x : Except (List String) α} {f : α → Except (List String) β} :
    Complains (x >>= f) ↔ Complains x ∨ ∃ a, x = .ok a ∧ Complains (f a) := by
  simp only [Complains, bind_eq_error_iff, or_and_right, exists_or, ← exists_and_left,
    ← exists_and_right, and_assoc]
  rw [exists_comm]

/-- A directory in place of a file, or a file whose first line is no text. -/
def UnreadableStart (fs : FileSystem) (path : List Char) : Prop :=
  fs.readBytes path = .error .isDirectory ∨
    ∃ content bytes, fs.readBytes path = .ok content ∧
      (Ignore.rawLines content.toList).head? = some bytes ∧ Ignore.decode? bytes = none

theorem complains_firstLine_iff (fs : FileSystem) (path : List Char) :
    Complains (Ignore.firstLine fs path) ↔ UnreadableStart fs path := by
  unfold Ignore.firstLine UnreadableStart
  cases fs.readBytes path with
  | error fault => cases fault <;> simp [complains_error_iff]
  | ok content =>
    cases hhead : (Ignore.rawLines content.toList).head? with
    | none => simp [hhead, complains_error_iff]
    | some bytes =>
      cases hline : Ignore.decode? bytes with
      | none => simp [hhead, hline, complains_error_iff]
      | some line => simp [hhead, hline, not_complains_ok]

theorem strip?_eq_some_iff (front text rest : List Char) :
    Ignore.strip? front text = some rest ↔ text = front ++ rest := by
  unfold Ignore.strip?
  rw [Option.ite_none_right_eq_some, List.isPrefixOf_iff_prefix, Option.some.injEq]
  constructor
  · rintro ⟨⟨tail, rfl⟩, rfl⟩
    rw [List.drop_left]
  · rintro rfl
    exact ⟨List.prefix_append front rest, List.drop_left⟩

/-- A file stands for the repository of a directory, and it or the file that it leads to cannot be
read. -/
def LostRepository (fs : FileSystem) (directory : List Char) : Prop :=
  let git := Path.join directory Ignore.dotGit
  fs.isFile git = true ∧
    (UnreadableStart fs git ∨
      ∃ real, Ignore.firstLine fs git = .ok ("gitdir: ".toList ++ real) ∧
        UnreadableStart fs (Path.join real "commondir".toList))

theorem complains_commonDirectory_iff (fs : FileSystem) (git : List Char) :
    Complains (Ignore.commonDirectory fs git) ↔
      UnreadableStart fs git ∨
        ∃ real, Ignore.firstLine fs git = .ok ("gitdir: ".toList ++ real) ∧
          UnreadableStart fs (Path.join real "commondir".toList) := by
  rw [Ignore.commonDirectory, complains_bind_iff, complains_firstLine_iff]
  refine or_congr_right ⟨?_, ?_⟩
  · rintro ⟨line, hline, hrest⟩
    split at hrest
    · exact absurd rfl ((complains_error_iff []).mp hrest)
    · rename_i real hreal
      rw [strip?_eq_some_iff] at hreal
      rcases complains_bind_iff.mp hrest with hcommon | ⟨_, _, hdone⟩
      · exact ⟨real, hreal ▸ hline, (complains_firstLine_iff fs _).mp hcommon⟩
      · exact absurd hdone (not_complains_ok _)
  · rintro ⟨real, hline, hcommon⟩
    refine ⟨_, hline, ?_⟩
    rw [(strip?_eq_some_iff _ _ real).mpr rfl]
    exact complains_bind_iff.mpr (.inl ((complains_firstLine_iff fs _).mpr hcommon))

theorem complains_gitDirectory_iff (fs : FileSystem) (directory : List Char) :
    Complains (Ignore.gitDirectory fs directory) ↔ LostRepository fs directory := by
  rw [LostRepository, ← complains_commonDirectory_iff, Ignore.gitDirectory]
  cases hfile : fs.isFile (Path.join directory Ignore.dotGit) with
  | false => simp [not_complains_ok]
  | true => simp

/-- The ignore files of a directory. -/
def ruleFiles (fs : FileSystem) (directory : List Char) : List (List Char) :=
  [Path.join directory Ignore.dotIgnore, Path.join directory Ignore.dotGitignore] ++
    (Ignore.gitDirectory fs directory).toOption.toList.map (Path.join · "info/exclude".toList)

/-- An ignore file of the directory has a malformed line, or its repository cannot be found. -/
def MalformedBook (fs : FileSystem) (directory : List Char) : Prop :=
  (∃ path ∈ ruleFiles fs directory, MalformedRules fs path) ∨ LostRepository fs directory

theorem complaints_read_iff (fs : FileSystem) (directory : List Char) :
    (Ignore.Book.read fs directory).2 ≠ [] ↔ MalformedBook fs directory := by
  have hfile : ∀ path, Ignore.complaints path (Ignore.readFile fs path) ≠ [] ↔
      MalformedRules fs path := by
    intro path
    rw [← complaints_readFile_iff, Ignore.complaints, ne_eq, List.map_eq_nil_iff]
  have happend : ∀ xs ys : List String, xs ++ ys ≠ [] ↔ xs ≠ [] ∨ ys ≠ [] := by
    intro xs ys
    rw [ne_eq, List.append_eq_nil_iff, not_and_or]
  rw [MalformedBook, ← complains_gitDirectory_iff, ruleFiles, Ignore.Book.read]
  cases hgit : Ignore.gitDirectory fs directory with
  | error found => simp [happend, hfile, complains_error_iff, Except.toOption, or_assoc]
  | ok git => simp [happend, hfile, not_complains_ok, Except.toOption]

theorem mem_booksAbove_iff (fs : FileSystem) (loc : Location) (b : Ignore.Book × List String) :
    b ∈ booksAbove fs loc ↔
      ∃ dir, dir <:+ loc ∧ dir ≠ loc ∧ b = Ignore.Book.read fs (FileSystem.absolute dir) := by
  induction loc with
  | nil => simp [booksAbove]
  | cons name loc ih =>
    rw [booksAbove, List.mem_cons, ih]
    constructor
    · rintro (rfl | ⟨dir, hdir, _, rfl⟩)
      · exact ⟨loc, List.suffix_cons name loc, by simp, rfl⟩
      · refine ⟨dir, hdir.trans (List.suffix_cons name loc), ?_, rfl⟩
        rintro rfl
        exact absurd hdir.length_le (by simp)
    · rintro ⟨dir, hdir, hne, rfl⟩
      rcases List.suffix_cons_iff.mp hdir with he | hdir
      · exact absurd he hne
      · by_cases he : dir = loc
        · exact .inl (by rw [he])
        · exact .inr ⟨dir, hdir, he, rfl⟩

/-- A directory above the place has a malformed ignore file, or a repository that cannot be
found. -/
def MalformedBooks (fs : FileSystem) (loc : Location) : Prop :=
  ∃ dir, dir <:+ loc ∧ dir ≠ loc ∧ MalformedBook fs (FileSystem.absolute dir)

theorem complaints_booksAbove_iff (fs : FileSystem) (loc : Location) :
    (booksAbove fs loc).reverse.flatMap (·.2) ≠ [] ↔ MalformedBooks fs loc := by
  simp only [MalformedBooks, ne_eq, List.flatMap_eq_nil_iff, List.mem_reverse, not_forall,
    mem_booksAbove_iff, ← complaints_read_iff, exists_prop]
  constructor
  · rintro ⟨b, ⟨dir, hdir, hne, rfl⟩, hb⟩
    exact ⟨dir, hdir, hne, hb⟩
  · rintro ⟨dir, hdir, hne, hb⟩
    exact ⟨_, ⟨dir, hdir, hne, rfl⟩, hb⟩

theorem fails_reached_iff (fs : FileSystem) (path : List Char) (loc : Location) :
    Fails (reached fs path loc) ↔ isPlaced fs path = true ∧ MalformedBooks fs loc := by
  rw [← complaints_booksAbove_iff, reached]
  cases isPlaced fs path with
  | false => simp [not_fails_ok]
  | true =>
    by_cases hempty : (booksAbove fs loc).reverse.flatMap (·.2) = []
    · simp [hempty, not_fails_ok]
    · simp [hempty, fails_error]

/-- The ignore files above a root are read, unless it stands for standard input or is relative to a
working directory that was removed. -/
structure ReadsAbove (fs : FileSystem) (root : List Char) : Prop where
  not_input : Path.components root ≠ Path.components ['-']
  placed : Path.isAbsolute root = true ∨ FileSystem.isRemoved fs.working = false

/-- What is read above the root is malformed. -/
def MalformedAbove (fs : FileSystem) (root : List Char) (loc : Location) : Prop :=
  ReadsAbove fs root ∧ MalformedBooks fs loc

theorem readsAbove_iff (fs : FileSystem) (root : List Char) :
    ReadsAbove fs root ↔ isStandardInput root = false ∧ isPlaced fs root = true := by
  simp only [isStandardInput, Path.same, isPlaced, decide_eq_false_iff_not, Bool.or_eq_true,
    Bool.not_eq_true']
  exact ⟨fun h => ⟨h.not_input, h.placed⟩, fun h => ⟨h.1, h.2⟩⟩

theorem fails_visited_iff (fs : FileSystem) (root : List Char) (loc : Location) :
    Fails (visited fs root loc) ↔ MalformedAbove fs root loc := by
  rw [MalformedAbove, readsAbove_iff, and_assoc, ← fails_reached_iff, visited]
  cases isStandardInput root with
  | true => simp [not_fails_ok]
  | false => simp [fails_map_iff]

/-- The path leads to a directory. -/
def IsDirectory (fs : FileSystem) (path : List Char) (loc : Location) : Prop :=
  fs.locate false path = .ok loc ∧ fs.hasDirectory loc = true

theorem fails_files_iff (fs : FileSystem) (extensions patterns : List String) (root : List Char)
    (loc : Location) :
    Fails (do
        let compiled ← compile patterns
        return choose fs extensions compiled (← visited fs root loc)) ↔
      (∃ p ∈ patterns, Fails (Pattern.parse p)) ∨ MalformedAbove fs root loc := by
  rw [fails_bind_iff, fails_compile_iff]
  constructor
  · rintro (hp | ⟨compiled, _, hrest⟩)
    · exact .inl hp
    · rcases fails_bind_iff.mp hrest with hr | ⟨found, _, hdone⟩
      · exact .inr ((fails_visited_iff fs root loc).mp hr)
      · exact absurd hdone (not_fails_ok _)
  · rintro (hp | hm)
    · exact .inl hp
    -- The patterns are compiled before anything is reached, so their failure hides the other one.
    · by_cases hc : Fails (compile patterns)
      · exact .inl ((fails_compile_iff patterns).mp hc)
      · obtain ⟨compiled, hcompiled⟩ := not_fails_iff.mp hc
        exact .inr ⟨compiled, hcompiled,
          fails_bind_iff.mpr (.inl ((fails_visited_iff fs root loc).mpr hm))⟩

theorem fails_walk_iff (fs : FileSystem) (extensions patterns : List String) (root : List Char) :
    Fails (walk fs extensions patterns root).1 ↔ ∃ loc, IsDirectory fs root loc ∧
      ((∃ p ∈ patterns, Fails (Pattern.parse p)) ∨ MalformedAbove fs root loc) := by
  unfold walk IsDirectory
  cases fs.locate false root with
  | error fault => simp [not_fails_ok]
  | ok loc =>
    have hfiles := fails_files_iff fs extensions patterns root loc
    cases hd : fs.hasDirectory loc with
    | false => simp [hd, not_fails_ok]
    | true =>
      simp only [Except.ok.injEq, and_assoc, exists_eq_left', hd, true_and, ← hfiles]
      simp only [Bool.not_true, Bool.false_eq_true, ↓reduceIte]
      split
      · rename_i e he
        rw [he]
      · rename_i files hok
        rw [hok]

theorem fails_walkAll_iff (fs : FileSystem) (extensions patterns : List String)
    (roots : List (List Char)) :
    Fails (walkAll fs extensions patterns roots).1 ↔
      ∃ root ∈ roots, Fails (walk fs extensions patterns root).1 := by
  induction roots with
  | nil => simp [walkAll, not_fails_ok]
  | cons root roots ih =>
    rw [walkAll]
    rcases hw : walk fs extensions patterns root with ⟨found, log⟩
    cases found with
    | error e => simp [hw, fails_error]
    | ok files => simp [hw, fails_map_iff, ih, not_fails_ok]

/-- A selection fails exactly when a root is a directory and either a pattern is malformed or what
stands above the root is. -/
theorem fails_select_iff (fs : FileSystem) (extensions patterns : List String)
    (roots : List (List Char)) :
    Fails (select fs extensions patterns roots).1 ↔
      ∃ root ∈ roots, ∃ loc, IsDirectory fs root loc ∧
        ((∃ p ∈ patterns, Fails (Pattern.parse p)) ∨ MalformedAbove fs root loc) := by
  have hmap : Fails (select fs extensions patterns roots).1 ↔
      Fails (walkAll fs extensions patterns roots).1 := fails_map_iff dedup
  simp only [hmap, fails_walkAll_iff, fails_walk_iff]

end SourceGauge.Proofs.SelectionFailure
