import Mathlib
import SourceGauge.Proofs.PathAncestors
import SourceGauge.Selection

namespace SourceGauge.Proofs.EntryOrder
open FileSystem PathAncestors

/-- Every place is listed once, and its names could be those of files. -/
structure IsTree (fs : FileSystem) : Prop where
  once : (fs.entries.map Prod.fst).Nodup
  names : ∀ e ∈ fs.entries, ∀ name ∈ e.1, IsNormal name

instance (name : List Char) : Decidable (IsNormal name) :=
  decidable_of_iff (Path.isNoise name = false ∧ name ≠ ['.', '.'] ∧ '/' ∉ name)
    ⟨fun h => ⟨h.1, h.2.1, h.2.2⟩, fun h => ⟨h.not_noise, h.not_up, h.slash_free⟩⟩

instance (fs : FileSystem) : Decidable (IsTree fs) :=
  decidable_of_iff ((fs.entries.map Prod.fst).Nodup ∧ ∀ e ∈ fs.entries, ∀ name ∈ e.1, IsNormal name)
    ⟨fun h => ⟨h.1, h.2⟩, fun h => ⟨h.once, h.names⟩⟩

/-- The same entries in another order. -/
structure Rearranged (a b : FileSystem) : Prop where
  entries : a.entries.Perm b.entries
  working : a.working = b.working

/-- The same entry at every place. -/
structure Alike (a b : FileSystem) : Prop where
  lookup? : a.lookup? = b.lookup?
  working : a.working = b.working

theorem find?_perm {as bs : List (Location × Entry)} (h : as.Perm bs)
    (honce : (as.map Prod.fst).Nodup) (loc : Location) :
    as.find? (·.1 = loc) = bs.find? (·.1 = loc) := by
  induction h with
  | nil => rfl
  | cons x _ ih =>
    rw [List.map_cons, List.nodup_cons] at honce
    rw [List.find?_cons, List.find?_cons, ih honce.2]
  | swap x y rest =>
    have hne : y.1 ≠ x.1 := by
      rintro he
      simp [he] at honce
    simp only [List.find?_cons]
    by_cases hx : x.1 = loc
    · have hy : y.1 ≠ loc := fun hy => hne (hy.trans hx.symm)
      simp [hx, hy]
    · simp [hx]
  | trans hab _ ihab ihbc =>
    exact (ihab honce).trans (ihbc ((hab.map Prod.fst).nodup_iff.mp honce))

theorem Rearranged.alike {a b : FileSystem} (h : Rearranged a b) (htree : IsTree a) :
    Alike a b := by
  refine ⟨?_, h.working⟩
  funext loc
  rw [lookup?, lookup?, find?_perm h.entries htree.once]

section

variable {a b : FileSystem}

theorem Alike.advance (h : Alike a b) (creating : Bool)
    (follow : Location → List (List Char) → Except Fault Location) :
    advance a creating follow = advance b creating follow := by
  funext loc pieces
  induction pieces generalizing loc with
  | nil => rfl
  | cons piece rest ih => rw [FileSystem.advance, FileSystem.advance, h.lookup?, ih, ih, ih]

theorem Alike.resolve (h : Alike a b) (creating : Bool) :
    resolve a creating = resolve b creating := by
  funext links
  induction links with
  | zero => exact h.advance creating _
  | succ links ih => rw [FileSystem.resolve, FileSystem.resolve, ih, h.advance]

theorem Alike.locate (h : Alike a b) : locate a = locate b := by
  funext creating path
  rw [FileSystem.locate, FileSystem.locate, h.resolve, h.working]

theorem Alike.hasDirectory (h : Alike a b) : hasDirectory a = hasDirectory b := by
  funext loc
  rw [FileSystem.hasDirectory, FileSystem.hasDirectory, h.lookup?]

theorem Alike.find? (h : Alike a b) : find? a = find? b := by
  funext path
  rw [FileSystem.find?, FileSystem.find?, h.locate, h.lookup?]

theorem Alike.contains (h : Alike a b) : contains a = contains b := by
  funext path
  rw [FileSystem.contains, FileSystem.contains, h.find?]

theorem Alike.isFile (h : Alike a b) : isFile a = isFile b := by
  funext path
  rw [FileSystem.isFile, FileSystem.isFile, h.find?]

theorem Alike.readBytes (h : Alike a b) : readBytes a = readBytes b := by
  funext path
  rw [FileSystem.readBytes, FileSystem.readBytes, h.locate, h.lookup?]

theorem Alike.readFile (h : Alike a b) : Ignore.readFile a = Ignore.readFile b := by
  funext path
  rw [Ignore.readFile, Ignore.readFile, h.readBytes]

theorem Alike.firstLine (h : Alike a b) : Ignore.firstLine a = Ignore.firstLine b := by
  funext path
  rw [Ignore.firstLine, Ignore.firstLine, h.readBytes]

theorem Alike.gitDirectory (h : Alike a b) : Ignore.gitDirectory a = Ignore.gitDirectory b := by
  funext directory
  simp only [Ignore.gitDirectory, Ignore.commonDirectory, h.isFile, h.firstLine]

theorem Alike.book (h : Alike a b) : Ignore.Book.read a = Ignore.Book.read b := by
  funext directory
  simp only [Ignore.Book.read, h.readFile, h.gitDirectory, h.contains]

theorem Alike.isPlaced (h : Alike a b) : Selection.isPlaced a = Selection.isPlaced b := by
  funext path
  rw [Selection.isPlaced, Selection.isPlaced, h.working]

theorem Alike.booksAbove (h : Alike a b) : Selection.booksAbove a = Selection.booksAbove b := by
  funext loc
  induction loc with
  | nil => rfl
  | cons name loc ih => rw [Selection.booksAbove, Selection.booksAbove, h.book, ih]

theorem Alike.reaches (h : Alike a b) (r : Selection.Root) : r.reaches a = r.reaches b := by
  funext books dir loc names
  induction names generalizing books dir loc with
  | nil => rfl
  | cons name names ih =>
    simp only [Selection.Root.reaches, h.hasDirectory, h.book, ih]

end

theorem Rearranged.below {a b : FileSystem} (h : Rearranged a b) (dir : Location) :
    (a.below dir).Perm (b.below dir) :=
  h.entries.filterMap _

/-- A walk over the rearranged entries fails alike, or reaches the same in another order. -/
theorem Rearranged.reached {a b : FileSystem} (h : Rearranged a b) (htree : IsTree a)
    (path : List Char) (loc : Location) :
    (∃ e, Selection.reached a path loc = .error e ∧ Selection.reached b path loc = .error e) ∨
      ∃ found other, Selection.reached a path loc = .ok found ∧
        Selection.reached b path loc = .ok other ∧ found.Perm other := by
  have halike := h.alike htree
  simp only [Selection.reached, ← halike.isPlaced, ← halike.booksAbove, ← halike.book,
    ← halike.reaches]
  generalize (if Selection.isPlaced a path then Selection.booksAbove a loc else []) = above
  split
  · exact .inl ⟨_, rfl, rfl⟩
  · exact .inr ⟨_, _, rfl, rfl, (h.below loc).filter _⟩

theorem Rearranged.visited {a b : FileSystem} (h : Rearranged a b) (htree : IsTree a)
    (root : List Char) (loc : Location) :
    (∃ e, Selection.visited a root loc = .error e ∧ Selection.visited b root loc = .error e) ∨
      ∃ found other, Selection.visited a root loc = .ok found ∧
        Selection.visited b root loc = .ok other ∧ found.Perm other := by
  unfold Selection.visited
  split
  · exact .inr ⟨_, _, rfl, rfl, .rfl⟩
  · rcases h.reached htree root loc with ⟨e, ha, hb⟩ | ⟨found, other, ha, hb, hperm⟩
    · exact .inl ⟨e, by rw [ha]; rfl, by rw [hb]; rfl⟩
    · exact .inr ⟨_, _, by rw [ha]; rfl, by rw [hb]; rfl, hperm.map _⟩

end SourceGauge.Proofs.EntryOrder
