import SourceGauge.Summary

namespace SourceGauge

/-- Whether results stand in increasing order of identifiers, one under each. -/
def Store.Ordered (results : List Result) : Prop :=
  results.Pairwise (fun r s => r.identifier < s.identifier)

theorem Store.ordered_nil : Store.Ordered [] := .nil

/-- Results under their identifiers, with the current files, the flag of a running batch and the
selected identifier. -/
structure Store where
  files : List String := []
  isAnalyzing : Bool := false
  results : List Result := []
  selectedFile : Option String := none
  ordered : Store.Ordered results := by exact Store.ordered_nil
deriving DecidableEq, Repr

namespace Store

/-- Puts a result at its place in increasing order of identifiers. A result under the same
identifier is replaced. -/
def insert (r : Result) : List Result → List Result
  | [] => [r]
  | s :: rest =>
    if r.identifier < s.identifier then r :: s :: rest
    else if r.identifier = s.identifier then r :: rest
    else s :: insert r rest

theorem find?_insert (r : Result) (rs : List Result) (x : String) :
    (insert r rs).find? (·.identifier = x) =
      if r.identifier = x then some r else rs.find? (·.identifier = x) := by
  induction rs with
  | nil => by_cases h : r.identifier = x <;> simp [insert, h]
  | cons s rest ih =>
    by_cases h : r.identifier = x <;> by_cases hs : s.identifier = x <;> grind [insert]

theorem mem_insert {r t : Result} {rs : List Result} (h : t ∈ insert r rs) : t = r ∨ t ∈ rs := by
  induction rs with
  | nil => exact .inl (by simpa [insert] using h)
  | cons s rest ih =>
    rw [insert] at h
    split at h
    · simpa using h
    · split at h
      · rcases List.mem_cons.mp h with he | hm
        · exact .inl he
        · exact .inr (List.mem_cons_of_mem s hm)
      · rcases List.mem_cons.mp h with he | hm
        · exact .inr (by simp [he])
        · rcases ih hm with he | hm
          · exact .inl he
          · exact .inr (List.mem_cons_of_mem s hm)

/-- Insertion keeps the order. -/
theorem ordered_insert (r : Result) {rs : List Result} (h : Ordered rs) :
    Ordered (insert r rs) := by
  induction rs with
  | nil => exact List.pairwise_singleton _ r
  | cons s rest ih =>
    obtain ⟨hs, hrest⟩ := List.pairwise_cons.mp h
    rw [insert]
    split
    · rename_i hlt
      refine List.pairwise_cons.mpr ⟨?_, h⟩
      intro t ht
      rcases List.mem_cons.mp ht with rfl | ht
      · exact hlt
      · exact String.lt_trans hlt (hs t ht)
    · rename_i hge
      split
      · rename_i he
        exact List.pairwise_cons.mpr ⟨fun t ht => he ▸ hs t ht, hrest⟩
      · rename_i hne
        refine List.pairwise_cons.mpr ⟨?_, ih hrest⟩
        intro t ht
        rcases mem_insert ht with rfl | ht
        · have hle : s.identifier ≤ t.identifier := String.not_lt.mp hge
          exact String.not_le.mp (fun hback => hne (String.le_antisymm hback hle))
        · exact hs t ht

def get? (store : Store) (identifier : String) : Option Result :=
  store.results.find? (·.identifier = identifier)

/-- Records a result and gives back the one it replaces. -/
def record (store : Store) (r : Result) : Store × Option Result :=
  ({ store with results := insert r store.results, ordered := ordered_insert r store.ordered },
    store.get? r.identifier)

def setFiles (store : Store) (files : List String) : Store := { store with files }

def beginBatch (store : Store) : Store := { store with isAnalyzing := true }

def finishBatch (store : Store) : Store := { store with isAnalyzing := false }

def select (store : Store) (identifier : Option String) : Store :=
  { store with selectedFile := identifier }

def selectedResult? (store : Store) : Option Result := store.selectedFile.bind store.get?

/-- Drops the results and the selection. Files and flag stay. -/
def clear (store : Store) : Store :=
  { store with results := [], selectedFile := none, ordered := ordered_nil }

def size (store : Store) : Nat := store.results.length

def summary (store : Store) : Summary := .ofResults store.results

end Store
end SourceGauge
