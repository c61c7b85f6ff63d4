namespace SourceGauge.Text

/-- Splits at every occurrence of `sep`. `held` is the current segment, last item first. -/
def splitHeld [DecidableEq α] (sep : α) (held : List α) : List α → List (List α)
  | [] => [held.reverse]
  | c :: rest =>
    if c = sep then held.reverse :: splitHeld sep [] rest else splitHeld sep (c :: held) rest

/-- The segments between the separators: always one more than there are separators. -/
def split [DecidableEq α] (sep : α) (cs : List α) : List (List α) := splitHeld sep [] cs

/-- The segments between line feeds. A carriage return stays with its line, and the empty text is
one empty line. -/
def lines (cs : List Char) : List (List Char) := split '\n' cs

/-- The segments with `sep` between neighbours. -/
def join (sep : α) : List (List α) → List α
  | [] => []
  | [s] => s
  | s :: rest => s ++ sep :: join sep rest

theorem splitHeld_ne_nil [DecidableEq α] (sep : α) (held cs : List α) :
    splitHeld sep held cs ≠ [] := by
  cases cs with
  | nil => simp [splitHeld]
  | cons c rest =>
    rw [splitHeld]
    split
    · simp
    · exact splitHeld_ne_nil sep (c :: held) rest

theorem join_cons (sep : α) (s : List α) {ss : List (List α)} (h : ss ≠ []) :
    join sep (s :: ss) = s ++ sep :: join sep ss := by
  cases ss with
  | nil => exact absurd rfl h
  | cons t ts => rfl

theorem join_splitHeld [DecidableEq α] (sep : α) (held cs : List α) :
    join sep (splitHeld sep held cs) = held.reverse ++ cs := by
  induction cs generalizing held with
  | nil => simp [splitHeld, join]
  | cons c rest ih =>
    rw [splitHeld]
    split
    · next h => rw [join_cons sep _ (splitHeld_ne_nil sep [] rest), ih, h]; rfl
    · rw [ih]; simp

/-- Splitting loses nothing. -/
theorem join_split [DecidableEq α] (sep : α) (cs : List α) : join sep (split sep cs) = cs :=
  join_splitHeld sep [] cs

end SourceGauge.Text
