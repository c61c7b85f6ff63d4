import Mathlib
import SourceGauge.Proofs.PlainReports

namespace SourceGauge.Proofs.ColorStripping
open Report PlainReports

/-- What can stand between the bracket and the letter of a colour sequence. -/
def isParameter (c : Char) : Bool := c.isDigit || c == ';'

/-- An escape character, a bracket, digits and semicolons, and the letter. -/
def IsSequence (s : List Char) : Prop :=
  ∃ ps, (∀ p ∈ ps, isParameter p = true) ∧ s = Style.escape :: '[' :: ps ++ ['m']

/-- What follows the colour sequence that a text starts with, if it starts with one. -/
def afterSequence? : List Char → Option (List Char)
  | '\x1b' :: '[' :: rest =>
    match rest.dropWhile isParameter with
    | 'm' :: after => some after
    | _ => none
  | _ => none

theorem afterSequence?_append {s : List Char} (h : IsSequence s) (after : List Char) :
    afterSequence? (s ++ after) = some after := by
  obtain ⟨ps, hps, rfl⟩ := h
  have hdrop : (ps ++ 'm' :: after).dropWhile isParameter = 'm' :: after := by
    rw [List.dropWhile_append_of_pos hps]
    rfl
  simp [Style.escape, afterSequence?, hdrop]

theorem eq_append_of_afterSequence? {text after : List Char}
    (h : afterSequence? text = some after) : ∃ s, IsSequence s ∧ text = s ++ after := by
  unfold afterSequence? at h
  split at h
  · rename_i rest
    split at h
    · rename_i later hdrop
      cases h
      have hps : ∀ p ∈ rest.takeWhile isParameter, isParameter p = true :=
        fun p hp => List.mem_takeWhile_imp hp
      refine ⟨_, ⟨_, hps, rfl⟩, ?_⟩
      have hrest := List.takeWhile_append_dropWhile (p := isParameter) (l := rest)
      rw [hdrop] at hrest
      simp [Style.escape, hrest]
    · cases h
  · cases h

theorem afterSequence?_eq_none {c : Char} (h : c ≠ Style.escape) (rest : List Char) :
    afterSequence? (c :: rest) = none := by
  unfold afterSequence?
  split
  · rename_i he
    exact absurd (List.cons.inj he).1 h
  · rfl

theorem isSequence_opening (s : Style) : IsSequence s.opening :=
  ⟨s.code, by cases s <;> simp [Style.code, isParameter], rfl⟩

theorem isSequence_reset : IsSequence Style.reset := ⟨['0'], by simp [isParameter], rfl⟩

/-- The text without its colour sequences, found in one pass from left to right. -/
def strip (text : List Char) : List Char :=
  match text with
  | [] => []
  | c :: rest =>
    match _h : afterSequence? (c :: rest) with
    | some after => strip after
    | none => c :: strip rest
termination_by text.length
decreasing_by
  · obtain ⟨s, ⟨ps, _, rfl⟩, he⟩ := eq_append_of_afterSequence? _h
    simp only [he, List.length_append, List.length_cons]
    omega
  · simp

@[simp] theorem strip_nil : strip [] = [] := by rw [strip]

theorem strip_cons_of_none {c : Char} {rest : List Char} (h : afterSequence? (c :: rest) = none) :
    strip (c :: rest) = c :: strip rest := by
  rw [strip]
  split
  · rename_i hsome
    rw [h] at hsome
    cases hsome
  · rfl

theorem strip_sequence_append {s : List Char} (h : IsSequence s) (rest : List Char) :
    strip (s ++ rest) = strip rest := by
  have hafter := afterSequence?_append h rest
  obtain ⟨ps, _, rfl⟩ := h
  rw [List.cons_append, List.cons_append] at hafter ⊢
  rw [strip]
  split
  · rename_i hsome
    rw [hafter] at hsome
    cases hsome
    rfl
  · rename_i hnone
    rw [hafter] at hnone
    cases hnone

theorem strip_plain_append {front : List Char} (h : Style.escape ∉ front) (rest : List Char) :
    strip (front ++ rest) = front ++ strip rest := by
  induction front with
  | nil => rfl
  | cons c front ih =>
    obtain ⟨hc, hfront⟩ := not_or.mp (fun hm => h (List.mem_cons.mpr hm))
    rw [List.cons_append, strip_cons_of_none (afterSequence?_eq_none (Ne.symm hc) _), ih hfront]
    rfl

theorem strip_of_not_mem {text : List Char} (h : Style.escape ∉ text) : strip text = text := by
  have hall := strip_plain_append h []
  rwa [strip_nil, List.append_nil] at hall

/-- A text whose first character is no part of a colour sequence begun before it. -/
def Breaks (text : List Char) : Prop :=
  ∀ c ∈ text.head?, c ≠ '[' ∧ isParameter c = false ∧ c ≠ 'm'

theorem IsSequence.not_breaks {c d : Char} {front more : List Char}
    (h : IsSequence (c :: front ++ d :: more)) (tail : List Char) : ¬Breaks (d :: tail) := by
  obtain ⟨ps, hps, he⟩ := h
  have hinner : front ++ d :: more = '[' :: ps ++ ['m'] := (List.cons.inj he).2
  have hd : d ∈ '[' :: ps ++ ['m'] := by
    rw [← hinner]
    simp
  intro hbreaks
  obtain ⟨hbracket, hparameter, hletter⟩ := hbreaks d (by simp)
  simp only [List.cons_append, List.mem_cons, List.mem_append, List.not_mem_nil, or_false] at hd
  rcases hd with hd | hd | hd
  · exact hbracket hd
  · rw [hps d hd] at hparameter
    cases hparameter
  · exact hletter hd

/-- A colour sequence that starts before such a text ends before it. -/
theorem afterSequence?_append_breaks {c : Char} {rest tail : List Char} (htail : Breaks tail)
    (h : afterSequence? (c :: rest) = none) : afterSequence? (c :: rest ++ tail) = none := by
  cases hsome : afterSequence? (c :: rest ++ tail) with
  | none => rfl
  | some after =>
    obtain ⟨s, hs, he⟩ := eq_append_of_afterSequence? hsome
    rcases List.append_eq_append_iff.mp he with ⟨more, rfl, rfl⟩ | ⟨more, hmore, _⟩
    · cases more with
      | nil =>
        have hwhole := afterSequence?_append hs []
        rw [List.append_nil, List.append_nil, h] at hwhole
        cases hwhole
      | cons d more => exact absurd htail (hs.not_breaks (more ++ after))
    · have hwithin := afterSequence?_append hs more
      rw [← hmore, h] at hwithin
      cases hwithin

theorem strip_append {front tail : List Char} (htail : Breaks tail) :
    strip (front ++ tail) = strip front ++ strip tail := by
  fun_induction strip front with
  | case1 => rfl
  | case2 c rest after hafter ih =>
    obtain ⟨s, hs, he⟩ := eq_append_of_afterSequence? hafter
    rw [he, List.append_assoc, strip_sequence_append hs, ih]
  | case3 c rest hafter ih =>
    rw [List.cons_append, strip_cons_of_none, ih, List.cons_append]
    exact afterSequence?_append_breaks htail hafter

theorem breaks_cons {c : Char} (h : c ≠ '[' ∧ isParameter c = false ∧ c ≠ 'm') (rest : List Char) :
    Breaks (c :: rest) := by
  intro d hd
  obtain rfl : c = d := by simpa using hd
  exact h

theorem breaks_escape (rest : List Char) : Breaks (Style.escape :: rest) :=
  breaks_cons (by decide) rest

/-- The openings put back behind inner resets go with the resets. Whatever stands before the text
may be the beginning of a sequence that the text goes on with. -/
theorem strip_append_reopen {start : List Char} (hstart : IsSequence start)
    (front text : List Char) :
    strip (front ++ Style.reopen start text) = strip (front ++ text) := by
  fun_induction Style.reopen start text generalizing front with
  | case1 => rfl
  | case2 rest ih =>
    have hrest : strip (Style.reopen start rest) = strip rest := ih []
    calc strip (front ++ (Style.reset ++ start ++ Style.reopen start rest))
        = strip front ++ strip (Style.reset ++ (start ++ Style.reopen start rest)) := by
          rw [List.append_assoc]
          exact strip_append (breaks_escape _)
      _ = strip front ++ strip rest := by
          rw [strip_sequence_append isSequence_reset, strip_sequence_append hstart, hrest]
      _ = strip front ++ strip (Style.reset ++ rest) := by
          rw [strip_sequence_append isSequence_reset]
      _ = strip (front ++ (Style.reset ++ rest)) := (strip_append (breaks_escape _)).symm
  | case3 c rest _ ih =>
    have hnext := ih (front ++ [c])
    rwa [List.append_assoc, List.append_assoc] at hnext

theorem strip_paintChars (s : Style) (text : List Char) :
    strip (s.paintChars text) = strip text := by
  have hopening := isSequence_opening s
  have htext : strip (Style.reopen s.opening text) = strip text :=
    strip_append_reopen hopening [] text
  have hbreaks : Breaks Style.reset := breaks_escape _
  have hreset : strip Style.reset = [] := by
    simpa using strip_sequence_append isSequence_reset []
  rw [Style.paintChars, List.append_assoc, strip_sequence_append hopening, strip_append hbreaks,
    htext, hreset, List.append_nil]

theorem strip_paint (s : Style) (colored : Bool) (text : String) :
    strip (s.paint colored text).toList = strip text.toList := by
  cases colored with
  | false => rfl
  | true => rw [Style.paint, if_pos rfl, String.toList_ofList, strip_paintChars]

/-- What follows a painted text in its line starts with a blank. -/
theorem strip_paint_append (s : Style) (colored : Bool) (text : String) {back : String}
    (hback : back.toList.head? = some ' ') :
    strip (s.paint colored text ++ back).toList = strip text.toList ++ strip back.toList := by
  have hbreaks : Breaks back.toList := by
    intro c hc
    obtain rfl : ' ' = c := by simpa [hback] using hc
    decide
  rw [String.toList_append, strip_append hbreaks, strip_paint]

theorem strip_front {front : String} (h : Plain front) (back : String) :
    strip (front ++ back).toList = front.toList ++ strip back.toList := by
  rw [String.toList_append, strip_plain_append h]

/-- The lines without their colour sequences. -/
def stripped (ls : List String) : List (List Char) := ls.map (fun l => strip l.toList)

@[simp] theorem stripped_cons (l : String) (ls : List String) :
    stripped (l :: ls) = strip l.toList :: stripped ls := rfl

@[simp] theorem stripped_append (ls ms : List String) :
    stripped (ls ++ ms) = stripped ls ++ stripped ms := List.map_append

theorem stripped_flatMap {f g : α → List String} (h : ∀ a, stripped (f a) = stripped (g a))
    (as : List α) : stripped (as.flatMap f) = stripped (as.flatMap g) := by
  induction as with
  | nil => rfl
  | cons a as ih =>
    rw [List.flatMap_cons, List.flatMap_cons, stripped_append, stripped_append, h, ih]

/-- A line feed breaks off what a line has begun, so lines can be stripped one by one. -/
theorem strip_unlines (ls : List String) :
    strip (unlines ls).toList = (stripped ls).flatMap (· ++ ['\n']) := by
  induction ls with
  | nil => exact strip_nil
  | cons l ls ih =>
    have htext : (unlines (l :: ls)).toList = l.toList ++ '\n' :: (unlines ls).toList := by
      simp [unlines, String.toList_join]
    have hbreaks : Breaks ('\n' :: (unlines ls).toList) := breaks_cons (by decide) _
    have hfeed : strip (['\n'] ++ (unlines ls).toList) = '\n' :: strip (unlines ls).toList :=
      strip_plain_append (by decide) _
    rw [htext, strip_append hbreaks, ← List.singleton_append, hfeed, ih]
    simp

theorem stripped_issueLines (colored : Bool) (i : Issue) :
    stripped (Terminal.issueLines colored i) = stripped (Terminal.issueLines false i) := by
  have hkind : ∀ b,
      strip ("    " ++ (Terminal.kindStyle i.kind).paint b ("[" ++ i.kind.label ++ "]") ++
        " " ++ i.message).toList =
      "    ".toList ++
        (strip ("[" ++ i.kind.label ++ "]").toList ++ strip (" " ++ i.message).toList) := by
    intro b
    rw [String.append_assoc, String.append_assoc, strip_front (by decide),
      strip_paint_append _ _ _ (by simp)]
  have hplace : ∀ b, strip ("      " ++ Style.dim.paint b
      ("Line " ++ toString i.line ++ ", Column " ++ toString i.column)).toList =
      "      ".toList ++
        strip ("Line " ++ toString i.line ++ ", Column " ++ toString i.column).toList := by
    intro b
    rw [strip_front (by decide), strip_paint]
  simp only [Terminal.issueLines, stripped_cons, hkind, hplace]

theorem stripped_resultLines (colored : Bool) (r : Result) :
    stripped (Terminal.resultLines colored r) = stripped (Terminal.resultLines false r) := by
  have htitle : ∀ b (badge : String), strip (Style.bold.paint b r.identifier ++ "  " ++
      (Terminal.ratingStyle r.metrics.rating).paint b badge).toList =
      strip r.identifier.toList ++ ("  ".toList ++ strip badge.toList) := by
    intro b badge
    rw [String.append_assoc, strip_paint_append _ _ _ (by simp), strip_front (by decide),
      strip_paint]
  have hissues := stripped_flatMap (stripped_issueLines colored) r.metrics.issues
  simp only [Terminal.resultLines, stripped_append, stripped_cons, htitle]
  split
  · rfl
  · rw [stripped_cons, stripped_cons, hissues]

theorem strip_summaryLine (colored : Bool) (summary : Summary) :
    strip (Terminal.summaryLine colored summary).toList =
      strip (Terminal.summaryLine false summary).toList := by
  simp only [Terminal.summaryLine, String.append_assoc]
  rw [strip_paint_append _ _ _ (by simp), strip_paint_append _ _ _ (by simp)]

theorem stripped_lines (colored : Bool) (results : List Result) :
    stripped (Terminal.lines colored results) = stripped (Terminal.lines false results) := by
  have hresults := stripped_flatMap (stripped_resultLines colored) results
  unfold Terminal.lines
  split
  · simp only [stripped_cons, strip_paint]
  · simp only [stripped_append, stripped_cons, strip_paint, hresults, strip_summaryLine colored]

/-- Without its colour sequences the coloured terminal report is the plain one without those that
the identifiers and messages bring in. If they bring in no escape character, the plain report has
none to leave out, and only what colours added is gone. -/
theorem strip_colored (terminal : Bool) (time : String) (results : List Result) :
    let colored := render .terminal (ColorMode.always.usesColor terminal) time results
    let plain := render .terminal (ColorMode.never.usesColor terminal) time results
    strip colored.toList = strip plain.toList ∧
    ((∀ r ∈ results, Style.escape ∉ r.identifier.toList ∧
        ∀ i ∈ r.metrics.issues, Style.escape ∉ i.message.toList) →
      strip colored.toList = plain.toList) := by
  intro colored plain
  have hsame : strip colored.toList = strip plain.toList := by
    change strip (unlines (Terminal.lines true results)).toList =
      strip (unlines (Terminal.lines false results)).toList
    rw [strip_unlines, strip_unlines, stripped_lines]
  refine ⟨hsame, ?_⟩
  intro hresults
  have hplain : Plain plain :=
    plain_unlines (plain_terminal (fun r hr => ⟨(hresults r hr).1, (hresults r hr).2⟩))
  rw [hsame, strip_of_not_mem hplain]

/-- A result without escape characters, and one whose identifier has a reset inside and breaks off
in a sequence. -/
theorem strip_colored_broken_off :
    let clean : List Result := [.failure "a.js" "gone"]
    let broken : List Result := [.failure "a\x1b[0m\x1b[3" "\x1b["]
    (∀ r ∈ clean, Style.escape ∉ r.identifier.toList ∧
      ∀ i ∈ r.metrics.issues, Style.escape ∉ i.message.toList) ∧
    strip (render .terminal (ColorMode.always.usesColor false) "" clean).toList =
      (render .terminal (ColorMode.never.usesColor false) "" clean).toList ∧
    strip (render .terminal (ColorMode.always.usesColor false) "" broken).toList =
      strip (render .terminal (ColorMode.never.usesColor false) "" broken).toList := by
  intro clean broken
  have hclean : ∀ r ∈ clean, Style.escape ∉ r.identifier.toList ∧
      ∀ i ∈ r.metrics.issues, Style.escape ∉ i.message.toList := by decide
  exact ⟨hclean, (strip_colored false "" clean).2 hclean, (strip_colored false "" broken).1⟩

end SourceGauge.Proofs.ColorStripping
