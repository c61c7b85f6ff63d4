import Mathlib
import SourceGauge.Proofs.PrintedText
import SourceGauge.Settings

namespace SourceGauge.Proofs.PlainReports
open Report PrintedText

/-- A text without escape characters. -/
def Plain (s : String) : Prop := Style.escape ∉ s.toList

instance (s : String) : Decidable (Plain s) := inferInstanceAs (Decidable (_ ∉ _))

/-- A result that brings no escape character into a report. -/
structure PlainResult (r : Result) : Prop where
  identifier : Plain r.identifier
  messages : ∀ i ∈ r.metrics.issues, Plain i.message

@[simp] theorem plain_append {s t : String} : Plain (s ++ t) ↔ Plain s ∧ Plain t := by
  simp [Plain]

theorem plain_join {ss : List String} : Plain (String.join ss) ↔ ∀ s ∈ ss, Plain s := by
  simp [Plain, String.toList_join]

theorem plain_unlines {ls : List String} (h : ∀ l ∈ ls, Plain l) : Plain (unlines ls) := by
  rw [unlines, plain_join, List.forall_mem_map]
  intro l hl
  exact plain_append.mpr ⟨h l hl, by decide⟩

theorem isControl_escape : isControl Style.escape = true := by decide

theorem plain_of_printed {s : String} (h : Printed s) : Plain s := h.not_mem isControl_escape

@[simp] theorem plain_repr (n : Nat) : Plain n.repr := plain_of_printed (printed_repr n)

theorem escape_not_mem_toDigits (n : Nat) : Style.escape ∉ Nat.toDigits 10 n := by
  rw [← Nat.toList_repr]
  exact plain_repr n

theorem plain_clock (seconds : Nat) : Plain (Clock.text seconds) :=
  plain_of_printed (printed_clock seconds)

@[simp] theorem plain_kind (kind : Issue.Kind) : Plain kind.label :=
  plain_of_printed (printed_kind kind)

theorem plain_terminal_issue {i : Issue} (h : Plain i.message) :
    ∀ l ∈ Terminal.issueLines false i, Plain l := by
  simp +decide [Terminal.issueLines, h]

theorem plain_terminal_result {r : Result} (h : PlainResult r) :
    ∀ l ∈ Terminal.resultLines false r, Plain l := by
  simp only [Terminal.resultLines, List.forall_mem_append]
  refine ⟨⟨by simp +decide [h.identifier], ?_⟩, by decide⟩
  split
  · simp
  · rw [List.forall_mem_cons, List.forall_mem_flatMap]
    exact ⟨by decide, fun i hi => plain_terminal_issue (h.messages i hi)⟩

theorem plain_terminal {results : List Result} (h : ∀ r ∈ results, PlainResult r) :
    ∀ l ∈ Terminal.lines false results, Plain l := by
  rw [Terminal.lines]
  split
  · decide
  · simp only [List.forall_mem_append, List.forall_mem_flatMap]
    refine ⟨⟨by decide, fun r hr => plain_terminal_result (h r hr)⟩, ?_⟩
    simp +decide [Terminal.summaryLine]

theorem plain_header {time : String} (h : Plain time) :
    ∀ l ∈ Markdown.headerLines time, Plain l := by
  simp +decide [Markdown.headerLines, Markdown.version, h]

theorem plain_summary (s : Summary) : ∀ l ∈ Markdown.summaryLines s, Plain l :=
  fun l hl => plain_of_printed (printed_summary s l hl)

theorem plain_markdown {time : String} (htime : Plain time) {results : List Result}
    (h : ∀ r ∈ results, PlainResult r) : ∀ l ∈ Markdown.lines time results, Plain l := by
  simp only [Markdown.lines, List.forall_mem_append]
  refine ⟨⟨⟨plain_header htime, plain_summary _⟩, ?_⟩, ?_⟩
  · exact not_mem_fileLines isControl_escape fun r hr => (h r hr).identifier
  · exact not_mem_issueSection isControl_escape (fun r hr => (h r hr).identifier)
      fun r hr => (h r hr).messages

/-- An escape character is below the blank and is written by its number. -/
theorem escape_not_mem_escapeChar (c : Char) : Style.escape ∉ Json.escapeChar c := by
  have hhex : ∀ n < 16, Style.escape ≠ Json.hexDigit n := by decide
  unfold Json.escapeChar
  split_ifs with _ _ _ _ _ _ _ hcontrol
  iterate 7 · decide
  · have hhigh := hhex (c.toNat / 16) (by omega)
    have hlow := hhex (c.toNat % 16) (by omega)
    simp only [List.mem_cons, List.not_mem_nil, hhigh, hlow, or_false]
    decide
  · intro h
    obtain rfl := List.mem_singleton.mp h
    exact hcontrol (by decide)

theorem escape_not_mem_quoted (s : String) : Style.escape ∉ Json.quoted s := by
  have hbody : Style.escape ∉ s.toList.flatMap Json.escapeChar := by
    intro h
    obtain ⟨c, _, hc⟩ := List.mem_flatMap.mp h
    exact escape_not_mem_escapeChar c hc
  have hquote : Style.escape ≠ '"' := by decide
  simp [Json.quoted, hbody, hquote]

theorem escape_not_mem_newline (depth : Nat) : Style.escape ∉ Json.newline depth := by
  intro h
  rcases List.mem_cons.mp h with h | h
  · exact absurd h (by decide)
  · exact absurd (List.eq_of_mem_replicate h) (by decide)

theorem escape_not_mem_member (name : String) {value : List Char} (h : Style.escape ∉ value) :
    Style.escape ∉ Json.member name value := by
  have hcolon : Style.escape ≠ ':' := by decide
  have hblank : Style.escape ≠ ' ' := by decide
  simp [Json.member, escape_not_mem_quoted name, hcolon, hblank, h]

theorem escape_not_mem_enclose {opening closing : Char} (hopening : Style.escape ≠ opening)
    (hclosing : Style.escape ≠ closing) (depth : Nat) {items : List (List Char)}
    (h : ∀ item ∈ items, Style.escape ∉ item) :
    Style.escape ∉ Json.enclose opening closing depth items := by
  cases items with
  | nil => simp [Json.enclose, hopening, hclosing]
  | cons item rest =>
    obtain ⟨hitem, hrest⟩ := List.forall_mem_cons.mp h
    have hcomma : Style.escape ≠ ',' := by decide
    have hinner := escape_not_mem_newline (depth + 1)
    have hfollowing :
        Style.escape ∉ rest.flatMap (fun i => ',' :: Json.newline (depth + 1) ++ i) := by
      intro hmem
      obtain ⟨i, hi, hmem⟩ := List.mem_flatMap.mp hmem
      simp [hcomma, hinner, hrest i hi] at hmem
    simp only [Json.enclose, List.mem_append, List.mem_cons, List.not_mem_nil, hopening, hclosing,
      hinner, hitem, hfollowing, escape_not_mem_newline depth, or_false, not_false_iff]

theorem escape_not_mem_issue (depth : Nat) (i : Issue) : Style.escape ∉ Json.issue depth i := by
  refine escape_not_mem_enclose (by decide) (by decide) depth ?_
  simp [escape_not_mem_member, escape_not_mem_quoted, Json.decimal, escape_not_mem_toDigits]

theorem escape_not_mem_metrics (depth : Nat) (m : Metrics) :
    Style.escape ∉ Json.metrics depth m := by
  have hissues : Style.escape ∉
      Json.enclose '[' ']' (depth + 1) (m.issues.map (Json.issue (depth + 2))) := by
    refine escape_not_mem_enclose (by decide) (by decide) (depth + 1) ?_
    rw [List.forall_mem_map]
    exact fun i _ => escape_not_mem_issue (depth + 2) i
  refine escape_not_mem_enclose (by decide) (by decide) depth ?_
  simp [escape_not_mem_member, Json.decimal, escape_not_mem_toDigits, hissues]

theorem escape_not_mem_result (depth : Nat) (r : Result) : Style.escape ∉ Json.result depth r := by
  refine escape_not_mem_enclose (by decide) (by decide) depth ?_
  simp [escape_not_mem_member, escape_not_mem_quoted, escape_not_mem_metrics]

theorem plain_json (results : List Result) : Plain (String.ofList (Json.results results)) := by
  rw [Plain, String.toList_ofList]
  refine escape_not_mem_enclose (by decide) (by decide) 0 ?_
  rw [List.forall_mem_map]
  exact fun r _ => escape_not_mem_result 1 r

theorem plain_render_json (colored : Bool) (time : String) (results : List Result) :
    Plain (render .json colored time results) := by
  apply plain_unlines
  simpa using plain_json results

/-- A report that is asked for without colours, or for a file, has no escape character in any
format, whatever the environment and the configuration say about colours, unless an identifier or a
message brings one in. In a JSON report there is never one. -/
theorem render_plain (o : Options) (c : Config) (env : Environment) (terminal : Bool)
    (seconds : Nat) (results : List Result) :
    ((o.plain = true ∨ o.output.isSome = true) →
      (∀ r ∈ results, Style.escape ∉ r.identifier.toList ∧
        ∀ i ∈ r.metrics.issues, Style.escape ∉ i.message.toList) →
      ∀ format : Format, Style.escape ∉
        (render format ((Settings.resolve o c env).color.usesColor terminal) (Clock.text seconds)
          results).toList) ∧
    ∀ (colored : Bool) (time : String),
      Style.escape ∉ (render .json colored time results).toList := by
  refine ⟨?_, fun colored time => plain_render_json colored time results⟩
  intro hoptions hresults format
  have hplain : ∀ r ∈ results, PlainResult r := fun r hr => ⟨(hresults r hr).1, (hresults r hr).2⟩
  have hcolor : (Settings.resolve o c env).color.usesColor terminal = false := by
    rw [Settings.color_resolve hoptions]
    rfl
  rw [hcolor]
  cases format with
  | terminal => exact plain_unlines (plain_terminal hplain)
  | json => exact plain_render_json false _ results
  | markdown => exact plain_unlines (plain_markdown (plain_clock seconds) hplain)

/-- An environment that forces colours. -/
def forced : Environment := fun name => if name = "CLICOLOR_FORCE" then some "1" else none

/-- A failure and a suggestion, without colours although the environment and the configuration want
them. -/
theorem render_plain_forced :
    let o : Options := { output := some "report.txt" }
    let c : Config := { output := some { useColor := some true } }
    let results : List Result := [
      .failure "a.js" "gone", ⟨"b.js", 1, 98, 1, [⟨.suggestion, "TODO comment found", 1, 4⟩]⟩]
    (ColorMode.ofEnvironment forced).prefer c.useColor = .always ∧ o.output.isSome = true ∧
    (∀ r ∈ results, Style.escape ∉ r.identifier.toList ∧
      ∀ i ∈ r.metrics.issues, Style.escape ∉ i.message.toList) ∧
    (∀ format : Format, Style.escape ∉ (render format
      ((Settings.resolve o c forced).color.usesColor true) (Clock.text 0) results).toList) ∧
    Style.escape ∉ (render .json true "" [.failure "\x1b[0m" "\x1b"]).toList := by
  intro o c results
  have hresults : ∀ r ∈ results, Style.escape ∉ r.identifier.toList ∧
      ∀ i ∈ r.metrics.issues, Style.escape ∉ i.message.toList := by decide
  exact ⟨by decide, rfl, hresults,
    (render_plain o c forced true 0 results).1 (.inr rfl) hresults,
    (render_plain o c forced true 0 [.failure "\x1b[0m" "\x1b"]).2 true ""⟩

end SourceGauge.Proofs.PlainReports
