import Mathlib
import SourceGauge.Proofs.CommandFailure

namespace SourceGauge.Proofs.WrittenFiles
open FileSystem CommandFailure

/-- A piece that is looked up as a name below `l`. -/
structure IsName (creating : Bool) (l : Location) (piece : List Char) (rest : List (List Char)) :
    Prop where
  not_noise : Path.isNoise piece = false
  not_up : piece ≠ ['.', '.']
  not_slashed : (creating && !rest.isEmpty && rest.all List.isEmpty) = false
  not_removed : isRemoved l = false
  fits : Text.byteLength piece ≤ nameLimit

/-- The ways along the pieces of a path that end at `loc`. `follow` takes over where a link
leads. -/
inductive Leads (fs : FileSystem) (creating : Bool)
    (follow : Location → List (List Char) → Except Fault Location) (loc : Location) :
    Location → List (List Char) → Prop
  | here : Leads fs creating follow loc loc []
  | noise (hpiece : Path.isNoise piece = true) (hrest : Leads fs creating follow loc l rest) :
      Leads fs creating follow loc l (piece :: rest)
  | up (hrest : Leads fs creating follow loc l.tail rest) :
      Leads fs creating follow loc l (['.', '.'] :: rest)
  | create (hname : IsName creating l piece []) (hloc : piece :: l = loc)
      (hcreating : creating = true) (hfree : fs.lookup? loc = none) :
      Leads fs creating follow loc l [piece]
  | file (hname : IsName creating l piece []) (hloc : piece :: l = loc)
      (hfile : fs.lookup? loc = some (.file content)) : Leads fs creating follow loc l [piece]
  | directory (hname : IsName creating l piece rest)
      (hdirectory : fs.lookup? (piece :: l) = some .directory)
      (hrest : Leads fs creating follow loc (piece :: l) rest) :
      Leads fs creating follow loc l (piece :: rest)
  | link (hname : IsName creating l piece rest)
      (hlink : fs.lookup? (piece :: l) = some (.link target))
      (hend : follow (if Path.isAbsolute target then [] else l)
        (Text.split '/' target ++ rest) = .ok loc) :
      Leads fs creating follow loc l (piece :: rest)

section

variable {fs : FileSystem} {creating : Bool}
  {follow : Location → List (List Char) → Except Fault Location}

theorem advance_name {l : Location} {piece : List Char} {rest : List (List Char)}
    (hname : IsName creating l piece rest) :
    advance fs creating follow l (piece :: rest) = match fs.lookup? (piece :: l) with
      | none => if creating && rest.isEmpty then .ok (piece :: l) else .error .notFound
      | some .directory => advance fs creating follow (piece :: l) rest
      | some (.file _) => if rest.isEmpty then .ok (piece :: l) else .error .notDirectory
      | some (.link target) =>
        follow (if Path.isAbsolute target then [] else l) (Text.split '/' target ++ rest) := by
  obtain ⟨hnoise, hup, hslashed, hremoved, hfits⟩ := hname
  rw [advance, if_neg (Bool.eq_false_iff.mp hnoise), if_neg hup]
  refine (if_neg (Bool.eq_false_iff.mp hslashed)).trans ?_
  exact (if_neg (Bool.eq_false_iff.mp hremoved)).trans (if_neg (Nat.not_lt.mpr hfits))

theorem advance_of_leads {l loc : Location} {pieces : List (List Char)}
    (h : Leads fs creating follow loc l pieces) :
    advance fs creating follow l pieces = .ok loc := by
  induction h with
  | here => rfl
  | noise hpiece hrest ih => rw [advance, if_pos hpiece, ih]
  | up hrest ih => rw [advance, if_neg (by decide), if_pos rfl, ih]
  | create hname hloc hcreating hfree =>
    rw [advance_name hname, hloc, hfree]
    simp [hcreating]
  | file hname hloc hfile =>
    rw [advance_name hname, hloc, hfile]
    rfl
  | directory hname hdirectory hrest ih =>
    rw [advance_name hname, hdirectory]
    exact ih
  | link hname hlink hend =>
    rw [advance_name hname, hlink]
    exact hend

theorem leads_of_advance {l loc : Location} {pieces : List (List Char)}
    (h : advance fs creating follow l pieces = .ok loc) :
    Leads fs creating follow loc l pieces := by
  induction pieces generalizing l with
  | nil =>
    cases h
    exact .here
  | cons piece rest ih =>
    by_cases hnoise : Path.isNoise piece = true
    · rw [advance, if_pos hnoise] at h
      exact .noise hnoise (ih h)
    by_cases hup : piece = ['.', '.']
    · rw [advance, if_neg hnoise, if_pos hup] at h
      exact hup ▸ .up (ih h)
    by_cases hslashed : (creating && !rest.isEmpty && rest.all List.isEmpty) = true
    · rw [advance, if_neg hnoise, if_neg hup, if_pos hslashed] at h
      cases h
    by_cases hremoved : isRemoved l = true
    · rw [advance, if_neg hnoise, if_neg hup, if_neg hslashed, if_pos hremoved] at h
      cases h
    by_cases hlong : nameLimit < Text.byteLength piece
    · rw [advance, if_neg hnoise, if_neg hup, if_neg hslashed, if_neg hremoved, if_pos hlong] at h
      cases h
    have hname : IsName creating l piece rest :=
      ⟨by simpa using hnoise, hup, by simpa using hslashed, by simpa using hremoved,
        Nat.not_lt.mp hlong⟩
    rw [advance_name hname] at h
    cases hfound : fs.lookup? (piece :: l) with
    | none =>
      simp only [hfound] at h
      split at h
      · rename_i hlast
        obtain ⟨hcreating, hend⟩ := Bool.and_eq_true_iff.mp hlast
        cases h
        cases List.isEmpty_iff.mp hend
        exact .create hname rfl hcreating hfound
      · cases h
    | some e =>
      cases e with
      | directory =>
        simp only [hfound] at h
        exact .directory hname hfound (ih h)
      | file content =>
        simp only [hfound] at h
        split at h
        · rename_i hend
          cases h
          cases List.isEmpty_iff.mp hend
          exact .file hname rfl hfound
        · cases h
      | link target =>
        simp only [hfound] at h
        exact .link hname hfound h

def IsLink (fs : FileSystem) (loc : Location) : Prop :=
  ∃ target, fs.lookup? loc = some (.link target)

theorem IsLink.ne_nil {loc : Location} (h : IsLink fs loc) : loc ≠ [] := by
  rintro rfl
  obtain ⟨target, htarget⟩ := h
  simp [lookup?, isGiven] at htarget

/-- A place directly below is the place of a link only if a link is found there. -/
theorem not_suffix_below {loc l : Location} (hlink : IsLink fs loc) (hl : ¬loc <:+ l)
    {piece : List Char} (hother : ¬IsLink fs (piece :: l)) : ¬loc <:+ piece :: l := by
  intro hsuffix
  rcases List.suffix_cons_iff.mp hsuffix with rfl | hsuffix
  · exact hother hlink
  · exact hl hsuffix

/-- From outside a link no way ends at the place of the link itself, for it goes on where the link
leads. -/
theorem suffix_of_leads_link {loc : Location} (hlink : IsLink fs loc)
    (hfollow : ∀ l pieces, ¬loc <:+ l → follow l pieces ≠ .ok loc) {l : Location}
    {pieces : List (List Char)} (h : Leads fs creating follow loc l pieces) : loc <:+ l := by
  by_contra hl
  induction h with
  | here => exact hl List.suffix_rfl
  | noise hpiece hrest ih => exact ih hl
  | up hrest ih => exact ih (fun hs => hl (hs.trans (List.tail_suffix _)))
  | create hname hloc hcreating hfree =>
    obtain ⟨target, htarget⟩ := hlink
    simp [hfree] at htarget
  | file hname hloc hfile =>
    obtain ⟨target, htarget⟩ := hlink
    simp [hfile] at htarget
  | directory hname hdirectory hrest ih =>
    exact ih (not_suffix_below hlink hl (by simp [IsLink, hdirectory]))
  | link hname hfound hend =>
    refine hfollow _ _ ?_ hend
    split
    · exact fun hs => hlink.ne_nil (List.suffix_nil.mp hs)
    · exact hl

theorem resolve_ne_link {loc : Location} (hlink : IsLink fs loc) (links : Nat) {l : Location}
    (pieces : List (List Char)) (hl : ¬loc <:+ l) :
    resolve fs creating links l pieces ≠ .ok loc := by
  induction links generalizing l pieces with
  | zero =>
    intro h
    exact hl (suffix_of_leads_link hlink (by simp) (leads_of_advance h))
  | succ links ih =>
    intro h
    exact hl (suffix_of_leads_link hlink (fun _ => ih) (leads_of_advance h))

end

/-- A path that the system takes at all. -/
structure IsUsable (path : List Char) : Prop where
  nul_free : '\x00' ∉ path
  ne_nil : path ≠ []
  fits : Text.byteLength path < pathLimit

/-- A path leads to a place when the way along its pieces does. -/
theorem locate_eq_ok_iff {fs : FileSystem} {creating : Bool} {path : List Char} {loc : Location} :
    fs.locate creating path = .ok loc ↔ IsUsable path ∧
      resolve fs creating linkLimit (if Path.isAbsolute path then [] else fs.working)
        (Text.split '/' path) = .ok loc := by
  constructor
  · intro h
    unfold locate at h
    split at h
    · cases h
    rename_i hnul
    split at h
    · cases h
    rename_i hempty
    split at h
    · cases h
    rename_i hlong
    exact ⟨⟨by simpa using hnul, by simpa using hempty, Nat.not_le.mp hlong⟩, h⟩
  · rintro ⟨⟨hnul, hempty, hfits⟩, h⟩
    rw [locate, if_neg (by simpa using hnul), if_neg (by simpa using hempty),
      if_neg (Nat.not_le.mpr hfits), h]

section

variable {fs : FileSystem} {loc : Location} {content : ByteArray}

theorem ne_nil_of_not_isGiven (h : isGiven loc = false) : loc ≠ [] := by
  rintro rfl
  cases h

/-- Once a file stands at the end of a way, the way leads there without creating anything. -/
theorem leads_put {follow again : Location → List (List Char) → Except Fault Location}
    (hfree : fs.hasDirectory loc = false)
    (hfollow : ∀ l pieces, follow l pieces = .ok loc → again l pieces = .ok loc)
    (hlinks : IsLink fs loc → ∀ l pieces, ¬loc <:+ l → follow l pieces ≠ .ok loc)
    {l : Location} {pieces : List (List Char)} (h : Leads fs true follow loc l pieces) :
    Leads (fs.put loc (.file content)) false again loc l pieces := by
  have hplace : isGiven loc = false := not_isGiven_of_not_hasDirectory hfree
  have hlookup : (fs.put loc (.file content)).lookup? loc = some (.file content) := by
    rw [lookup?_put fs hplace, if_pos rfl]
  have hanyway : ∀ {l piece rest}, IsName true l piece rest → IsName false l piece rest :=
    fun hname => ⟨hname.not_noise, hname.not_up, by simp, hname.not_removed, hname.fits⟩
  induction h with
  | here => exact .here
  | noise hpiece hrest ih => exact .noise hpiece ih
  | up hrest ih => exact .up ih
  | create hname hloc hcreating hnone => exact .file (hanyway hname) hloc hlookup
  | file hname hloc hfile => exact .file (hanyway hname) hloc hlookup
  | @directory l piece rest hname hdirectory hrest ih =>
    have hother : piece :: l ≠ loc := by
      rintro rfl
      simp [hasDirectory, hdirectory, Entry.isDirectory] at hfree
    refine .directory (hanyway hname) ?_ ih
    rw [lookup?_put fs hplace, if_neg hother, hdirectory]
  | @link l piece rest target hname hfound hend =>
    -- A link at the end of the way would be left for good.
    have hother : piece :: l ≠ loc := by
      rintro rfl
      have hout : ¬piece :: l <:+ l := fun hs => by simpa using hs.length_le
      refine hlinks ⟨target, hfound⟩ _ _ ?_ hend
      split
      · exact fun hs => ne_nil_of_not_isGiven hplace (List.suffix_nil.mp hs)
      · exact hout
    refine .link (hanyway hname) ?_ (hfollow _ _ hend)
    rw [lookup?_put fs hplace, if_neg hother, hfound]

theorem resolve_put (hfree : fs.hasDirectory loc = false) {links : Nat} {l : Location}
    {pieces : List (List Char)} (h : resolve fs true links l pieces = .ok loc) :
    resolve (fs.put loc (.file content)) false links l pieces = .ok loc := by
  induction links generalizing l pieces with
  | zero =>
    exact advance_of_leads (leads_put hfree (fun _ _ h => h) (by simp) (leads_of_advance h))
  | succ links ih =>
    exact advance_of_leads (leads_put hfree (fun _ _ h => ih h)
      (fun hlink _ => resolve_ne_link hlink links) (leads_of_advance h))

/-- The place where a file was created is found under the same path. -/
theorem locate_put (hfree : fs.hasDirectory loc = false) {path : List Char}
    (h : fs.locate true path = .ok loc) :
    (fs.put loc (.file content)).locate false path = .ok loc := by
  obtain ⟨husable, hresolve⟩ := locate_eq_ok_iff.mp h
  exact locate_eq_ok_iff.mpr ⟨husable, resolve_put hfree hresolve⟩

end

/-- What was written under a path is read under it. -/
theorem readBytes_writeText {fs files : FileSystem} {path : List Char} {text : String}
    (h : fs.writeText path text = .ok files) : files.readBytes path = .ok text.toUTF8 := by
  obtain ⟨loc, hloc, hfree, rfl⟩ := writeText_eq_ok_iff.mp h
  have hlookup := lookup?_put fs (not_isGiven_of_not_hasDirectory hfree) (.file text.toUTF8) loc
  rw [if_pos rfl] at hlookup
  simp only [readBytes, locate_put hfree hloc, bind, Except.bind, hlookup, pure, Except.pure]

end SourceGauge.Proofs.WrittenFiles
