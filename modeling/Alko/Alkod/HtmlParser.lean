import Alko.Alkod.LogPage
import Alko.Alkod.Placeholders

/-! The template parser: the loop over the placeholders of a line, and files that include files. -/

namespace Alko.Alkod

open Qt
open QString (literal)

structure Templates where
  -- The lines of the files below `:/html/`, each with its newline; none where there is no file.
  html : QString → Option (List QString)
  -- The log file; none where it cannot be opened.
  log : Option (List UInt8)
  heap : ℕ → UInt8
  context : List (QString × QString)

namespace Templates

def value (t : Templates) (name : QString) : QString := (t.context.lookup name).getD []

def printRawLog (t : Templates) : QString :=
  match t.log with
  | some file => literal "<pre>\n" ++ QString.fromUtf8 (readText file) ++ literal "\n</pre>\n"
  | none => []

def printLog (t : Templates) : QString :=
  match t.log with
  | some file => generatePrettyHtmlLog t.heap file
  | none => []

/-- The inner loop, with what it writes; `parse` is the parser of the included files. -/
def scanLine (t : Templates) (parse : QString → Option QString) : ℕ → QString → ℕ → Option QString
  | 0, _, _ => none
  | fuel + 1, htmlLine, pos =>
    match indexIn htmlLine pos with
    | none => some htmlLine
    | some rx =>
      if rx.cap1 = literal "PRINT_RAW_LOG" then
        (scanLine t parse fuel [] (rx.start + rx.matchedLength)).map (t.printRawLog ++ ·)
      else if rx.cap1 = literal "PRINT_LOG" then
        (scanLine t parse fuel [] (rx.start + rx.matchedLength)).map (t.printLog ++ ·)
      else if rx.cap1 = literal "INCLUDE" then
        match t.html rx.cap2 with
        | some _ =>
          (parse rx.cap2).bind fun included =>
            (scanLine t parse fuel [] (rx.start + rx.matchedLength)).map (included ++ ·)
        | none => scanLine t parse fuel htmlLine (rx.start + rx.matchedLength)
      else
        scanLine t parse fuel (QString.replace (placeholder rx.cap1) (t.value rx.cap1) htmlLine)
          (rx.start + rx.matchedLength)

def parseLines (t : Templates) (parse : QString → Option QString) (fuel : ℕ) :
    List QString → Option QString
  | [] => some []
  | htmlLine :: lines =>
    (t.scanLine parse fuel htmlLine 0).bind fun os => (parseLines t parse fuel lines).map (os ++ ·)

/-- What the parser writes of a file, none where the fuel is not enough: it bounds the depth of the
recursion and the turns of each loop. -/
def htmlParser (t : Templates) : ℕ → QString → Option QString
  | 0, _ => none
  | fuel + 1, fileName =>
    t.parseLines (htmlParser t fuel) fuel ((t.html fileName).getD [])

def Extends (parse parse' : QString → Option QString) : Prop :=
  ∀ file os, parse file = some os → parse' file = some os

variable {t : Templates} {parse parse' : QString → Option QString}

theorem scanLine_mono (hparse : Extends parse parse') {fuel fuel' : ℕ} (hfuel : fuel ≤ fuel')
    {htmlLine os : QString} {pos : ℕ} (h : t.scanLine parse fuel htmlLine pos = some os) :
    t.scanLine parse' fuel' htmlLine pos = some os := by
  induction fuel generalizing fuel' htmlLine pos os with
  | zero => cases h
  | succ fuel ih =>
    obtain ⟨fuel', rfl⟩ := Nat.exists_eq_add_of_le' hfuel
    have hle : fuel ≤ fuel' + fuel := Nat.le_add_left _ _
    have hmap {written : QString} {next : ℕ} {before : QString}
        (hscan : (t.scanLine parse fuel [] next).map (before ++ ·) = some written) :
        (t.scanLine parse' (fuel' + fuel) [] next).map (before ++ ·) = some written := by
      obtain ⟨text, htext, rfl⟩ := Option.map_eq_some_iff.mp hscan
      rw [ih hle htext]
      rfl
    rw [← Nat.add_assoc]
    rw [scanLine] at h ⊢
    cases hfound : indexIn htmlLine pos with
    | none =>
      rw [hfound] at h
      exact h
    | some rx =>
      rw [hfound] at h
      simp only at h ⊢
      split_ifs at h ⊢ with hraw hlog hinclude
      · exact hmap h
      · exact hmap h
      · cases hfile : t.html rx.cap2 with
        | none =>
          rw [hfile] at h
          exact ih hle h
        | some lines =>
          rw [hfile] at h
          obtain ⟨included, hincluded, hrest⟩ := Option.bind_eq_some_iff.mp h
          simp only [hparse _ _ hincluded, Option.bind_some]
          exact hmap hrest
      · exact ih hle h

theorem parseLines_mono (hparse : Extends parse parse') {fuel fuel' : ℕ} (hfuel : fuel ≤ fuel')
    {lines : List QString} {os : QString} (h : t.parseLines parse fuel lines = some os) :
    t.parseLines parse' fuel' lines = some os := by
  induction lines generalizing os with
  | nil => exact h
  | cons htmlLine lines ih =>
    obtain ⟨text, hline, hrest⟩ := Option.bind_eq_some_iff.mp h
    obtain ⟨later, hlines, rfl⟩ := Option.map_eq_some_iff.mp hrest
    rw [parseLines, scanLine_mono hparse hfuel hline, ih hlines]
    rfl

theorem htmlParser_mono {fuel fuel' : ℕ} (hfuel : fuel ≤ fuel') :
    Extends (t.htmlParser fuel) (t.htmlParser fuel') := by
  induction fuel generalizing fuel' with
  | zero =>
    intro file os h
    cases h
  | succ fuel ih =>
    intro file os h
    obtain ⟨fuel', rfl⟩ := Nat.exists_eq_add_of_le' hfuel
    have hle : fuel ≤ fuel' + fuel := Nat.le_add_left _ _
    rw [← Nat.add_assoc]
    exact parseLines_mono (ih hle) hle h

def Writes (t : Templates) (htmlLine : QString) (pos : ℕ) (os : QString) : Prop :=
  ∃ fuel, t.scanLine (t.htmlParser fuel) fuel htmlLine pos = some os

def Prints (t : Templates) (fileName os : QString) : Prop :=
  ∃ fuel, t.htmlParser fuel fileName = some os

theorem Prints.unique {fileName os os' : QString} (h : t.Prints fileName os)
    (h' : t.Prints fileName os') : os = os' := by
  obtain ⟨fuel, hfuel⟩ := h
  obtain ⟨fuel', hfuel'⟩ := h'
  have hleft := htmlParser_mono (Nat.le_max_left fuel fuel') _ _ hfuel
  have hright := htmlParser_mono (Nat.le_max_right fuel fuel') _ _ hfuel'
  exact Option.some.inj (hleft.symm.trans hright)

/-! The rules of the two loops, without the fuel. -/

theorem Writes.line {htmlLine : QString} {pos : ℕ} (h : indexIn htmlLine pos = none) :
    t.Writes htmlLine pos htmlLine :=
  ⟨1, by rw [scanLine, h]⟩

def reserved : List QString := [literal "PRINT_RAW_LOG", literal "PRINT_LOG", literal "INCLUDE"]

theorem scanLine_replaced {fuel pos : ℕ} {htmlLine : QString} {rx : Match}
    (hfound : indexIn htmlLine pos = some rx) (hname : rx.cap1 ∉ reserved) :
    t.scanLine parse (fuel + 1) htmlLine pos =
      t.scanLine parse fuel (QString.replace (placeholder rx.cap1) (t.value rx.cap1) htmlLine)
        (rx.start + rx.matchedLength) := by
  obtain ⟨hraw, hlog, hinclude⟩ : rx.cap1 ≠ literal "PRINT_RAW_LOG" ∧
      rx.cap1 ≠ literal "PRINT_LOG" ∧ rx.cap1 ≠ literal "INCLUDE" := by
    simpa [reserved] using hname
  rw [scanLine, hfound]
  simp only [if_neg hraw, if_neg hlog, if_neg hinclude]

theorem Writes.replaced {htmlLine os : QString} {pos : ℕ} {rx : Match}
    (hfound : indexIn htmlLine pos = some rx) (hname : rx.cap1 ∉ reserved)
    (h : t.Writes (QString.replace (placeholder rx.cap1) (t.value rx.cap1) htmlLine)
      (rx.start + rx.matchedLength) os) : t.Writes htmlLine pos os := by
  obtain ⟨fuel, hfuel⟩ := h
  refine ⟨fuel + 1, ?_⟩
  rw [scanLine_replaced hfound hname]
  exact scanLine_mono (htmlParser_mono (Nat.le_succ fuel)) le_rfl hfuel

theorem scanLine_behind (fuel pos : ℕ) : t.scanLine parse (fuel + 1) [] pos = some [] := by
  rw [scanLine, indexIn_eq_none (by simp)]

theorem Writes.rawLog {htmlLine : QString} {pos : ℕ} {rx : Match}
    (hfound : indexIn htmlLine pos = some rx) (hname : rx.cap1 = literal "PRINT_RAW_LOG") :
    t.Writes htmlLine pos t.printRawLog := by
  refine ⟨2, ?_⟩
  rw [scanLine, hfound]
  simp only [if_pos hname, scanLine_behind, Option.map_some, List.append_nil]

theorem Writes.log {htmlLine : QString} {pos : ℕ} {rx : Match}
    (hfound : indexIn htmlLine pos = some rx) (hname : rx.cap1 = literal "PRINT_LOG") :
    t.Writes htmlLine pos t.printLog := by
  refine ⟨2, ?_⟩
  have hraw : rx.cap1 ≠ literal "PRINT_RAW_LOG" := by
    rw [hname]
    decide
  rw [scanLine, hfound]
  simp only [if_neg hraw, if_pos hname, scanLine_behind, Option.map_some, List.append_nil]

theorem scanLine_included {fuel pos : ℕ} {htmlLine : QString} {rx : Match}
    (hfound : indexIn htmlLine pos = some rx) (hname : rx.cap1 = literal "INCLUDE")
    {lines : List QString} (hfile : t.html rx.cap2 = some lines) :
    t.scanLine parse (fuel + 1) htmlLine pos = (parse rx.cap2).bind fun included =>
      (t.scanLine parse fuel [] (rx.start + rx.matchedLength)).map (included ++ ·) := by
  have hraw : rx.cap1 ≠ literal "PRINT_RAW_LOG" := by
    rw [hname]
    decide
  have hlog : rx.cap1 ≠ literal "PRINT_LOG" := by
    rw [hname]
    decide
  rw [scanLine, hfound]
  simp only [if_neg hraw, if_neg hlog, if_pos hname, hfile]

theorem Writes.included {htmlLine os : QString} {pos : ℕ} {rx : Match} {lines : List QString}
    (hfound : indexIn htmlLine pos = some rx) (hname : rx.cap1 = literal "INCLUDE")
    (hfile : t.html rx.cap2 = some lines) (h : t.Prints rx.cap2 os) : t.Writes htmlLine pos os := by
  obtain ⟨fuel, hfuel⟩ := h
  refine ⟨fuel + 2, ?_⟩
  rw [scanLine_included hfound hname hfile, htmlParser_mono (Nat.le_add_right fuel 2) _ _ hfuel,
    scanLine_behind, Option.bind_some, Option.map_some, List.append_nil]

theorem parseLines_eq_none {fuel : ℕ} {lines : List QString} {htmlLine : QString}
    (hmem : htmlLine ∈ lines) (h : t.scanLine parse fuel htmlLine 0 = none) :
    t.parseLines parse fuel lines = none := by
  induction lines with
  | nil => cases hmem
  | cons first lines ih =>
    rw [parseLines]
    rcases List.mem_cons.mp hmem with rfl | hrest
    · rw [h]
      rfl
    · rw [ih hrest]
      cases t.scanLine parse fuel first 0 <;> rfl

theorem scanLine_included_eq_none {fuel pos : ℕ} {htmlLine : QString} {rx : Match}
    (hfound : indexIn htmlLine pos = some rx) (hname : rx.cap1 = literal "INCLUDE")
    {lines : List QString} (hfile : t.html rx.cap2 = some lines) (h : parse rx.cap2 = none) :
    t.scanLine parse fuel htmlLine pos = none := by
  cases fuel with
  | zero => rfl
  | succ fuel => rw [scanLine_included hfound hname hfile, h, Option.bind_none]

theorem scanLine_replaced_eq_none {fuel pos : ℕ} {htmlLine : QString} {rx : Match}
    (hfound : indexIn htmlLine pos = some rx) (hname : rx.cap1 ∉ reserved)
    (h : ∀ fuel, t.scanLine parse fuel
      (QString.replace (placeholder rx.cap1) (t.value rx.cap1) htmlLine)
      (rx.start + rx.matchedLength) = none) : t.scanLine parse fuel htmlLine pos = none := by
  cases fuel with
  | zero => rfl
  | succ fuel =>
    rw [scanLine_replaced hfound hname]
    exact h fuel

theorem parseLines_of_writes {lines texts : List QString}
    (h : List.Forall₂ (t.Writes · 0) lines texts) :
    ∃ fuel, t.parseLines (t.htmlParser fuel) fuel lines = some texts.flatten := by
  induction h with
  | nil => exact ⟨0, rfl⟩
  | @cons htmlLine os lines texts hline _ ih =>
    obtain ⟨fuel, hfuel⟩ := hline
    obtain ⟨fuel', hfuel'⟩ := ih
    have hleft := Nat.le_max_left fuel fuel'
    have hright := Nat.le_max_right fuel fuel'
    refine ⟨max fuel fuel', ?_⟩
    rw [parseLines, scanLine_mono (htmlParser_mono hleft) hleft hfuel,
      parseLines_mono (htmlParser_mono hright) hright hfuel']
    rfl

theorem Prints.of_lines {fileName : QString} {lines texts : List QString}
    (hfile : t.html fileName = some lines) (h : List.Forall₂ (t.Writes · 0) lines texts) :
    t.Prints fileName texts.flatten := by
  obtain ⟨fuel, hfuel⟩ := parseLines_of_writes h
  refine ⟨fuel + 1, ?_⟩
  rw [htmlParser, hfile]
  exact hfuel

end Templates

end Alko.Alkod
