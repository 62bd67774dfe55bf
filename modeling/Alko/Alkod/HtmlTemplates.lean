import Mathlib.Logic.Relation
import Alko.Alkod.TemplateLine

/-! The templates of the daemon: which of them includes which, and when a page comes to its end. -/

namespace Alko.Alkod

open Qt
open QString (literal)

inductive Item
  | included (file : QString)
  | printLog
  | printRawLog
  | value (name : QString)
  deriving DecidableEq

namespace Item

def word : Item → QString
  | included file => placeholder (literal "INCLUDE" ++ 0x20 :: file)
  | printLog => placeholder (literal "PRINT_LOG")
  | printRawLog => placeholder (literal "PRINT_RAW_LOG")
  | value name => placeholder name

def caps : Item → QString × QString
  | included file => (literal "INCLUDE", file)
  | printLog => (literal "PRINT_LOG", [])
  | printRawLog => (literal "PRINT_RAW_LOG", [])
  | value name => (name, [])

def file : Item → Option QString
  | included file => some file
  | _ => none

def name : Item → Option QString
  | value name => some name
  | _ => none

end Item

/-- The files below `:/html/` that are templates, with what each has besides text, in its order. -/
def shipped : List (QString × List Item) :=
  let file (name : String) : Item := .included (literal name)
  let value (name : String) : Item := .value (literal name)
  let header1 := file "header1.html.inc"
  let header2 := file "header2.html.inc"
  let nav := file "nav.html.inc"
  let footer := file "footer.html.inc"
  [(literal "400.html", []),
    (literal "404.html", []),
    (literal "admin.html", [header1, header2, nav, footer]),
    (literal "check_status.html", [header1, header2, footer]),
    (literal "footer.html.inc", []),
    (literal "header1.html.inc", []),
    (literal "header2.html.inc", []),
    (literal "index.html", [header1, header2, nav, footer]),
    (literal "log.html", [header1, header2, nav, .printLog, footer]),
    (literal "logout.html", [header1, header2, footer]),
    (literal "nav.html.inc", [value "DATETIME", value "HOST"]),
    (literal "process.html", [header1, header2, value "ACTION", footer]),
    (literal "rawlog.html", [header1, header2, nav, .printRawLog, footer]),
    (literal "status.html", [header1, header2, nav, value "ALKO_COLUMN_9", value "ALKO_COLUMN_8",
      value "ALKO_COLUMN_7", value "ALKO_COLUMN_6", value "ALKO_COLUMN_5", value "ALKO_COLUMN_4",
      value "ALKO_COLUMN_3", value "ALKO_COLUMN_2", value "ALKO_COLUMN_1", value "ALKO_STATE_BTN",
      value "ALKO_STATE_TEXT", footer])]

def files : List QString := shipped.map Prod.fst

def items (file : QString) : List Item := (shipped.lookup file).getD []

def Includes (page file : QString) : Prop := .included file ∈ items page

def depth (file : QString) : ℕ := if (items file).any (·.file.isSome) then 1 else 0

theorem depth_of_includes : ∀ page ∈ files, ∀ item ∈ items page, ∀ file ∈ item.file,
    file ∈ files ∧ depth file < depth page := by
  decide +kernel

theorem captures_of_shipped : ∀ page ∈ files, ∀ item ∈ items page,
    captures item.word = some item.caps := by
  decide +kernel

theorem name_of_shipped : ∀ page ∈ files, ∀ item ∈ items page, ∀ name ∈ item.name,
    name ∉ Templates.reserved := by
  decide +kernel

structure PlainText where
  text : QString
  unopened : 0x7B ∉ text
  unclosed : 0x7D ∉ text

inductive HtmlLine
  | plain (line : PlainText)
  | special (before : PlainText) (item : Item) (behind : PlainText)

namespace HtmlLine

def text : HtmlLine → QString
  | plain line => line.text
  | special before item behind => before.text ++ (item.word ++ behind.text)

def item? : HtmlLine → Option Item
  | plain _ => none
  | special _ item _ => some item

end HtmlLine

/-- The resources: the templates, whatever their text is, and any other files. -/
structure Site where
  lines : QString → List HtmlLine
  items_lines : ∀ file ∈ files, (lines file).filterMap HtmlLine.item? = items file
  other : QString → Option (List QString)
  log : Option (List UInt8)
  heap : ℕ → UInt8

namespace Site

variable {s : Site}

def templates (s : Site) (context : List (QString × QString)) : Templates where
  html file := if files.contains file then some ((s.lines file).map HtmlLine.text) else s.other file
  log := s.log
  heap := s.heap
  context := context

variable {context : List (QString × QString)}

theorem html_templates {file : QString} (hfile : file ∈ files) :
    (s.templates context).html file = some ((s.lines file).map HtmlLine.text) :=
  if_pos (List.contains_iff_mem.mpr hfile)

theorem mem_items {file : QString} (hfile : file ∈ files) {before behind : PlainText} {item : Item}
    (hline : .special before item behind ∈ s.lines file) : item ∈ items file := by
  rw [← s.items_lines file hfile]
  exact List.mem_filterMap.mpr ⟨_, hline, rfl⟩

theorem exists_line {file : QString} (hfile : file ∈ files) {item : Item}
    (hitem : item ∈ items file) : ∃ before behind, .special before item behind ∈ s.lines file := by
  rw [← s.items_lines file hfile] at hitem
  obtain ⟨line, hline, hsome⟩ := List.mem_filterMap.mp hitem
  cases line with
  | plain text => cases hsome
  | special before other behind =>
    obtain rfl : other = item := Option.some.inj hsome
    exact ⟨before, behind, hline⟩

theorem found_item {file : QString} (hfile : file ∈ files) {item : Item} (hitem : item ∈ items file)
    (before behind : PlainText) : indexIn (HtmlLine.special before item behind).text 0 =
      some ⟨before.text.length, item.word.length, item.caps.1, item.caps.2⟩ :=
  indexIn_word (Nat.zero_le _) before.unopened (captures_of_shipped file hfile item hitem)
    behind.unclosed

/-- Where the loop goes on, it finds nothing in a line with its value in place. -/
def Quiet (s : Site) (context : List (QString × QString)) (file : QString) : Prop :=
  ∀ before name behind, .special before (.value name) behind ∈ s.lines file →
    indexIn (before.text ++ ((s.templates context).value name ++ behind.text))
      (before.text.length + (name.length + 3)) = none

theorem replace_value (name value : QString) (before behind : PlainText) :
    QString.replace (placeholder name) value (HtmlLine.special before (.value name) behind).text =
      before.text ++ (value ++ behind.text) := by
  have hbehind := TemplateLine.replace_unopened behind.unopened name value []
  rw [List.append_nil] at hbehind
  calc
    QString.replace (placeholder name) value (before.text ++ (placeholder name ++ behind.text)) =
        before.text ++ QString.replace (placeholder name) value (placeholder name ++ behind.text) :=
      TemplateLine.replace_unopened before.unopened name value _
    _ = before.text ++ (value ++ QString.replace (placeholder name) value behind.text) := by
      rw [QString.replace_occurrence (TemplateLine.placeholder_ne_nil name)]
    _ = before.text ++ (value ++ behind.text) := by
      rw [hbehind]
      exact congrArg (fun rest => before.text ++ (value ++ rest)) (List.append_nil behind.text)

theorem writes_value {file : QString} (hfile : file ∈ files) (hquiet : s.Quiet context file)
    {before behind : PlainText} {name : QString}
    (hline : .special before (.value name) behind ∈ s.lines file) :
    (s.templates context).Writes (HtmlLine.special before (.value name) behind).text 0
      (before.text ++ ((s.templates context).value name ++ behind.text)) := by
  have hitem := mem_items hfile hline
  have hfree := name_of_shipped file hfile _ hitem name rfl
  refine .replaced (found_item hfile hitem before behind) hfree ?_
  have hplace : (Item.value name).word.length = name.length + 3 := length_placeholder name
  simp only [Item.caps, replace_value, hplace]
  exact .line (hquiet before name behind hline)

theorem writes_plain (line : PlainText) : (s.templates context).Writes line.text 0 line.text :=
  .line (indexIn_eq_none line.unopened)

theorem exists_writes {file : QString} (hfile : file ∈ files) (hquiet : s.Quiet context file)
    (hincluded : ∀ other, Includes file other → ∃ os, (s.templates context).Prints other os)
    {line : HtmlLine} (hline : line ∈ s.lines file) :
    ∃ os, (s.templates context).Writes line.text 0 os := by
  cases line with
  | plain line => exact ⟨_, writes_plain line⟩
  | special before item behind =>
    have hitem := mem_items hfile hline
    have hfound := found_item hfile hitem before behind
    cases item with
    | included other =>
      obtain ⟨os, hos⟩ := hincluded other hitem
      have hother := (depth_of_includes file hfile _ hitem other rfl).1
      exact ⟨os, .included hfound rfl (html_templates hother) hos⟩
    | printLog => exact ⟨_, .log hfound rfl⟩
    | printRawLog => exact ⟨_, .rawLog hfound rfl⟩
    | value name => exact ⟨_, writes_value hfile hquiet hline⟩

theorem exists_prints {file : QString} (hfile : file ∈ files) (hquiet : s.Quiet context file)
    (hincluded : ∀ other, Includes file other → ∃ os, (s.templates context).Prints other os) :
    ∃ os, (s.templates context).Prints file os := by
  have hlines : ∀ lines ⊆ s.lines file, ∃ texts,
      List.Forall₂ ((s.templates context).Writes · 0) (lines.map HtmlLine.text) texts := by
    intro lines
    induction lines with
    | nil => exact fun _ => ⟨[], .nil⟩
    | cons line lines ih =>
      intro hsub
      obtain ⟨os, hos⟩ := exists_writes hfile hquiet hincluded (hsub List.mem_cons_self)
      obtain ⟨texts, htexts⟩ := ih (List.subset_of_cons_subset hsub)
      exact ⟨os :: texts, .cons hos htexts⟩
  obtain ⟨texts, htexts⟩ := hlines _ (List.Subset.refl _)
  exact ⟨_, .of_lines (html_templates hfile) htexts⟩

/-- A page comes to its end if no text put into it, or into a file it includes, is read again. -/
theorem prints_of_quiet (s : Site) (context : List (QString × QString)) {page : QString}
    (hpage : page ∈ files)
    (hquiet : ∀ file, Relation.ReflTransGen Includes page file → s.Quiet context file) :
    ∃ os, (s.templates context).Prints page os := by
  induction hdepth : depth page using Nat.strong_induction_on generalizing page with
  | _ n ih =>
    refine exists_prints hpage (hquiet page .refl) fun other hother => ?_
    obtain ⟨hfile, hlt⟩ := depth_of_includes page hpage _ hother other rfl
    exact ih _ (hdepth ▸ hlt) hfile (fun file hfile => hquiet file (.head hother hfile)) rfl

theorem quiet_of_unopened (hvalue : ∀ name, 0x7B ∉ (s.templates context).value name)
    (file : QString) : s.Quiet context file := by
  intro before name behind _
  refine indexIn_eq_none fun hmem => ?_
  have hline := List.mem_of_mem_drop hmem
  simp only [List.mem_append] at hline
  rcases hline with hbefore | hin | hbehind
  · exact before.unopened hbefore
  · exact hvalue name hin
  · exact behind.unopened hbehind

theorem filterMap_special (before behind : PlainText) (items : List Item) :
    (items.map fun item => HtmlLine.special before item behind).filterMap HtmlLine.item? =
      items := by
  simp only [List.filterMap_map, Function.comp_def, HtmlLine.item?, List.filterMap_some]

def noText : PlainText := ⟨[], List.not_mem_nil, List.not_mem_nil⟩

def bare : Site where
  lines file := (items file).map fun item => .special noText item noText
  items_lines file _ := filterMap_special noText noText (items file)
  other _ := none
  log := none
  heap _ := 0

theorem prints_of_quiet_status :
    ∃ os, (bare.templates [(literal "HOST", literal "alko")]).Prints (literal "status.html")
      os := by
  have hvalue (name : QString) :
      0x7B ∉ (bare.templates [(literal "HOST", literal "alko")]).value name := by
    rw [Templates.value, templates, List.lookup_cons, List.lookup_nil]
    split <;> decide
  exact prints_of_quiet bare _ (by decide +kernel) fun file _ => quiet_of_unopened hvalue file

/-! A value that is read again. -/

theorem parseLines_eq_none {file : QString} (hfile : file ∈ files) {item : Item}
    (hitem : item ∈ items file) {parse : QString → Option QString} {fuel : ℕ}
    (h : ∀ before behind, (s.templates context).scanLine parse fuel
      (HtmlLine.special before item behind).text 0 = none) :
    (s.templates context).parseLines parse fuel (((s.templates context).html file).getD []) =
      none := by
  obtain ⟨before, behind, hline⟩ := exists_line (s := s) hfile hitem
  rw [html_templates hfile]
  exact Templates.parseLines_eq_none (List.mem_map_of_mem hline) (h before behind)

theorem htmlParser_of_includes {page file : QString} (hpage : page ∈ files)
    (hincludes : Includes page file) (h : ∀ fuel, (s.templates context).htmlParser fuel file = none)
    (fuel : ℕ) : (s.templates context).htmlParser fuel page = none := by
  cases fuel with
  | zero => rfl
  | succ fuel =>
    have hfile := (depth_of_includes page hpage _ hincludes file rfl).1
    rw [Templates.htmlParser]
    refine parseLines_eq_none hpage hincludes fun before behind => ?_
    exact Templates.scanLine_included_eq_none (found_item hpage hincludes before behind) rfl
      (html_templates hfile) (h fuel)

theorem indexIn_value {skipped word behind cap1 cap2 : QString} {n : ℕ} (hlen : n ≤ skipped.length)
    (hskipped : 0x7B ∉ skipped) (hword : captures word = some (cap1, cap2)) (hbehind : 0x7D ∉ behind)
    (before after : PlainText) :
    indexIn (before.text ++ (skipped ++ (word ++ behind) ++ after.text)) (before.text.length + n) =
      some ⟨(before.text ++ skipped).length, word.length, cap1, cap2⟩ := by
  have hopen : 0x7B ∉ (before.text ++ skipped).drop (before.text.length + n) := by
    intro hmem
    rcases List.mem_append.mp (List.mem_of_mem_drop hmem) with h | h
    · exact before.unopened h
    · exact hskipped h
  have hclose : 0x7D ∉ behind ++ after.text := by
    rw [List.mem_append, not_or]
    exact ⟨hbehind, after.unclosed⟩
  have hpos : before.text.length + n ≤ (before.text ++ skipped).length := by
    rw [List.length_append]
    exact Nat.add_le_add_left hlen _
  have hshape : before.text ++ (skipped ++ (word ++ behind) ++ after.text) =
      before.text ++ skipped ++ (word ++ (behind ++ after.text)) := by
    simp only [List.append_assoc]
  rw [hshape]
  exact indexIn_word hpos hopen hword hclose

/-- A file whose value includes the file itself, from where the loop goes on, does not end. -/
theorem htmlParser_of_value {file name skipped behind : QString} (hfile : file ∈ files)
    (hname : .value name ∈ items file)
    (hvalue : (s.templates context).value name = skipped ++ ((Item.included file).word ++ behind))
    (hword : captures (Item.included file).word = some (Item.included file).caps)
    (hlen : name.length + 3 ≤ skipped.length) (hskipped : 0x7B ∉ skipped) (hbehind : 0x7D ∉ behind)
    (fuel : ℕ) : (s.templates context).htmlParser fuel file = none := by
  induction fuel with
  | zero => rfl
  | succ fuel ih =>
    rw [Templates.htmlParser]
    refine parseLines_eq_none hfile hname fun before after => ?_
    refine Templates.scanLine_replaced_eq_none (found_item hfile hname before after)
      (name_of_shipped file hfile _ hname name rfl) fun fuel => ?_
    have hplace : (Item.value name).word.length = name.length + 3 := length_placeholder name
    simp only [Item.caps, replace_value, hplace, hvalue]
    exact Templates.scanLine_included_eq_none (indexIn_value hlen hskipped hword hbehind before after)
      rfl (html_templates hfile) ih

theorem nav_of_index : literal "nav.html.inc" ∈ files ∧ literal "index.html" ∈ files ∧
    Includes (literal "index.html") (literal "nav.html.inc") ∧
      .value (literal "HOST") ∈ items (literal "nav.html.inc") := by
  refine ⟨by decide +kernel, by decide +kernel, ?_, ?_⟩
  · unfold Includes
    decide +kernel
  · decide +kernel

/-- Whatever the templates' text is, a Host header can include the navigation bar in itself. -/
theorem not_prints_index :
    ¬ ∃ s : Site, ∀ context, ∃ os, (s.templates context).Prints (literal "index.html") os := by
  rintro ⟨s, h⟩
  obtain ⟨hnav, hindex, hincludes, hhost⟩ := nav_of_index
  let header := literal "1234567" ++ ((Item.included (literal "nav.html.inc")).word ++ [])
  obtain ⟨os, fuel, hfuel⟩ := h [(literal "HOST", header)]
  have hvalue : (s.templates [(literal "HOST", header)]).value (literal "HOST") = header := rfl
  have hlen : (literal "HOST").length + 3 ≤ (literal "1234567").length := by decide
  have hendless := htmlParser_of_includes hindex hincludes (htmlParser_of_value hnav hhost hvalue
    (captures_of_shipped _ hindex _ hincludes) hlen (by decide) List.not_mem_nil) fuel
  rw [hendless] at hfuel
  cases hfuel

end Site

end Alko.Alkod
