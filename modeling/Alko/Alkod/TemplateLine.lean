import Alko.Alkod.HtmlParser

/-! Template lines of placeholders with text between them: when the parser fills them in. -/

namespace Alko.Alkod

open Qt
open QString (literal)

structure Name where
  text : QString
  nonempty : text ≠ []
  unspaced : ∀ c ∈ text, QString.isSpace c = false
  unopened : 0x7B ∉ text
  unclosed : 0x7D ∉ text
  free : text ∉ Templates.reserved

structure TemplateLine where
  first : QString
  -- The placeholders, each with the text behind it.
  rest : List (Name × QString)

namespace TemplateLine

def restText : List (Name × QString) → QString
  | [] => []
  | (name, behind) :: rest => placeholder name.text ++ (behind ++ restText rest)

def text (line : TemplateLine) : QString := line.first ++ restText line.rest

def filled (value : QString → QString) (line : TemplateLine) : QString :=
  line.first ++ line.rest.flatMap fun part => value part.1.text ++ part.2

def substituteFrom (name value : QString) (first : QString) :
    List (Name × QString) → TemplateLine
  | [] => ⟨first, []⟩
  | (other, behind) :: rest =>
    if other.text = name then substituteFrom name value (first ++ (value ++ behind)) rest
    else
      let later := substituteFrom name value behind rest
      ⟨first, (other, later.first) :: later.rest⟩

def substitute (name value : QString) (line : TemplateLine) : TemplateLine :=
  substituteFrom name value line.first line.rest

def stretches (line : TemplateLine) : List QString := line.first :: line.rest.map Prod.snd

/-- From a position on, each search finds the next placeholder and nothing more of the line, its
name is in no text between the placeholders, and the last search finds nothing. -/
inductive Reads (value : QString → QString) : TemplateLine → ℕ → Prop
  | last {first : QString} {pos : ℕ} (found : indexIn first pos = none) :
    Reads value ⟨first, []⟩ pos
  | next {first behind : QString} {name : Name} {rest : List (Name × QString)} {pos : ℕ}
    (found : indexIn (text ⟨first, (name, behind) :: rest⟩) pos =
      some ⟨first.length, name.text.length + 3, name.text, []⟩)
    (apart : ∀ stretch ∈ stretches ⟨first, (name, behind) :: rest⟩,
      ¬ placeholder name.text <:+: stretch)
    (later : Reads value
      (substitute name.text (value name.text) ⟨first, (name, behind) :: rest⟩)
      (first.length + (name.text.length + 3))) :
    Reads value ⟨first, (name, behind) :: rest⟩ pos

/-- The line where some names have their values in place, cut at the placeholders of the others. -/
def settle (value : QString → QString) (seen : List QString) (first : QString) :
    List (Name × QString) → TemplateLine
  | [] => ⟨first, []⟩
  | (name, behind) :: rest =>
    if seen.contains name.text then settle value seen (first ++ (value name.text ++ behind)) rest
    else
      let later := settle value seen behind rest
      ⟨first, (name, later.first) :: later.rest⟩

/-- What the first placeholder of a name needs of its surroundings, where the filled line `left` is
in front of it and the names in it are `seen`. -/
structure Separate (value : QString → QString) (left : QString) (seen : List QString) (name : Name)
    (behind : QString) (rest : List (Name × QString)) : Prop where
  -- What follows has no brace that the pattern takes for the one that ends it.
  closed : ¬ EndsIn (settle value seen behind rest).text
  -- No texts and values between the placeholders form it once more.
  unformed : ∀ stretch ∈ left :: (settle value seen behind rest).stretches,
    ¬ placeholder name.text <:+: stretch
  -- Up to the next new name there is at least as much as `{$NAME}` has taken,
  reached : (settle value (name.text :: seen) behind rest).rest ≠ [] →
    name.text.length + 3 ≤
      (value name.text ++ (settle value (name.text :: seen) behind rest).first).length
  -- and behind as much as that nothing is formed that the pattern matches.
  unopened : Unopened
    ((value name.text ++ (settle value (name.text :: seen) behind rest).first).drop
      (name.text.length + 3))
    (restText (settle value (name.text :: seen) behind rest).rest)

def SeparateFrom (value : QString → QString) (left : QString) (seen : List QString) :
    List (Name × QString) → Prop
  | [] => True
  | (name, behind) :: rest =>
    (name.text ∉ seen → Separate value left seen name behind rest) ∧
      SeparateFrom value (left ++ (value name.text ++ behind)) (name.text :: seen) rest

/-- The first placeholder of each name stands apart from its surroundings. -/
structure Legible (value : QString → QString) (line : TemplateLine) : Prop where
  first : Unopened line.first (restText line.rest)
  rest : SeparateFrom value line.first [] line.rest

theorem filled_substituteFrom (value : QString → QString) (name first : QString)
    (rest : List (Name × QString)) :
    (substituteFrom name (value name) first rest).filled value =
      filled value ⟨first, rest⟩ := by
  induction rest generalizing first with
  | nil => rfl
  | cons head rest ih =>
    obtain ⟨other, behind⟩ := head
    rw [substituteFrom]
    split_ifs with hname
    · subst hname
      rw [ih, filled, filled, List.flatMap_cons]
      simp only [List.append_assoc]
    · have hlater := ih behind
      simp only [filled, List.flatMap_cons] at hlater ⊢
      rw [List.append_assoc (value other.text), hlater]
      simp only [List.append_assoc]

theorem filled_substitute (value : QString → QString) (name : QString) (line : TemplateLine) :
    (line.substitute name (value name)).filled value = line.filled value :=
  filled_substituteFrom value name line.first line.rest

theorem placeholder_ne_nil (name : QString) : placeholder name ≠ [] := List.cons_ne_nil _ _

theorem not_placeholder_of_unopened {name a : QString} (ha : a ≠ []) (hopen : 0x7B ∉ a)
    (s : QString) : ¬ placeholder name <+: a ++ s := by
  rintro ⟨tail, htail⟩
  obtain ⟨c, a, rfl⟩ := List.exists_cons_of_ne_nil ha
  have hhead : (0x7B : UInt16) = c := (List.cons.inj htail).1
  exact hopen (hhead ▸ List.mem_cons_self)

theorem replace_unopened {a : QString} (ha : 0x7B ∉ a) (name value s : QString) :
    QString.replace (placeholder name) value (a ++ s) =
      a ++ QString.replace (placeholder name) value s := by
  refine QString.replace_append value fun k hk => ?_
  refine not_placeholder_of_unopened (fun hnil => ?_) (fun hmem => ha (List.mem_of_mem_drop hmem)) s
  exact absurd hk (not_lt.mpr (List.drop_eq_nil_iff.mp hnil))

theorem opening_notMem_tail {name : QString} (hopen : 0x7B ∉ name) :
    0x7B ∉ (placeholder name).tail := by
  simp [placeholder, hopen]

theorem not_placeholder_in_stretch {name stretch s : QString} (hopen : 0x7B ∉ name)
    (hapart : ¬ placeholder name <:+: stretch) (hs : s = [] ∨ s.head? = some 0x7B) {k : ℕ}
    (hk : k < stretch.length) : ¬ placeholder name <+: stretch.drop k ++ s := by
  intro hoccurs
  rcases List.prefix_or_prefix_of_prefix hoccurs (List.prefix_append (stretch.drop k) s) with
    hin | ⟨cut, hcut⟩
  · exact hapart (hin.isInfix.trans (List.drop_suffix k stretch).isInfix)
  · rw [← hcut, List.prefix_append_right_inj] at hoccurs
    have hne : stretch.drop k ≠ [] := by
      rw [ne_eq, List.drop_eq_nil_iff, not_le]
      exact hk
    cases cut with
    | nil =>
      rw [List.append_nil] at hcut
      exact hapart (hcut ▸ (List.drop_suffix k stretch).isInfix)
    | cons c cut =>
      have hc : c = 0x7B := by
        obtain ⟨tail, rfl⟩ := hoccurs
        rcases hs with hs | hs
        · cases hs
        · exact Option.some.inj hs
      refine opening_notMem_tail hopen ?_
      rw [← hcut, List.tail_append_of_ne_nil hne, hc]
      exact List.mem_append_right _ List.mem_cons_self

theorem head_restText (rest : List (Name × QString)) :
    restText rest = [] ∨ (restText rest).head? = some 0x7B := by
  cases rest with
  | nil => exact Or.inl rfl
  | cons head rest => exact Or.inr rfl

theorem placeholder_prefix_iff {name other s : QString} (hname : 0x7D ∉ name)
    (hother : 0x7D ∉ other) : placeholder name <+: placeholder other ++ s ↔ name = other := by
  constructor
  · rintro ⟨tail, htail⟩
    simp only [placeholder, List.cons_append, List.append_assoc, List.cons.injEq, true_and,
      List.nil_append] at htail
    exact (QString.append_cons_inj hname hother htail).1
  · rintro rfl
    exact List.prefix_append _ _

theorem replace_stretch (name : Name) (value : QString) {stretch : QString}
    (rest : List (Name × QString)) (hapart : ¬ placeholder name.text <:+: stretch) :
    QString.replace (placeholder name.text) value (stretch ++ restText rest) =
      stretch ++ QString.replace (placeholder name.text) value (restText rest) :=
  QString.replace_append value fun _ hk =>
    not_placeholder_in_stretch name.unopened hapart (head_restText rest) hk

theorem replace_other {name other : Name} (hne : other.text ≠ name.text) (value s : QString) :
    QString.replace (placeholder name.text) value (placeholder other.text ++ s) =
      placeholder other.text ++ QString.replace (placeholder name.text) value s := by
  refine QString.replace_append value fun k hk => ?_
  cases k with
  | zero =>
    rw [List.drop_zero, placeholder_prefix_iff name.unclosed other.unclosed]
    exact hne.symm
  | succ k =>
    refine not_placeholder_of_unopened (fun hnil => ?_) (fun hmem => ?_) s
    · exact absurd hk (not_lt.mpr (List.drop_eq_nil_iff.mp hnil))
    · rw [← List.drop_tail] at hmem
      exact opening_notMem_tail other.unopened (List.mem_of_mem_drop hmem)

theorem text_substituteFrom (name : Name) (value first : QString) (rest : List (Name × QString))
    (hapart : ∀ part ∈ rest, ¬ placeholder name.text <:+: part.2) :
    (substituteFrom name.text value first rest).text =
      first ++ QString.replace (placeholder name.text) value (restText rest) := by
  induction rest generalizing first with
  | nil => rfl
  | cons head rest ih =>
    obtain ⟨other, behind⟩ := head
    have hbehind := replace_stretch name value rest (hapart _ List.mem_cons_self)
    have hrest := fun first => ih first fun part hpart => hapart part (List.mem_cons_of_mem _ hpart)
    rw [substituteFrom, restText]
    split_ifs with hname
    · rw [hname, QString.replace_occurrence (placeholder_ne_nil _), hbehind, hrest]
      simp only [List.append_assoc]
    · have hlater : (substituteFrom name.text value behind rest).text = _ := hrest behind
      rw [replace_other hname, hbehind, ← hlater]
      rfl

theorem replace_text {name : Name} {line : TemplateLine} (value : QString)
    (hapart : ∀ stretch ∈ line.stretches, ¬ placeholder name.text <:+: stretch) :
    QString.replace (placeholder name.text) value line.text =
      (line.substitute name.text value).text := by
  have hfirst := replace_stretch name value line.rest (hapart _ List.mem_cons_self)
  have hrest := text_substituteFrom name value line.first line.rest fun part hpart =>
    hapart part.2 (List.mem_cons_of_mem _ (List.mem_map_of_mem hpart))
  exact hfirst.trans hrest.symm

/-! The searches, from the texts. -/

theorem indexIn_last_iff (first : QString) (pos : ℕ) :
    indexIn first pos = none ↔ Unopened (first.drop pos) [] := by
  have hpass := indexFrom_append_iff (first.drop pos) [] pos
  rwa [List.append_nil] at hpass

theorem indexIn_next_iff (first : QString) (name : Name) (behind : QString)
    (rest : List (Name × QString)) (pos : ℕ) :
    indexIn (text ⟨first, (name, behind) :: rest⟩) pos =
        some ⟨first.length, name.text.length + 3, name.text, []⟩ ↔
      pos ≤ first.length ∧ Unopened (first.drop pos) (restText ((name, behind) :: rest)) ∧
        ¬ EndsIn (behind ++ restText rest) := by
  have hhere (start : ℕ) : indexFrom start (restText ((name, behind) :: rest)) =
      some ⟨start, name.text.length + 3, name.text, []⟩ ↔ ¬ EndsIn (behind ++ restText rest) := by
    rw [← longest_placeholder_iff name.nonempty name.unspaced]
    exact indexFrom_here_iff (List.cons_ne_nil _ _) start
  constructor
  · intro h
    have hle : pos ≤ first.length := le_start_of_indexFrom h
    have hpass := h
    rw [indexIn, text, List.drop_append_of_le_length hle] at hpass
    have hsame := indexFrom_append_of_le hpass (by
      rw [List.length_drop, Nat.add_sub_cancel' hle])
    refine ⟨hle, (indexFrom_append_iff _ _ pos).mp hsame, ?_⟩
    rw [hsame, List.length_drop, Nat.add_sub_cancel' hle] at hpass
    exact (hhere first.length).mp hpass
  · rintro ⟨hle, hunopened, hclosed⟩
    rw [indexIn, text, List.drop_append_of_le_length hle,
      (indexFrom_append_iff _ _ pos).mpr hunopened, List.length_drop, Nat.add_sub_cancel' hle]
    exact (hhere first.length).mpr hclosed

variable {value : QString → QString}

theorem settle_of_mem {seen : List QString} {name : Name} (hname : name.text ∈ seen)
    (first behind : QString) (rest : List (Name × QString)) :
    settle value seen first ((name, behind) :: rest) =
      settle value seen (first ++ (value name.text ++ behind)) rest :=
  if_pos (List.contains_iff_mem.mpr hname)

theorem settle_of_notMem {seen : List QString} {name : Name} (hname : name.text ∉ seen)
    (first behind : QString) (rest : List (Name × QString)) :
    settle value seen first ((name, behind) :: rest) =
      ⟨first, (name, (settle value seen behind rest).first) ::
        (settle value seen behind rest).rest⟩ :=
  if_neg (mt List.contains_iff_mem.mp hname)

theorem settle_nil (first : QString) (rest : List (Name × QString)) :
    settle value [] first rest = ⟨first, rest⟩ := by
  induction rest generalizing first with
  | nil => rfl
  | cons head rest ih =>
    obtain ⟨name, behind⟩ := head
    rw [settle_of_notMem List.not_mem_nil, ih]

theorem settle_append (seen : List QString) (a first : QString) (rest : List (Name × QString)) :
    settle value seen (a ++ first) rest =
      ⟨a ++ (settle value seen first rest).first, (settle value seen first rest).rest⟩ := by
  induction rest generalizing first with
  | nil => rfl
  | cons head rest ih =>
    obtain ⟨name, behind⟩ := head
    rw [settle, settle]
    split_ifs with hname
    · rw [List.append_assoc, ih]
    · rfl

theorem settle_cons_of_mem {seen : List QString} {name : QString} (hname : name ∈ seen)
    (first : QString) (rest : List (Name × QString)) :
    settle value (name :: seen) first rest = settle value seen first rest := by
  have hmem (other : QString) : other ∈ name :: seen ↔ other ∈ seen :=
    List.mem_cons.trans (or_iff_right_of_imp fun h => h ▸ hname)
  induction rest generalizing first with
  | nil => rfl
  | cons head rest ih =>
    obtain ⟨other, behind⟩ := head
    by_cases hother : other.text ∈ seen
    · rw [settle_of_mem hother, settle_of_mem ((hmem other.text).mpr hother), ih]
    · rw [settle_of_notMem hother, settle_of_notMem (mt (hmem other.text).mp hother), ih]

theorem substituteFrom_settle (seen : List QString) (name a first : QString)
    (rest : List (Name × QString)) :
    substituteFrom name (value name) (a ++ (settle value seen first rest).first)
        (settle value seen first rest).rest =
      settle value (name :: seen) (a ++ first) rest := by
  induction rest generalizing a first with
  | nil => rfl
  | cons head rest ih =>
    obtain ⟨other, behind⟩ := head
    by_cases hseen : other.text ∈ seen
    · rw [settle_of_mem hseen, settle_of_mem (List.mem_cons_of_mem _ hseen), ih, List.append_assoc]
    · rw [settle_of_notMem hseen, substituteFrom]
      by_cases hname : other.text = name
      · have hmem : other.text ∈ name :: seen := hname ▸ List.mem_cons_self
        have hrest := ih (a ++ (first ++ value name)) behind
        simp only [List.append_assoc] at hrest
        rw [if_pos hname, settle_of_mem hmem, hname, List.append_assoc, List.append_assoc]
        exact hrest
      · have hnotMem : other.text ∉ name :: seen :=
          fun h => (List.mem_cons.mp h).elim hname hseen
        have hlater := ih [] behind
        rw [List.nil_append, List.nil_append] at hlater
        rw [if_neg hname, settle_of_notMem hnotMem, hlater]

theorem reads_last_iff (first : QString) (pos : ℕ) :
    Reads value ⟨first, []⟩ pos ↔ Unopened (first.drop pos) [] := by
  rw [← indexIn_last_iff]
  constructor
  · intro h
    cases h with
    | last found => exact found
  · exact Reads.last

theorem reads_next_iff (first : QString) (name : Name) (behind : QString)
    (rest : List (Name × QString)) (pos : ℕ) :
    Reads value ⟨first, (name, behind) :: rest⟩ pos ↔
      (pos ≤ first.length ∧ Unopened (first.drop pos) (restText ((name, behind) :: rest)) ∧
        ¬ EndsIn (behind ++ restText rest)) ∧
      (∀ stretch ∈ stretches ⟨first, (name, behind) :: rest⟩,
        ¬ placeholder name.text <:+: stretch) ∧
      Reads value (substitute name.text (value name.text) ⟨first, (name, behind) :: rest⟩)
        (first.length + (name.text.length + 3)) := by
  rw [← indexIn_next_iff]
  constructor
  · intro h
    cases h with
    | next found apart later => exact ⟨found, apart, later⟩
  · rintro ⟨found, apart, later⟩
    exact Reads.next found apart later

theorem reads_settle_iff (left : QString) (seen : List QString) (rest : List (Name × QString))
    (pos : ℕ) : Reads value (settle value seen left rest) pos ↔
      ((settle value seen left rest).rest ≠ [] → pos ≤ (settle value seen left rest).first.length) ∧
      Unopened ((settle value seen left rest).first.drop pos)
        (restText (settle value seen left rest).rest) ∧ SeparateFrom value left seen rest := by
  induction rest generalizing left seen pos with
  | nil =>
    have hlast : Reads value (settle value seen left []) pos ↔ Unopened (left.drop pos) [] :=
      reads_last_iff left pos
    rw [hlast]
    exact ⟨fun h => ⟨fun hne => absurd rfl hne, h, trivial⟩, fun h => h.2.1⟩
  | cons head rest ih =>
    obtain ⟨name, behind⟩ := head
    have hnext := ih (left ++ (value name.text ++ behind)) (name.text :: seen)
    rw [SeparateFrom]
    by_cases hseen : name.text ∈ seen
    · have hsettle : settle value seen left ((name, behind) :: rest) =
          settle value (name.text :: seen) (left ++ (value name.text ++ behind)) rest := by
        rw [settle_of_mem hseen, settle_cons_of_mem hseen]
      have hold : (name.text ∉ seen → Separate value left seen name behind rest) :=
        fun h => absurd hseen h
      rw [hsettle, hnext, and_iff_right hold]
    · have hsubstitute : substitute name.text (value name.text)
          ⟨left, (name, (settle value seen behind rest).first) ::
            (settle value seen behind rest).rest⟩ =
          settle value (name.text :: seen) (left ++ (value name.text ++ behind)) rest := by
        rw [← List.append_assoc, ← substituteFrom_settle, substitute, substituteFrom, if_pos rfl,
          List.append_assoc]
      rw [settle_of_notMem hseen, reads_next_iff, hsubstitute, hnext, ← List.append_assoc, settle_append,
        List.append_assoc]
      simp only [List.length_append, Nat.add_le_add_iff_left, List.drop_length_add_append]
      constructor
      · rintro ⟨⟨hpos, hfirst, hclosed⟩, hapart, hreached, hunopened, hrest⟩
        refine ⟨fun _ => hpos, hfirst, fun _ => ⟨hclosed, hapart, ?_, hunopened⟩, hrest⟩
        rwa [List.length_append]
      · rintro ⟨hpos, hfirst, hseparate, hrest⟩
        obtain ⟨hclosed, hapart, hreached, hunopened⟩ := hseparate hseen
        rw [List.length_append] at hreached
        exact ⟨⟨hpos (List.cons_ne_nil _ _), hfirst, hclosed⟩, hapart, hreached, hunopened, hrest⟩

/-- The line is legible if and only if each search finds the next placeholder and no more. -/
theorem reads_iff (line : TemplateLine) : Reads value line 0 ↔ Legible value line := by
  have hreads : Reads value (settle value [] line.first line.rest) 0 ↔ _ :=
    reads_settle_iff line.first [] line.rest 0
  rw [settle_nil] at hreads
  rw [hreads]
  exact ⟨fun ⟨_, hfirst, hrest⟩ => ⟨hfirst, hrest⟩,
    fun h => ⟨fun _ => Nat.zero_le _, h.first, h.rest⟩⟩

theorem Reads.writes {t : Templates} {line : TemplateLine} {pos : ℕ} (h : Reads t.value line pos) :
    t.Writes line.text pos (line.filled t.value) := by
  induction h with
  | @last first pos found =>
    have htext : text ⟨first, []⟩ = first := List.append_nil first
    have hfilled : filled t.value ⟨first, []⟩ = first := List.append_nil first
    rw [htext, hfilled]
    exact Templates.Writes.line found
  | @next first behind name rest pos found apart _ ih =>
    rw [filled_substitute, ← replace_text _ apart] at ih
    exact Templates.Writes.replaced found name.free ih

/-- A file of such lines is printed with every placeholder replaced. -/
theorem prints_filled (t : Templates) {fileName : QString} {lines : List TemplateLine}
    (hfile : t.html fileName = some (lines.map text))
    (hlegible : ∀ line ∈ lines, Legible t.value line) :
    t.Prints fileName (lines.flatMap (filled t.value)) := by
  have hwrites : List.Forall₂ (t.Writes · 0) (lines.map text) (lines.map (filled t.value)) := by
    rw [List.forall₂_map_left_iff, List.forall₂_map_right_iff, List.forall₂_same]
    exact fun line hline => ((reads_iff line).mpr (hlegible line hline)).writes
  have hprints := Templates.Prints.of_lines hfile hwrites
  rwa [← List.flatMap_def] at hprints

def letters : QString := [0x41, 0x42]

theorem unspaced_of_letter {c : UInt16} (hc : c ∈ letters) :
    ∀ d ∈ [c], QString.isSpace d = false := by
  rw [List.forall_mem_singleton]
  rcases List.mem_pair.mp hc with rfl | rfl <;> rfl

theorem unbraced_of_letter {c : UInt16} (hc : c ∈ letters) : 0x7B ∉ [c] ∧ 0x7D ∉ [c] := by
  rcases List.mem_pair.mp hc with rfl | rfl <;> decide

theorem free_of_letter {c : UInt16} (hc : c ∈ letters) : [c] ∉ Templates.reserved := by
  rcases List.mem_pair.mp hc with rfl | rfl <;> decide

def letter (c : UInt16) (hc : c ∈ letters) : Name where
  text := [c]
  nonempty := List.cons_ne_nil _ _
  unspaced := unspaced_of_letter hc
  unopened := (unbraced_of_letter hc).1
  unclosed := (unbraced_of_letter hc).2
  free := free_of_letter hc

def twoLetters (htmlLine : QString) : Templates where
  html _ := some [htmlLine]
  log := none
  heap _ := 0
  context := [(literal "A", literal "1"), (literal "B", literal "23")]

theorem prints_filled_two :
    (twoLetters (literal "\x7b$A\x7d,  \x7b$B\x7d\n")).Prints [] (literal "1,  23\n") :=
  @prints_filled (twoLetters (literal "\x7b$A\x7d,  \x7b$B\x7d\n")) []
    [⟨[], [(letter 0x41 (by decide), literal ",  "), (letter 0x42 (by decide), literal "\n")]⟩] rfl
    (List.forall_mem_singleton.mpr ⟨by decide,
      fun _ => ⟨by decide, by decide, by decide, by decide⟩,
      fun _ => ⟨by decide, by decide, by decide, by decide⟩, trivial⟩)

def Substitutes : Prop :=
  ∀ (t : Templates) (fileName : QString) (line : TemplateLine),
    (∀ stretch ∈ line.stretches, ¬ [0x7B, 0x24] <:+: stretch) →
      (∀ name, ¬ [0x7B, 0x24] <:+: t.value name) → t.html fileName = some [line.text] →
        t.Prints fileName (line.filled t.value)

theorem unopened_twoLetters (htmlLine name : QString) :
    ¬ [0x7B, 0x24] <:+: (twoLetters htmlLine).value name := by
  have hnone : ∀ value ∈ [literal "1", literal "23", []], ¬ [0x7B, 0x24] <:+: value := by decide
  refine hnone _ ?_
  rw [Templates.value, twoLetters, List.lookup_cons, List.lookup_cons, List.lookup_nil]
  split
  · decide
  · split <;> decide

/-- Two placeholders with nothing between them are taken for one of another name. -/
theorem not_substitutes : ¬ Substitutes := by
  intro h
  have hprints : (twoLetters (literal "\x7b$A\x7d\x7b$B\x7d")).Prints [] [] := ⟨3, by decide⟩
  have hfilled := h (twoLetters (literal "\x7b$A\x7d\x7b$B\x7d")) []
    ⟨[], [(letter 0x41 (by decide), []), (letter 0x42 (by decide), [])]⟩
    (by decide) (unopened_twoLetters _) rfl
  exact absurd (hprints.unique hfilled) (by decide)

end TemplateLine

end Alko.Alkod
