import Alko.Arduino.Lcd

/-! The rows of the display over any sequence of calls: each is always 20 characters and a NUL, and
a call puts exactly the text it is given into the row it names. -/

namespace Alko.Arduino.LCD

/-- 20 characters and the NUL that `print` stops at. -/
def IsRow (row : List UInt8) : Prop :=
  ∃ shown : List UInt8, row = shown ++ [0] ∧ shown.length = 20 ∧ 0 ∉ shown

structure Formed (l : LCD) : Prop where
  four : l.text.length = 4
  rows : ∀ row ∈ l.text, IsRow row

/-- The Norwegian letters of Latin-1 and the places of their glyphs in the display's own memory. -/
def glyphs : List (UInt8 × UInt8) := [(230, 1), (198, 2), (248, 3), (216, 4), (229, 5), (197, 6)]

def glyph (c : UInt8) : UInt8 := (glyphs.lookup c).getD c

def taken (text : List UInt8) (length : ℤ) : ℕ :=
  min (min length.toNat 20) (text.findIdx (· = 0))

def shown (text : List UInt8) (length : ℤ) : List UInt8 :=
  (text.take (taken text length)).map glyph ++ List.replicate (20 - taken text length) 0x20

theorem taken_le (text : List UInt8) (length : ℤ) : taken text length ≤ 20 := by
  unfold taken
  omega

theorem taken_le_length (text : List UInt8) (length : ℤ) : taken text length ≤ text.length :=
  (min_le_right _ _).trans List.findIdx_le_length

theorem length_shown (text : List UInt8) (length : ℤ) : (shown text length).length = 20 := by
  have hle := taken_le text length
  have htext := taken_le_length text length
  simp only [shown, List.length_append, List.length_map, List.length_take, List.length_replicate]
  omega

theorem glyph_ne_zero {c : UInt8} (h : c ≠ 0) : glyph c ≠ 0 := by
  unfold glyph
  cases hlookup : glyphs.lookup c with
  | none => exact h
  | some g =>
    have hmem : g ∈ glyphs.map Prod.snd := by
      obtain ⟨before, after, hsplit, -⟩ := List.lookup_eq_some_iff.mp hlookup
      rw [hsplit]
      simp
    rintro rfl
    exact absurd hmem (by decide)

theorem zero_notMem_shown (text : List UInt8) (length : ℤ) : 0 ∉ shown text length := by
  rw [shown, List.mem_append, List.mem_map, List.mem_replicate]
  rintro (⟨c, hc, hzero⟩ | ⟨-, hspace⟩)
  · -- what is taken ends before the first NUL
    obtain ⟨i, hi, rfl⟩ := List.mem_take_iff_getElem.mp hc
    have hbefore : i < text.findIdx (· = 0) := by
      unfold taken at hi
      omega
    have hi : i < text.length := hbefore.trans_le List.findIdx_le_length
    have hne : text[i] ≠ 0 := by simpa using List.not_of_lt_findIdx hbefore
    exact glyph_ne_zero hne hzero
  · exact absurd hspace (by decide)

theorem isRow_shown (text : List UInt8) (length : ℤ) : IsRow (shown text length ++ [0]) :=
  ⟨_, rfl, length_shown text length, zero_notMem_shown text length⟩

theorem copyText_eq_take (text : List UInt8) (length : ℕ) :
    copyText text length = text.take (min length (text.findIdx (· = 0))) := by
  induction text generalizing length with
  | nil => simp [copyText]
  | cons c text ih =>
    cases length with
    | zero => simp [copyText]
    | succ length =>
      by_cases hc : c = 0
      · simp [copyText, hc, List.findIdx_cons]
      · simp [copyText, hc, List.findIdx_cons, ih, Nat.add_min_add_right]

theorem getD_lookup_cons (k v c : UInt8) (table : List (UInt8 × UInt8)) :
    (((k, v) :: table).lookup c).getD c = if c = k then v else (table.lookup c).getD c := by
  by_cases hc : c = k
  · simp [hc]
  · rw [if_neg hc, List.lookup_cons, beq_false_of_ne hc]

theorem norwegianChar_eq_glyph (c : UInt8) : norwegianChar c = glyph c := by
  simp only [norwegianChar, glyph, glyphs, getD_lookup_cons]
  rfl

theorem norwegianChars_pad (copied : List UInt8) (h : copied.length ≤ 20) :
    norwegianChars (copied ++ List.replicate (20 - copied.length) 0x20 ++ [0]) =
      copied.map glyph ++ List.replicate (20 - copied.length) 0x20 ++ [0] := by
  have hpadded : (copied ++ List.replicate (20 - copied.length) (0x20 : UInt8)).length = 20 := by
    rw [List.length_append, List.length_replicate]
    omega
  have hspace : norwegianChar 0x20 = 0x20 := rfl
  rw [norwegianChars, List.take_left' hpadded, List.drop_left' hpadded, List.map_append,
    List.map_replicate, hspace, funext norwegianChar_eq_glyph]

theorem setText_some {length : ℤ} (h : 0 < length) (line : ℕ) (text : List UInt8) (l : LCD) :
    l.setText line (some text) length =
      { l with text := l.text.set (line % 4) (shown text length ++ [0]) } := by
  have hcopied : copyText text (min length 20).toNat = text.take (taken text length) := by
    rw [copyText_eq_take, taken]
    congr 2
    omega
  have hlen : (text.take (taken text length)).length = taken text length :=
    List.length_take_of_le (taken_le_length text length)
  have hpad := norwegianChars_pad (text.take (taken text length))
    (hlen.trans_le (taken_le text length))
  rw [hlen] at hpad
  simp only [setText, if_neg (not_le.mpr h), hcopied, hlen, hpad, shown]

theorem setText_of_nothing {text : Option (List UInt8)} {length : ℤ} (h : text = none ∨ length ≤ 0)
    (line : ℕ) (l : LCD) : l.setText line text length = l := by
  rcases h with rfl | hle
  · rfl
  · cases text with
    | none => rfl
    | some text => rw [setText, if_pos hle]

inductive TextCall
  | clear
  | setText (line : ℕ) (text : Option (List UInt8)) (length : ℤ)
  deriving DecidableEq, Repr

def call (l : LCD) : TextCall → LCD
  | .clear => l.clear
  | .setText line text length => l.setText line text length

def run (calls : List TextCall) (l : LCD) : LCD := calls.foldl call l

theorem formed_clear (l : LCD) : l.clear.Formed where
  four := rfl
  rows row hrow := by
    rw [List.eq_of_mem_replicate hrow]
    exact ⟨_, rfl, List.length_replicate, by decide⟩

theorem Formed.setText {l : LCD} (h : l.Formed) (line : ℕ) (text : Option (List UInt8))
    (length : ℤ) : (l.setText line text length).Formed := by
  by_cases hnothing : text = none ∨ length ≤ 0
  · rwa [setText_of_nothing hnothing]
  · push Not at hnothing
    obtain ⟨text, rfl⟩ := Option.ne_none_iff_exists'.mp hnothing.1
    rw [setText_some hnothing.2]
    refine ⟨?_, fun row hrow => ?_⟩
    · rw [List.length_set]
      exact h.four
    · rcases List.mem_or_eq_of_mem_set hrow with hold | rfl
      · exact h.rows row hold
      · exact isRow_shown text length

theorem formed_run (calls : List TextCall) : (run calls new).Formed := by
  apply List.foldlRecOn calls call (formed_clear _)
  intro l h c _
  cases c with
  | clear => exact formed_clear l
  | setText line text length => exact h.setText line text length

/-- After any calls the four rows are well formed, and the next text goes into its row exactly as it
is to be shown and nowhere else. -/
theorem rows_after_calls (calls : List TextCall) :
    (run calls new).Formed ∧
      ∀ (line : ℕ) (text : Option (List UInt8)) (length : ℤ),
        ((text = none ∨ length ≤ 0) → (run calls new).setText line text length = run calls new) ∧
        ∀ given, text = some given → 0 < length →
          ((run calls new).setText line text length).text[line % 4]? =
              some (shown given length ++ [0]) ∧
            ∀ row, row ≠ line % 4 →
              ((run calls new).setText line text length).text[row]? =
                (run calls new).text[row]? := by
  have hformed := formed_run calls
  refine ⟨hformed, fun line text length => ⟨fun h => setText_of_nothing h line _, ?_⟩⟩
  rintro given rfl hlength
  have hline : line % 4 < (run calls new).text.length := by
    rw [hformed.four]
    exact Nat.mod_lt _ (by decide)
  rw [setText_some hlength]
  refine ⟨List.getElem?_set_self hline, fun row hrow => ?_⟩
  exact List.getElem?_set_ne (Ne.symm hrow)

example : shown [0x50, 248, 0x6C, 0, 0x21] 20 =
    [0x50, 3, 0x6C] ++ List.replicate 17 0x20 := by decide

end Alko.Arduino.LCD
