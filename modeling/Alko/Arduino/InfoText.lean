import Alko.Arduino.Operations

/-! The status text: fourteen characters in a buffer that each call of `getInfoText` rewrites in
part. A column that has been full or jammed never gets its `_` back. -/

namespace Alko.Arduino

open Alko.Foundation

namespace Sensors

def mark (s : Sensors) (column : ℕ) (character : UInt8) : UInt8 :=
  if s.home column then if s.full column then 0x23 else character else 0x4A

def blank (s : Sensors) (column : ℕ) : Bool := s.home column && !s.full column

theorem mark_eq_of_blank {s : Sensors} {column : ℕ} (h : s.blank column = true)
    (character : UInt8) : s.mark column character = character := by
  rw [blank, Bool.and_eq_true, Bool.not_eq_true'] at h
  rw [mark, if_pos h.1, h.2]
  rfl

theorem mark_ne_of_not_blank {s : Sensors} {column : ℕ} (h : s.blank column = false)
    (character : UInt8) : s.mark column character ≠ 0x5F := by
  unfold blank at h
  unfold mark
  cases hhome : s.home column <;> cases hfull : s.full column <;> simp_all

end Sensors

/-- The text shows the nine columns, the first one rightmost, between the brackets. -/
structure Reflects (s : Sensors) (text : List UInt8) : Prop where
  start : text.take 5 = [0x20, 0x20, 0x20, 0x20, 0x5B]
  finish : text.drop 14 = [0x5D, 0]
  column : ∀ column, 1 ≤ column → column ≤ 9 →
    text[14 - column]? = some
      (if s.home column = false then 0x4A else if s.full column = true then 0x23 else 0x5F)

def texts : List (Sensors × Operation) → Narco → List (Sensors × List UInt8)
  | [], _ => []
  | (s, op) :: history, n =>
    (if op = .getInfoText then [(s, (n.sensing s).getInfoText.1)] else []) ++
      texts history ((n.sensing s).perform op)

def glances (history : List (Sensors × Operation)) : List Sensors :=
  history.filterMap fun call => if call.2 = .getInfoText then some call.1 else none

namespace Narco

theorem isFull_sensing (n : Narco) (s : Sensors) {column : ℕ} (h : 1 ≤ column) (h' : column ≤ 9) :
    (n.sensing s).updateWithJam.isFull column = s.full column := by
  obtain ⟨w, hw, hfull, -⟩ := (n.sensing s).updateWithJam_spec
  have hread := hfull (column - 1) (by omega)
  rw [Nat.sub_add_cancel h] at hread
  rw [isFull_of_mem _ h h', hw, ← readsFull_sensing s n]
  exact hread

theorem isJammed_sensing (n : Narco) (s : Sensors) {column : ℕ} (h : 1 ≤ column)
    (h' : column ≤ 9) : (n.sensing s).updateWithJam.isJammed column = !s.home column := by
  obtain ⟨w, hw, -, hhome, -⟩ := (n.sensing s).updateWithJam_spec
  rw [isJammed_of_mem _ h h', hw, ← readsHome_sensing s n]
  exact hhome column h h'

theorem foldl_mark {n : Narco} {s : Sensors} (a k : ℕ) (ha : 1 ≤ a) (hk : a + k ≤ 10)
    (hfull : ∀ column : ℕ, 1 ≤ column → column ≤ 9 → n.isFull column = s.full column)
    (hjammed : ∀ column : ℕ, 1 ≤ column → column ≤ 9 → n.isJammed column = !s.home column)
    (text : List UInt8) (i : ℕ) :
    ((List.range' a k).foldl
      (fun text (column : ℕ) =>
        let text := if n.isFull column then text.set (14 - column) 0x23 else text
        if n.isJammed column then text.set (14 - column) 0x4A else text) text)[i]? =
      if a ≤ 14 - i ∧ 14 - i < a + k then text[i]?.map (s.mark (14 - i))
      else text[i]? := by
  induction k generalizing a text with
  | zero => rw [if_neg (by omega)]; rfl
  | succ k ih =>
    rw [List.range'_succ, List.foldl_cons, ih (a + 1) (by omega) (by omega)]
    simp only [hfull a ha (by omega), hjammed a ha (by omega)]
    by_cases hi : i = 14 - a
    · subst hi
      have hcolumn : 14 - (14 - a) = a := by omega
      rw [hcolumn, if_neg (show ¬(a + 1 ≤ a ∧ a < a + 1 + k) by omega),
        if_pos (show a ≤ a ∧ a < a + (k + 1) by omega)]
      unfold Sensors.mark
      cases s.home a <;> cases s.full a <;> simp [List.getElem?_set_self', Function.const_def]
    · have hset (b : UInt8) (text : List UInt8) : (text.set (14 - a) b)[i]? = text[i]? :=
        List.getElem?_set_ne (Ne.symm hi)
      have hsame : (if (!s.home a) = true then
          (if s.full a = true then text.set (14 - a) 0x23 else text).set (14 - a) 0x4A
          else if s.full a = true then text.set (14 - a) 0x23 else text)[i]? = text[i]? := by
        cases s.home a <;> cases s.full a <;> simp [hset]
      rw [hsame]
      by_cases hrange : a ≤ 14 - i ∧ 14 - i < a + (k + 1)
      · rw [if_pos hrange, if_pos (by omega)]
      · rw [if_neg hrange, if_neg (by omega)]

end Narco

def repaint (s : Sensors) (text : List UInt8) : List UInt8 :=
  text.mapIdx fun i character =>
    if 1 ≤ 14 - i ∧ 14 - i < 10 then s.mark (14 - i) character else character

theorem Narco.getInfoText_eq (n : Narco) (s : Sensors) :
    (n.sensing s).getInfoText.1 = repaint s n.infoText := by
  have htext : (n.sensing s).updateWithJam.infoText = n.infoText :=
    (n.sensing s).updateWithJam_frame.1
  apply List.ext_getElem?
  intro i
  have hfold := foldl_mark (n := (n.sensing s).updateWithJam) (s := s) 1 9 le_rfl le_rfl
    (fun column h h' => n.isFull_sensing s h h') (fun column h h' => n.isJammed_sensing s h h')
    n.infoText i
  rw [repaint, List.getElem?_mapIdx]
  refine (Eq.trans ?_ hfold).trans ?_
  · rw [← htext]
    rfl
  · split <;> simp

def repaints : List UInt8 → List Sensors → List (Sensors × List UInt8)
  | _, [] => []
  | text, s :: sensors => (s, repaint s text) :: repaints (repaint s text) sensors

/-- Of all that happens to the object only the text itself counts. -/
theorem texts_eq (history : List (Sensors × Operation)) (n : Narco) :
    texts history n = repaints n.infoText (glances history) := by
  induction history generalizing n with
  | nil => rfl
  | cons call history ih =>
    obtain ⟨s, op⟩ := call
    rw [texts, glances, List.filterMap_cons]
    by_cases hop : op = .getInfoText
    · have htext : ((n.sensing s).perform op).infoText = repaint s n.infoText := by
        rw [← n.getInfoText_eq s, hop]
        rfl
      simp only [if_pos hop, repaints]
      rw [ih, htext, n.getInfoText_eq s]
      rfl
    · simp only [if_neg hop, List.nil_append]
      rw [ih, Narco.perform_keeps_infoText hop]
      rfl

structure Framed (text : List UInt8) : Prop where
  length : text.length = 16
  start : text.take 5 = [0x20, 0x20, 0x20, 0x20, 0x5B]
  finish : text.drop 14 = [0x5D, 0]

theorem getElem?_repaint (s : Sensors) (text : List UInt8) {column : ℕ} (h : 1 ≤ column)
    (h' : column ≤ 9) :
    (repaint s text)[14 - column]? = text[14 - column]?.map (s.mark column) := by
  have hindex : 14 - (14 - column) = column := by omega
  rw [repaint, List.getElem?_mapIdx]
  simp only [hindex, if_pos (show 1 ≤ column ∧ column < 10 by omega)]

theorem getElem?_repaint_outside (s : Sensors) (text : List UInt8) {i : ℕ}
    (h : i < 5 ∨ 14 ≤ i) : (repaint s text)[i]? = text[i]? := by
  rw [repaint, List.getElem?_mapIdx]
  simp only [if_neg (show ¬(1 ≤ 14 - i ∧ 14 - i < 10) by omega)]
  exact Option.map_id'

theorem Framed.repaint {text : List UInt8} (h : Framed text) (s : Sensors) :
    Framed (repaint s text) where
  length := by rw [Arduino.repaint, List.length_mapIdx, h.length]
  start := by
    rw [← h.start]
    apply List.ext_getElem?
    intro i
    rw [List.getElem?_take, List.getElem?_take]
    split
    · exact getElem?_repaint_outside s text (by omega)
    · rfl
  finish := by
    rw [← h.finish]
    apply List.ext_getElem?
    intro i
    rw [List.getElem?_drop, List.getElem?_drop]
    exact getElem?_repaint_outside s text (by omega)

/-- A repainted text is right exactly if the columns that are now blank had a `_` before. -/
theorem reflects_repaint_iff {text : List UInt8} (h : Framed text) (s : Sensors) :
    Reflects s (repaint s text) ↔
      ∀ column, 1 ≤ column → column ≤ 9 → s.blank column = true →
        text[14 - column]? = some 0x5F := by
  have hcolumn {column : ℕ} (hpos : 1 ≤ column) (hle : column ≤ 9) :
      (repaint s text)[14 - column]? = some
          (if s.home column = false then 0x4A else if s.full column = true then 0x23 else 0x5F) ↔
        (s.blank column = true → text[14 - column]? = some 0x5F) := by
    obtain ⟨character, hcharacter⟩ : ∃ character, text[14 - column]? = some character := by
      have hbound : 14 - column < text.length := by
        rw [h.length]
        omega
      exact ⟨text[14 - column], List.getElem?_eq_getElem hbound⟩
    rw [getElem?_repaint s text hpos hle, hcharacter]
    unfold Sensors.mark Sensors.blank
    cases s.home column <;> cases s.full column <;> simp
  have hframed := h.repaint s
  constructor
  · exact fun hreflects column hpos hle => (hcolumn hpos hle).mp (hreflects.column column hpos hle)
  · exact fun hblank => ⟨hframed.start, hframed.finish,
      fun column hpos hle => (hcolumn hpos hle).mpr (hblank column hpos hle)⟩

/-- A column that was not blank in a call is not blank in a later one. -/
def Lasting (sensors : List Sensors) : Prop :=
  sensors.Pairwise fun earlier later => ∀ column, 1 ≤ column → column ≤ 9 →
    later.blank column = true → earlier.blank column = true

theorem lasting_cons {s : Sensors} {sensors : List Sensors} :
    Lasting (s :: sensors) ↔ (∀ later ∈ sensors, ∀ column, 1 ≤ column → column ≤ 9 →
      later.blank column = true → s.blank column = true) ∧ Lasting sensors :=
  List.pairwise_cons

theorem reflects_repaints_iff {text : List UInt8} (h : Framed text) (sensors : List Sensors) :
    (∀ call ∈ repaints text sensors, Reflects call.1 call.2) ↔
      (∀ s ∈ sensors, ∀ column, 1 ≤ column → column ≤ 9 → s.blank column = true →
        text[14 - column]? = some 0x5F) ∧ Lasting sensors := by
  induction sensors generalizing text with
  | nil => simp [repaints, Lasting]
  | cons s sensors ih =>
    have hlater (s' : Sensors) {column : ℕ} (hpos : 1 ≤ column) (hle : column ≤ 9) :
        (s'.blank column = true → (repaint s text)[14 - column]? = some 0x5F) ↔
          (s'.blank column = true → s.blank column = true ∧ text[14 - column]? = some 0x5F) := by
      rw [getElem?_repaint s text hpos hle]
      cases hblank : s.blank column with
      | true =>
        rw [show s.mark column = id from funext (Sensors.mark_eq_of_blank hblank), Option.map_id]
        simp
      | false =>
        have hne : text[14 - column]?.map (s.mark column) ≠ some 0x5F := by
          rw [ne_eq, Option.map_eq_some_iff]
          rintro ⟨character, -, hmark⟩
          exact Sensors.mark_ne_of_not_blank hblank character hmark
        simp [hne]
    rw [repaints, List.forall_mem_cons, List.forall_mem_cons, reflects_repaint_iff h,
      ih (h.repaint s), lasting_cons]
    constructor
    · rintro ⟨hnow, hrest, hlasting⟩
      refine ⟨⟨hnow, fun s' hs' column hpos hle hblank => ?_⟩,
        fun s' hs' column hpos hle hblank => ?_, hlasting⟩
      · exact ((hlater s' hpos hle).mp (hrest s' hs' column hpos hle) hblank).2
      · exact ((hlater s' hpos hle).mp (hrest s' hs' column hpos hle) hblank).1
    · rintro ⟨⟨hnow, hrest⟩, hfirst, hlasting⟩
      refine ⟨hnow, fun s' hs' column hpos hle => (hlater s' hpos hle).mpr fun hblank => ?_,
        hlasting⟩
      exact ⟨hfirst s' hs' column hpos hle hblank, hrest s' hs' column hpos hle hblank⟩

theorem framed_new : Framed Narco.emptyInfoText := ⟨rfl, rfl, rfl⟩

/-- From a new object on, every text is right exactly if no column goes blank again. -/
theorem info_text_iff (mcp0 mcp1 : Mcp23017) (history : List (Sensors × Operation)) :
    (∀ call ∈ texts history (Narco.new mcp0 mcp1), Reflects call.1 call.2) ↔
      Lasting (glances history) := by
  rw [texts_eq, show (Narco.new mcp0 mcp1).infoText = Narco.emptyInfoText from rfl,
    reflects_repaints_iff framed_new]
  refine and_iff_right fun s _ column hpos hle _ => ?_
  interval_cases column <;> rfl

def Sensors.filled : Sensors := .steady (fun _ => false) fun _ => false

def Sensors.emptied : Sensors := .steady (fun _ => true) fun p => decide (p < 7)

theorem info_text_stale :
    ¬∀ call ∈ texts [(.filled, .getInfoText), (.emptied, .getInfoText)]
        (Narco.new ⟨0, fun _ _ => true, 0⟩ ⟨0, fun _ _ => true, 0⟩), Reflects call.1 call.2 := by
  intro h
  rw [texts_eq] at h
  have hreflects := h (.emptied, repaint .emptied (repaint .filled Narco.emptyInfoText))
    (List.mem_cons_of_mem _ List.mem_cons_self)
  exact absurd (hreflects.column 1 le_rfl (by decide)) (by decide)

end Alko.Arduino
