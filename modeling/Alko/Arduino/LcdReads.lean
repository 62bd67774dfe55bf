import Alko.Arduino.Dixie

/-! What `setText` reads of memory while it copies a text of which it is given the address and the
length, when the text is the data of a received datagram. -/

namespace Alko.Arduino

namespace Datagram

def buffer (refs : UInt8) (d : Datagram) : List UInt8 := refs :: d.toBytes

/-- The bytes at `m_dptr` and after, whatever lies `beyond` the buffer. -/
def memory (refs : UInt8) (beyond : ℕ → UInt8) (d : Datagram) (address : ℕ) : UInt8 :=
  (d.buffer refs).getD address (beyond address)

def dataPtr (d : Datagram) : Option ℕ := if 0 < d.getDataSize then some 9 else none

theorem getElem?_data (refs : UInt8) (beyond : ℕ → UInt8) (d : Datagram) {i : ℕ}
    (hi : i < d.data.length) : d.data[i]? = some (d.memory refs beyond (9 + i)) := by
  have hget : d.memory refs beyond (i + 9) = d.data[i]?.getD (beyond (i + 9)) := rfl
  rw [Nat.add_comm, hget, List.getElem?_eq_getElem hi, Option.getD_some]

end Datagram

namespace LCD

/-- `while (*text && length--) *dst++ = *text++;`: the characters copied, and every address read
on the way. -/
def copyLoop (memory : ℕ → UInt8) (text : ℕ) : ℕ → List UInt8 × List ℕ
  -- the character is looked at before the count
  | 0 => ([], [text])
  | length + 1 =>
    if memory text = 0 then ([], [text])
    else
      let rest := copyLoop memory (text + 1) length
      (memory text :: rest.1, text :: text :: rest.2)

def setTextFrom (memory : ℕ → UInt8) (line : ℕ) (text : Option ℕ) (length : ℤ) (l : LCD) :
    LCD × List ℕ :=
  match text with
  | none => (l, [])
  | some text =>
    if length ≤ 0 then (l, [])
    else
      let (copied, reads) := copyLoop memory text (min length 20).toNat
      let row := copied ++ List.replicate (20 - copied.length) 0x20 ++ [0]
      ({ l with text := l.text.set (line % 4) (norwegianChars row) }, reads)

theorem mem_copyLoop_snd (memory : ℕ → UInt8) (text length a : ℕ) :
    a ∈ (copyLoop memory text length).2 ↔
      text ≤ a ∧ a ≤ text + length ∧ ∀ b, text ≤ b → b < a → memory b ≠ 0 := by
  induction length generalizing text with
  | zero =>
    rw [copyLoop, List.mem_singleton]
    constructor
    · rintro rfl
      exact ⟨le_rfl, le_rfl, fun b hle hlt => absurd hlt (not_lt.mpr hle)⟩
    · rintro ⟨hle, hge, -⟩
      exact le_antisymm hge hle
  | succ length ih =>
    have hfirst : text ≤ text ∧ text ≤ text + (length + 1) ∧
        ∀ b, text ≤ b → b < text → memory b ≠ 0 :=
      ⟨le_rfl, Nat.le_add_right _ _, fun b hle hlt => absurd hlt (not_lt.mpr hle)⟩
    rw [copyLoop]
    split
    · rename_i hzero
      rw [List.mem_singleton]
      constructor
      · rintro rfl
        exact hfirst
      · rintro ⟨hle, -, hnonzero⟩
        by_contra hne
        exact hnonzero text le_rfl (lt_of_le_of_ne hle (Ne.symm hne)) hzero
    · rename_i hzero
      simp only [List.mem_cons, ih]
      constructor
      · rintro (rfl | rfl | ⟨hle, hge, hnonzero⟩)
        · exact hfirst
        · exact hfirst
        · refine ⟨by omega, by omega, fun b hb hlt => ?_⟩
          rcases Nat.eq_or_lt_of_le hb with rfl | hgt
          · exact hzero
          · exact hnonzero b hgt hlt
      · rintro ⟨hle, hge, hnonzero⟩
        rcases Nat.eq_or_lt_of_le hle with rfl | hgt
        · exact Or.inl rfl
        · exact Or.inr (Or.inr ⟨hgt, by omega, fun b hb hlt => hnonzero b (by omega) hlt⟩)

theorem copyLoop_fst (memory : ℕ → UInt8) (text : ℕ) (data : List UInt8) (length : ℕ)
    (hdata : ∀ i < length, data[i]? = some (memory (text + i))) :
    (copyLoop memory text length).1 = copyText data length := by
  induction length generalizing text data with
  | zero => cases data <;> rfl
  | succ length ih =>
    cases data with
    | nil => exact absurd (hdata 0 (Nat.succ_pos _)) (by simp)
    | cons c data =>
      have hc : c = memory text := Option.some.inj (hdata 0 (Nat.succ_pos _))
      have hrest : (copyLoop memory (text + 1) length).1 = copyText data length := by
        apply ih
        intro i hi
        rw [Nat.add_assoc, Nat.add_comm 1]
        exact hdata (i + 1) (Nat.succ_lt_succ hi)
      rw [copyLoop, copyText, hc, ← hrest]
      split <;> rfl

theorem setTextFrom_fst (refs : UInt8) (beyond : ℕ → UInt8) (d : Datagram) (line : ℕ) (l : LCD) :
    (l.setTextFrom (d.memory refs beyond) line d.dataPtr d.getDataSize).1 =
      l.setText line d.getData d.getDataSize := by
  by_cases hsize : 0 < d.getDataSize
  · have hlength : ¬((d.getDataSize : ℤ) ≤ 0) := by omega
    have hcopied : (copyLoop (d.memory refs beyond) 9 (min (d.getDataSize : ℤ) 20).toNat).1 =
        copyText d.data (min (d.getDataSize : ℤ) 20).toNat := by
      apply copyLoop_fst
      intro i hi
      apply d.getElem?_data
      have hlen : d.getDataSize = d.data.length := rfl
      omega
    rw [Datagram.dataPtr, Datagram.getData, if_pos hsize, if_pos hsize, setTextFrom, setText,
      if_neg hlength, if_neg hlength]
    simp only [hcopied]
  · rw [Datagram.dataPtr, Datagram.getData, if_neg hsize, if_neg hsize]
    rfl

end LCD

/-- So the handler's model, which is given the data as a list, leaves nothing else out. -/
theorem Dixie.setText_eq_setTextFrom (refs : UInt8) (beyond : ℕ → UInt8) (dgr : Datagram)
    (line : ℕ) (d : Dixie) :
    d.setText line dgr = d.onLcd fun l =>
      (l.setTextFrom (dgr.memory refs beyond) line dgr.dataPtr dgr.getDataSize).1 := by
  rw [Dixie.setText]
  congr 1
  funext l
  exact (l.setTextFrom_fst refs beyond dgr line).symm

namespace LCD

variable (refs : UInt8) (beyond : ℕ → UInt8) (d : Datagram) (line : ℕ) (l : LCD)

theorem setTextFrom_snd (h : d.data ≠ []) :
    (l.setTextFrom (d.memory refs beyond) line d.dataPtr d.getDataSize).2 =
      (copyLoop (d.memory refs beyond) 9 (min d.data.length 20)).2 := by
  have hsize : 0 < d.getDataSize := List.length_pos_iff.mpr h
  have hlength : ¬((d.getDataSize : ℤ) ≤ 0) := by omega
  have hmin : (min (d.getDataSize : ℤ) 20).toNat = min d.data.length 20 := by
    rw [Datagram.getDataSize]
    omega
  rw [Datagram.dataPtr, if_pos hsize, setTextFrom, if_neg hlength, hmin]

theorem reads_past_data (h : d.data ≠ []) (hnul : 0 ∉ d.data) (hlen : d.data.length ≤ 20) :
    9 + d.data.length ∈ (l.setTextFrom (d.memory refs beyond) line d.dataPtr d.getDataSize).2 := by
  rw [setTextFrom_snd refs beyond d line l h, mem_copyLoop_snd]
  refine ⟨Nat.le_add_right _ _, by omega, fun b hb hlt hzero => hnul ?_⟩
  obtain ⟨i, rfl⟩ := Nat.exists_eq_add_of_le hb
  have hget := d.getElem?_data refs beyond (i := i) (by omega)
  rw [hzero] at hget
  exact List.mem_of_getElem? hget

/-- What a command to write a row reads of memory stays within the data exactly if the loop meets
a NUL or has filled the row before it comes to the end of the data. -/
theorem setText_reads_data_iff :
    (∀ a ∈ (l.setTextFrom (d.memory refs beyond) line d.dataPtr d.getDataSize).2,
      9 ≤ a ∧ a < 9 + d.data.length) ↔
      d.data = [] ∨ 0 ∈ d.data ∨ 20 < d.data.length := by
  constructor
  · intro hwithin
    by_contra hnot
    push Not at hnot
    obtain ⟨hne, hnul, hlen⟩ := hnot
    exact absurd (hwithin _ (reads_past_data refs beyond d line l hne hnul hlen)).2 (lt_irrefl _)
  · intro hstop a ha
    by_cases hne : d.data = []
    · have hsize : ¬0 < d.getDataSize := by simp [Datagram.getDataSize, hne]
      rw [Datagram.dataPtr, if_neg hsize] at ha
      exact absurd ha List.not_mem_nil
    · rw [setTextFrom_snd refs beyond d line l hne, mem_copyLoop_snd] at ha
      obtain ⟨hle, hge, hnonzero⟩ := ha
      refine ⟨hle, ?_⟩
      rcases hstop with hnil | hnul | hlen
      · exact absurd hnil hne
      · obtain ⟨i, hi⟩ := List.mem_iff_getElem?.mp hnul
        have hlt : i < d.data.length := (List.getElem?_eq_some_iff.mp hi).1
        rw [d.getElem?_data refs beyond hlt] at hi
        -- the NUL is at `9 + i`, and nothing behind it is read
        by_contra hpast
        exact hnonzero (9 + i) (by omega) (by omega) (Option.some.inj hi)
      · omega

theorem one_letter_read_past : ¬∀ (refs : UInt8) (beyond : ℕ → UInt8) (d : Datagram) (line : ℕ)
    (l : LCD), 1 ≤ d.data.length → d.data.length ≤ 24 →
      ∀ a ∈ (l.setTextFrom (d.memory refs beyond) line d.dataPtr d.getDataSize).2,
        9 ≤ a ∧ a < 9 + d.data.length := by
  intro h
  have hread := h 1 (fun _ => 0) ⟨1, 0, Cmd.setText0.toByte, [0x41]⟩ 0 LCD.new (by decide)
    (by decide) 10 (by decide)
  exact absurd hread.2 (by decide)

end LCD

end Alko.Arduino
