import Mathlib.Tactic

/-! The 16-bit ones'-complement checksum of a byte string, taken over little-endian words with a
32-bit accumulator, and the arithmetic that says when a sealed string sums to zero. -/

namespace Alko.Foundation

def sumWords : UInt32 → List UInt8 → UInt32
  | sum, lo :: hi :: rest => sumWords (sum + (lo.toUInt32 + 256 * hi.toUInt32)) rest
  | sum, [b] => sum + b.toUInt32
  | sum, [] => sum

theorem toNat_shiftRight_16 (sum : UInt32) :
    (sum >>> (16 : UInt32)).toNat = sum.toNat / 65536 := by
  simp [Nat.shiftRight_eq_div_pow]

theorem toNat_and_0xffff (sum : UInt32) :
    (sum &&& (0xffff : UInt32)).toNat = sum.toNat % 65536 := by
  rw [UInt32.toNat_and]
  exact Nat.and_two_pow_sub_one_eq_mod sum.toNat 16

theorem toNat_foldStep (sum : UInt32) :
    ((sum &&& (0xffff : UInt32)) + (sum >>> (16 : UInt32))).toNat =
      sum.toNat % 65536 + sum.toNat / 65536 := by
  have hlt := sum.toNat_lt
  rw [UInt32.toNat_add, toNat_and_0xffff, toNat_shiftRight_16]
  exact Nat.mod_eq_of_lt (by omega)

theorem shiftRight_16_eq_zero_iff (sum : UInt32) :
    sum >>> (16 : UInt32) = 0 ↔ sum.toNat < 65536 := by
  rw [← UInt32.toNat_inj, toNat_shiftRight_16, UInt32.toNat_zero]
  omega

/-- `while (sum >> 16) sum = (sum & 0xffff) + (sum >> 16)`. -/
def foldCarry (sum : UInt32) : UInt32 :=
  if sum >>> (16 : UInt32) = 0 then sum
  else foldCarry ((sum &&& (0xffff : UInt32)) + (sum >>> (16 : UInt32)))
termination_by sum.toNat
decreasing_by
  rename_i h
  rw [shiftRight_16_eq_zero_iff] at h
  rw [toNat_foldStep]
  omega

def checksum (bytes : List UInt8) : UInt16 := (~~~ foldCarry (sumWords 0 bytes)).toUInt16

/-! The same sum over the natural numbers, where nothing wraps. -/

def wordSum : List UInt8 → ℕ
  | lo :: hi :: rest => lo.toNat + 256 * hi.toNat + wordSum rest
  | [b] => b.toNat
  | [] => 0

theorem wordSum_le (bytes : List UInt8) : wordSum bytes ≤ 65535 * bytes.length := by
  induction bytes using wordSum.induct with
  | case1 lo hi rest ih =>
    have hlo := lo.toNat_lt
    have hhi := hi.toNat_lt
    simp only [wordSum, List.length_cons]
    omega
  | case2 b =>
    have hb := b.toNat_lt
    simp only [wordSum, List.length_singleton]
    omega
  | case3 => simp [wordSum]

theorem toNat_word (lo hi : UInt8) :
    (lo.toUInt32 + 256 * hi.toUInt32).toNat = lo.toNat + 256 * hi.toNat := by
  have hlo := lo.toNat_lt
  have hhi := hi.toNat_lt
  simp only [UInt32.toNat_add, UInt32.toNat_mul, UInt8.toNat_toUInt32, UInt32.reduceToNat]
  omega

/-- The 32-bit accumulator holds the exact sum as long as that sum fits. -/
theorem toNat_sumWords (sum : UInt32) (bytes : List UInt8)
    (h : sum.toNat + wordSum bytes < 2 ^ 32) :
    (sumWords sum bytes).toNat = sum.toNat + wordSum bytes := by
  induction bytes using wordSum.induct generalizing sum with
  | case1 lo hi rest ih =>
    simp only [wordSum] at h
    have hs : (sum + (lo.toUInt32 + 256 * hi.toUInt32)).toNat =
        sum.toNat + (lo.toNat + 256 * hi.toNat) := by
      rw [UInt32.toNat_add, toNat_word]
      exact Nat.mod_eq_of_lt (by omega)
    rw [sumWords, ih _ (by omega), hs, wordSum]
    omega
  | case2 b =>
    simp only [wordSum] at h
    rw [sumWords, UInt32.toNat_add, UInt8.toNat_toUInt32, wordSum]
    exact Nat.mod_eq_of_lt h
  | case3 => rfl

theorem toNat_sumWords_zero {bytes : List UInt8} (h : bytes.length ≤ 65536) :
    (sumWords 0 bytes).toNat = wordSum bytes := by
  have hle := wordSum_le bytes
  have hs := toNat_sumWords 0 bytes (by simp only [UInt32.toNat_zero]; omega)
  simpa using hs

def foldStep (sum : UInt32) : UInt32 := (sum &&& (0xffff : UInt32)) + (sum >>> (16 : UInt32))

theorem foldCarry_of_lt {sum : UInt32} (h : sum.toNat < 65536) : foldCarry sum = sum := by
  rw [foldCarry, if_pos ((shiftRight_16_eq_zero_iff sum).mpr h)]

theorem foldCarry_foldStep {sum : UInt32} (h : ¬ sum.toNat < 65536) :
    foldCarry sum = foldCarry (foldStep sum) := by
  rw [foldCarry, if_neg (mt (shiftRight_16_eq_zero_iff sum).mp h), foldStep]

/-- The loop is over after two rounds at most, whatever the accumulator holds. -/
theorem foldCarry_rounds (sum : UInt32) :
    ∃ rounds ≤ 2, foldStep^[rounds] sum >>> (16 : UInt32) = 0 ∧
      foldCarry sum = foldStep^[rounds] sum := by
  have hlt := sum.toNat_lt
  have hone := toNat_foldStep sum
  have htwo := toNat_foldStep (foldStep sum)
  rw [← foldStep] at hone htwo
  simp only [shiftRight_16_eq_zero_iff]
  by_cases hzero : sum.toNat < 65536
  · exact ⟨0, by decide, hzero, foldCarry_of_lt hzero⟩
  · by_cases hfirst : (foldStep sum).toNat < 65536
    · refine ⟨1, by decide, hfirst, ?_⟩
      rw [foldCarry_foldStep hzero, foldCarry_of_lt hfirst]
      rfl
    · have hsecond : (foldStep (foldStep sum)).toNat < 65536 := by omega
      refine ⟨2, by decide, hsecond, ?_⟩
      rw [foldCarry_foldStep hzero, foldCarry_foldStep hfirst, foldCarry_of_lt hsecond]
      rfl

theorem foldCarry_lt (sum : UInt32) : (foldCarry sum).toNat < 65536 := by
  induction sum using foldCarry.induct with
  | case1 sum h => rwa [foldCarry, if_pos h, ← shiftRight_16_eq_zero_iff]
  | case2 sum h ih => rwa [foldCarry, if_neg h]

theorem foldCarry_mod (sum : UInt32) : (foldCarry sum).toNat % 65535 = sum.toNat % 65535 := by
  induction sum using foldCarry.induct with
  | case1 sum h => rw [foldCarry, if_pos h]
  | case2 sum h ih =>
    rw [foldCarry, if_neg h, ih, toNat_foldStep]
    omega

/-- `while (count > 1) sum += *buffer++, count -= 2; if (count > 0) sum += *(uint8_t *)buffer;` -/
def sumBuffer : ℕ → List UInt8 → UInt32 → UInt32
  | count + 2, lo :: hi :: buffer, sum =>
    sumBuffer count buffer (sum + (lo.toUInt32 + 256 * hi.toUInt32))
  | _ + 1, b :: _, sum => sum + b.toUInt32
  | _, _, sum => sum

theorem sumBuffer_eq (count : ℕ) (buffer : List UInt8) (sum : UInt32) :
    sumBuffer count buffer sum = sumWords sum (buffer.take count) := by
  induction count, buffer, sum using sumBuffer.induct with
  | case1 count lo hi buffer sum ih =>
    rw [sumBuffer, ih, List.take_succ_cons, List.take_succ_cons, sumWords]
  | case2 count b buffer sum hshort =>
    rcases count with _ | count
    · rfl
    · cases buffer with
      | nil => rfl
      | cons hi buffer => exact (hshort count hi buffer rfl rfl).elim
  | case3 count buffer sum _ hbyte =>
    cases count with
    | zero => rfl
    | succ count =>
      cases buffer with
      | nil => simp [sumBuffer, sumWords]
      | cons b buffer => exact (hbyte count b buffer rfl rfl).elim

theorem toNat_sumBuffer {count : ℕ} {buffer : List UInt8} (h : buffer.length ≤ 65536) :
    (sumBuffer count buffer 0).toNat = wordSum (buffer.take count) := by
  rw [sumBuffer_eq]
  exact toNat_sumWords_zero ((List.length_take_le' ..).trans h)

theorem foldCarry_eq_zero_iff (sum : UInt32) : (foldCarry sum).toNat = 0 ↔ sum.toNat = 0 := by
  induction sum using foldCarry.induct with
  | case1 sum h => rw [foldCarry, if_pos h]
  | case2 sum h ih =>
    rw [shiftRight_16_eq_zero_iff] at h
    rw [foldCarry, if_neg (by rwa [shiftRight_16_eq_zero_iff]), ih, toNat_foldStep]
    omega

theorem toNat_checksum (bytes : List UInt8) :
    (checksum bytes).toNat = 65535 - (foldCarry (sumWords 0 bytes)).toNat := by
  have hlt := foldCarry_lt (sumWords 0 bytes)
  simp only [checksum, UInt32.toNat_toUInt16, UInt32.toNat_not, UInt32.size]
  omega

theorem checksum_eq_zero_iff {bytes : List UInt8} (h : bytes.length ≤ 65536) :
    checksum bytes = 0 ↔ wordSum bytes ≠ 0 ∧ wordSum bytes % 65535 = 0 := by
  have hlt := foldCarry_lt (sumWords 0 bytes)
  have hmod := foldCarry_mod (sumWords 0 bytes)
  have hzero := foldCarry_eq_zero_iff (sumWords 0 bytes)
  rw [toNat_sumWords_zero h] at hmod hzero
  rw [← UInt16.toNat_inj, toNat_checksum, UInt16.toNat_zero]
  omega

theorem wordSum_cons (b : UInt8) (rest : List UInt8) :
    wordSum (b :: rest) = b.toNat + wordSum (0 :: rest) := by
  cases rest with
  | nil => simp [wordSum]
  | cons c rest => simp [wordSum, Nat.add_assoc]

/-- A big-endian field behind an odd number of bytes straddles two words, and still adds its own
value to the sum: its high byte is a word's high byte, its low byte a word's low byte. -/
theorem wordSum_field (pre rest : List UInt8) (hi lo : UInt8) (h : pre.length % 2 = 1) :
    wordSum (pre ++ hi :: lo :: rest) =
      wordSum (pre ++ 0 :: 0 :: rest) + (256 * hi.toNat + lo.toNat) := by
  induction pre using wordSum.induct with
  | case1 a b pre ih =>
    have hih := ih (by simp only [List.length_cons] at h; omega)
    simp only [List.cons_append, wordSum, hih]
    omega
  | case2 b =>
    simp only [List.cons_append, List.nil_append, wordSum, wordSum_cons lo rest]
    simp only [UInt8.toNat_zero]
    omega
  | case3 => simp at h

/-- Storing the checksum of the zeroed string big-endian in its field makes the whole string sum
to zero. -/
theorem checksum_sealed {pre rest : List UInt8} (hodd : pre.length % 2 = 1)
    (hlen : (pre ++ 0 :: 0 :: rest).length ≤ 65536) {hi lo : UInt8}
    (hfield : 256 * hi.toNat + lo.toNat = (checksum (pre ++ 0 :: 0 :: rest)).toNat) :
    checksum (pre ++ hi :: lo :: rest) = 0 := by
  have hlt := foldCarry_lt (sumWords 0 (pre ++ 0 :: 0 :: rest))
  have hmod := foldCarry_mod (sumWords 0 (pre ++ 0 :: 0 :: rest))
  have hzero := foldCarry_eq_zero_iff (sumWords 0 (pre ++ 0 :: 0 :: rest))
  rw [toNat_sumWords_zero hlen] at hmod hzero
  rw [toNat_checksum] at hfield
  rw [checksum_eq_zero_iff (by simpa using hlen), wordSum_field _ _ _ _ hodd]
  -- the complement of the folded sum is what the sum lacks to a multiple of 65535
  omega

/-- What a byte at this offset counts: it is the low or the high byte of its word. -/
def byteWeight (i : ℕ) : ℕ := if i % 2 = 0 then 1 else 256

theorem byteWeight_zero : byteWeight 0 = 1 := rfl

theorem byteWeight_one : byteWeight 1 = 256 := rfl

theorem byteWeight_add_two (i : ℕ) : byteWeight (i + 2) = byteWeight i := by
  rw [byteWeight, byteWeight, Nat.add_mod_right]

theorem wordSum_set {bytes : List UInt8} {i : ℕ} (h : i < bytes.length) (b : UInt8) :
    wordSum (bytes.set i b) + byteWeight i * bytes[i].toNat =
      wordSum bytes + byteWeight i * b.toNat := by
  induction bytes using wordSum.induct generalizing i with
  | case1 lo hi rest ih =>
    match i with
    | 0 =>
      simp only [List.set_cons_zero, wordSum, List.getElem_cons_zero, byteWeight_zero]
      omega
    | 1 =>
      simp only [List.set_cons_succ, List.set_cons_zero, wordSum, List.getElem_cons_succ,
        List.getElem_cons_zero, byteWeight_one]
      omega
    | i + 2 =>
      have hrest := ih (show i < rest.length by simpa using h)
      simp only [List.set_cons_succ, wordSum, List.getElem_cons_succ, byteWeight_add_two]
      omega
  | case2 c =>
    obtain rfl : i = 0 := by simpa using h
    simp only [List.set_cons_zero, wordSum, List.getElem_cons_zero, byteWeight_zero]
    omega
  | case3 => cases h

/-- A byte changes the sum by less than the modulus, so one change never goes unnoticed. -/
theorem checksum_set_ne_zero {bytes : List UInt8} (hlen : bytes.length ≤ 65536)
    (hzero : checksum bytes = 0) {i : ℕ} (h : i < bytes.length) {b : UInt8} (hne : b ≠ bytes[i]) :
    checksum (bytes.set i b) ≠ 0 := by
  have hb := b.toNat_lt
  have hold := bytes[i].toNat_lt
  have hdiffers : b.toNat ≠ bytes[i].toNat := fun hsame => hne (UInt8.toNat_inj.mp hsame)
  have hset := wordSum_set h b
  have hmod := ((checksum_eq_zero_iff hlen).mp hzero).2
  rw [ne_eq, checksum_eq_zero_iff (by rwa [List.length_set]), not_and]
  intro _
  unfold byteWeight at hset
  split_ifs at hset <;> omega

end Alko.Foundation
