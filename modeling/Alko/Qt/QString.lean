import Mathlib.Tactic
import Mathlib.Data.List.DropRight

/-! What the daemon uses of `QString`: strings of UTF-16 units, made from UTF-8 bytes. -/

namespace Alko.Qt

abbrev QString := List UInt16

namespace QString

def literal (s : String) : QString := s.toList.map fun c => UInt16.ofNat c.toNat

/-! `fromUtf8`. A byte that starts no valid sequence becomes a replacement character. -/

def follow : ℕ → ℕ → List UInt8 → Option ℕ
  | uc, 0, _ => some uc
  | uc, n + 1, b :: rest =>
    if b &&& 0xC0 = 0x80 then follow (64 * uc + b.toNat % 64) n rest else none
  | _, _ + 1, [] => none

/-- The code point a sequence encodes, and how many bytes follow its first. -/
def decodeHead (b : UInt8) (rest : List UInt8) : Option (ℕ × ℕ) :=
  let checked (uc n minUc : ℕ) : Option (ℕ × ℕ) := do
    let uc ← follow uc n rest
    if uc < minUc ∨ (0xD800 ≤ uc ∧ uc < 0xE000) ∨ 0x10FFFF < uc then none else some (uc, n)
  if b < 0x80 then some (b.toNat, 0)
  else if b ≤ 0xC1 then none
  else if b < 0xE0 then checked (b.toNat % 32) 1 0x80
  else if b < 0xF0 then checked (b.toNat % 16) 2 0x800
  else if b < 0xF5 then checked (b.toNat % 8) 3 0x10000
  else none

def toUtf16 (uc : ℕ) : QString :=
  if uc < 0x10000 then [UInt16.ofNat uc]
  else [UInt16.ofNat (0xD800 + (uc - 0x10000) / 1024), UInt16.ofNat (0xDC00 + (uc - 0x10000) % 1024)]

/-- The first `skip` bytes belong to a sequence already decoded. -/
def decode : ℕ → List UInt8 → QString
  | _, [] => []
  | skip + 1, _ :: rest => decode skip rest
  | 0, b :: rest =>
    match decodeHead b rest with
    | some (uc, n) => toUtf16 uc ++ decode n rest
    | none => 0xFFFD :: decode 0 rest

/-- A leading byte order mark is dropped. -/
def fromUtf8 : List UInt8 → QString
  | 0xEF :: 0xBB :: 0xBF :: bytes => decode 0 bytes
  | bytes => decode 0 bytes

/-- The conversion from `QByteArray`, which stops at a NUL. -/
def ofByteArray (bytes : List UInt8) : QString := fromUtf8 (bytes.takeWhile (· ≠ 0))

/-- Units outside Latin-1 become question marks. -/
def toLatin1 (s : QString) : List UInt8 := s.map fun c => if c < 0x100 then c.toUInt8 else 0x3F

def isSpace (c : UInt16) : Bool :=
  c = 0x20 || (0x09 ≤ c && c ≤ 0x0D) || c = 0x85 || c = 0xA0 || c = 0x1680 ||
    (0x2000 ≤ c && c ≤ 0x200A) || c = 0x2028 || c = 0x2029 || c = 0x202F || c = 0x205F || c = 0x3000

def trimmed (s : QString) : QString := (s.dropWhile isSpace).rdropWhile isSpace

def split (s : QString) : List QString := s.splitOn 0x20

def rightJustified (width : ℕ) (s : QString) : QString :=
  if s.length ≤ width then List.replicate (width - s.length) 0x20 ++ s else s.take width

def leftToInt : QString → Option ℕ
  | [] => none
  | c :: _ => if 0x30 ≤ c ∧ c ≤ 0x39 then some (c.toNat - 0x30) else none

def indexOf (c : UInt16) (s : QString) : ℤ :=
  match s.findIdx? (· = c) with
  | some i => i
  | none => -1

def left (n : ℤ) (s : QString) : QString := if n < 0 then s else s.take n.toNat

def right (n : ℕ) (s : QString) : QString := s.rtake n

/-- A negative `n` takes all there is. -/
def mid (position : ℕ) (n : ℤ) (s : QString) : QString :=
  if s.length < position then [] else left n (s.drop position)

/-- The letters of ASCII; no other letter has one of them for its lower case but the Kelvin sign,
and no string the daemon looks up has a `k`. -/
def toLower (s : QString) : QString :=
  s.map fun c => if 0x41 ≤ c ∧ c ≤ 0x5A then c + 0x20 else c

def isSurrogate (c : UInt16) : Bool := 0xD800 ≤ c && c ≤ 0xDFFF

def utf8Of (uc : ℕ) : List UInt8 :=
  if uc < 0x80 then [UInt8.ofNat uc]
  else if uc < 0x800 then [UInt8.ofNat (0xC0 + uc / 64), UInt8.ofNat (0x80 + uc % 64)]
  else if uc < 0x10000 then
    [UInt8.ofNat (0xE0 + uc / 4096), UInt8.ofNat (0x80 + uc / 64 % 64),
      UInt8.ofNat (0x80 + uc % 64)]
  else
    [UInt8.ofNat (0xF0 + uc / 262144), UInt8.ofNat (0x80 + uc / 4096 % 64),
      UInt8.ofNat (0x80 + uc / 64 % 64), UInt8.ofNat (0x80 + uc % 64)]

/-- `toLocal8Bit` where the locale is UTF-8; a surrogate alone becomes a question mark. -/
def toUtf8 : QString → List UInt8
  | [] => []
  | [c] => if isSurrogate c then [0x3F] else utf8Of c.toNat
  | c :: d :: s =>
    if 0xD800 ≤ c ∧ c ≤ 0xDBFF ∧ 0xDC00 ≤ d ∧ d ≤ 0xDFFF then
      utf8Of (0x10000 + (c.toNat - 0xD800) * 1024 + (d.toNat - 0xDC00)) ++ toUtf8 s
    else if isSurrogate c then 0x3F :: toUtf8 (d :: s)
    else utf8Of c.toNat ++ toUtf8 (d :: s)

def hexValue (b : UInt8) : UInt8 :=
  if 0x30 ≤ b ∧ b ≤ 0x39 then b - 0x30
  else if 0x61 ≤ b ∧ b ≤ 0x66 then b - 0x61 + 10
  else if 0x41 ≤ b ∧ b ≤ 0x46 then b - 0x41 + 10
  else b

def percentDecoded : List UInt8 → List UInt8
  | 0x25 :: a :: b :: bytes => ((hexValue a <<< 4) ||| hexValue b) :: percentDecoded bytes
  | b :: bytes => b :: percentDecoded bytes
  | [] => []

def fromPercentEncoding (bytes : List UInt8) : QString := fromUtf8 (percentDecoded bytes)

theorem leftToInt_eq_some {s : QString} {n : ℕ} (h : s.leftToInt = some n) :
    s.head? = some (UInt16.ofNat (0x30 + n)) := by
  cases s with
  | nil => cases h
  | cons c s =>
    simp only [leftToInt] at h
    split_ifs at h with hdigit
    obtain rfl := Option.some.inj h
    have hle : 0x30 ≤ c.toNat := UInt16.le_iff_toNat_le.mp hdigit.1
    rw [List.head?_cons, Nat.add_sub_cancel' hle, UInt16.ofNat_toNat]

theorem decode_ascii {b : UInt8} (h : b < 0x80) (rest : List UInt8) :
    decode 0 (b :: rest) = UInt16.ofNat b.toNat :: decode 0 rest := by
  have hlt : b.toNat < 128 := UInt8.lt_iff_toNat_lt.mp h
  have hhead : decodeHead b rest = some (b.toNat, 0) := by
    unfold decodeHead
    rw [if_pos h]
  have hunit : toUtf16 b.toNat = [UInt16.ofNat b.toNat] := if_pos (by omega)
  simp only [decode, hhead, hunit, List.singleton_append]

theorem ofByteArray_ascii {b : UInt8} (hnul : b ≠ 0) (h : b < 0x80) (rest : List UInt8) :
    ofByteArray (b :: rest) = UInt16.ofNat b.toNat :: decode 0 (rest.takeWhile (· ≠ 0)) := by
  rw [ofByteArray, List.takeWhile_cons_of_pos (by simpa using hnul), fromUtf8, decode_ascii h]
  intro bytes hmark
  rw [(List.cons.inj hmark).1] at h
  exact absurd h (by decide)

theorem leftToInt_ofByteArray {bytes : List UInt8} {n : ℕ} (hn : n < 10)
    (h : bytes.head? = some (UInt8.ofNat (0x30 + n))) :
    (ofByteArray bytes).leftToInt = some n := by
  cases bytes with
  | nil => cases h
  | cons b rest =>
    obtain rfl := Option.some.inj h
    rw [ofByteArray_ascii, leftToInt]
    · interval_cases n <;> rfl
    · interval_cases n <;> decide
    · interval_cases n <;> decide

end QString

end Alko.Qt
