import Alko.Qt.QString

/-! Searching a string from its end, replacing in it, and numbers in hexadecimal. -/

namespace Alko.Qt.QString

theorem takeWhile_ne_append {α : Type*} [DecidableEq α] {c : α} {l : List α} (h : c ∉ l)
    (behind : List α) : (l ++ c :: behind).takeWhile (· ≠ c) = l := by
  rw [List.takeWhile_append_of_pos fun d hd => by simpa using ne_of_mem_of_not_mem hd h]
  simp

theorem append_cons_inj {α : Type*} [DecidableEq α] {c : α} {l l' behind behind' : List α}
    (hl : c ∉ l) (hl' : c ∉ l') (h : l ++ c :: behind = l' ++ c :: behind') :
    l = l' ∧ behind = behind' := by
  have hcut := congrArg (List.takeWhile (· ≠ c)) h
  rw [takeWhile_ne_append hl, takeWhile_ne_append hl'] at hcut
  rw [hcut, List.append_cancel_left_eq] at h
  exact ⟨hcut, (List.cons.inj h).2⟩

def lastIndexOf (c : UInt16) (s : QString) : ℤ :=
  match s.reverse.findIdx? (· = c) with
  | some i => s.length - 1 - i
  | none => -1

theorem lastIndexOf_append {c : UInt16} {behind : QString} (h : c ∉ behind) (before : QString) :
    lastIndexOf c (before ++ c :: behind) = before.length := by
  have hnone : behind.reverse.findIdx? (· = c) = none := by
    refine List.findIdx?_eq_none_iff.mpr fun d hd => decide_eq_false ?_
    rintro rfl
    exact h (List.mem_reverse.mp hd)
  have hfind : (before ++ c :: behind).reverse.findIdx? (· = c) = some behind.length := by
    rw [List.reverse_append, List.reverse_cons, List.append_assoc, List.findIdx?_append, hnone]
    simp [List.findIdx?_cons]
  rw [lastIndexOf, hfind]
  simp only [List.length_append, List.length_cons]
  omega

def occursIn (part s : QString) : Bool := decide (part <:+: s)

/-- `replace`, from left to right; `skip` units belong to an occurrence already replaced. -/
def replaceFrom (before after : QString) : ℕ → QString → QString
  | _, [] => []
  | skip + 1, _ :: s => replaceFrom before after skip s
  | 0, c :: s =>
    if before <+: c :: s then after ++ replaceFrom before after (before.length - 1) s
    else c :: replaceFrom before after 0 s

def replace (before after s : QString) : QString := replaceFrom before after 0 s

theorem replaceFrom_length (before after t s : QString) :
    replaceFrom before after t.length (t ++ s) = replace before after s := by
  induction t with
  | nil => rfl
  | cons c t ih => exact ih

theorem replace_append {before t s : QString} (after : QString)
    (h : ∀ k < t.length, ¬ before <+: t.drop k ++ s) :
    replace before after (t ++ s) = t ++ replace before after s := by
  induction t with
  | nil => rfl
  | cons c t ih =>
    have hhead : ¬ before <+: c :: (t ++ s) := h 0 (Nat.succ_pos _)
    have hrest := ih fun k hk => h (k + 1) (Nat.succ_lt_succ hk)
    rw [List.cons_append, replace, replaceFrom, if_neg hhead, List.cons_append, ← hrest, replace]

theorem replace_occurrence {before : QString} (hbefore : before ≠ []) (after s : QString) :
    replace before after (before ++ s) = after ++ replace before after s := by
  obtain ⟨c, rest, rfl⟩ := List.exists_cons_of_ne_nil hbefore
  have hhead : c :: rest <+: c :: (rest ++ s) := List.prefix_append (c :: rest) s
  rw [List.cons_append, replace, replaceFrom, if_pos hhead, List.length_cons, Nat.add_sub_cancel,
    replaceFrom_length]

def hexDigit (n : ℕ) : UInt16 := if n < 10 then UInt16.ofNat (0x30 + n) else UInt16.ofNat (0x57 + n)

def toHex (bytes : List UInt8) : QString :=
  bytes.flatMap fun b => [hexDigit (b.toNat / 16), hexDigit (b.toNat % 16)]

def digitValue (c : UInt16) : Option ℕ :=
  if 0x30 ≤ c ∧ c ≤ 0x39 then some (c.toNat - 0x30)
  else if 0x41 ≤ c ∧ c ≤ 0x46 then some (c.toNat - 0x41 + 10)
  else if 0x61 ≤ c ∧ c ≤ 0x66 then some (c.toNat - 0x61 + 10)
  else none

def readDigits : ℕ → QString → Option ℕ
  | n, [] => some n
  | n, c :: s => (digitValue c).bind fun d => readDigits (16 * n + d) s

/-- At least one digit, which a `0x` may stand before. -/
def readHex : QString → Option ℕ
  | [] => none
  | [c] => readDigits 0 [c]
  | c :: x :: s =>
    if c = 0x30 ∧ (x = 0x78 ∨ x = 0x58) then if s = [] then none else readDigits 0 s
    else readDigits 0 (c :: x :: s)

def toIntBase16 (s : QString) : Option ℤ :=
  let value : Option ℤ :=
    match s.trimmed with
    | [] => none
    | c :: digits =>
      if c = 0x2B then (readHex digits).map Int.ofNat
      else if c = 0x2D then (readHex digits).map Int.negOfNat
      else (readHex (c :: digits)).map Int.ofNat
  value.filter fun n => decide (-2 ^ 31 ≤ n ∧ n < 2 ^ 31)

theorem length_toHex (bytes : List UInt8) : (toHex bytes).length = 2 * bytes.length := by
  induction bytes with
  | nil => rfl
  | cons b bytes ih =>
    simp only [toHex, List.flatMap_cons, List.length_append, List.length_cons, List.length_nil] at ih ⊢
    omega

theorem toHex_append (a b : List UInt8) : toHex (a ++ b) = toHex a ++ toHex b :=
  List.flatMap_append

theorem hexDigit_range {n : ℕ} (h : n < 16) :
    (0x30 ≤ hexDigit n ∧ hexDigit n ≤ 0x39) ∨ (0x61 ≤ hexDigit n ∧ hexDigit n ≤ 0x66) := by
  interval_cases n <;> decide

theorem digitValue_hexDigit {n : ℕ} (h : n < 16) : digitValue (hexDigit n) = some n := by
  interval_cases n <;> rfl

theorem mem_toHex {c : UInt16} {bytes : List UInt8} (h : c ∈ toHex bytes) :
    ∃ n, n < 16 ∧ c = hexDigit n := by
  obtain ⟨b, -, hc⟩ := List.mem_flatMap.mp h
  have hb := b.toNat_lt
  rcases List.mem_pair.mp hc with rfl | rfl
  · exact ⟨_, by omega, rfl⟩
  · exact ⟨_, Nat.mod_lt _ (by decide), rfl⟩

theorem range_of_mem_toHex {c : UInt16} {bytes : List UInt8} (h : c ∈ toHex bytes) :
    (0x30 ≤ c ∧ c ≤ 0x39) ∨ (0x61 ≤ c ∧ c ≤ 0x66) := by
  obtain ⟨n, hn, rfl⟩ := mem_toHex h
  exact hexDigit_range hn

theorem readDigits_toHex (n : ℕ) (bytes : List UInt8) (s : QString) :
    readDigits n (toHex bytes ++ s) =
      readDigits (bytes.foldl (fun n b => 256 * n + b.toNat) n) s := by
  induction bytes generalizing n with
  | nil => rfl
  | cons b bytes ih =>
    have hb := b.toNat_lt
    have hvalue : 16 * (16 * n + b.toNat / 16) + b.toNat % 16 = 256 * n + b.toNat := by omega
    have hhigh := digitValue_hexDigit (n := b.toNat / 16) (by omega)
    have hlow := digitValue_hexDigit (n := b.toNat % 16) (Nat.mod_lt _ (by decide))
    have hcons : toHex (b :: bytes) ++ s =
        hexDigit (b.toNat / 16) :: hexDigit (b.toNat % 16) :: (toHex bytes ++ s) := rfl
    rw [hcons, readDigits, hhigh, Option.bind_some, readDigits, hlow, Option.bind_some, hvalue, ih,
      List.foldl_cons]

theorem trimmed_eq_self {s : QString} (h : ∀ c ∈ s, isSpace c = false) : s.trimmed = s := by
  have hdrop : s.dropWhile isSpace = s := by
    cases s with
    | nil => rfl
    | cons c s => rw [List.dropWhile_cons_of_neg (by simp [h c List.mem_cons_self])]
  rw [trimmed, hdrop, List.rdropWhile_eq_self_iff]
  intro hne
  simp [h _ (List.getLast_mem hne)]

theorem isSpace_hexDigit {n : ℕ} (h : n < 16) : isSpace (hexDigit n) = false := by
  interval_cases n <;> rfl

theorem hexDigit_ne_sign {n : ℕ} (h : n < 16) : hexDigit n ≠ 0x2B ∧ hexDigit n ≠ 0x2D := by
  interval_cases n <;> decide

theorem hexDigit_ne_x {n : ℕ} (h : n < 16) : ¬ (hexDigit n = 0x78 ∨ hexDigit n = 0x58) := by
  interval_cases n <;> decide

theorem toIntBase16_toHex {bytes : List UInt8} (hpos : bytes ≠ []) (hlen : bytes.length ≤ 2) :
    toIntBase16 (toHex bytes) =
      some (Int.ofNat (bytes.foldl (fun n b => 256 * n + b.toNat) 0)) := by
  have htrim : (toHex bytes).trimmed = toHex bytes := by
    refine trimmed_eq_self fun c hc => ?_
    obtain ⟨n, hn, rfl⟩ := mem_toHex hc
    exact isSpace_hexDigit hn
  have hread : readDigits 0 (toHex bytes) = some (bytes.foldl (fun n b => 256 * n + b.toNat) 0) := by
    have hall := readDigits_toHex 0 bytes []
    rwa [List.append_nil, readDigits] at hall
  have hbound : bytes.foldl (fun n b => 256 * n + b.toNat) 0 < 2 ^ 31 := by
    match bytes, hlen with
    | [], _ => decide
    | [a], _ =>
      have ha := a.toNat_lt
      simp only [List.foldl_cons, List.foldl_nil]
      omega
    | [a, b], _ =>
      have ha := a.toNat_lt
      have hb := b.toNat_lt
      simp only [List.foldl_cons, List.foldl_nil]
      omega
  obtain ⟨b, rest, rfl⟩ := List.exists_cons_of_ne_nil hpos
  have hb := b.toNat_lt
  have hcons : toHex (b :: rest) =
      hexDigit (b.toNat / 16) :: hexDigit (b.toNat % 16) :: toHex rest := rfl
  -- neither a sign nor a prefix
  have hsign : hexDigit (b.toNat / 16) ≠ 0x2B ∧ hexDigit (b.toNat / 16) ≠ 0x2D :=
    hexDigit_ne_sign (by omega)
  have hunprefixed : ¬ (hexDigit (b.toNat % 16) = 0x78 ∨ hexDigit (b.toNat % 16) = 0x58) :=
    hexDigit_ne_x (Nat.mod_lt _ (by decide))
  have hhex : readHex (toHex (b :: rest)) = readDigits 0 (toHex (b :: rest)) := by
    rw [hcons, readHex, if_neg fun h => hunprefixed h.2]
  generalize (b :: rest).foldl (fun n b => 256 * n + b.toNat) 0 = value at hread hbound ⊢
  rw [hread, hcons] at hhex
  rw [toIntBase16, htrim, hcons]
  simp only [if_neg hsign.1, if_neg hsign.2, hhex, Option.map_some]
  rw [Option.filter_some, if_pos]
  exact decide_eq_true ⟨by simp, by simp; omega⟩

end Alko.Qt.QString
