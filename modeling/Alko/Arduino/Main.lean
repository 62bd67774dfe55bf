import Alko.Arduino.Refinement

/-! The main loop: what it calls on the machine, and the button that forces it into service. -/

namespace Alko.Arduino

namespace Config

def forceServiceTime : UInt32 := 8000

end Config

inductive Level
  | low | high
  deriving DecidableEq, Repr

def Level.toggle : Level → Level
  | .low => .high
  | .high => .low

/-- What one iteration reads: the pin, and what `millis()` shows where it is compared with the last
level, where the delay is checked and where the delay is begun anew. -/
structure Iteration where
  pin : Level
  changed : UInt32
  checked : UInt32
  restarted : UInt32
  update : World
  force : World
  changed_le : changed ≤ checked
  checked_le : checked ≤ restarted

/-- The globals; `lastDebounceTime` begins at 0 and `lastServiceButtonState` at `LOW`. -/
structure Main where
  ledState : Level
  serviceButtonState : Level
  lastServiceButtonState : Level
  lastDebounceTime : UInt32
  reading : Level
  deriving DecidableEq, Repr

def Iteration.at (pin : Level) (t : UInt32) : Iteration where
  pin := pin
  changed := t
  checked := t
  restarted := t
  update := .still t (fun _ => false) (fun _ => false) []
  force := .still t (fun _ => false) (fun _ => false) []
  changed_le := UInt32.le_refl t
  checked_le := UInt32.le_refl t

namespace Main

def boot : Main := ⟨.high, .low, .low, 0, .high⟩

def debounceDelay : UInt32 := Config.forceServiceTime

def debounce (i : Iteration) (m : Main) : Main :=
  if i.pin ≠ m.lastServiceButtonState then { m with reading := i.pin, lastDebounceTime := i.changed }
  else { m with reading := i.pin }

def settle (i : Iteration) (m : Main) : List Call × Main :=
  let m := { m with serviceButtonState := m.reading }
  if m.serviceButtonState = .low then
    ([.forceServiceState i.force],
      { m with
        ledState := m.ledState.toggle
        lastDebounceTime := i.restarted
        reading := .high })
  else ([], { m with reading := .high })

def loop (i : Iteration) (m : Main) : List Call × Main :=
  let m := m.debounce i
  let settled := if debounceDelay < i.checked - m.lastDebounceTime then m.settle i else ([], m)
  (.update i.update :: settled.1,
    { settled.2 with lastServiceButtonState := settled.2.reading })

def run (is : List Iteration) (m : Main) : Main := is.foldl (fun m i => (m.loop i).2) m

def calls : List Iteration → Main → List Call
  | [], _ => []
  | i :: is, m => (m.loop i).1 ++ calls is (m.loop i).2

def Forces (i : Iteration) (m : Main) : Prop := .forceServiceState i.force ∈ (m.loop i).1

variable {i : Iteration} {m : Main}

theorem debounce_reading (i : Iteration) (m : Main) : (m.debounce i).reading = i.pin := by
  unfold debounce
  split_ifs <;> rfl

theorem debounce_lastDebounceTime (i : Iteration) (m : Main) :
    (m.debounce i).lastDebounceTime =
      if i.pin = m.lastServiceButtonState then m.lastDebounceTime else i.changed := by
  unfold debounce
  by_cases h : i.pin = m.lastServiceButtonState
  · rw [if_neg (not_not.mpr h), if_pos h]
  · rw [if_pos h, if_neg h]

def held (i : Iteration) (m : Main) : UInt32 := i.checked - (m.debounce i).lastDebounceTime

theorem forces_iff : m.Forces i ↔ i.pin = .low ∧ debounceDelay < m.held i := by
  simp only [Forces, loop, settle, debounce_reading, held]
  by_cases hdelay : debounceDelay < i.checked - (m.debounce i).lastDebounceTime
  · by_cases hpin : i.pin = .low
    · simp [hdelay, hpin]
    · simp [hdelay, hpin]
  · simp [hdelay]

theorem loop_last (i : Iteration) (m : Main) :
    (m.loop i).2.lastServiceButtonState = .low ↔ i.pin = .low ∧ ¬ m.Forces i := by
  rw [forces_iff]
  simp only [loop, settle, debounce_reading, held]
  by_cases hdelay : debounceDelay < i.checked - (m.debounce i).lastDebounceTime
  · by_cases hpin : i.pin = .low
    · simp [hdelay, hpin]
    · simp [hdelay, hpin]
  · by_cases hpin : i.pin = .low
    · simp [hdelay, hpin, debounce_reading]
    · simp [hdelay, hpin, debounce_reading]

theorem loop_lastDebounceTime (h : ¬ m.Forces i) :
    (m.loop i).2.lastDebounceTime = (m.debounce i).lastDebounceTime := by
  rw [forces_iff] at h
  simp only [loop, settle, debounce_reading]
  split_ifs with hdelay hpin
  · exact absurd ⟨hpin, hdelay⟩ h
  · rfl
  · rfl

theorem run_concat (past : List Iteration) (i : Iteration) (m : Main) :
    run (past ++ [i]) m = ((run past m).loop i).2 := by
  rw [run, List.foldl_append]
  rfl

/-! Histories from power-up on. -/

/-- The clock never goes back, and has not wrapped around. -/
def Ordered (is : List Iteration) : Prop := is.Pairwise fun a b => a.restarted ≤ b.changed

def CallsAfter (past : List Iteration) (i : Iteration) : Prop := (run past boot).Forces i

def Called (past : List Iteration) (f : Iteration) : Prop :=
  ∃ before after, past = before ++ f :: after ∧ CallsAfter before f

/-- For more than 8000 ms up to the check of `i` every iteration has read the pin `LOW`. -/
def Pressed (past : List Iteration) (i : Iteration) : Prop :=
  ∃ earlier s low, past ++ [i] = earlier ++ s :: low ∧ (∀ x ∈ s :: low, x.pin = .low) ∧
    s.changed.toNat + 8000 < i.checked.toNat

/-- The pin has been `LOW` since power-up, and `i` is the first to read a clock beyond 8000. -/
def BootPress (past : List Iteration) (i : Iteration) : Prop :=
  (∀ x ∈ past ++ [i], x.pin = .low) ∧ (∀ x ∈ past, x.checked.toNat ≤ 8000) ∧
    8000 < i.checked.toNat

def first (past : List Iteration) (i : Iteration) : Iteration := past.headD i

variable {past : List Iteration}

theorem called_concat {f : Iteration} :
    Called (past ++ [i]) f ↔ Called past f ∨ (f = i ∧ CallsAfter past i) := by
  constructor
  · rintro ⟨before, after, hsplit, hcalls⟩
    rcases List.eq_nil_or_concat after with rfl | ⟨after, last, rfl⟩
    · obtain ⟨rfl, heq⟩ := List.append_inj' hsplit rfl
      obtain rfl : i = f := by simpa using heq
      exact Or.inr ⟨rfl, hcalls⟩
    · rw [List.concat_eq_append, ← List.cons_append, ← List.append_assoc] at hsplit
      obtain ⟨rfl, -⟩ := List.append_inj' hsplit rfl
      exact Or.inl ⟨before, after, rfl, hcalls⟩
  · rintro (⟨before, after, rfl, hcalls⟩ | ⟨rfl, hcalls⟩)
    · exact ⟨before, after ++ [i], by simp, hcalls⟩
    · exact ⟨past, [], rfl, hcalls⟩

theorem Ordered.init (h : Ordered (past ++ [i])) : Ordered past := (List.pairwise_append.mp h).1

theorem Ordered.le (h : Ordered (past ++ [i])) {x : Iteration} (hx : x ∈ past) :
    x.restarted ≤ i.changed :=
  (List.pairwise_append.mp h).2.2 x hx i (List.mem_singleton_self i)

theorem Called.mem {f : Iteration} (h : Called past f) : f ∈ past := by
  obtain ⟨before, after, rfl, -⟩ := h
  exact List.mem_append_right _ List.mem_cons_self

theorem callsAfter_iff {t : UInt32} (ht : ((run past boot).debounce i).lastDebounceTime = t)
    (hle : t ≤ i.checked) :
    CallsAfter past i ↔ i.pin = .low ∧ t.toNat + 8000 < i.checked.toNat := by
  have hdelay : debounceDelay.toNat = 8000 := rfl
  have hnat := UInt32.le_iff_toNat_le.mp hle
  rw [CallsAfter, forces_iff, held, ht, UInt32.lt_iff_toNat_lt, UInt32.toNat_sub_of_le _ _ hle,
    hdelay]
  refine and_congr_right fun _ => ?_
  omega

theorem debounce_of_high (hlast : (run past boot).lastServiceButtonState = .high)
    (hpin : i.pin = .low) : ((run past boot).debounce i).lastDebounceTime = i.changed := by
  rw [debounce_lastDebounceTime, hlast, hpin]
  rfl

theorem debounce_of_low (hlast : (run past boot).lastServiceButtonState = .low)
    (hpin : i.pin = .low) :
    ((run past boot).debounce i).lastDebounceTime = (run past boot).lastDebounceTime := by
  rw [debounce_lastDebounceTime, hlast, hpin, if_pos rfl]

theorem callsAfter_pin (h : CallsAfter past i) : i.pin = .low := (forces_iff.mp h).1

structure PressedSince (past : List Iteration) (s : Iteration) : Prop where
  low : ∃ earlier low, past = earlier ++ s :: low ∧ ∀ x ∈ s :: low, x.pin = .low
  time : (run past boot).lastDebounceTime = s.changed
  called : ∀ f, Called past f → f.checked ≤ s.changed

structure QuietSinceBoot (past : List Iteration) : Prop where
  low : ∀ x ∈ past, x.pin = .low ∧ x.checked.toNat ≤ 8000
  time : (run past boot).lastDebounceTime = 0
  called : ∀ f, ¬ Called past f

/-- What the globals remember of the past, when the last level is `LOW`. -/
def Remembers (past : List Iteration) : Prop :=
  (run past boot).lastServiceButtonState = .low →
    (∃ s, PressedSince past s) ∨ QuietSinceBoot past

theorem remembers_nil : Remembers [] := by
  refine fun _ => Or.inr ⟨by simp, rfl, fun f hf => ?_⟩
  exact absurd hf.mem List.not_mem_nil

theorem PressedSince.mem {s : Iteration} (h : PressedSince past s) : s ∈ past := by
  obtain ⟨earlier, low, rfl, -⟩ := h.low
  exact List.mem_append_right _ List.mem_cons_self

theorem PressedSince.le {s : Iteration} (h : PressedSince past s) (ho : Ordered (past ++ [i])) :
    s.changed ≤ i.checked :=
  UInt32.le_trans (UInt32.le_trans s.changed_le s.checked_le)
    (UInt32.le_trans (ho.le h.mem) i.changed_le)

theorem lastDebounceTime_concat (hquiet : ¬ CallsAfter past i) :
    (run (past ++ [i]) boot).lastDebounceTime = ((run past boot).debounce i).lastDebounceTime := by
  rw [run_concat, loop_lastDebounceTime hquiet]

theorem Called.of_concat {f : Iteration} (h : Called (past ++ [i]) f) (hquiet : ¬ CallsAfter past i) :
    Called past f := by
  rcases called_concat.mp h with hold | ⟨-, hnew⟩
  · exact hold
  · exact absurd hnew hquiet

theorem PressedSince.begin (ho : Ordered (past ++ [i])) (hpin : i.pin = .low)
    (hquiet : ¬ CallsAfter past i) (hlast : (run past boot).lastServiceButtonState = .high) :
    PressedSince (past ++ [i]) i := by
  refine ⟨⟨past, [], rfl, by simpa using hpin⟩, ?_, fun f hf => ?_⟩
  · rw [lastDebounceTime_concat hquiet, debounce_of_high hlast hpin]
  · exact UInt32.le_trans f.checked_le (ho.le (hf.of_concat hquiet).mem)

theorem low_concat {s : Iteration} {low : List Iteration} (hall : ∀ x ∈ s :: low, x.pin = .low)
    (hpin : i.pin = .low) : ∀ x ∈ s :: (low ++ [i]), x.pin = .low := by
  intro x hx
  rw [← List.cons_append, List.mem_append, List.mem_singleton] at hx
  rcases hx with hx | rfl
  · exact hall x hx
  · exact hpin

theorem PressedSince.concat {s : Iteration} (h : PressedSince past s) (hpin : i.pin = .low)
    (hquiet : ¬ CallsAfter past i) (hlast : (run past boot).lastServiceButtonState = .low) :
    PressedSince (past ++ [i]) s := by
  obtain ⟨earlier, low, hsplit, hall⟩ := h.low
  refine ⟨⟨earlier, low ++ [i], by rw [hsplit]; simp, fun x hx => ?_⟩, ?_, ?_⟩
  · exact low_concat hall hpin x hx
  · rw [lastDebounceTime_concat hquiet, debounce_of_low hlast hpin, h.time]
  · exact fun f hf => h.called f (hf.of_concat hquiet)

theorem QuietSinceBoot.concat (h : QuietSinceBoot past) (hpin : i.pin = .low)
    (hquiet : ¬ CallsAfter past i) (hlast : (run past boot).lastServiceButtonState = .low) :
    QuietSinceBoot (past ++ [i]) := by
  have hzero := (debounce_of_low hlast hpin).trans h.time
  refine ⟨fun x hx => ?_, (lastDebounceTime_concat hquiet).trans hzero,
    fun f hf => h.called f (hf.of_concat hquiet)⟩
  rcases List.mem_append.mp hx with hx | hx
  · exact h.low x hx
  · rw [List.mem_singleton.mp hx]
    refine ⟨hpin, ?_⟩
    by_contra hlate
    refine hquiet ((callsAfter_iff hzero UInt32.zero_le).mpr ⟨hpin, ?_⟩)
    rw [UInt32.toNat_zero]
    omega

theorem Remembers.concat (h : Remembers past) (ho : Ordered (past ++ [i])) :
    Remembers (past ++ [i]) := by
  intro hlow
  rw [run_concat, loop_last] at hlow
  obtain ⟨hpin, hquiet⟩ := hlow
  cases hlast : (run past boot).lastServiceButtonState with
  | high => exact Or.inl ⟨i, .begin ho hpin hquiet hlast⟩
  | low =>
    rcases h hlast with ⟨s, hs⟩ | hboot
    · exact Or.inl ⟨s, hs.concat hpin hquiet hlast⟩
    · exact Or.inr (hboot.concat hpin hquiet hlast)

theorem remembers (past : List Iteration) (ho : Ordered past) : Remembers past := by
  induction past using List.reverseRecOn with
  | nil => exact remembers_nil
  | append_singleton past i ih => exact (ih ho.init).concat ho

/-- A call ends a press that the globals remember, or one that they take to be as old as the clock.
-/
theorem callsAfter_cases (ho : Ordered (past ++ [i])) (hcalls : CallsAfter past i) :
    (Pressed past i ∧ ∀ f, Called past f → f.checked.toNat + 8000 < i.checked.toNat) ∨
      (BootPress past i ∧ ∀ f, ¬ Called past f) := by
  have hpin := callsAfter_pin hcalls
  cases hlast : (run past boot).lastServiceButtonState with
  | high =>
    have hlong := ((callsAfter_iff (debounce_of_high hlast hpin) i.changed_le).mp hcalls).2
    refine Or.inl ⟨⟨past, i, [], rfl, by simpa using hpin, hlong⟩, fun f hf => ?_⟩
    have hle := UInt32.le_iff_toNat_le.mp (UInt32.le_trans f.checked_le (ho.le hf.mem))
    omega
  | low =>
    have htime := debounce_of_low hlast hpin
    rcases remembers past ho.init hlast with ⟨s, hs⟩ | hboot
    · rw [hs.time] at htime
      have hlong := ((callsAfter_iff htime (hs.le ho)).mp hcalls).2
      obtain ⟨earlier, low, hsplit, hall⟩ := hs.low
      refine Or.inl ⟨⟨earlier, s, low ++ [i], by rw [hsplit]; simp, fun x hx => ?_, hlong⟩,
        fun f hf => ?_⟩
      · exact low_concat hall hpin x hx
      · have hle := UInt32.le_iff_toNat_le.mp (hs.called f hf)
        omega
    · rw [hboot.time] at htime
      have hlate := ((callsAfter_iff htime UInt32.zero_le).mp hcalls).2
      rw [UInt32.toNat_zero, Nat.zero_add] at hlate
      refine Or.inr ⟨⟨fun x hx => ?_, fun x hx => (hboot.low x hx).2, hlate⟩, hboot.called⟩
      rcases List.mem_append.mp hx with hx | hx
      · exact (hboot.low x hx).1
      · rw [List.mem_singleton.mp hx]
        exact hpin

theorem quiet_of_low (h : ∀ x ∈ past, x.pin = .low ∧ x.checked.toNat ≤ 8000) :
    (run past boot).lastServiceButtonState = .low ∧ (run past boot).lastDebounceTime = 0 := by
  induction past using List.reverseRecOn with
  | nil => exact ⟨rfl, rfl⟩
  | append_singleton past i ih =>
    obtain ⟨hlast, htime⟩ := ih fun x hx => h x (List.mem_append_left _ hx)
    obtain ⟨hpin, hclock⟩ := h i (List.mem_append_right _ (List.mem_singleton_self i))
    have hsame := (debounce_of_low hlast hpin).trans htime
    have hquiet : ¬ (run past boot).Forces i := by
      intro hcalls
      have hlate := ((callsAfter_iff hsame UInt32.zero_le).mp hcalls).2
      rw [UInt32.toNat_zero] at hlate
      omega
    rw [run_concat, loop_last, loop_lastDebounceTime hquiet]
    exact ⟨⟨hpin, hquiet⟩, hsame⟩

theorem BootPress.callsAfter (h : BootPress past i) : CallsAfter past i := by
  obtain ⟨hlow, hclock, hlate⟩ := h
  have hpast : ∀ x ∈ past, x.pin = .low ∧ x.checked.toNat ≤ 8000 := fun x hx =>
    ⟨hlow x (List.mem_append_left _ hx), hclock x hx⟩
  obtain ⟨hlast, htime⟩ := quiet_of_low hpast
  have hpin := hlow i (List.mem_append_right _ (List.mem_singleton_self i))
  refine (callsAfter_iff ((debounce_of_low hlast hpin).trans htime) UInt32.zero_le).mpr ⟨hpin, ?_⟩
  rw [UInt32.toNat_zero]
  omega

theorem BootPress.pressed_iff (h : BootPress past i) (ho : Ordered (past ++ [i])) :
    Pressed past i ↔ (first past i).changed.toNat + 8000 < i.checked.toNat := by
  have hsplit : past ++ [i] = first past i :: (past ++ [i]).tail := by
    cases past with
    | nil => rfl
    | cons x past => rfl
  constructor
  · rintro ⟨earlier, s, low, hs, -, hlong⟩
    -- no iteration reads an earlier clock than the first
    have hle : (first past i).changed.toNat ≤ s.changed.toNat := by
      have hmem : s ∈ past ++ [i] := hs ▸ List.mem_append_right _ List.mem_cons_self
      rw [hsplit, List.mem_cons] at hmem
      rcases hmem with rfl | hmem
      · exact le_rfl
      · have hpair : Ordered (first past i :: (past ++ [i]).tail) := hsplit ▸ ho
        have hfirst := UInt32.le_trans (first past i).changed_le (first past i).checked_le
        have hlater := (List.pairwise_cons.mp hpair).1 s hmem
        exact UInt32.le_iff_toNat_le.mp (UInt32.le_trans hfirst hlater)
    omega
  · intro hlong
    exact ⟨[], first past i, (past ++ [i]).tail, hsplit, hsplit ▸ h.1, hlong⟩

structure PowerUpRun where
  iterations : List Iteration
  ordered : Ordered iterations

theorem Ordered.of_begin {is js : List Iteration} (h : Ordered js) (hbegin : is <+: js) :
    Ordered is := h.sublist hbegin.sublist

/-- Every call comes after more than 8000 ms of `LOW`, and so does every further one. -/
def Debounced (r : PowerUpRun) : Prop :=
  ∀ past i, past ++ [i] <+: r.iterations → CallsAfter past i →
    Pressed past i ∧ ∀ f, Called past f → f.checked.toNat + 8000 < i.checked.toNat

/-- The button is debounced exactly in the runs in which a press since power-up is not taken to be
as old as the clock: its first check beyond 8000 comes more than 8000 ms after the first iteration.
-/
theorem debounced_iff (r : PowerUpRun) :
    Debounced r ↔ ∀ past i, past ++ [i] <+: r.iterations → BootPress past i →
      (first past i).changed.toNat + 8000 < i.checked.toNat := by
  constructor
  · intro h past i hbegin hboot
    exact (hboot.pressed_iff (r.ordered.of_begin hbegin)).mp (h past i hbegin hboot.callsAfter).1
  · intro h past i hbegin hcalls
    have ho := r.ordered.of_begin hbegin
    rcases callsAfter_cases ho hcalls with hpressed | ⟨hboot, hnone⟩
    · exact hpressed
    · refine ⟨(hboot.pressed_iff ho).mpr (h past i hbegin hboot), fun f hf => ?_⟩
      exact absurd hf (hnone f)

/-- Held from the first iteration, half a second after power-up, the button acts after seven and a
half seconds. -/
theorem not_debounced : ¬ ∀ r : PowerUpRun, Debounced r := by
  have hboot : BootPress [.at .low 500] (.at .low 8001) :=
    ⟨by simp [Iteration.at], by simp [Iteration.at], by decide⟩
  have ho : Ordered ([Iteration.at .low 500] ++ [.at .low 8001]) := by
    simp [Ordered, Iteration.at]
  intro h
  have hpressed := (h ⟨_, ho⟩ _ _ (List.prefix_refl _) hboot.callsAfter).1
  have hlong := (hboot.pressed_iff ho).mp hpressed
  exact absurd hlong (by decide)

/-- What the loop calls is a run of the machine. -/
theorem reachable_calls (olat : BitVec 16) (w : World) (is : List Iteration) :
    Dixie.machine.Reachable (Dixie.run (calls is boot) (Dixie.boot olat w)) :=
  Dixie.reachable_run olat w (calls is boot)

end Main

end Alko.Arduino
