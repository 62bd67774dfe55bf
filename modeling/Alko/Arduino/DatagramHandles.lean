import Mathlib.Tactic.SplitIfs
import Alko.Foundation.Handles
import Alko.Foundation.Run

/-! The buffers behind datagrams: copies share one, its first byte counts them, and the last one
that goes frees it. -/

namespace Alko.Arduino

open Foundation

variable {H B : Type*} [DecidableEq H] [DecidableEq B]

structure BufferHeap (B : Type*) where
  allocated : Finset B
  -- `m_dptr[0]`.
  counter : B → UInt8
  -- How often the address was handed out and taken back; no function reads them.
  mallocs : B → ℕ
  frees : B → ℕ
  -- A buffer was used that is not allocated.
  faulted : Bool

namespace BufferHeap

variable {m : BufferHeap B} {n n' : B → ℕ} {b : B}

def empty : BufferHeap B := ⟨∅, fun _ => 0, fun _ => 0, fun _ => 0, false⟩

def malloc (b : B) (m : BufferHeap B) : BufferHeap B :=
  { m with
    allocated := insert b m.allocated
    counter := Function.update m.counter b 1
    mallocs := Function.update m.mallocs b (m.mallocs b + 1) }

def increment (b : B) (m : BufferHeap B) : BufferHeap B :=
  if b ∈ m.allocated then { m with counter := Function.update m.counter b (m.counter b + 1) }
  else { m with faulted := true }

def free (b : B) (m : BufferHeap B) : BufferHeap B :=
  { m with
    allocated := m.allocated.erase b
    frees := Function.update m.frees b (m.frees b + 1) }

/-- The body of `~Datagram`; `malloc` has succeeded, so no pointer is null. -/
def release (b : B) (m : BufferHeap B) : BufferHeap B :=
  if b ∈ m.allocated then
    if 1 = m.counter b then m.free b
    else { m with counter := Function.update m.counter b (m.counter b - 1) }
  else { m with faulted := true }

/-- The counters are the numbers `n`, and exactly the buffers with a number other than 0 are
allocated. -/
structure Counts (n : B → ℕ) (m : BufferHeap B) : Prop where
  allocated_iff : ∀ b, b ∈ m.allocated ↔ 0 < n b
  counter : ∀ b ∈ m.allocated, (m.counter b).toNat = n b
  balance : ∀ b, m.mallocs b = m.frees b + if 0 < n b then 1 else 0
  unfaulted : m.faulted = false

omit [DecidableEq B] in
theorem counts_empty : (empty : BufferHeap B).Counts fun _ => 0 where
  allocated_iff b := by simp [empty]
  counter b hb := by simp [empty] at hb
  balance b := rfl
  unfaulted := rfl

theorem Counts.malloc (h : m.Counts n) (hfree : b ∉ m.allocated)
    (hn : ∀ c, n' c = n c + if b = c then 1 else 0) : (m.malloc b).Counts n' := by
  have hzero : n b = 0 := Nat.eq_zero_of_not_pos (mt (h.allocated_iff b).mpr hfree)
  have hself : n' b = 1 := by rw [hn, if_pos rfl, hzero]
  have hother {c : B} (hc : c ≠ b) : n' c = n c := by rw [hn, if_neg hc.symm, Nat.add_zero]
  refine ⟨fun c => ?_, fun c hmem => ?_, fun c => ?_, h.unfaulted⟩
  · by_cases hc : c = b
    · simp [BufferHeap.malloc, hc, hself]
    · simp [BufferHeap.malloc, hc, hother hc, h.allocated_iff]
  · by_cases hc : c = b
    · simp [BufferHeap.malloc, hc, hself]
    · simp only [BufferHeap.malloc, Finset.mem_insert, hc, false_or] at hmem
      simp [BufferHeap.malloc, hc, hother hc, h.counter c hmem]
  · have hbalance := h.balance c
    by_cases hc : c = b
    · rw [hc, hzero] at hbalance
      simpa [BufferHeap.malloc, hc, hself] using hbalance
    · simpa [BufferHeap.malloc, hc, hother hc] using hbalance

theorem Counts.update (h : m.Counts n) {count : UInt8} (hcount : count.toNat = n' b) (hb : 0 < n b)
    (hb' : 0 < n' b) (hother : ∀ c, c ≠ b → n' c = n c) :
    Counts n' { m with counter := Function.update m.counter b count } := by
  have hpos (c : B) : 0 < n' c ↔ 0 < n c := by
    by_cases hc : c = b
    · rw [hc]
      exact iff_of_true hb' hb
    · rw [hother c hc]
  refine ⟨fun c => ?_, fun c hc => ?_, fun c => ?_, h.unfaulted⟩
  · rw [hpos]
    exact h.allocated_iff c
  · by_cases hcb : c = b
    · simp only [hcb, Function.update_self, hcount]
    · simp only [Function.update_of_ne hcb, hother c hcb]
      exact h.counter c hc
  · simp only [hpos]
    exact h.balance c

theorem Counts.free (h : m.Counts n) (hb : 0 < n b) (hb' : n' b = 0)
    (hother : ∀ c, c ≠ b → n' c = n c) : (m.free b).Counts n' := by
  refine ⟨fun c => ?_, fun c hc => ?_, fun c => ?_, h.unfaulted⟩
  · by_cases hcb : c = b
    · simp [BufferHeap.free, hcb, hb']
    · simp [BufferHeap.free, hcb, hother c hcb, h.allocated_iff]
  · obtain ⟨hcb, hold⟩ := Finset.mem_erase.mp hc
    rw [hother c hcb]
    exact h.counter c hold
  · have hbalance := h.balance c
    by_cases hcb : c = b
    · rw [hcb, if_pos hb] at hbalance
      simpa [BufferHeap.free, hcb, hb'] using hbalance
    · simpa [BufferHeap.free, hcb, hother c hcb] using hbalance

theorem Counts.increment (h : m.Counts n) (hb : 0 < n b) (hmax : n' b ≤ 255)
    (hn : ∀ c, n' c = n c + if b = c then 1 else 0) : (m.increment b).Counts n' := by
  have hmem : b ∈ m.allocated := (h.allocated_iff b).mpr hb
  have hcount := h.counter b hmem
  have hself : n' b = n b + 1 := by rw [hn, if_pos rfl]
  have hone : (1 : UInt8).toNat = 1 := rfl
  rw [BufferHeap.increment, if_pos hmem]
  refine h.update ?_ hb (by omega) fun c hc => by rw [hn, if_neg hc.symm, Nat.add_zero]
  -- the byte does not wrap
  rw [UInt8.toNat_add, hone, hcount, hself]
  omega

theorem Counts.release (h : m.Counts n) (hb : 0 < n b)
    (hn : ∀ c, n' c + (if b = c then 1 else 0) = n c) : (m.release b).Counts n' := by
  have hmem : b ∈ m.allocated := (h.allocated_iff b).mpr hb
  have hcount := h.counter b hmem
  have hself : n' b + 1 = n b := by rw [← hn b, if_pos rfl]
  have hother (c : B) (hc : c ≠ b) : n' c = n c := by rw [← hn c, if_neg hc.symm, Nat.add_zero]
  have hone : (1 : UInt8).toNat = 1 := rfl
  rw [BufferHeap.release, if_pos hmem]
  split_ifs with hlast
  · -- the last handle
    rw [← hlast, hone] at hcount
    exact h.free hb (by omega) hother
  · have hmany : (m.counter b).toNat ≠ 1 := fun heq =>
      hlast (UInt8.toNat_inj.mp (heq.trans hone.symm)).symm
    have hlt := (m.counter b).toNat_lt
    refine h.update ?_ hb (by omega) hother
    rw [UInt8.toNat_sub, hone]
    omega

/-! No operation takes a `free` back, and only `malloc` hands out. -/

theorem increment_mallocs (b : B) (m : BufferHeap B) : (m.increment b).mallocs = m.mallocs := by
  unfold increment
  split_ifs <;> rfl

theorem increment_frees (b : B) (m : BufferHeap B) : (m.increment b).frees = m.frees := by
  unfold increment
  split_ifs <;> rfl

theorem release_mallocs (b : B) (m : BufferHeap B) : (m.release b).mallocs = m.mallocs := by
  unfold release
  split_ifs <;> rfl

theorem frees_le_release (b c : B) (m : BufferHeap B) : m.frees c ≤ (m.release b).frees c := by
  unfold release
  split_ifs
  · by_cases hc : c = b
    · simp [free, hc]
    · simp [free, hc]
  · exact le_rfl
  · exact le_rfl

end BufferHeap

structure Datagrams (H B : Type*) where
  -- The constructed datagrams, and `m_dptr` of each.
  handles : Handles H B
  heap : BufferHeap B

namespace Datagrams

inductive Op (H B : Type*)
  -- `Datagram(dataSize)`, and the address `malloc` returns.
  | construct (h : H) (b : B)
  | copy (h src : H)
  | assign (h src : H)
  | destroy (h : H)

def construct (h : H) (b : B) (s : Datagrams H B) : Datagrams H B :=
  ⟨s.handles.make h b, s.heap.malloc b⟩

def copy (h src : H) (s : Datagrams H B) : Datagrams H B :=
  ⟨s.handles.make h (s.handles.target src), s.heap.increment (s.handles.target src)⟩

/-- The counter of the source is looked at after the old buffer has been let go. -/
def assign (h src : H) (s : Datagrams H B) : Datagrams H B :=
  if src = h then s
  else
    ⟨s.handles.point h (s.handles.target src),
      (s.heap.release (s.handles.target h)).increment (s.handles.target src)⟩

def destroy (h : H) (s : Datagrams H B) : Datagrams H B :=
  ⟨s.handles.drop h, s.heap.release (s.handles.target h)⟩

def step (s : Datagrams H B) : Op H B → Datagrams H B
  | .construct h b => s.construct h b
  | .copy h src => s.copy h src
  | .assign h src => s.assign h src
  | .destroy h => s.destroy h

def run (ops : List (Op H B)) (s : Datagrams H B) : Datagrams H B := ops.foldl step s

def empty (target : H → B) : Datagrams H B := ⟨⟨∅, target⟩, .empty⟩

/-- A datagram is constructed once before it is used, and `malloc` succeeds with a buffer that is
not in use. -/
def Permitted (s : Datagrams H B) : Op H B → Prop
  | .construct h b => h ∉ s.handles.live ∧ b ∉ s.heap.allocated
  | .copy h src => h ∉ s.handles.live ∧ src ∈ s.handles.live
  | .assign h src => h ∈ s.handles.live ∧ src ∈ s.handles.live
  | .destroy h => h ∈ s.handles.live

instance (s : Datagrams H B) : (op : Op H B) → Decidable (s.Permitted op)
  | .construct _ _ => inferInstanceAs (Decidable (_ ∧ _))
  | .copy _ _ => inferInstanceAs (Decidable (_ ∧ _))
  | .assign _ _ => inferInstanceAs (Decidable (_ ∧ _))
  | .destroy _ => inferInstanceAs (Decidable (_ ∈ _))

/-- The operation is permitted, and leaves no buffer with more handles than its counter can hold. -/
def Within (s : Datagrams H B) (op : Op H B) : Prop :=
  s.Permitted op ∧ ∀ b, (s.step op).handles.count b ≤ 255

instance [Fintype B] (s : Datagrams H B) (op : Op H B) : Decidable (s.Within op) :=
  inferInstanceAs (Decidable (_ ∧ ∀ _, _))

def Sound (s : Datagrams H B) : Prop := s.heap.Counts fun b => s.handles.count b

variable {s : Datagrams H B} {h src : H} {b : B} {op : Op H B}

omit [DecidableEq H] in
theorem sound_empty (target : H → B) : (empty target : Datagrams H B).Sound :=
  BufferHeap.counts_empty

theorem Sound.construct (hs : s.Sound) (hnew : h ∉ s.handles.live) (hfree : b ∉ s.heap.allocated) :
    (s.construct h b).Sound := BufferHeap.Counts.malloc hs hfree (Handles.count_make hnew b)

theorem Sound.copy (hs : s.Sound) (hnew : h ∉ s.handles.live) (hsrc : src ∈ s.handles.live)
    (hmax : ∀ b, (s.copy h src).handles.count b ≤ 255) : (s.copy h src).Sound :=
  BufferHeap.Counts.increment hs (Handles.count_pos hsrc) (hmax _) (Handles.count_make hnew _)

theorem Sound.destroy (hs : s.Sound) (hlive : h ∈ s.handles.live) : (s.destroy h).Sound :=
  BufferHeap.Counts.release hs (Handles.count_pos hlive) (Handles.count_drop hlive)

/-- The source keeps its own buffer alive while the target lets go of the old one. -/
theorem Sound.assign (hs : s.Sound) (hlive : h ∈ s.handles.live) (hsrc : src ∈ s.handles.live)
    (hmax : ∀ b, (s.assign h src).handles.count b ≤ 255) : (s.assign h src).Sound := by
  unfold Datagrams.assign at hmax ⊢
  split_ifs at hmax ⊢ with hself
  · exact hs
  · have hreleased : (s.heap.release (s.handles.target h)).Counts
        fun b => (s.handles.drop h).count b := (hs.destroy hlive)
    exact hreleased.increment (Handles.count_drop_pos hsrc hself) (hmax _)
      (Handles.count_point hlive _)

theorem Sound.step (hs : s.Sound) (hop : s.Within op) : (s.step op).Sound := by
  obtain ⟨hpermitted, hmax⟩ := hop
  cases op with
  | construct h b => exact hs.construct hpermitted.1 hpermitted.2
  | copy h src => exact hs.copy hpermitted.1 hpermitted.2 hmax
  | assign h src => exact hs.assign hpermitted.1 hpermitted.2 hmax
  | destroy h => exact hs.destroy hpermitted

theorem mallocs_step (s : Datagrams H B) (op : Op H B) :
    (∃ h b, op = .construct h b) ∨ (s.step op).heap.mallocs = s.heap.mallocs := by
  cases op with
  | construct h b => exact Or.inl ⟨h, b, rfl⟩
  | copy h src => exact Or.inr (BufferHeap.increment_mallocs _ _)
  | assign h src =>
    refine Or.inr ?_
    simp only [step, assign]
    split_ifs
    · rfl
    · exact (BufferHeap.increment_mallocs _ _).trans (BufferHeap.release_mallocs _ _)
  | destroy h => exact Or.inr (BufferHeap.release_mallocs _ _)

theorem frees_le_step (s : Datagrams H B) (op : Op H B) (b : B) :
    s.heap.frees b ≤ (s.step op).heap.frees b := by
  cases op with
  | construct h c => exact le_rfl
  | copy h src => exact (congrFun (BufferHeap.increment_frees _ _) b).ge
  | assign h src =>
    simp only [step, assign]
    split_ifs
    · exact le_rfl
    · rw [BufferHeap.increment_frees]
      exact BufferHeap.frees_le_release _ _ _
  | destroy h => exact BufferHeap.frees_le_release _ _ _

theorem Sound.frees_step (hs : s.Sound) (hop : s.Within op) (b : B) :
    (s.step op).heap.frees b =
      s.heap.frees b + if 0 < s.handles.count b ∧ (s.step op).handles.count b = 0 then 1 else 0 := by
  have hbefore := hs.balance b
  have hafter := (hs.step hop).balance b
  have hmono := frees_le_step s op b
  rcases mallocs_step s op with ⟨h, c, rfl⟩ | hmallocs
  · have hcount : (s.handles.make h c).count b = s.handles.count b + if c = b then 1 else 0 :=
      Handles.count_make hop.1.1 c b
    have hkept : ¬ (0 < s.handles.count b ∧ (s.handles.make h c).count b = 0) := by
      rw [hcount]
      omega
    exact (Nat.add_zero _).symm.trans (congrArg _ (if_neg hkept).symm)
  · rw [hmallocs] at hafter
    split_ifs at hbefore hafter ⊢ <;> omega

/-- Over any run the counter of a buffer is the number of its live handles, no freed buffer is used,
each buffer is freed once for every time it was handed out except while it has a handle, and what
frees it is the step that takes the last handle. -/
theorem reference_counting (target : H → B) {ops : List (Op H B)}
    (hops : AllSteps step Within ops (empty target)) :
    let s := run ops (empty target)
    s.heap.faulted = false ∧
      (∀ b, b ∈ s.heap.allocated ↔ 0 < s.handles.count b) ∧
      (∀ b ∈ s.heap.allocated, (s.heap.counter b).toNat = s.handles.count b) ∧
      (∀ b, s.heap.mallocs b = s.heap.frees b + if 0 < s.handles.count b then 1 else 0) ∧
      ∀ op, s.Within op → ∀ b, (s.step op).heap.frees b = s.heap.frees b +
        if 0 < s.handles.count b ∧ (s.step op).handles.count b = 0 then 1 else 0 := by
  have hs : (run ops (empty target)).Sound :=
    hops.foldl (fun _ _ hs hop => hs.step hop) (sound_empty target)
  exact ⟨hs.unfaulted, hs.allocated_iff, hs.counter, hs.balance, fun op hop b => hs.frees_step hop b⟩

def sharing : List (Op (Fin 3) (Fin 2)) :=
  [.construct 0 0, .copy 1 0, .construct 2 1, .assign 1 1, .assign 1 0, .assign 1 2, .destroy 0,
    .construct 0 0, .assign 0 1]

theorem reference_counting_sharing :
    AllSteps step Within sharing (empty fun _ => 0) ∧
      (run sharing (empty fun _ => 0)).heap.faulted = false :=
  ⟨by decide +kernel, (reference_counting (fun _ => 0) (by decide +kernel)).1⟩

end Datagrams

end Alko.Arduino
