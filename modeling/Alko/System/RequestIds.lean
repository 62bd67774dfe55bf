import Alko.Foundation.Logs
import Alko.System.Intake
import Alko.System.ReplyRouting

/-! The ids of the requests over any run of one manager, the PONGs it sends of its own accord
included: which ids are drawn, and what the table knows of them. -/

namespace Alko.System

open Foundation Alkod
open AlkoManager (answered idAs idOf isPing)

inductive Action
  | get (request : List UInt8)
  | receive (bytes : List UInt8)
  | slotReadyRead

structure Asking where
  manager : AlkoManager
  calls : List (UInt16 × ℕ)

namespace Asking

def called (m : AlkoManager) (sent : List (List UInt8)) : List (UInt16 × ℕ) :=
  sent.map fun bytes => (idOf bytes, m.replies)

def step (signed : Bool) (s : Asking) : Action → Asking
  | .get request =>
    ⟨(s.manager.get request).2, s.calls ++ called s.manager [(s.manager.get request).1]⟩
  | .receive bytes => { s with manager := s.manager.receive bytes }
  | .slotReadyRead =>
    ⟨(s.manager.slotReadyReadAs signed).2,
      s.calls ++ called s.manager (answered (s.manager.slotReadyReadAs signed).1)⟩

def run (signed : Bool) (actions : List Action) : Asking :=
  actions.foldl (step signed) ⟨AlkoManager.new, []⟩

def entered (id : UInt16) (call : UInt16 × ℕ) : Option ℕ :=
  if call.1 = id then some call.2 else none

structure Numbered (s : Asking) : Prop where
  last : s.manager.id.toNat = if s.calls.length = 0 then 0 else 2 + (s.calls.length - 1) % 65534
  ids : Cyclic UInt16.toNat 2 65534 (s.calls.map Prod.fst)
  replies : s.manager.replies = s.calls.length
  made : s.calls.map Prod.snd = List.range s.calls.length
  table : ∀ id, s.manager.requests id = lastWrite (entered id) s.calls

theorem called_get (m : AlkoManager) (request : List UInt8) :
    called m [(m.get request).1] = [(m.getID, m.replies)] := by
  have hid : idOf (m.get request).1 = m.getID :=
    Arduino.Datagram.ofBytes_hiByte_loByte m.getID
  rw [called, List.map_singleton, hid]

theorem answered_dispatchAs (signed : Bool) (datagram : List UInt8) (m : AlkoManager) :
    answered (m.dispatchAs signed datagram).1 =
      if isPing datagram then [(m.get [Cmd.pong.toByte]).1] else [] := by
  rw [AlkoManager.dispatchAs_fst]
  unfold answered
  cases isPing datagram <;>
    cases (m.ponged datagram).requests
      (AlkoManager.decodeId signed (datagram.getD 3 0) (datagram.getD 4 0)) <;> rfl

theorem idAs_eq_zero (signed : Bool) {datagram : List UInt8} (h : idOf datagram = 0) :
    idAs signed datagram = 0 := by
  have hbytes := congrArg UInt16.toNat h
  rw [idOf, Arduino.Datagram.toNat_ofBytes, UInt16.toNat_zero] at hbytes
  have hlo : ¬128 ≤ (datagram.getD 4 0).toNat := by omega
  rw [← UInt16.toNat_inj, idAs, AlkoManager.toNat_decodeId, hbytes, if_neg fun h => hlo h.2]
  rfl

theorem slotReadyReadAs_cases (signed : Bool) (m : AlkoManager) :
    (∃ r, m.slotReadyReadAs signed = ([], m.withReader r)) ∨
      ∃ r datagram, m.slotReadyReadAs signed = (m.withReader r).dispatchAs signed datagram := by
  rw [AlkoManager.slotReadyReadAs_eq]
  cases (AlkoManager.format.poll [] m.reader).1 with
  | none => exact Or.inl ⟨_, rfl⟩
  | some body => exact Or.inr ⟨_, _, rfl⟩

namespace Numbered

variable {s : Asking} {m : AlkoManager} {calls : List (UInt16 × ℕ)}

theorem new : Numbered ⟨AlkoManager.new, []⟩ where
  last := rfl
  ids k e he := by simp at he
  replies := rfl
  made := rfl
  table _ := rfl

theorem toNat_getID (h : Numbered s) : s.manager.getID.toNat = 2 + s.calls.length % 65534 := by
  have hlast := h.last
  have hnext : (s.manager.id + 1).toNat = (s.manager.id.toNat + 1) % 65536 := UInt16.toNat_add _ _
  rw [AlkoManager.getID]
  split
  · rename_i hreserved
    rw [UInt16.lt_iff_toNat_lt, hnext] at hreserved
    have htwo : (2 : UInt16).toNat = 2 := rfl
    split at hlast <;> omega
  · rename_i hfree
    rw [UInt16.lt_iff_toNat_lt, hnext] at hfree
    have htwo : (2 : UInt16).toNat = 2 := rfl
    rw [hnext]
    split at hlast <;> omega

theorem get (h : Numbered ⟨m, calls⟩) (request : List UInt8) :
    Numbered ⟨(m.get request).2, calls ++ called m [(m.get request).1]⟩ := by
  have hid := h.toNat_getID
  have hreplies : m.replies = calls.length := h.replies
  rw [called_get]
  refine ⟨?_, ?_, ?_, ?_, fun id => ?_⟩
  · rw [List.length_append, List.length_singleton, if_neg (Nat.succ_ne_zero _),
      Nat.add_sub_cancel]
    exact hid
  · rw [List.map_append, List.map_singleton]
    apply h.ids.concat
    rw [List.length_map]
    exact hid
  · rw [List.length_append, List.length_singleton, ← hreplies]
    rfl
  · rw [List.map_append, List.map_singleton, List.length_append, List.length_singleton,
      List.range_succ, h.made, hreplies]
  · rw [lastWrite_concat, ← h.table id, entered, AlkoManager.get_snd_requests]
    by_cases hsame : m.getID = id
    · rw [if_pos hsame, ← hsame, Function.update_self, Option.some_or]
    · rw [if_neg hsame, Function.update_of_ne (Ne.symm hsame), Option.none_or]

theorem withReader (h : Numbered ⟨m, calls⟩) (r : Reader UInt8) :
    Numbered ⟨m.withReader r, calls⟩ :=
  ⟨h.last, h.ids, h.replies, h.made, h.table⟩

theorem ponged (h : Numbered ⟨m, calls⟩) (signed : Bool) (datagram : List UInt8) :
    Numbered ⟨m.ponged datagram,
      calls ++ called m (answered (m.dispatchAs signed datagram).1)⟩ := by
  rw [answered_dispatchAs, AlkoManager.ponged]
  split
  · exact h.get _
  · rw [called, List.map_nil, List.append_nil]
    exact h

theorem slotReadyRead (h : Numbered ⟨m, calls⟩) (signed : Bool) :
    Numbered ⟨(m.slotReadyReadAs signed).2,
      calls ++ called m (answered (m.slotReadyReadAs signed).1)⟩ := by
  rcases slotReadyReadAs_cases signed m with ⟨r, hcall⟩ | ⟨r, datagram, hcall⟩
  · rw [hcall]
    change Numbered ⟨m.withReader r, calls ++ []⟩
    rw [List.append_nil]
    exact h.withReader r
  · rw [hcall, AlkoManager.dispatchAs_snd]
    exact (h.withReader r).ponged signed datagram

theorem step (h : s.Numbered) (signed : Bool) (action : Action) :
    (s.step signed action).Numbered := by
  cases action with
  | get request => exact h.get request
  | receive bytes => exact ⟨h.last, h.ids, h.replies, h.made, h.table⟩
  | slotReadyRead => exact h.slotReadyRead signed

theorem two_le (h : s.Numbered) {c : UInt16 × ℕ} (hc : c ∈ s.calls) : 2 ≤ c.1.toNat := by
  obtain ⟨k, hk⟩ := List.mem_iff_getElem?.mp (List.mem_map_of_mem (f := Prod.fst) hc)
  rw [h.ids k c.1 hk]
  exact Nat.le_add_right 2 _

theorem requests_iff (h : s.Numbered) (id : UInt16) (reply : ℕ) :
    s.manager.requests id = some reply ↔
      ∃ before after, s.calls = before ++ (id, reply) :: after ∧ ∀ c ∈ after, c.1 ≠ id := by
  have hnone (c : UInt16 × ℕ) : entered id c = none ↔ c.1 ≠ id := by
    unfold entered
    split <;> simp_all
  rw [h.table, lastWrite_eq_some_iff]
  constructor
  · rintro ⟨before, c, after, hsplit, hc, hafter⟩
    unfold entered at hc
    split at hc
    · rename_i hid
      refine ⟨before, after, ?_, fun x hx => (hnone x).mp (hafter x hx)⟩
      rw [hsplit, ← hid, ← Option.some.inj hc]
    · cases hc
  · rintro ⟨before, after, hsplit, hafter⟩
    exact ⟨before, (id, reply), after, hsplit, if_pos rfl, fun x hx => (hnone x).mpr (hafter x hx)⟩

theorem delivered (h : s.Numbered) (signed : Bool) {reply : ℕ} {datagram : List UInt8}
    (hset : .setData reply datagram ∈ (s.manager.slotReadyReadAs signed).1) :
    2 ≤ (idAs signed datagram).toNat := by
  rcases slotReadyReadAs_cases signed s.manager with ⟨r, hcall⟩ | ⟨r, d, hcall⟩
  · rw [hcall] at hset
    exact absurd hset List.not_mem_nil
  · rw [hcall] at hset
    have hmem : (reply, datagram) ∈ AlkoManager.handed
        ((s.manager.withReader r).dispatchAs signed d).1 :=
      List.mem_filterMap.mpr ⟨_, hset, rfl⟩
    rw [AlkoManager.handed_dispatchAs, Option.mem_toList, Option.map_eq_some_iff] at hmem
    obtain ⟨reply', hfound, hpair⟩ := hmem
    obtain ⟨rfl, rfl⟩ := Prod.mk.inj hpair
    have hnumbered := (h.withReader r).ponged signed d
    obtain ⟨before, after, hsplit, -⟩ := (hnumbered.requests_iff _ _).mp hfound
    apply hnumbered.two_le (c := (idAs signed d, reply'))
    rw [hsplit]
    exact List.mem_append_right _ List.mem_cons_self

end Numbered

theorem numbered_run (signed : Bool) (actions : List Action) : (run signed actions).Numbered :=
  List.foldlRecOn actions (step signed) .new fun _ h action _ => h.step signed action

/-- In every run, the reserved ids are never drawn and no id twice within 65534 calls of `get`, the
table knows under each id the reply of the last call that drew it, and no frame with the id 0
reaches a reply. -/
theorem request_ids (signed : Bool) (actions : List Action) :
    (∀ c ∈ (run signed actions).calls, 2 ≤ c.1.toNat) ∧
    (∀ a, ((((run signed actions).calls.map Prod.fst).drop a).take 65534).Nodup) ∧
    (run signed actions).calls.map Prod.snd = List.range (run signed actions).calls.length ∧
    (∀ id reply, (run signed actions).manager.requests id = some reply ↔
      ∃ before after, (run signed actions).calls = before ++ (id, reply) :: after ∧
        ∀ c ∈ after, c.1 ≠ id) ∧
    ∀ reply datagram,
      .setData reply datagram ∈ ((run signed actions).manager.slotReadyReadAs signed).1 →
        idAs signed datagram ≠ 0 ∧ idOf datagram ≠ 0 := by
  have h := numbered_run signed actions
  refine ⟨fun c hc => h.two_le hc, h.ids.nodup_window, h.made, h.requests_iff, ?_⟩
  intro reply datagram hset
  have htwo := h.delivered signed hset
  have hdecoded : idAs signed datagram ≠ 0 := by
    intro hzero
    rw [hzero] at htwo
    exact absurd htwo (by decide)
  exact ⟨hdecoded, fun hzero => hdecoded (idAs_eq_zero signed hzero)⟩

end Asking

end Alko.System
