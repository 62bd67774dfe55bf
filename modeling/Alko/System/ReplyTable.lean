import Alko.Alkod.CustomerRequests
import Alko.System.CardPath
import Alko.System.Delivery

/-! The daemon's table of reply objects: who has released what the table still points to. -/

namespace Alko.System

open Foundation Qt Alkod
open AlkoManager (idOf)
open Customer (Signal)

structure Daemon where
  manager : AlkoManager
  customers : List Customer
  -- Customers whose destructor has run, by the order of the swipes.
  ended : List ℕ
  -- The customer behind a reply object of the manager, and the place of the reply there.
  owner : ℕ → Option (ℕ × ℕ)

inductive DaemonStep
  | swipe (data : QString)
  -- A request of the daemon itself or of its HTTP server, which drop the reply.
  | get (request : List UInt8)
  | receive (datagram : List UInt8)
  | start (customer : ℕ)
  | answer (customer : ℕ) (bytes : List UInt8)
  | expire (customer : ℕ)
  | terminate (customer : ℕ)

namespace Daemon

def idle : Daemon := ⟨AlkoManager.new, [], [], fun _ => none⟩

/-- The requests of customer `k` from `place` on are sent, and their replies entered. -/
def file (k : ℕ) : List Reply → ℕ → Daemon → Daemon
  | [], _, s => s
  | r :: replies, place, s =>
    file k replies (place + 1)
      { s with
        manager := (s.manager.get r.request).2
        owner := Function.update s.owner s.manager.replies (some (k, place)) }

def act (k : ℕ) (signal : Signal) (s : Daemon) : Daemon :=
  match s.customers[k]? with
  | none => s
  | some c =>
    if k ∈ s.ended then s
    else
      file k ((c.step signal).replies.drop c.replies.length) c.replies.length
        { s with customers := s.customers.set k (c.step signal) }

def react (s : Daemon) : ManagerEvent → Daemon
  | .recv _ => s
  | .send _ => s
  | .setData reply datagram =>
    match s.owner reply with
    | some (k, place) => s.act k (.replyReadyRead place datagram)
    | none => s

/-- `~Customer`, once `done` has had its `deleteLater` served. -/
def terminate (k : ℕ) (s : Daemon) : Daemon :=
  match s.customers[k]? with
  | none => s
  | some c =>
    if k ∈ s.ended ∨ .done ∉ c.trace then s
    else { s with customers := s.customers.set k c.releaseReply, ended := k :: s.ended }

def step (s : Daemon) : DaemonStep → Daemon
  | .swipe data => { s with customers := s.customers ++ [newCustomer data] }
  | .get request => { s with manager := (s.manager.get request).2 }
  | .receive datagram =>
    (s.manager.dispatch datagram).1.foldl react
      { s with manager := (s.manager.dispatch datagram).2 }
  | .start k => s.act k .start
  | .answer k bytes => s.act k (.socketReadyRead bytes)
  | .expire k => if (s.customers[k]?.bind Customer.timer).isSome then s.act k .timeout else s
  | .terminate k => s.terminate k

def run (steps : List DaemonStep) (s : Daemon) : Daemon := steps.foldl step s

def Released (s : Daemon) (reply : ℕ) : Prop :=
  ∃ k place c r, s.owner reply = some (k, place) ∧ s.customers[k]? = some c ∧
    c.replies[place]? = some r ∧ r.released = true

def Live (s : Daemon) : Prop :=
  ∀ id reply, s.manager.requests id = some reply → ¬s.Released reply

/-- The customer waits on this reply, and releases it when the datagram comes: whatever answers
CHECK_AVAIL, and whatever but SERVICE answers the PING. -/
def Discards (c : Customer) (place : ℕ) (datagram : List UInt8) : Prop :=
  (c.state = .stateCheckDone ∧ datagram.getD 7 0 ≠ Cmd.service.toByte ∨
      c.state = .supplyCheckDone) ∧
    ∃ r, c.replies[place]? = some r ∧ r.connected = true ∧ r.released = false

/-- The frame is not one that makes its customer discard the reply behind its id, and the customer
that ends has no reply left in the table. -/
def Spares (s : Daemon) : DaemonStep → Prop
  | .receive datagram =>
    ∀ reply k place c, (s.manager.ponged datagram).requests (idOf datagram) = some reply →
      s.owner reply = some (k, place) → s.customers[k]? = some c → k ∉ s.ended →
        ¬Discards c place datagram
  | .terminate k =>
    ∀ c place, s.customers[k]? = some c → k ∉ s.ended → .done ∈ c.trace → c.reply = some place →
      ∀ id reply, s.manager.requests id = some reply → s.owner reply ≠ some (k, place)
  | _ => True

def Spared : List DaemonStep → Daemon → Prop
  | [], _ => True
  | e :: steps, s => s.Spares e ∧ Spared steps (s.step e)

end Daemon

def NoneReleased (old new : List Reply) : Prop :=
  ∀ (place : ℕ) (r : Reply), new[place]? = some r → r.released = true →
    ∃ r' : Reply, old[place]? = some r' ∧ r'.released = true

namespace NoneReleased

variable {old new replies : List Reply} {c d : Customer}

theorem refl (replies : List Reply) : NoneReleased replies replies :=
  fun _ r hr hreleased => ⟨r, hr, hreleased⟩

theorem concat (h : NoneReleased old new) {r : Reply} (hr : r.released = false) :
    NoneReleased old (new ++ [r]) := by
  intro place r' hr' hreleased
  rcases Nat.lt_or_ge place new.length with hlt | hge
  · rw [List.getElem?_append_left hlt] at hr'
    exact h place r' hr' hreleased
  · rw [List.getElem?_append_right hge] at hr'
    rw [List.mem_singleton.mp (List.mem_of_getElem? hr'), hr] at hreleased
    cases hreleased

theorem get (h : NoneReleased old c.replies) (request : List UInt8) :
    NoneReleased old (c.get request).replies := h.concat rfl

theorem ask (h : NoneReleased old c.replies) (request : List UInt8) :
    NoneReleased old (c.ask request).replies := h.concat rfl

theorem setData (h : NoneReleased old c.replies) (i : ℕ) (datagram : List UInt8) :
    NoneReleased old (c.setData i datagram).replies := by
  intro place r hr hreleased
  rw [Customer.setData, List.getElem?_modify] at hr
  obtain ⟨r', hr', hdata⟩ := Option.map_eq_some_iff.mp hr
  refine h place r' hr' ?_
  split_ifs at hdata
  · rw [← hreleased, ← hdata]
    rfl
  · rw [hdata, hreleased]

theorem handlePaymentCheckDone (h : NoneReleased old c.replies) :
    NoneReleased old c.handlePaymentCheckDone.replies := by
  apply Customer.handlePaymentCheckDone_keeps (P := fun d => NoneReleased old d.replies)
  · exact fun request d h => h.get request
  · exact fun d h => h
  · exact fun d h => h
  · exact h

theorem handleCustomer (h : NoneReleased old c.replies) (hping : c.state ≠ .stateCheckDone)
    (havail : c.state ≠ .supplyCheckDone) : NoneReleased old c.handleCustomer.replies := by
  unfold Customer.handleCustomer
  split
  · exact h.ask _
  · exact absurd ‹_› hping
  · exact absurd ‹_› havail
  · exact h.handlePaymentCheckDone
  · exact h
  · exact h

end NoneReleased

section Step

variable {c : Customer}

theorem noneReleased_start (h : c.Inv) (hstarting : c.starting = true) :
    NoneReleased c.replies { c with starting := false }.handleCustomer.replies := by
  have hsame := NoneReleased.refl c.replies
  have hstate := h.starting hstarting
  refine NoneReleased.handleCustomer (c := { c with starting := false }) hsame ?_ ?_
  · rcases hstate with hstate | hstate <;> simp [hstate]
  · rcases hstate with hstate | hstate <;> simp [hstate]

theorem noneReleased_service {place : ℕ} {datagram : List UInt8} (hreply : c.reply = some place)
    (hplace : place < c.replies.length) (hservice : datagram.getD 7 0 = Cmd.service.toByte)
    (e : CustomerEvent) :
    NoneReleased c.replies ((c.setData place datagram).emit e).handleStateCheckDone.replies := by
  have hcommand : ((c.setData place datagram).emit e).stopTimer.replyCommand =
      Cmd.service.toByte := (Customer.replyCommand_setData hreply hplace datagram).trans hservice
  have hbusy : Cmd.service.toByte ≠ Cmd.ready.toByte := by decide
  simp only [Customer.handleStateCheckDone, hcommand, if_pos hbusy, if_true]
  exact (NoneReleased.refl c.replies).setData place datagram

theorem noneReleased_replied (h : c.Inv) (hfault : c.faulted = false) {place : ℕ} {r : Reply}
    {datagram : List UInt8} (hr : c.replies[place]? = some r) (hconnected : r.connected = true)
    (hreleased : r.released = false) (hkept : ¬Daemon.Discards c place datagram)
    (e : CustomerEvent) :
    NoneReleased c.replies ((c.setData place datagram).emit e).handleCustomer.replies := by
  have hdata := (NoneReleased.refl c.replies).setData place datagram
  have hplace := (List.getElem?_eq_some_iff.mp hr).1
  by_cases hping : c.state = .stateCheckDone
  · have hphase := h.phase hfault
    unfold Customer.Phase at hphase
    rw [hping] at hphase
    have hreply := (hphase.2.1.delivers hr hconnected hreleased).2
    have hservice : datagram.getD 7 0 = Cmd.service.toByte := by
      by_contra hother
      exact hkept ⟨.inl ⟨hping, hother⟩, r, hr, hconnected, hreleased⟩
    rw [Customer.handleCustomer,
      show ((c.setData place datagram).emit e).state = .stateCheckDone from hping]
    exact noneReleased_service hreply hplace hservice e
  · have havail : c.state ≠ .supplyCheckDone := fun havail =>
      hkept ⟨.inr havail, r, hr, hconnected, hreleased⟩
    exact NoneReleased.handleCustomer (c := (c.setData place datagram).emit e) hdata hping havail

theorem noneReleased_socket (h : c.Inv) (hfault : c.faulted = false) {buffer : List UInt8}
    (hsocket : c.socket = some buffer) (bytes : List UInt8) :
    NoneReleased c.replies
      ({ c with socket := some (buffer ++ bytes) } : Customer).handleCustomer.replies := by
  have hphase := h.phase hfault
  unfold Customer.Phase at hphase
  -- there is no socket yet in the states that wait for the machine
  refine NoneReleased.handleCustomer (c := { c with socket := some (buffer ++ bytes) })
    (.refl c.replies) ?_ ?_
  · intro hstate
    rw [show c.state = .stateCheckDone from hstate] at hphase
    exact absurd (hsocket.symm.trans hphase.2.2) (Option.some_ne_none _)
  · intro hstate
    rw [show c.state = .supplyCheckDone from hstate] at hphase
    exact absurd (hsocket.symm.trans hphase.2.2.1) (Option.some_ne_none _)

/-- A customer's step releases only the reply whose datagram makes it discard it. -/
theorem noneReleased_step (h : c.Inv) {signal : Signal}
    (hkept : ∀ place datagram, signal = .replyReadyRead place datagram →
      ¬Daemon.Discards c place datagram) :
    NoneReleased c.replies (c.step signal).replies := by
  have hsame := NoneReleased.refl c.replies
  apply Customer.step_keeps (P := fun d => NoneReleased c.replies d.replies) signal hsame
  · intro _ hstarting
    exact noneReleased_start h hstarting
  · intro place datagram r hfault hsent hr hreleased hconnected
    exact noneReleased_replied h hfault hr hconnected hreleased (hkept place datagram hsent) _
  · intro place datagram
    exact hsame.setData place datagram
  · intro bytes buffer hfault _ hsocket
    exact noneReleased_socket h hfault hsocket bytes
  · exact hsame

end Step

namespace Daemon

structure Table (s : Daemon) : Prop where
  filed : ∀ id reply, s.manager.requests id = some reply → reply < s.manager.replies
  owned : ∀ reply, s.manager.replies ≤ reply → s.owner reply = none

theorem filed_get {m : AlkoManager} (request : List UInt8) {id : UInt16} {reply : ℕ}
    (h : (m.get request).2.requests id = some reply) :
    m.requests id = some reply ∨ reply = m.replies := by
  rw [AlkoManager.get_snd_requests] at h
  by_cases hid : id = m.getID
  · rw [hid, Function.update_self] at h
    exact .inr (Option.some.inj h).symm
  · rw [Function.update_of_ne hid] at h
    exact .inl h

structure Files (k place : ℕ) (s t : Daemon) : Prop where
  customers : t.customers = s.customers
  ended : t.ended = s.ended
  more : s.manager.replies ≤ t.manager.replies
  owner : ∀ reply < s.manager.replies, t.owner reply = s.owner reply
  requests : ∀ id reply, t.manager.requests id = some reply →
    s.manager.requests id = some reply ∨
      s.manager.replies ≤ reply ∧ ∃ place', place ≤ place' ∧ t.owner reply = some (k, place')
  table : s.Table → t.Table

theorem Files.refl (k place : ℕ) (s : Daemon) : Files k place s s :=
  ⟨rfl, rfl, le_rfl, fun _ _ => rfl, fun _ _ h => .inl h, id⟩

theorem Files.next {k place : ℕ} {s t : Daemon} {request : List UInt8}
    (h : Files k (place + 1)
      { s with
        manager := (s.manager.get request).2
        owner := Function.update s.owner s.manager.replies (some (k, place)) } t) :
    Files k place s t where
  customers := h.customers
  ended := h.ended
  more := (Nat.le_succ _).trans h.more
  owner reply hreply := by
    rw [h.owner reply (Nat.lt_succ_of_lt hreply)]
    exact Function.update_of_ne (Nat.ne_of_lt hreply) _ _
  requests id reply hfiled := by
    rcases h.requests id reply hfiled with hfiled | ⟨hnew, place', hplace, howner⟩
    · refine (filed_get request hfiled).imp_right ?_
      rintro rfl
      refine ⟨le_rfl, place, le_rfl, ?_⟩
      rw [h.owner s.manager.replies (Nat.lt_succ_self _)]
      exact Function.update_self ..
    · exact .inr ⟨(Nat.le_succ _).trans hnew, place', (Nat.le_succ _).trans hplace, howner⟩
  table htable := by
    refine h.table ⟨?_, ?_⟩
    · intro id reply hfiled
      rcases filed_get request hfiled with hold | rfl
      · exact Nat.lt_succ_of_lt (htable.filed id reply hold)
      · exact Nat.lt_succ_self _
    · intro reply hreply
      have hlt : s.manager.replies < reply := hreply
      exact (Function.update_of_ne (Nat.ne_of_gt hlt) _ _).trans
        (htable.owned reply (Nat.le_of_lt hlt))

theorem files_file (k : ℕ) (replies : List Reply) (place : ℕ) (s : Daemon) :
    Files k place s (file k replies place s) := by
  induction replies generalizing place s with
  | nil => exact .refl k place s
  | cons r replies ih => exact (ih (place + 1) _).next

structure Inv (s : Daemon) : Prop where
  customers : ∀ k c, s.customers[k]? = some c → k ∉ s.ended → c.Inv
  table : s.Table
  live : s.Live

theorem inv_idle : idle.Inv where
  customers k c hk := by simp [idle] at hk
  table := ⟨by simp [idle, AlkoManager.new], fun _ _ => rfl⟩
  live := by simp [Live, idle, AlkoManager.new]

theorem Inv.act {s : Daemon} (h : s.Inv) {k : ℕ} {signal : Signal}
    (hspare : ∀ c place datagram, s.customers[k]? = some c → k ∉ s.ended →
      signal = .replyReadyRead place datagram → ¬Discards c place datagram) :
    (s.act k signal).Inv := by
  unfold Daemon.act
  cases hc : s.customers[k]? with
  | none => exact h
  | some c =>
    simp only
    split_ifs with hended
    · exact h
    · have hkept := noneReleased_step (h.customers k c hc hended) (hspare c · · hc hended)
      have hfiles := files_file k ((c.step signal).replies.drop c.replies.length) c.replies.length
        { s with customers := s.customers.set k (c.step signal) }
      generalize file k _ _ _ = t at hfiles
      have hk : k < s.customers.length := (List.getElem?_eq_some_iff.mp hc).1
      refine ⟨?_, hfiles.table ⟨h.table.filed, h.table.owned⟩, ?_⟩
      · intro k' d hd halive
        rw [hfiles.customers] at hd
        rw [hfiles.ended] at halive
        by_cases hkk : k = k'
        · subst hkk
          rw [List.getElem?_set_self hk] at hd
          exact Option.some.inj hd ▸ (h.customers k c hc hended).step signal
        · rw [List.getElem?_set_ne hkk] at hd
          exact h.customers k' d hd halive
      · rintro id reply hfiled ⟨k', place, d, r, howner, hd, hr, hreleased⟩
        rw [hfiles.customers] at hd
        rcases hfiles.requests id reply hfiled with hold | ⟨hnew, place', hplace, howner'⟩
        · rw [hfiles.owner reply (h.table.filed id reply hold)] at howner
          by_cases hkk : k = k'
          · subst hkk
            rw [List.getElem?_set_self hk] at hd
            obtain rfl := Option.some.inj hd
            obtain ⟨r', hr', hreleased'⟩ := hkept place r hr hreleased
            exact h.live id reply hold ⟨k, place, c, r', howner, hc, hr', hreleased'⟩
          · rw [List.getElem?_set_ne hkk] at hd
            exact h.live id reply hold ⟨k', place, d, r, howner, hd, hr, hreleased⟩
        · -- a new reply is not released by the step that files it
          rw [howner'] at howner
          obtain ⟨rfl, rfl⟩ := Prod.mk.inj (Option.some.inj howner)
          rw [List.getElem?_set_self hk] at hd
          obtain rfl := Option.some.inj hd
          obtain ⟨r', hr', -⟩ := hkept place' r hr hreleased
          have hlt := (List.getElem?_eq_some_iff.mp hr').1
          omega

theorem Inv.get {s : Daemon} (h : s.Inv) (request : List UInt8) :
    Inv { s with manager := (s.manager.get request).2 } where
  customers := h.customers
  table := by
    refine ⟨fun id reply hfiled => ?_, fun reply hreply => h.table.owned reply ?_⟩
    · rcases filed_get request hfiled with hold | rfl
      · exact Nat.lt_succ_of_lt (h.table.filed id reply hold)
      · exact Nat.lt_succ_self _
    · exact (Nat.le_succ _).trans hreply
  live id reply hfiled := by
    rintro ⟨k, place, c, r, howner, hreleased⟩
    rcases filed_get request hfiled with hold | rfl
    · exact h.live id reply hold ⟨k, place, c, r, howner, hreleased⟩
    · exact absurd (howner.symm.trans (h.table.owned _ le_rfl)) (Option.some_ne_none _)

theorem Inv.ponged {s : Daemon} (h : s.Inv) (datagram : List UInt8) :
    Inv { s with manager := s.manager.ponged datagram } := by
  unfold AlkoManager.ponged
  split
  · exact h.get _
  · exact h

theorem receive_eq (s : Daemon) (datagram : List UInt8) :
    s.step (.receive datagram) =
      match (s.manager.ponged datagram).requests (idOf datagram) with
      | some reply =>
        react { s with manager := s.manager.ponged datagram } (.setData reply datagram)
      | none => { s with manager := s.manager.ponged datagram } := by
  rw [step, AlkoManager.dispatch_fst, AlkoManager.dispatch_snd]
  cases AlkoManager.isPing datagram <;>
    cases (s.manager.ponged datagram).requests (idOf datagram) <;> rfl

theorem Inv.receive {s : Daemon} (h : s.Inv) {datagram : List UInt8}
    (hspare : s.Spares (.receive datagram)) : (s.step (.receive datagram)).Inv := by
  have hponged := h.ponged datagram
  rw [receive_eq]
  cases hreply : (s.manager.ponged datagram).requests (idOf datagram) with
  | none => exact hponged
  | some reply =>
    simp only [react]
    cases howner : s.owner reply with
    | none => exact hponged
    | some customer =>
      obtain ⟨k, place⟩ := customer
      refine hponged.act ?_
      rintro c place' datagram' hc hended heq
      obtain ⟨rfl, rfl⟩ := Signal.replyReadyRead.inj heq
      exact hspare reply k place c hreply howner hc hended

theorem releaseReply_of_ne {c : Customer} {place : ℕ} (h : c.reply ≠ some place) :
    c.releaseReply.replies[place]? = c.replies[place]? := by
  rw [Customer.releaseReply_replies]
  cases hreply : c.reply with
  | none => rfl
  | some place' =>
    have hne : place' ≠ place := by
      rintro rfl
      exact h hreply
    exact List.getElem?_modify_ne _ _ hne

theorem Inv.terminate {s : Daemon} (h : s.Inv) {k : ℕ} (hspare : s.Spares (.terminate k)) :
    (s.terminate k).Inv := by
  unfold Daemon.terminate
  cases hc : s.customers[k]? with
  | none => exact h
  | some c =>
    simp only
    split_ifs with hstays
    · exact h
    · rw [not_or, not_not] at hstays
      have hk : k < s.customers.length := (List.getElem?_eq_some_iff.mp hc).1
      refine ⟨?_, ⟨h.table.filed, h.table.owned⟩, ?_⟩
      · intro k' d hd halive
        obtain ⟨hkk, halive⟩ := not_or.mp (List.mem_cons.not.mp halive)
        rw [List.getElem?_set_ne (Ne.symm hkk)] at hd
        exact h.customers k' d hd halive
      · rintro id reply hfiled ⟨k', place, d, r, howner, hd, hr, hreleased⟩
        by_cases hkk : k = k'
        · subst hkk
          rw [List.getElem?_set_self hk] at hd
          obtain rfl := Option.some.inj hd
          have hother : c.reply ≠ some place := fun hreply =>
            hspare c place hc hstays.1 hstays.2 hreply id reply hfiled howner
          rw [releaseReply_of_ne hother] at hr
          exact h.live id reply hfiled ⟨k, place, c, r, howner, hc, hr, hreleased⟩
        · rw [List.getElem?_set_ne hkk] at hd
          exact h.live id reply hfiled ⟨k', place, d, r, howner, hd, hr, hreleased⟩

theorem Inv.swipe {s : Daemon} (h : s.Inv) (data : QString) : (s.step (.swipe data)).Inv where
  customers k c hc halive := by
    rw [step, List.getElem?_append] at hc
    split_ifs at hc with hk
    · exact h.customers k c hc halive
    · rw [List.mem_singleton.mp (List.mem_of_getElem? hc)]
      exact Customer.inv_new _
  table := ⟨h.table.filed, h.table.owned⟩
  live := by
    rintro id reply hfiled ⟨k, place, c, r, howner, hc, hr, hreleased⟩
    rw [step, List.getElem?_append] at hc
    split_ifs at hc with hk
    · exact h.live id reply hfiled ⟨k, place, c, r, howner, hc, hr, hreleased⟩
    · rw [List.mem_singleton.mp (List.mem_of_getElem? hc)] at hr
      cases hr

theorem Inv.step {s : Daemon} (h : s.Inv) {e : DaemonStep} (hspare : s.Spares e) :
    (s.step e).Inv := by
  cases e with
  | swipe data => exact h.swipe data
  | get request => exact h.get request
  | receive datagram => exact h.receive hspare
  | start k => exact h.act (by simp)
  | answer k bytes => exact h.act (by simp)
  | expire k =>
    simp only [Daemon.step]
    split
    · exact h.act (by simp)
    · exact h
  | terminate k => exact h.terminate hspare

theorem Inv.run {s : Daemon} (h : s.Inv) {steps : List DaemonStep} (hspared : Spared steps s) :
    (s.run steps).Inv := by
  induction steps generalizing s with
  | nil => exact h
  | cons e steps ih => exact ih (h.step hspared.1) hspared.2

theorem requests_of_setData {m : AlkoManager} {datagram : List UInt8} {reply : ℕ}
    (h : .setData reply datagram ∈ (m.dispatch datagram).1) :
    (m.ponged datagram).requests (idOf datagram) = some reply := by
  rw [AlkoManager.dispatch_fst] at h
  cases hreply : (m.ponged datagram).requests (idOf datagram) <;> rw [hreply] at h <;>
    cases AlkoManager.isPing datagram <;> simp_all

/-- As long as no customer discards, on an answer or at its end, a reply that the table still has,
every id leads to a reply that has not been released, and so does whatever frame comes next. -/
theorem requests_live (steps : List DaemonStep) (h : Spared steps idle) :
    (idle.run steps).Live ∧
      ∀ datagram reply,
        .setData reply datagram ∈ ((idle.run steps).manager.dispatch datagram).1 →
          ¬(idle.run steps).Released reply := by
  have hinv := inv_idle.run h
  refine ⟨hinv.live, fun datagram reply hset => ?_⟩
  exact (hinv.ponged datagram).live (idOf datagram) reply (requests_of_setData hset)

def answered : List DaemonStep :=
  [.swipe (QString.literal "0102030405"), .start 0,
    .receive (Arduino.Network.sendCommand .ready 2).toBytes]

theorem requests_dangling :
    ¬∀ steps : List DaemonStep, (idle.run steps).Live ∧
      ∀ datagram reply,
        .setData reply datagram ∈ ((idle.run steps).manager.dispatch datagram).1 →
          ¬(idle.run steps).Released reply := by
  intro h
  have howner : (idle.run answered).owner 0 = some (0, 0) := by decide +kernel
  have hreleased : (((idle.run answered).customers[0]?.bind fun c => c.replies[0]?).map
      Reply.released) = some true := by decide +kernel
  obtain ⟨r, hr, hreleased⟩ := Option.map_eq_some_iff.mp hreleased
  obtain ⟨c, hc, hr⟩ := Option.bind_eq_some_iff.mp hr
  exact (h answered).2 (Arduino.Network.sendCommand .ready 2).toBytes 0 (by decide +kernel)
    ⟨0, 0, c, r, howner, hc, hr, hreleased⟩

def turnedAway : List DaemonStep :=
  [.get (Customer.command .ping), .swipe (QString.literal "0102030405"), .start 0,
    .receive (Arduino.Network.sendCommand .service 3).toBytes,
    .receive (Arduino.Network.sendCommand .ping 9).toBytes]

theorem requests_live_service :
    (idle.run turnedAway).Live ∧
      ∀ datagram reply,
        .setData reply datagram ∈ ((idle.run turnedAway).manager.dispatch datagram).1 →
          ¬(idle.run turnedAway).Released reply := by
  refine requests_live turnedAway ⟨trivial, trivial, trivial, ?_, ?_, trivial⟩
  · rintro reply k place c - - hc - ⟨hdiscards, -⟩
    have hwaits : ∀ c ∈ (idle.run (turnedAway.take 3)).customers, c.state = .stateCheckDone := by
      decide +kernel
    have hservice : (Arduino.Network.sendCommand .service 3).toBytes.getD 7 0 =
        Cmd.service.toByte := by decide
    rcases hdiscards with ⟨-, hother⟩ | havail
    · exact hother hservice
    · rw [hwaits c (List.mem_of_getElem? hc)] at havail
      cases havail
  · rintro reply k place c hreply - - -
    have hstray : ((idle.run (turnedAway.take 4)).manager.ponged
        (Arduino.Network.sendCommand .ping 9).toBytes).requests
        (idOf (Arduino.Network.sendCommand .ping 9).toBytes) = none := by decide +kernel
    exact absurd (hstray.symm.trans hreply) (by simp)

end Daemon

end Alko.System
