import Alko.System.CardPath

/-! What becomes of a charge: every customer the customer server has charged is told so too late,
or has one FETCH on its way to the machine or handled there. -/

namespace Alko.System

open Foundation Qt Alkod Arduino

def Frame.Genuine (f : Frame) : Prop := ∃ id, id ≠ 0 ∧ f.bytes = requestBytes id f.request

theorem getID_ne_zero (m : AlkoManager) : m.getID ≠ 0 := by
  unfold AlkoManager.getID
  split_ifs with hlt
  · decide
  · intro hzero
    rw [hzero] at hlt
    exact hlt (by decide)

theorem genuine_get (sender : Option ℕ) (request : List UInt8) (m : AlkoManager) :
    (⟨sender, request, (m.get request).1⟩ : Frame).Genuine :=
  ⟨m.getID, getID_ne_zero m, rfl⟩

theorem Frame.Genuine.datagram_fetch {f : Frame} (h : f.Genuine)
    (hfetch : f.request = Customer.command .fetch) :
    f.datagram.command = Cmd.fetch.toByte ∧ f.datagram.id ≠ 0 := by
  obtain ⟨id, hid, hbytes⟩ := h
  let payload : Payload := ⟨Customer.command .fetch, by decide, by decide⟩
  have hbody : f.bytes.drop 3 = requestBody (id, payload) := by
    rw [hbytes, hfetch, show Customer.command .fetch = (id, payload).2.bytes from rfl,
      ← letters_requestFrame (id, payload)]
    rfl
  rw [Frame.datagram, hbody, parse_requestBody (id, payload) rfl]
  exact ⟨rfl, hid⟩

structure Handling.Genuine (h : Handling) : Prop where
  frame : h.frame.Genuine
  settled : h.before.control.Settled
  after_eq : h.after = (h.before.inWorld h.world).updateWith (some h.frame.datagram)

def Handling.Vends (h : Handling) : Prop :=
  h.before.currentState ≠ .deploy ∧ h.after.currentState = .deploy ∧
    h.after.deployId = h.frame.datagram.id

instance (h : Handling) : Decidable h.Vends := inferInstanceAs (Decidable (_ ∧ _ ∧ _))

def Handling.Ready (h : Handling) : Prop :=
  h.before.currentState = .ready ∧ (h.before.inWorld h.world).narco.getDeployColumn.1 ≠ 0 ∧
    ¬((h.before.inWorld h.world).due .ping = true ∧ h.before.gotPong = false)

/-- The machine vends for a FETCH exactly when it is ready for it. -/
theorem Handling.Genuine.vends_iff {h : Handling} (hgen : h.Genuine)
    (hfetch : h.frame.request = Customer.command .fetch) : h.Vends ↔ h.Ready := by
  obtain ⟨hcmd, hid⟩ := hgen.frame.datagram_fetch hfetch
  have hsettled : (h.before.inWorld h.world).control.Settled := hgen.settled
  have hcur : (h.before.inWorld h.world).currentState = h.before.currentState := rfl
  have hpong : (h.before.inWorld h.world).gotPong = h.before.gotPong := rfl
  unfold Vends Ready
  rw [hgen.after_eq, ← hcur, ← hpong]
  generalize h.before.inWorld h.world = d at hsettled
  by_cases hready : d.currentState = .ready
  · have hafter := Dixie.updateWith_fetch_ready hsettled hcmd hready
    constructor
    · rintro ⟨-, hdep, -⟩
      rw [hdep] at hafter
      split_ifs at hafter with hdue hcol
      refine ⟨hready, hcol, ?_⟩
      rintro ⟨hdue', hpong'⟩
      simp [hdue', hpong'] at hdue
    · rintro ⟨-, hcol, hdue⟩
      -- the link check has the last word on the accepted FETCH
      have hnot : ¬(d.due .ping && !d.gotPong) = true := by
        simpa only [Bool.and_eq_true, Bool.not_eq_true'] using hdue
      rw [if_neg hnot, if_pos hcol] at hafter
      have hne : d.currentState ≠ .deploy := by simp [hready]
      refine ⟨hne, hafter, ?_⟩
      rw [Dixie.updateWith_deployId hsettled hne hafter, if_pos]
      rw [Dixie.accepted_fetch hcmd, if_pos ⟨hready, hcol⟩]
  · refine iff_of_false ?_ fun h => hready h.1
    -- a retry goes into DEPLOY too, but without the id
    rintro ⟨hne, hdep, hsame⟩
    rw [Dixie.deployId_retry hsettled hne hready hdep] at hsame
    exact hid hsame.symm

namespace CardPath

def framesOf (k : ℕ) (s : CardPath) : List Frame :=
  (s.handled.map Handling.frame ++ s.toMachine).filter fun f => f.sender = some k

/-- Where a customer is, as far as the customer server's answer goes. -/
def Stage : Answer → Customer → Prop
  | .pending, c => c.Unserved False
  | .underway _, c => c.Unserved True
  | .delivered line, c =>
    line.head? = some 0x31 → 2 ≤ (Customer.words line).length →
      Customer.fetch ∈ c.trace ∨ (c.state = .expired ∧ Customer.fetch ∉ c.trace)

structure Sound (s : CardPath) : Prop where
  customers : ∀ k c, s.customers[k]? = some c → c.Inv ∧ c.Recorded ∧ Stage (s.answers k) c
  absent : ∀ k, s.customers[k]? = none → s.answers k = .pending
  sent : ∀ k, (s.framesOf k).map Frame.request =
    (s.customers[k]?.map Customer.requests).getD []
  genuine : ∀ f ∈ s.toMachine, f.Genuine
  handled : ∀ h ∈ s.handled, h.Genuine
  settled : s.dixie.control.Settled

theorem sound_idle {d : Dixie} (h : Dixie.machine.Reachable d) (m : AlkoManager) :
    Sound (idle m d) where
  customers k c hc := by simp [idle] at hc
  absent _ _ := rfl
  sent k := rfl
  genuine f hf := by simp [idle] at hf
  handled h hh := by simp [idle] at hh
  settled := Dixie.settled h

variable {s : CardPath} {k : ℕ} {c : Customer}

theorem Stage.step {a : Answer} (h : Stage a c) (hinv : c.Inv) {signal : Customer.Signal}
    (hsignal : ∀ bytes, signal ≠ .socketReadyRead bytes) : Stage a (c.step signal) := by
  cases a with
  | pending => exact Customer.Unserved.step h hinv hsignal
  | underway line => exact Customer.Unserved.step h hinv hsignal
  | delivered line =>
    intro hpaid hwords
    -- a FETCH stays in the history; an expired customer asks for nothing
    rcases h hpaid hwords with hfetch | ⟨hexpired, hnot⟩
    · exact Or.inl (Customer.step_fetched hfetch signal)
    · obtain ⟨hstate, hgets⟩ := Customer.step_expired hexpired signal
      refine Or.inr ⟨hstate, ?_⟩
      rwa [Customer.fetch_mem_iff, hgets, ← Customer.fetch_mem_iff]

theorem Stage.deliver {line : List UInt8} (h : Stage (.underway line) c) :
    Stage (.delivered line) (c.step (.socketReadyRead line)) := by
  have hunserved : c.Unserved True := h
  intro hpaid hwords
  have hsocket := hunserved.connected trivial
  rcases hunserved.state hsocket with hstate | hstate
  · exact Or.inl (hunserved.served hstate (hunserved.socket.resolve_left hsocket) hpaid hwords)
  · obtain ⟨hexpired, hgets⟩ := Customer.step_expired hstate (.socketReadyRead line)
    refine Or.inr ⟨hexpired, ?_⟩
    rw [Customer.fetch_mem_iff, hgets, ← Customer.fetch_mem_iff]
    exact hunserved.notFetched

theorem sendAll_eq (k : ℕ) (replies : List Reply) (place : ℕ) (s : CardPath) :
    ∃ frames manager owner,
      sendAll k replies place s =
        { s with manager := manager, owner := owner, toMachine := s.toMachine ++ frames } ∧
      frames.map Frame.request = replies.map Reply.request ∧
      ∀ f ∈ frames, f.sender = some k ∧ f.Genuine := by
  induction replies generalizing place s with
  | nil => exact ⟨[], s.manager, s.owner, by simp [sendAll], rfl, by simp⟩
  | cons r replies ih =>
    rw [sendAll]
    obtain ⟨frames, manager, owner, heq, hrequests, hframes⟩ := ih (place + 1)
      { s with
        manager := (s.manager.get r.request).2
        owner := Function.update s.owner s.manager.replies (some (k, place))
        toMachine := s.toMachine ++ [⟨some k, r.request, (s.manager.get r.request).1⟩] }
    refine ⟨⟨some k, r.request, (s.manager.get r.request).1⟩ :: frames, manager, owner, ?_, ?_, ?_⟩
    · rw [heq]
      simp only [List.append_assoc, List.singleton_append]
    · simp only [List.map_cons, hrequests]
    · intro f hf
      rcases List.mem_cons.mp hf with rfl | hf
      · exact ⟨rfl, genuine_get _ _ _⟩
      · exact hframes f hf

theorem act_eq (hc : s.customers[k]? = some c) (signal : Customer.Signal) :
    ∃ frames manager owner,
      s.act k signal =
        { s with
          customers := s.customers.set k (c.step signal)
          manager := manager
          owner := owner
          toMachine := s.toMachine ++ frames } ∧
      (c.step signal).requests = c.requests ++ frames.map Frame.request ∧
      ∀ f ∈ frames, f.sender = some k ∧ f.Genuine := by
  obtain ⟨frames, manager, owner, heq, hrequests, hframes⟩ := sendAll_eq k
    ((c.step signal).replies.drop c.replies.length) c.replies.length
    { s with customers := s.customers.set k (c.step signal) }
  obtain ⟨new, hnew, -⟩ := Customer.grows_step c signal
  refine ⟨frames, manager, owner, ?_, ?_, hframes⟩
  · simp only [act, hc]
    exact heq
  · have hlen : c.replies.length = c.requests.length := (List.length_map ..).symm
    rw [hrequests, List.map_drop, hlen, show (c.step signal).replies.map Reply.request = _ from hnew,
      List.drop_left, hnew]

theorem customers_set (hc : s.customers[k]? = some c) (d : Customer) (j : ℕ) :
    (s.customers.set k d)[j]? = if j = k then some d else s.customers[j]? := by
  by_cases hj : j = k
  · rw [if_pos hj, hj]
    exact List.getElem?_set_self (List.getElem?_eq_some_iff.mp hc).1
  · rw [if_neg hj]
    exact List.getElem?_set_ne (Ne.symm hj)

theorem filter_sender {frames : List Frame} (h : ∀ f ∈ frames, f.sender = some k) (j : ℕ) :
    frames.filter (fun f => f.sender = some j) = if j = k then frames else [] := by
  split_ifs with hj
  · rw [List.filter_eq_self]
    intro f hf
    simpa [hj] using h f hf
  · rw [List.filter_eq_nil_iff]
    intro f hf
    simpa [h f hf] using Ne.symm hj

theorem framesOf_append {t : CardPath} {frames : List Frame} (h : ∀ f ∈ frames, f.sender = some k)
    (hhandled : t.handled = s.handled) (hto : t.toMachine = s.toMachine ++ frames) (j : ℕ) :
    t.framesOf j = s.framesOf j ++ if j = k then frames else [] := by
  rw [← filter_sender h j]
  simp only [framesOf, hhandled, hto, List.filter_append, List.append_assoc]

/-- The step lemma for signals; `answers` is what the customer server has got to with it. -/
theorem Sound.act (h : Sound s) (k : ℕ) (signal : Customer.Signal) {answers : ℕ → Answer}
    (hother : ∀ j, j ≠ k → answers j = s.answers j)
    (hstage : ∀ c, s.customers[k]? = some c → Stage (answers k) (c.step signal))
    (habsent : s.customers[k]? = none → answers k = .pending) :
    Sound ({ s with answers := answers }.act k signal) := by
  cases hc : s.customers[k]? with
  | none =>
    -- no such customer: nothing happens, and nothing may have been answered
    have hsame : answers = s.answers := by
      funext j
      by_cases hj : j = k
      · rw [hj, habsent hc, h.absent k hc]
      · exact hother j hj
    rw [hsame, CardPath.act, hc]
    exact h
  | some c =>
    have hc' : ({ s with answers := answers } : CardPath).customers[k]? = some c := hc
    obtain ⟨frames, manager, owner, heq, hrequests, hframes⟩ := act_eq hc' signal
    obtain ⟨hinv, hrecorded, -⟩ := h.customers k c hc
    rw [heq]
    refine ⟨?_, ?_, ?_, ?_, h.handled, h.settled⟩
    · intro j d hd
      rw [show _ = _ from customers_set hc (c.step signal) j] at hd
      split_ifs at hd with hj
      · obtain rfl := Option.some.inj hd
        subst hj
        exact ⟨hinv.step signal, hrecorded.step signal, hstage c hc⟩
      · rw [show ({ s with answers := answers } : CardPath).answers j = s.answers j from hother j hj]
        exact h.customers j d hd
    · intro j hj
      rw [show _ = _ from customers_set hc (c.step signal) j] at hj
      split_ifs at hj with hjk
      · exact (hother j hjk).trans (h.absent j hj)
    · intro j
      have hsender : ∀ f ∈ frames, f.sender = some k := fun f hf => (hframes f hf).1
      rw [framesOf_append (s := s) hsender, List.map_append, h.sent j,
        show _ = _ from customers_set hc (c.step signal) j]
      · split_ifs with hj
        · rw [hj, hc]
          exact hrequests.symm
        · exact List.append_nil _
      · rfl
      · rfl
    · intro f hf
      rcases List.mem_append.mp hf with hf | hf
      · exact h.genuine f hf
      · exact (hframes f hf).2

theorem Sound.act_same (h : Sound s) (k : ℕ) {signal : Customer.Signal}
    (hsignal : ∀ bytes, signal ≠ .socketReadyRead bytes) : Sound (s.act k signal) := by
  refine h.act k signal (fun _ _ => rfl) (fun c hc => ?_) (h.absent k)
  obtain ⟨hinv, -, hstage⟩ := h.customers k c hc
  exact hstage.step hinv hsignal

theorem genuine_pong {m : AlkoManager} {datagram bytes : List UInt8}
    (h : ManagerEvent.send bytes ∈ (m.dispatch datagram).1) :
    (⟨none, Customer.command .pong, bytes⟩ : Frame).Genuine := by
  rw [AlkoManager.dispatch_fst] at h
  simp only [List.cons_append, List.mem_cons, List.mem_append, Option.mem_toList,
    Option.map_eq_some_iff, reduceCtorEq, false_or, and_false, exists_false, or_false] at h
  split_ifs at h
  · obtain rfl := ManagerEvent.send.inj (List.mem_singleton.mp h)
    exact genuine_get none (Customer.command .pong) m
  · cases h

theorem Sound.react (h : Sound s) {e : ManagerEvent}
    (he : ∀ bytes, e = .send bytes → (⟨none, Customer.command .pong, bytes⟩ : Frame).Genuine) :
    Sound (s.react e) := by
  cases e with
  | recv datagram => exact h
  | send bytes =>
    refine ⟨h.customers, h.absent, fun j => ?_, ?_, h.handled, h.settled⟩
    · have hframes : framesOf j (s.react (.send bytes)) = s.framesOf j := by
        simp [framesOf, CardPath.react]
      exact (congrArg _ hframes).trans (h.sent j)
    · intro f hf
      rcases List.mem_append.mp hf with hf | hf
      · exact h.genuine f hf
      · rw [List.mem_singleton.mp hf]
        exact he bytes rfl
  | setData reply datagram =>
    simp only [CardPath.react]
    cases s.owner reply with
    | none => exact h
    | some place => exact h.act_same place.1 fun bytes => nofun

theorem Sound.foldl_react (h : Sound s) {events : List ManagerEvent}
    (hevents : ∀ bytes, ManagerEvent.send bytes ∈ events →
      (⟨none, Customer.command .pong, bytes⟩ : Frame).Genuine) :
    Sound (events.foldl CardPath.react s) := by
  induction events generalizing s with
  | nil => exact h
  | cons e events ih =>
    refine ih (h.react fun bytes he => hevents bytes (he ▸ List.mem_cons_self)) ?_
    exact fun bytes hb => hevents bytes (List.mem_cons_of_mem _ hb)

theorem Sound.receive (h : Sound s) (frame : List UInt8) : Sound (s.receive frame) := by
  have hmanager : Sound { s with manager := (s.manager.dispatch frame).2 } :=
    ⟨h.customers, h.absent, h.sent, h.genuine, h.handled, h.settled⟩
  exact hmanager.foldl_react fun bytes => genuine_pong

theorem Sound.pass (h : Sound s) (w : World) : Sound (s.pass w none) where
  customers := h.customers
  absent := h.absent
  sent k := by
    have hframes : framesOf k (s.pass w none) = s.framesOf k := by
      simp [framesOf, CardPath.pass]
    exact (congrArg _ hframes).trans (h.sent k)
  genuine := h.genuine
  handled := by
    intro hd hhd
    exact h.handled hd (by simpa [CardPath.pass] using hhd)
  settled := Dixie.settled_updateWith (d := s.dixie.inWorld w) h.settled none

theorem Sound.deliver (h : Sound s) {f : Frame} {frames : List Frame}
    (hframes : s.toMachine = f :: frames) (w : World) :
    Sound ({ s with toMachine := frames }.pass w (some f)) where
  customers := h.customers
  absent := h.absent
  sent k := by
    have hsame : framesOf k ({ s with toMachine := frames }.pass w (some f)) = s.framesOf k := by
      simp [framesOf, CardPath.pass, hframes]
    exact (congrArg _ hsame).trans (h.sent k)
  genuine g hg := h.genuine g (by rw [hframes]; exact List.mem_cons_of_mem f hg)
  handled := by
    intro hd hhd
    rcases List.mem_append.mp hhd with hhd | hhd
    · exact h.handled hd hhd
    · obtain rfl : hd = _ := List.mem_singleton.mp hhd
      exact ⟨h.genuine f (by rw [hframes]; exact List.mem_cons_self), h.settled, rfl⟩
  settled := Dixie.settled_updateWith (d := s.dixie.inWorld w) h.settled (some f.datagram)

theorem Sound.swipe (h : Sound s) (data : QString) : Sound (s.step (.swipe data)) := by
  have hnew : ∀ k, (s.step (.swipe data)).customers[k]? =
      if k = s.customers.length then some (newCustomer data) else s.customers[k]? := by
    intro k
    unfold CardPath.step
    split_ifs with hk
    · rw [hk, List.getElem?_concat_length]
    · rcases Nat.lt_or_gt_of_ne hk with hlt | hgt
      · exact List.getElem?_append_left hlt
      · rw [List.getElem?_eq_none (by simpa using hgt), List.getElem?_eq_none hgt.le]
  have hlast : s.customers[s.customers.length]? = none := List.getElem?_eq_none le_rfl
  refine ⟨fun k c hc => ?_, fun k hk => ?_, fun k => ?_, h.genuine, h.handled, h.settled⟩
  · rw [hnew k] at hc
    split_ifs at hc with hk
    · obtain rfl := Option.some.inj hc
      refine ⟨Customer.inv_new _, Customer.recorded_new _, ?_⟩
      rw [hk, show (s.step (.swipe data)).answers = s.answers from rfl, h.absent _ hlast]
      exact Customer.unserved_new _
    · exact h.customers k c hc
  · rw [hnew k] at hk
    split_ifs at hk
    · exact h.absent k hk
  · rw [show (s.step (.swipe data)).framesOf k = s.framesOf k from rfl, h.sent k,
      hnew k]
    split_ifs with hk
    · rw [hk, hlast]
      rfl
    · rfl

theorem Sound.answer (h : Sound s) (hpending : s.answers k = .pending) (hasked : s.asked k = true)
    (line : List UInt8) :
    Sound { s with answers := Function.update s.answers k (.underway line) } where
  customers j c hc := by
    obtain ⟨hinv, hrecorded, hstage⟩ := h.customers j c hc
    refine ⟨hinv, hrecorded, ?_⟩
    by_cases hj : j = k
    · subst hj
      rw [hpending] at hstage
      have hunserved : c.Unserved False := hstage
      have hc' : s.customers[j]? = some c := hc
      have hsocket : c.socket ≠ none := by
        rw [asked, hc'] at hasked
        exact Option.isSome_iff_ne_none.mp hasked
      simp only [Function.update_self]
      exact { hunserved with connected := fun _ => hsocket }
    · simp only [Function.update_of_ne hj]
      exact hstage
  absent j hj := by
    have hj' : s.customers[j]? = none := hj
    by_cases hjk : j = k
    · rw [asked, ← hjk, hj'] at hasked
      cases hasked
    · simp only [Function.update_of_ne hjk]
      exact h.absent j hj
  sent := h.sent
  genuine := h.genuine
  handled := h.handled
  settled := h.settled

theorem Sound.step (h : Sound s) (m : Move) : Sound (s.step m) := by
  cases m with
  | swipe data => exact h.swipe data
  | start k => exact h.act_same k (by simp)
  | expire k =>
    simp only [CardPath.step]
    split_ifs
    · exact h.act_same k (by simp)
    · exact h
  | pass w => exact h.pass w
  | toMachine w =>
    simp only [CardPath.step]
    cases hframes : s.toMachine with
    | nil => exact h
    | cons f frames => exact h.deliver hframes w
  | toDaemon =>
    simp only [CardPath.step]
    cases s.toDaemon with
    | nil => exact h
    | cons frame frames =>
      have hrest : Sound { s with toDaemon := frames } :=
        ⟨h.customers, h.absent, h.sent, h.genuine, h.handled, h.settled⟩
      exact hrest.receive frame
  | answer k line =>
    simp only [CardPath.step]
    split_ifs with hopen
    · exact h.answer hopen.1 hopen.2 line
    · exact h
  | toCustomer k =>
    simp only [CardPath.step]
    cases hanswer : s.answers k with
    | underway line =>
      apply h.act k (.socketReadyRead line)
      · intro j hj
        exact Function.update_of_ne hj _ _
      · intro c hc
        rw [Function.update_self]
        have hstage := (h.customers k c hc).2.2
        rw [hanswer] at hstage
        exact Stage.deliver hstage
      · intro hnone
        rw [h.absent k hnone] at hanswer
        cases hanswer
    | pending => exact h
    | delivered line => exact h

theorem sound (h : system.Reachable s) : Sound s :=
  h.invariant (fun _ ⟨m, _, hd, hs⟩ => hs ▸ sound_idle hd m) fun _ m _ _ hs hstep =>
    hstep ▸ hs.step m

def IsFetch (k : ℕ) (f : Frame) : Prop :=
  f.sender = some k ∧ f.request = Customer.command .fetch

instance (k : ℕ) (f : Frame) : Decidable (IsFetch k f) := inferInstanceAs (Decidable (_ ∧ _))

def fetchesInFlight (k : ℕ) (s : CardPath) : List Frame := s.toMachine.filter fun f => IsFetch k f

def fetchesHandled (k : ℕ) (s : CardPath) : List Handling :=
  s.handled.filter fun h => IsFetch k h.frame

theorem fetches_length (k : ℕ) (s : CardPath) :
    (s.fetchesHandled k).length + (s.fetchesInFlight k).length =
      ((s.framesOf k).map Frame.request).count (Customer.command .fetch) := by
  have hboth : ∀ f : Frame, (f.request == Customer.command .fetch && decide (f.sender = some k)) =
      decide (IsFetch k f) := by
    intro f
    rw [Bool.eq_iff_iff, decide_eq_true_iff]
    simp [IsFetch, and_comm]
  rw [framesOf, List.count, List.countP_map, List.countP_filter, List.countP_append,
    List.countP_map, fetchesHandled, fetchesInFlight, ← List.countP_eq_length_filter,
    ← List.countP_eq_length_filter]
  simp only [Function.comp_def, hboth]

/-- No FETCH is lost or made up on the way. -/
theorem Sound.fetches_length (h : Sound s) (hc : s.customers[k]? = some c) :
    (s.fetchesHandled k).length + (s.fetchesInFlight k).length = c.trace.count Customer.fetch := by
  obtain ⟨-, hrecorded, -⟩ := h.customers k c hc
  have hsent := h.sent k
  rw [hc, Option.map_some, Option.getD_some] at hsent
  rw [CardPath.fetches_length, hsent, hrecorded.count_fetch]

theorem Sound.fetch_once (h : Sound s) (k : ℕ) :
    (s.fetchesHandled k).length + (s.fetchesInFlight k).length ≤ 1 := by
  cases hc : s.customers[k]? with
  | none =>
    have hsent := h.sent k
    rw [hc, Option.map_none, Option.getD_none] at hsent
    rw [CardPath.fetches_length, hsent]
    exact Nat.zero_le 1
  | some c => exact (h.fetches_length hc).trans_le (h.customers k c hc).1.lawful.once

theorem reachable_run (h : system.Reachable s) (moves : List Move) :
    system.Reachable (run moves s) := by
  induction moves generalizing s with
  | nil => exact h
  | cons m moves ih => exact ih (h.step (k := m) rfl)

structure Onwards (s t : CardPath) : Prop where
  customers : ∀ (k : ℕ) (c : Customer), s.customers[k]? = some c →
    ∃ signals, t.customers[k]? = some (c.run signals)
  handled : s.handled <+: t.handled

theorem Onwards.refl (s : CardPath) : Onwards s s :=
  ⟨fun _ _ hc => ⟨[], hc⟩, List.prefix_rfl⟩

theorem Onwards.trans {s t u : CardPath} (h : Onwards s t) (h' : Onwards t u) : Onwards s u := by
  refine ⟨fun k c hc => ?_, h.handled.trans h'.handled⟩
  obtain ⟨signals, ht⟩ := h.customers k c hc
  obtain ⟨signals', hu⟩ := h'.customers k _ ht
  refine ⟨signals ++ signals', ?_⟩
  rw [hu, Customer.run, Customer.run, Customer.run, List.foldl_append]

theorem Onwards.same {s t : CardPath} (hcustomers : t.customers = s.customers)
    (hhandled : s.handled <+: t.handled) : Onwards s t :=
  ⟨fun _ _ hc => ⟨[], by rw [hcustomers]; exact hc⟩, hhandled⟩

theorem onwards_act (s : CardPath) (k : ℕ) (signal : Customer.Signal) :
    Onwards s (s.act k signal) := by
  cases hc : s.customers[k]? with
  | none =>
    rw [act, hc]
    exact .refl s
  | some c =>
    obtain ⟨frames, manager, owner, heq, -, -⟩ := act_eq hc signal
    rw [heq]
    refine ⟨fun j d hd => ?_, List.prefix_rfl⟩
    by_cases hj : j = k
    · subst hj
      obtain rfl := Option.some.inj (hc.symm.trans hd)
      exact ⟨[signal], (customers_set hc _ _).trans (if_pos rfl)⟩
    · exact ⟨[], ((customers_set hc _ _).trans (if_neg hj)).trans hd⟩

theorem onwards_react (s : CardPath) (events : List ManagerEvent) :
    Onwards s (events.foldl react s) := by
  induction events generalizing s with
  | nil => exact .refl s
  | cons e events ih =>
    refine Onwards.trans ?_ (ih (s.react e))
    cases e with
    | recv datagram => exact .refl s
    | send bytes => exact .same rfl List.prefix_rfl
    | setData reply datagram =>
      simp only [react]
      cases s.owner reply with
      | none => exact .refl s
      | some place => exact onwards_act s place.1 _

theorem onwards_step (s : CardPath) (m : Move) : Onwards s (s.step m) := by
  cases m with
  | swipe data =>
    refine ⟨fun k c hc => ⟨[], ?_⟩, List.prefix_rfl⟩
    exact (List.getElem?_append_left (List.getElem?_eq_some_iff.mp hc).1).trans hc
  | start k => exact onwards_act s k .start
  | expire k =>
    simp only [step]
    split_ifs
    · exact onwards_act s k .timeout
    · exact .refl s
  | pass w => exact .same rfl (List.prefix_append ..)
  | toMachine w =>
    simp only [step]
    cases s.toMachine with
    | nil => exact .refl s
    | cons f frames => exact .same rfl (List.prefix_append ..)
  | toDaemon =>
    simp only [step]
    cases s.toDaemon with
    | nil => exact .refl s
    | cons frame frames =>
      have hrest : Onwards s
          { s with
            toDaemon := frames
            manager := (s.manager.dispatch frame).2 } := .same rfl List.prefix_rfl
      exact hrest.trans (onwards_react _ _)
  | answer k line =>
    simp only [step]
    split_ifs
    · exact .same rfl List.prefix_rfl
    · exact .refl s
  | toCustomer k =>
    simp only [step]
    cases s.answers k with
    | underway line =>
      have hanswered : Onwards s
          { s with answers := Function.update s.answers k (.delivered line) } :=
        .same rfl List.prefix_rfl
      exact hanswered.trans (onwards_act _ k _)
    | pending => exact .refl s
    | delivered line => exact .refl s

theorem onwards_run (s : CardPath) (moves : List Move) : Onwards s (run moves s) := by
  induction moves generalizing s with
  | nil => exact .refl s
  | cons m moves ih => exact (onwards_step s m).trans (ih (s.step m))

/-- Nothing of a customer's is ever handed to the machine to vend for, now or later. -/
def NeverVends (k : ℕ) (s : CardPath) : Prop :=
  ∀ moves, ∀ h ∈ (run moves s).fetchesHandled k, ¬h.Vends

theorem never_fetches (h : system.Reachable s) (hc : s.customers[k]? = some c)
    (hexpired : c.state = .expired) (hnot : Customer.fetch ∉ c.trace) (moves : List Move) :
    (run moves s).fetchesHandled k = [] ∧ (run moves s).fetchesInFlight k = [] := by
  obtain ⟨signals, hlater⟩ := (onwards_run s moves).customers k c hc
  obtain ⟨-, hgets⟩ := Customer.run_expired hexpired signals
  have hlength := (sound (reachable_run h moves)).fetches_length hlater
  rw [List.count_eq_zero_of_not_mem] at hlength
  · exact ⟨List.eq_nil_of_length_eq_zero (by omega), List.eq_nil_of_length_eq_zero (by omega)⟩
  · rwa [Customer.fetch_mem_iff, hgets, ← Customer.fetch_mem_iff]

theorem never_vends (h : system.Reachable s) (hone : (s.fetchesHandled k).length = 1)
    (hvain : ∀ hd ∈ s.fetchesHandled k, ¬hd.Vends) : NeverVends k s := by
  intro moves
  -- the record only grows, and holds one FETCH of the customer at most
  have hprefix : s.fetchesHandled k <+: (run moves s).fetchesHandled k :=
    (onwards_run s moves).handled.filter _
  have honce := (sound (reachable_run h moves)).fetch_once k
  have hle := hprefix.length_le
  rw [← hprefix.eq_of_length (by omega)]
  exact hvain

/-- The customer server has processed the customer's request, and its answer says paid. -/
def Charged (k : ℕ) (line : List UInt8) (s : CardPath) : Prop :=
  (s.answers k = .underway line ∨ s.answers k = .delivered line) ∧ line.head? = some 0x31

inductive Outcome (k : ℕ) (line : List UInt8) (s : CardPath) : Prop
  | underway (answer : s.answers k = .underway line)
  -- The answer has no second word; the daemon reads past the end of its words.
  | garbled (answer : s.answers k = .delivered line) (short : (Customer.words line).length < 2)
  -- The answer came after the customer's timer; nothing is or will be fetched.
  | late {c : Customer} (answer : s.answers k = .delivered line)
      (customer : s.customers[k]? = some c) (expired : c.state = .expired)
      (none : ∀ moves, (run moves s).fetchesHandled k = [] ∧ (run moves s).fetchesInFlight k = [])
  | inFlight {f : Frame} (answer : s.answers k = .delivered line) (one : s.fetchesInFlight k = [f])
      (none : s.fetchesHandled k = [])
  -- The machine has handled the one FETCH, and has vended for it if it was ready to.
  | handled {h : Handling} (answer : s.answers k = .delivered line) (one : s.fetchesHandled k = [h])
      (none : s.fetchesInFlight k = []) (vends : h.Ready → h.Vends)
      (refused : h.before.currentState ≠ .ready → ¬h.Vends)

/-- Every charge, at every moment of every run. -/
theorem charge_outcome {s : CardPath} (h : system.Reachable s) {k : ℕ} {line : List UInt8}
    (hcharged : s.Charged k line) : Outcome k line s := by
  have hsound := sound h
  obtain ⟨hanswer | hanswer, hpaid⟩ := hcharged
  · exact .underway hanswer
  cases hc : s.customers[k]? with
  | none =>
    rw [hsound.absent k hc] at hanswer
    cases hanswer
  | some c =>
    obtain ⟨hinv, -, hstage⟩ := hsound.customers k c hc
    have hlength := hsound.fetches_length hc
    rw [hanswer] at hstage
    by_cases hwords : 2 ≤ (Customer.words line).length
    · rcases hstage hpaid hwords with hfetch | ⟨hexpired, hnot⟩
      · have hcount : c.trace.count Customer.fetch = 1 :=
          le_antisymm hinv.lawful.once (List.one_le_count_iff.mpr hfetch)
        rw [hcount] at hlength
        rcases Nat.eq_zero_or_pos (s.fetchesHandled k).length with hzero | hpos
        · obtain ⟨f, hf⟩ := List.length_eq_one_iff.mp
            (show (s.fetchesInFlight k).length = 1 by omega)
          exact .inFlight hanswer hf (List.eq_nil_of_length_eq_zero hzero)
        · obtain ⟨hd, hhd⟩ := List.length_eq_one_iff.mp
            (show (s.fetchesHandled k).length = 1 by omega)
          have hmem : hd ∈ s.fetchesHandled k := hhd ▸ List.mem_singleton_self hd
          obtain ⟨hmem, hfetch⟩ := List.mem_filter.mp hmem
          have hvends := (hsound.handled hd hmem).vends_iff (of_decide_eq_true hfetch).2
          exact .handled hanswer hhd (List.eq_nil_of_length_eq_zero (by omega)) hvends.mpr
            fun hbusy hv => hbusy (hvends.mp hv).1
      · exact .late hanswer hc hexpired (never_fetches h hc hexpired hnot)
    · exact .garbled hanswer (Nat.lt_of_not_le hwords)

def openForService : CardPath := idle AlkoManager.new waiting

def quiet (millis : UInt32) : World := .turning millis false []

def toServer (k : ℕ) : List Move :=
  [.swipe [0x31], .start k, .toMachine (quiet 3001), .toDaemon, .toMachine (quiet 3001), .toDaemon]

def fetchFrames : List Move := List.replicate 4 (.toMachine (quiet 3002))

def paidLine : List UInt8 := [0x31, 0x20, 0x32, 0x30, 0x0A]

def Supplied (s : CardPath) : Prop :=
  ∀ h ∈ s.handled, (h.before.inWorld h.world).narco.getDeployColumn.1 ≠ 0

instance (s : CardPath) : Decidable s.Supplied :=
  inferInstanceAs (Decidable (∀ h ∈ s.handled, _ ≠ 0))

theorem run_reachable (moves : List Move) : system.Reachable (openForService.run moves) :=
  reachable_run (.init ⟨_, _, waiting_reachable, rfl⟩) moves

def served : CardPath :=
  openForService.run (toServer 0 ++ [.answer 0 paidLine, .toCustomer 0] ++ fetchFrames)

theorem charge_outcome_served :
    Outcome 0 paidLine served ∧ (served.fetchesHandled 0).length = 1 ∧
      ∀ h ∈ served.fetchesHandled 0, h.Vends :=
  ⟨charge_outcome (run_reachable _) ⟨Or.inr (by decide +kernel), rfl⟩, by decide +kernel,
    by decide +kernel⟩

def lateAnswer : CardPath :=
  openForService.run (toServer 0 ++ [.answer 0 paidLine, .expire 0, .toCustomer 0])

def secondCustomer : CardPath :=
  openForService.run (toServer 0 ++ toServer 1 ++ [.answer 0 paidLine, .answer 1 paidLine,
    .toCustomer 0, .toCustomer 1] ++ fetchFrames ++ fetchFrames)

def linkCheck : CardPath :=
  openForService.run (toServer 0 ++ [.answer 0 paidLine, .toCustomer 0] ++ fetchFrames.take 3 ++
    [.pass (quiet 33001), .toMachine (quiet 63002)])

theorem charged_without_vend :
    (system.Reachable lateAnswer ∧ Supplied lateAnswer ∧ Charged 0 paidLine lateAnswer ∧
        NeverVends 0 lateAnswer) ∧
      (system.Reachable secondCustomer ∧ Supplied secondCustomer ∧
        Charged 1 paidLine secondCustomer ∧ NeverVends 1 secondCustomer) ∧
      (system.Reachable linkCheck ∧ Supplied linkCheck ∧ Charged 0 paidLine linkCheck ∧
        NeverVends 0 linkCheck) := by
  refine ⟨⟨run_reachable _, by decide +kernel, ⟨Or.inr (by decide +kernel), rfl⟩, ?_⟩,
    ⟨run_reachable _, by decide +kernel, ⟨Or.inr (by decide +kernel), rfl⟩, ?_⟩,
    run_reachable _, by decide +kernel, ⟨Or.inr (by decide +kernel), rfl⟩, ?_⟩
  · intro moves h hh
    have hstate : lateAnswer.customers[0]?.map Customer.state = some .expired := by decide +kernel
    obtain ⟨c, hc, hexpired⟩ := Option.map_eq_some_iff.mp hstate
    have htrace : ∀ c ∈ lateAnswer.customers[0]?, Customer.fetch ∉ c.trace := by decide +kernel
    have hreach : system.Reachable lateAnswer := run_reachable _
    rw [(never_fetches hreach hc hexpired (htrace c hc) moves).1] at hh
    cases hh
  · exact never_vends (run_reachable _) (by decide +kernel) (by decide +kernel)
  · exact never_vends (run_reachable _) (by decide +kernel) (by decide +kernel)

end CardPath

end Alko.System
