import Alko.Arduino.LinkLoss

/-! A pass of the machine touches the line in one place. What it makes of what it finds there does
not depend on the receiver, and every frame it sends has room for what it carries. -/

namespace Alko.Arduino

open Control Foundation

def Event.handled? : Event → Option Datagram
  | .handled _ dgr => some dgr
  | _ => none

def World.withBytes (arrived late : List UInt8) (w : World) : World :=
  { w with arrived := arrived, late := late }

namespace Dixie

@[simps] def withNetwork (n : Network) (d : Dixie) : Dixie := { d with network := n }

section WithNetwork

variable (n : Network) (d : Dixie)

theorem timedOut_withNetwork (t : TimerId) :
    (d.withNetwork n).timedOut t = ((d.timedOut t).1, (d.timedOut t).2.withNetwork n) := by
  simp only [timedOut, withNetwork_timers, withNetwork_clock]
  split <;> rfl

theorem updateServiceState_withNetwork :
    (d.withNetwork n).updateServiceState = d.updateServiceState.withNetwork n := by
  simp only [updateServiceState, timedOut_withNetwork]
  split <;> rfl

theorem updatePrepareReadyState_withNetwork :
    (d.withNetwork n).updatePrepareReadyState = d.updatePrepareReadyState.withNetwork n := by
  simp only [updatePrepareReadyState, timedOut_withNetwork]
  split <;> rfl

theorem doPingPong_withNetwork : (d.withNetwork n).doPingPong = d.doPingPong.withNetwork n := by
  simp only [doPingPong, withNetwork_gotPong]
  split <;> rfl

theorem updateReadyWaitState_withNetwork :
    (d.withNetwork n).updateReadyWaitState = d.updateReadyWaitState.withNetwork n := by
  simp only [updateReadyWaitState, timedOut_withNetwork]
  split <;> rfl

theorem updateReadyState_withNetwork :
    (d.withNetwork n).updateReadyState = d.updateReadyState.withNetwork n := by
  have hpinged : (d.withNetwork n).pinged = d.pinged.withNetwork n := by
    simp only [pinged, timedOut_withNetwork, doPingPong_withNetwork]
    split <;> rfl
  have hready (d : Dixie) : d.updateReadyState = d.pinged.updateReadyWaitState := rfl
  rw [hready, hpinged, updateReadyWaitState_withNetwork, ← hready]

theorem enterDeployState_withNetwork :
    (d.withNetwork n).enterDeployState = d.enterDeployState.withNetwork n := by
  simp only [enterDeployState, onLcd_narco, withNetwork_narco]
  split <;> rfl

theorem isHome_withNetwork (column : ℕ) :
    (d.withNetwork n).isHome column = ((d.isHome column).1, (d.isHome column).2.withNetwork n) :=
  rfl

theorem updateDeployState_withNetwork :
    (d.withNetwork n).updateDeployState = d.updateDeployState.withNetwork n := by
  simp only [updateDeployState, timedOut_withNetwork, isHome_withNetwork, withNetwork_deployColumn]
  split_ifs <;> rfl

theorem updateDeployErrorState_withNetwork :
    (d.withNetwork n).updateDeployErrorState = d.updateDeployErrorState.withNetwork n := by
  simp only [updateDeployErrorState, timedOut_withNetwork]
  split <;> rfl

theorem updatePrepareAutoHomeState_withNetwork :
    (d.withNetwork n).updatePrepareAutoHomeState = d.updatePrepareAutoHomeState.withNetwork n := by
  simp only [updatePrepareAutoHomeState, timedOut_withNetwork]
  split <;> rfl

theorem enterAutoHomeState_withNetwork :
    (d.withNetwork n).enterAutoHomeState = d.enterAutoHomeState.withNetwork n := by
  simp only [enterAutoHomeState, withNetwork_previousState]
  split <;> rfl

theorem updateAutoHomeState_withNetwork :
    (d.withNetwork n).updateAutoHomeState = d.updateAutoHomeState.withNetwork n := by
  simp only [updateAutoHomeState, timedOut_withNetwork, isHome_withNetwork,
    withNetwork_deployColumn]
  split_ifs
  · rfl
  · rw [← enterAutoHomeState_withNetwork]
    rfl
  · rw [← enterAutoHomeState_withNetwork]
    rfl
  · rfl

theorem updateInfoState_withNetwork :
    (d.withNetwork n).updateInfoState = d.updateInfoState.withNetwork n := by
  simp only [updateInfoState, timedOut_withNetwork]
  split <;> rfl

theorem callEnterState_withNetwork :
    (d.withNetwork n).callEnterState = d.callEnterState.withNetwork n := by
  simp only [callEnterState, withNetwork_enterState]
  cases d.enterState with
  | deploy => exact enterDeployState_withNetwork n d
  | autoHome => exact enterAutoHomeState_withNetwork n d
  | _ => rfl

theorem callUpdateState_withNetwork :
    (d.withNetwork n).callUpdateState = d.callUpdateState.withNetwork n := by
  simp only [callUpdateState, withNetwork_updateState]
  cases d.updateState with
  | service => exact updateServiceState_withNetwork n d
  | prepareReady => exact updatePrepareReadyState_withNetwork n d
  | ready => exact updateReadyState_withNetwork n d
  | readyWait => exact updateReadyWaitState_withNetwork n d
  | deploy => exact updateDeployState_withNetwork n d
  | deployError => exact updateDeployErrorState_withNetwork n d
  | prepareAutoHome => exact updatePrepareAutoHomeState_withNetwork n d
  | autoHome => exact updateAutoHomeState_withNetwork n d
  | info => exact updateInfoState_withNetwork n d

theorem callExitState_withNetwork :
    (d.withNetwork n).callExitState = d.callExitState.withNetwork n := by
  simp only [callExitState, withNetwork_exitState]
  cases d.exitState <;> rfl

theorem switchState_withNetwork :
    (d.withNetwork n).switchState = d.switchState.withNetwork n := by
  have hentering : (d.withNetwork n).entering = d.entering.withNetwork n := by
    rw [entering, callExitState_withNetwork]
    rfl
  have hswitch (d : Dixie) : d.switchState = d.entering.callEnterState := rfl
  rw [hswitch, hentering, callEnterState_withNetwork, ← hswitch]

theorem received_withNetwork (dgr : Datagram) :
    (d.withNetwork n).received dgr = (d.received dgr).withNetwork n := by
  simp only [received, emit_currentState, withNetwork_currentState]
  split <;> rfl

theorem handleSetState_withNetwork (dgr : Datagram) :
    (d.withNetwork n).handleSetState dgr = (d.handleSetState dgr).withNetwork n := by
  simp only [handleSetState, withNetwork_currentState]
  repeat' split
  all_goals rfl

theorem handleFetch_withNetwork (dgr : Datagram) :
    (d.withNetwork n).handleFetch dgr = (d.handleFetch dgr).withNetwork n := by
  simp only [handleFetch, withNetwork_currentState, withNetwork_narco]
  split_ifs <;> rfl

theorem datagramHandler_withNetwork (dgr : Datagram) :
    (d.withNetwork n).datagramHandler dgr = (d.datagramHandler dgr).withNetwork n := by
  simp only [datagramHandler, received_withNetwork]
  generalize d.received dgr = d
  cases Cmd.ofByte? dgr.command with
  | none => rfl
  | some cmd =>
    cases cmd with
    | setState => exact handleSetState_withNetwork n d dgr
    | fetch => exact handleFetch_withNetwork n d dgr
    | homeAbort => simp only [withNetwork_currentState]; split <;> rfl
    | homeBegin => simp only [withNetwork_currentState]; split <;> rfl
    | showInfo => simp only [withNetwork_currentState]; split <;> rfl
    | lcdRgb => simp only; split <;> rfl
    | _ => rfl

theorem updateWith_withNetwork (pending : Option Datagram) :
    (d.withNetwork n).updateWith pending = (d.updateWith pending).withNetwork n := by
  have hafter : (d.withNetwork n).afterHandler pending =
      (d.afterHandler pending).withNetwork n := by
    cases pending with
    | none => rfl
    | some dgr => exact datagramHandler_withNetwork n d dgr
  have hupdate (d : Dixie) : d.updateWith pending =
      if (d.afterHandler pending).callUpdateState.currentState ≠
        (d.afterHandler pending).callUpdateState.nextState
      then (d.afterHandler pending).callUpdateState.switchState
      else (d.afterHandler pending).callUpdateState := rfl
  rw [hupdate, hupdate, hafter, callUpdateState_withNetwork]
  simp only [withNetwork_currentState, withNetwork_nextState, switchState_withNetwork]
  split <;> rfl

theorem forceServiceState_withNetwork :
    (d.withNetwork n).forceServiceState = d.forceServiceState.withNetwork n := by
  simp only [forceServiceState, withNetwork_currentState]
  split
  · have hswitch := switchState_withNetwork n ((d.sendDatagram
      ((((Datagram.new 2).setId 0).setCommand .setState).setData
        [State.service.toByte, 0xCE] 2)).setNextState .service)
    exact congrArg (onLcd fun l => (l.setLine 2 "Tvungen deaktivering").update) hswitch
  · rfl

end WithNetwork

def withReader (r : Reader UInt8) (d : Dixie) : Dixie :=
  d.withNetwork ⟨r.pending, d.network.datagram, r.buffer⟩

/-- `update()` from where the poll has found the body of a frame, or has not. -/
def handOver (found : Option (List UInt8)) (d : Dixie) : Dixie :=
  match found with
  | none => d.updateWith none
  | some body =>
    let dgr := Network.parse body
    if dgr.checksumIsValid then
      (d.withNetwork { d.network with datagram := some dgr }).updateWith (some dgr)
    else (d.emit (.tx (Network.sendCommand .chksumInvalid dgr.id))).updateWith none

theorem updateWith_network (pending : Option Datagram) (d : Dixie) :
    (d.updateWith pending).network = d.network := by
  have hsame := updateWith_withNetwork d.network d pending
  rw [show d.withNetwork d.network = d from rfl] at hsame
  rw [hsame, withNetwork_network]

theorem forceServiceState_network (d : Dixie) : d.forceServiceState.network = d.network := by
  have hsame := forceServiceState_withNetwork d.network d
  rw [show d.withNetwork d.network = d from rfl] at hsame
  rw [hsame, withNetwork_network]

theorem handOver_withReader (found : Option (List UInt8)) (r : Reader UInt8) (d : Dixie) :
    (d.withReader r).handOver found = (d.handOver found).withReader r := by
  have hread (pending : Option Datagram) (d : Dixie) :
      (d.withReader r).updateWith pending = (d.updateWith pending).withReader r := by
    rw [withReader, withReader, updateWith_withNetwork, updateWith_network]
  cases found with
  | none => exact hread none d
  | some body =>
    simp only [handOver]
    split
    · exact hread _ (d.withNetwork { d.network with datagram := some (Network.parse body) })
    · exact hread _ (d.emit (.tx (Network.sendCommand .chksumInvalid (Network.parse body).id)))

theorem forceServiceState_withReader (r : Reader UInt8) (d : Dixie) :
    (d.withReader r).forceServiceState = d.forceServiceState.withReader r := by
  rw [withReader, withReader, forceServiceState_withNetwork, forceServiceState_network]

theorem update_eq (late : List UInt8) (d : Dixie) :
    d.update late = (d.handOver (Network.format.poll late d.network.reader).1).withReader
      (Network.format.poll late d.network.reader).2 := by
  generalize hpoll : Network.format.poll late d.network.reader = polled
  obtain ⟨found, r⟩ := polled
  rw [← handOver_withReader]
  simp only [update, poll, pendingDatagram, Network.datagramIsPending_eq, hpoll]
  cases found with
  | none =>
    simp only [Network.accept, List.map_nil, List.append_nil]
    rfl
  | some body =>
    simp only [Network.accept, handOver]
    split
    · simp only [List.map_nil, List.append_nil]
      rfl
    · rfl

/-- A call, given what its poll has found: with the receiver out of the way. -/
def serve (c : Call) (found : Option (List UInt8)) (d : Dixie) : Dixie :=
  match c with
  | .update w => (d.inWorld (.withBytes [] [] w)).handOver found
  | .forceServiceState w => (d.inWorld (.withBytes [] [] w)).forceServiceState

theorem inWorld_withBytes (arrived late : List UInt8) (w : World) (d : Dixie) :
    d.inWorld (.withBytes arrived late w) =
      (d.inWorld (.withBytes [] [] w)).withReader
        ⟨d.network.sizePending, d.network.rx ++ arrived⟩ := rfl

theorem serve_withReader (c : Call) (found : Option (List UInt8)) (r : Reader UInt8) (d : Dixie) :
    (d.withReader r).serve c found = (d.serve c found).withReader r := by
  have hworld (w : World) : (d.withReader r).inWorld (.withBytes [] [] w) =
      (d.inWorld (.withBytes [] [] w)).withReader r := by
    rw [inWorld_withBytes, List.append_nil]
    rfl
  cases c with
  | update w => rw [serve, hworld, handOver_withReader, serve]
  | forceServiceState w => rw [serve, hworld, forceServiceState_withReader, serve]

theorem call_update_withBytes (arrived late : List UInt8) (w : World) (d : Dixie) :
    d.call (.update (.withBytes arrived late w)) =
      (d.serve (.update w)
        (Network.format.poll late ⟨d.network.sizePending, d.network.rx ++ arrived⟩).1).withReader
        (Network.format.poll late ⟨d.network.sizePending, d.network.rx ++ arrived⟩).2 := by
  rw [call, update_eq, inWorld_withBytes, handOver_withReader]
  rfl

theorem call_force_withBytes (arrived : List UInt8) (w : World) (d : Dixie) :
    d.call (.forceServiceState (.withBytes arrived [] w)) =
      (d.serve (.forceServiceState w) none).withReader
        ⟨d.network.sizePending, d.network.rx ++ arrived⟩ := by
  rw [call, inWorld_withBytes, forceServiceState_withReader]
  rfl

def framesSince (d d' : Dixie) : List (List UInt8) :=
  (d'.sent.drop d.sent.length).map Datagram.toBytes

def Sends (P : Datagram → Prop) (d d' : Dixie) : Prop :=
  ∃ frames, d'.sent = d.sent ++ frames ∧ ∀ frame ∈ frames, P frame

section Sends

variable {P : Datagram → Prop} {d d' d'' : Dixie}

theorem Sends.nothing (h : d'.sent = d.sent) : d.Sends P d' :=
  ⟨[], by rw [h, List.append_nil], nofun⟩

theorem Sends.one {frame : Datagram} (h : d'.sent = d.sent ++ [frame]) (hframe : P frame) :
    d.Sends P d' :=
  ⟨[frame], h, fun _ hmem => List.mem_singleton.mp hmem ▸ hframe⟩

theorem Sends.mono {Q : Datagram → Prop} (h : d.Sends P d') (hPQ : ∀ frame, P frame → Q frame) :
    d.Sends Q d' := by
  obtain ⟨frames, hsent, hframes⟩ := h
  exact ⟨frames, hsent, fun frame hmem => hPQ frame (hframes frame hmem)⟩

theorem Sends.trans (h : d.Sends P d') (h' : d'.Sends P d'') : d.Sends P d'' := by
  obtain ⟨frames, hsent, hframes⟩ := h
  obtain ⟨frames', hsent', hframes'⟩ := h'
  refine ⟨frames ++ frames', by rw [hsent', hsent, List.append_assoc], fun frame hmem => ?_⟩
  rcases List.mem_append.mp hmem with hmem | hmem
  · exact hframes frame hmem
  · exact hframes' frame hmem

end Sends

structure Plain (frame : Datagram) : Prop where
  room : frame.data.length ≤ 24
  ping : frame.command ≠ Cmd.ping.toByte
  complaint : frame.command ≠ Cmd.chksumInvalid.toByte

variable {dgr : Datagram} {d : Dixie}

structure Silent (frame : Datagram) : Prop extends Plain frame where
  ready : frame.command ≠ Cmd.ready.toByte
  avail : frame.command ≠ Cmd.drinkAvail.toByte

/-- A frame that says the machine is READY, or has a column, and is right. -/
inductive Says (dgr : Datagram) (d : Dixie) : Datagram → Prop
  | ready (ping : dgr.command = Cmd.ping.toByte) (state : d.currentState = .ready) :
    Says dgr d (response dgr.id .ready).updateChecksum
  | avail (checks : dgr.command = Cmd.checkAvail.toByte) (column : d.narco.getDeployColumn.1 ≠ 0) :
    Says dgr d (response dgr.id .drinkAvail).updateChecksum

theorem Says.plain {frame : Datagram} (h : Says dgr d frame) : Plain frame := by
  cases h with
  | ready =>
    exact ⟨Nat.zero_le 24, show Cmd.ready.toByte ≠ _ by decide,
      show Cmd.ready.toByte ≠ _ by decide⟩
  | avail =>
    exact ⟨Nat.zero_le 24, show Cmd.drinkAvail.toByte ≠ _ by decide,
      show Cmd.drinkAvail.toByte ≠ _ by decide⟩

def telling : List Cmd := [.ping, .chksumInvalid, .ready, .drinkAvail]

theorem silent_of_command {frame : Datagram} (command : Cmd)
    (hcmd : frame.command = command.toByte) (hdata : frame.data.length ≤ 24)
    (hsilent : command ∉ telling) : Silent frame := by
  have hne {other : Cmd} (hmem : other ∈ telling) : frame.command ≠ other.toByte := by
    rw [hcmd, Ne, Cmd.toByte_inj]
    exact fun heq => hsilent (heq ▸ hmem)
  exact ⟨⟨hdata, hne (by decide), hne (by decide)⟩, hne (by decide), hne (by decide)⟩

theorem silent_response (id : UInt16) (command : Cmd) (hsilent : command ∉ telling) :
    Silent (response id command).updateChecksum :=
  silent_of_command command rfl (Nat.zero_le 24) hsilent

theorem silent_byteFrame (id : UInt16) (command : Cmd) (b : UInt8) (hsilent : command ∉ telling) :
    Silent (byteFrame id command b) :=
  silent_of_command command rfl (show 1 ≤ 24 by decide) hsilent

theorem sends_emitCurrentState (id : UInt16) (d : Dixie) :
    d.Sends Silent (d.emitCurrentState id) :=
  .one (sent_emitCurrentState id d)
    (silent_of_command .getState rfl (show 1 ≤ 24 by decide) (by decide))

theorem sends_handleSetState (dgr : Datagram) (d : Dixie) :
    d.Sends Silent (d.handleSetState dgr) := by
  have hstate := sends_emitCurrentState dgr.id d
  unfold handleSetState
  split
  · next newState hdata =>
    split
    · exact hstate
    · split
      · refine .one (sent_sendDatagram _ d) ?_
        exact silent_of_command .setState rfl (by simp [hdata, Datagram.new]) (by decide)
      · exact hstate
  · exact hstate

theorem sends_handleFetch (d : Dixie) (hcmd : dgr.command = Cmd.fetch.toByte)
    (hroom : dgr.data.length ≤ 24) : d.Sends Silent (d.handleFetch dgr) := by
  unfold handleFetch
  split_ifs
  -- the request itself goes out again
  · exact .one (sent_sendDatagram dgr d) (silent_of_command .fetch hcmd hroom (by decide))
  · have hemit := sent_emit (.fetchAccepted dgr.id) (d.scanColumns.setDeployId dgr.id) rfl
    exact .nothing ((sent_setNextState _ _).trans hemit)
  · refine .one ?_ (silent_response dgr.id .empty (by decide))
    rw [sent_sendDatagram, sent_scanColumns]

theorem sends_datagramHandler (d : Dixie) (hroom : dgr.data.length ≤ 24) :
    d.Sends (fun frame => Silent frame ∨ Says dgr d frame) (d.datagramHandler dgr) := by
  refine .trans (.nothing (sent_received dgr d)) ?_
  have hcur := received_currentState dgr d
  have hnarco := received_narco dgr d
  unfold datagramHandler
  generalize d.received dgr = d' at hcur hnarco
  have hanswer (command : Cmd) (hsilent : command ∉ telling) (d' : Dixie) :
      d'.Sends Silent (d'.sendDatagram (response dgr.id command)) :=
    .one (sent_sendDatagram _ d') (silent_response _ command hsilent)
  cases hcmd : Cmd.ofByte? dgr.command with
  | none => exact (hanswer .unknownCmd (by decide) d').mono fun _ => .inl
  | some cmd =>
    have hbyte := Cmd.ofByte?_eq_some.mp hcmd
    have hstate := sends_emitCurrentState dgr.id d'
    cases cmd with
    | ping =>
      refine .one (sent_sendDatagram _ d') ?_
      split_ifs with hready hservice
      · exact .inr (.ready hbyte (hcur ▸ hready))
      · exact .inl (silent_response _ .service (by decide))
      · exact .inl (silent_response _ .busy (by decide))
    | checkAvail =>
      refine .trans (.nothing (sent_scanColumns d')) (.one (sent_sendDatagram _ _) ?_)
      split_ifs with hcolumn
      · exact .inr (.avail hbyte (hnarco ▸ hcolumn))
      · exact .inl (silent_response _ .empty (by decide))
    | getConfig =>
      refine .one (sent_sendDatagram _ d') (.inl ?_)
      exact silent_of_command .getConfig rfl (show 4 ≤ 24 by decide) (by decide)
    | getState => exact hstate.mono fun _ => .inl
    | setState => exact (sends_handleSetState dgr d').mono fun _ => .inl
    | homeAbort =>
      refine Sends.mono (P := Silent) ?_ fun _ => .inl
      simp only
      split
      · exact .trans (hanswer .homeAbort (by decide) d') (.nothing (sent_setNextState _ _))
      · exact hstate
    | homeBegin =>
      refine Sends.mono (P := Silent) ?_ fun _ => .inl
      simp only
      split
      · exact hstate
      · exact .trans (hanswer .homeBegin (by decide) d') (.nothing (sent_setNextState _ _))
    | fetch => exact (sends_handleFetch d' hbyte hroom).mono fun _ => .inl
    | showInfo =>
      simp only
      split
      · refine .trans (.nothing (sent_setNextState .info d'))
          (.one (sent_sendDatagram dgr _) (.inl ?_))
        exact silent_of_command .showInfo hbyte hroom (by decide)
      · refine .one (sent_sendDatagram _ d') (.inl ?_)
        exact silent_of_command .busy rfl hroom (by decide)
    | lcdRgb =>
      simp only
      split
      · exact .nothing (sent_onLcd _ d')
      · exact .nothing rfl
    | pong => exact .nothing (sent_setGotPong true d')
    | setConfig => exact .nothing rfl
    | setText0 => exact .nothing (sent_onLcd _ d')
    | setText1 => exact .nothing (sent_onLcd _ d')
    | setText2 => exact .nothing (sent_onLcd _ d')
    | setText3 => exact .nothing (sent_onLcd _ d')
    | clrText => exact .nothing (sent_onLcd _ d')
    | lcdUpdate => exact .nothing (sent_onLcd _ d')
    | lcdRedCycle => exact .nothing (sent_onLcd _ d')
    | _ => exact (hanswer .unknownCmd (by decide) d').mono fun _ => .inl

theorem silent_homingFrames (column : ℕ) (d : Dixie) :
    ∀ frame ∈ d.homingFrames column, Silent frame := by
  unfold homingFrames
  split
  · nofun
  · intro frame hmem
    exact List.mem_singleton.mp hmem ▸ silent_byteFrame _ .homing _ (by decide)

theorem silent_enterFrames (d : Dixie) : ∀ frame ∈ d.enterFrames, Silent frame := by
  unfold enterFrames
  split
  · split
    · nofun
    · intro frame hmem
      exact List.mem_singleton.mp hmem ▸ silent_byteFrame _ .fetch _ (by decide)
  · exact silent_homingFrames _ d
  · nofun

theorem sends_switchState (d : Dixie) : d.Sends Silent d.switchState :=
  ⟨_, sent_switchState d, silent_enterFrames d.entering⟩

theorem silent_updateFrames (d : Dixie) :
    (∀ frame ∈ d.updateFrames, Silent frame) ∨
      d.updateState = .ready ∧ d.due .ping = true ∧ d.gotPong = true ∧
        d.updateFrames = [Network.sendCommand .ping 0] := by
  unfold updateFrames
  cases hup : d.updateState with
  | ready =>
    simp only
    by_cases hping : (d.due .ping && d.gotPong) = true
    · obtain ⟨hdue, hpong⟩ := Bool.and_eq_true_iff.mp hping
      exact .inr ⟨trivial, hdue, hpong, if_pos hping⟩
    · rw [if_neg hping]
      exact .inl nofun
  | prepareAutoHome =>
    left
    simp only
    split
    · intro frame hmem
      exact List.mem_singleton.mp hmem ▸ silent_response _ .homeBegin (by decide)
    · nofun
  | autoHome =>
    left
    simp only
    split_ifs
    · nofun
    · exact silent_homingFrames _ d
    · nofun
  | _ => exact .inl nofun

def handled (d : Dixie) : List Datagram := d.trace.filterMap Event.handled?

theorem handled_control (d : Dixie) : d.control.events.filterMap Event.handled? = d.handled := by
  rw [control_events, handled, List.filterMap_filter]
  congr 1
  funext e
  cases e <;> rfl

theorem handled?_of_mem_updateEvents {r : Readings} {c : Control} {e : Event}
    (h : e ∈ c.updateEvents r) : e.handled? = none := by
  unfold updateEvents at h
  split at h <;> (try split_ifs at h) <;>
    simp only [List.mem_cons, List.not_mem_nil, or_false] at h
  · exact h ▸ rfl
  · rcases h with rfl | rfl | rfl <;> rfl
  · exact h ▸ rfl

theorem handled?_of_mem_switchEvents {old new : State} {column : ℕ} {e : Event}
    (h : e ∈ switchEvents old new column) : e.handled? = none := by
  rcases mem_switchEvents h with rfl | hpower
  · rfl
  · cases e with
    | handled state dgr => cases hpower
    | _ => rfl

theorem filterMap_handledEvents (pending : Option Datagram) (d : Dixie) (state : State) :
    (handledEvents (d.handling pending) state).filterMap Event.handled? = pending.toList := by
  cases pending with
  | none => rfl
  | some dgr =>
    simp only [handling, Option.map_some, handledEvents]
    split <;> rfl

theorem handled_updateWith (h : d.control.Settled) (pending : Option Datagram) :
    (d.updateWith pending).handled = d.handled ++ pending.toList := by
  have hevents := congrArg Control.events (control_updateWith pending d)
  rw [h.pass_events (admissible_handling pending d) (columnOnEntry_le _)] at hevents
  rw [← handled_control, hevents]
  simp only [List.filterMap_append, handled_control, filterMap_handledEvents]
  rw [List.filterMap_eq_nil_iff.mpr fun e he => handled?_of_mem_updateEvents he, List.nil_append]
  split
  · rw [List.filterMap_nil, List.append_nil]
  · rw [List.filterMap_eq_nil_iff.mpr fun e he => handled?_of_mem_switchEvents he, List.append_nil]

/-! The flag: it is down while a PING is underway. -/

def isPing (frame : Datagram) : Bool := frame.command = Cmd.ping.toByte

def isPong (dgr : Datagram) : Bool := dgr.command = Cmd.pong.toByte

theorem countP_plain {frames : List Datagram} (h : ∀ frame ∈ frames, Plain frame) :
    frames.countP isPing = 0 :=
  List.countP_eq_zero.mpr fun frame hmem => by
    rw [isPing, decide_eq_true_eq]
    exact (h frame hmem).ping

theorem afterHandler_gotPong (pending : Option Datagram) (d : Dixie) :
    (d.afterHandler pending).gotPong = (d.gotPong || pending.any isPong) := by
  cases pending with
  | none => exact (Bool.or_false _).symm
  | some dgr =>
    rw [Option.any_some, isPong]
    by_cases hpong : dgr.command = Cmd.pong.toByte
    · have hcmd := ofByte?_command hpong
      rw [decide_eq_true hpong, Bool.or_true, afterHandler, datagramHandler]
      simp only [hcmd]
      rfl
    · have hcmd : Cmd.ofByte? dgr.command ≠ some .pong :=
        fun hcmd => hpong (Cmd.ofByte?_eq_some.mp hcmd)
      rw [decide_eq_false hpong, Bool.or_false]
      exact (datagramHandler_frame dgr d).2.2.1 hcmd

/-- A pass may send one PING, and that takes the flag down. -/
theorem callUpdateState_sends (d : Dixie) :
    (∀ frame ∈ d.updateFrames, Silent frame ∨ frame = Network.sendCommand .ping 0) ∧
      d.callUpdateState.gotPong.toNat + d.updateFrames.countP isPing = d.gotPong.toNat := by
  rcases silent_updateFrames d with hsilent | ⟨hup, hdue, hpong, hframes⟩
  · refine ⟨fun frame hmem => .inl (hsilent frame hmem), ?_⟩
    rw [countP_plain fun frame hmem => (hsilent frame hmem).toPlain, Nat.add_zero]
    congr 1
    by_cases hup : d.updateState = .ready
    · rw [callUpdateState, hup]
      simp only
      rw [updateReadyState_gotPong]
      cases hpong : d.gotPong with
      | false => rfl
      | true =>
        -- the flag stays up, or the frame would be a PING
        cases hdue : d.due .ping with
        | false => rfl
        | true =>
          have hframes : d.updateFrames = [Network.sendCommand .ping 0] := by
            simp only [updateFrames, hup, hdue, hpong, Bool.and_self, if_true]
          exact absurd rfl (hsilent _ (hframes ▸ List.mem_singleton_self _)).ping
    · exact callUpdateState_gotPong hup
  · refine ⟨fun frame hmem => .inr ?_, ?_⟩
    · rw [hframes] at hmem
      exact List.mem_singleton.mp hmem
    · have hflag : d.callUpdateState.gotPong = false := by
        rw [callUpdateState, hup]
        simp only
        rw [updateReadyState_gotPong, hdue, Bool.not_true, Bool.and_false]
      rw [hframes, hflag, hpong]
      rfl

/-- What a pass may send: a PING, or what is true of the machine as it handles the datagram. -/
def Spoken (pending : Option Datagram) (d : Dixie) (frame : Datagram) : Prop :=
  (Silent frame ∨ ∃ dgr ∈ pending, Says dgr d frame) ∨ frame = Network.sendCommand .ping 0

theorem Spoken.plain {pending : Option Datagram} {frame : Datagram} (h : Spoken pending d frame) :
    Plain frame ∨ frame = Network.sendCommand .ping 0 := by
  rcases h with (hsilent | ⟨dgr, -, hsays⟩) | hping
  · exact .inl hsilent.toPlain
  · exact .inl hsays.plain
  · exact .inr hping

theorem updateWith_sends {pending : Option Datagram} (d : Dixie)
    (hroom : ∀ dgr ∈ pending, dgr.data.length ≤ 24) :
    ∃ frames, (d.updateWith pending).sent = d.sent ++ frames ∧
      (∀ frame ∈ frames, Spoken pending d frame) ∧
      (d.updateWith pending).gotPong.toNat + frames.countP isPing =
        (d.gotPong || pending.any isPong).toNat := by
  obtain ⟨answers, hanswers, hsaid⟩ :
      d.Sends (fun frame => Silent frame ∨ ∃ dgr ∈ pending, Says dgr d frame)
        (d.afterHandler pending) := by
    cases pending with
    | none => exact .nothing rfl
    | some dgr =>
      exact (sends_datagramHandler d (hroom dgr rfl)).mono fun frame h =>
        h.imp_right fun hsays => ⟨dgr, rfl, hsays⟩
  obtain ⟨hupdate, htoken⟩ := callUpdateState_sends (d.afterHandler pending)
  rw [afterHandler_gotPong] at htoken
  have hcall : d.updateWith pending =
      if (d.afterHandler pending).callUpdateState.currentState ≠
        (d.afterHandler pending).callUpdateState.nextState
      then (d.afterHandler pending).callUpdateState.switchState
      else (d.afterHandler pending).callUpdateState := rfl
  have hsent : (d.afterHandler pending).callUpdateState.sent =
      d.sent ++ (answers ++ (d.afterHandler pending).updateFrames) := by
    rw [sent_callUpdateState, hanswers, List.append_assoc]
  have hframes : ∀ frame ∈ answers ++ (d.afterHandler pending).updateFrames,
      Spoken pending d frame := by
    intro frame hmem
    rcases List.mem_append.mp hmem with hmem | hmem
    · exact .inl (hsaid frame hmem)
    · exact (hupdate frame hmem).imp_left .inl
  have hplain : ∀ frame ∈ answers, Plain frame := by
    intro frame hmem
    rcases hsaid frame hmem with hsilent | ⟨dgr, -, hsays⟩
    · exact hsilent.toPlain
    · exact hsays.plain
  have hcount : (answers ++ (d.afterHandler pending).updateFrames).countP isPing =
      (d.afterHandler pending).updateFrames.countP isPing := by
    rw [List.countP_append, countP_plain hplain, Nat.zero_add]
  rw [hcall]
  split
  · obtain ⟨entering, hentering, hsilent⟩ :=
      sends_switchState (d.afterHandler pending).callUpdateState
    refine ⟨answers ++ (d.afterHandler pending).updateFrames ++ entering, ?_, ?_, ?_⟩
    · rw [hentering, hsent, List.append_assoc]
    · intro frame hmem
      rcases List.mem_append.mp hmem with hmem | hmem
      · exact hframes frame hmem
      · exact .inl (.inl (hsilent frame hmem))
    · rw [switchState_gotPong, List.countP_append, hcount,
        countP_plain fun frame hmem => (hsilent frame hmem).toPlain, Nat.add_zero, htoken]
  · exact ⟨_, hsent, hframes, by rw [hcount, htoken]⟩

theorem forceServiceState_sends (d : Dixie) : d.Sends Silent d.forceServiceState := by
  unfold forceServiceState
  split
  · refine .trans ?_ (sends_switchState _)
    refine .one (sent_sendDatagram _ d) ?_
    exact silent_of_command .setState rfl (show 2 ≤ 24 by decide) (by decide)
  · exact .nothing rfl

/-! One call, given what its poll has found. -/

def intake (found : Option (List UInt8)) : Option Datagram :=
  (found.map Network.parse).filter Datagram.checksumIsValid

theorem handOver_cases (found : Option (List UInt8)) (d : Dixie) :
    ∃ d', d.handOver found = d'.updateWith (intake found) ∧ d'.control = d.control ∧
      d'.gotPong = d.gotPong ∧ d'.timers = d.timers ∧ d'.clock = d.clock ∧
      d'.handled = d.handled ∧
      d.Sends (fun frame => frame.command = Cmd.chksumInvalid.toByte ∧ frame.data = []) d' ∧
      ((∀ body ∈ found, (Network.parse body).checksumIsValid) → d'.sent = d.sent) := by
  cases found with
  | none => exact ⟨d, rfl, rfl, rfl, rfl, rfl, rfl, .nothing rfl, fun _ => rfl⟩
  | some body =>
    cases hvalid : (Network.parse body).checksumIsValid with
    | true =>
      refine ⟨d.withNetwork { d.network with datagram := some (Network.parse body) }, ?_, rfl, rfl,
        rfl, rfl, rfl, .nothing rfl, fun _ => rfl⟩
      simp only [handOver, intake, Option.map_some, Option.filter_some, hvalid, if_true]
    | false =>
      refine ⟨d.emit (.tx (Network.sendCommand .chksumInvalid (Network.parse body).id)), ?_,
        ?_, rfl, rfl, rfl, ?_, ?_, fun h => ?_⟩
      · simp only [handOver, intake, Option.map_some, Option.filter_some, hvalid,
          Bool.false_eq_true, if_false]
      · simp [control, emit, Event.isTx]
      · simp [handled, emit, Event.handled?]
      · have hsent := sent_sendDatagram (response (Network.parse body).id .chksumInvalid) d
        exact .one hsent ⟨rfl, rfl⟩
      · exact absurd (h body rfl) (by rw [hvalid]; exact Bool.false_ne_true)

/-- What a call makes of the datagram it is handed: it handles it, sends these frames, and its flag
goes down for a PING and up for a PONG. -/
structure Served (d : Dixie) (pending : Option Datagram) (frames : List Datagram) (d' : Dixie) :
    Prop where
  sent : d'.sent = d.sent ++ frames
  plain : ∀ frame ∈ frames, Plain frame ∨ frame = Network.sendCommand .ping 0
  flag : d'.gotPong.toNat + frames.countP isPing = (d.gotPong || pending.any isPong).toNat
  handled : d'.handled = d.handled ++ pending.toList
  settled : d'.control.Settled

theorem served_update (h : d.control.Settled) (w : World) {found : Option (List UInt8)}
    (hfound : ∀ body ∈ found, (Network.parse body).checksumIsValid ∧
      (Network.parse body).data.length ≤ 24) :
    ∃ frames, d.Served (intake found) frames (d.serve (.update w) found) := by
  obtain ⟨d', hcall, hcontrol, hflag, -, -, hhandled, -, hsent⟩ :=
    handOver_cases found (d.inWorld (.withBytes [] [] w))
  have hroom : ∀ dgr ∈ intake found, dgr.data.length ≤ 24 := by
    intro dgr hmem
    obtain ⟨body, hbody, rfl⟩ := Option.map_eq_some_iff.mp (Option.filter_eq_some_iff.mp hmem).1
    exact (hfound body hbody).2
  have hsettled : d'.control.Settled := by rwa [hcontrol, control_inWorld]
  obtain ⟨frames, hframes, hspoken, htoken⟩ := updateWith_sends d' hroom
  refine ⟨frames, ?_, fun frame hmem => (hspoken frame hmem).plain, ?_, ?_, ?_⟩
  · rw [serve, hcall, hframes, hsent fun body hbody => (hfound body hbody).1]
    rfl
  · rw [serve, hcall, htoken, hflag]
    rfl
  · rw [serve, hcall, handled_updateWith hsettled, hhandled]
    rfl
  · rw [serve, hcall]
    exact settled_updateWith hsettled _

theorem served_forceServiceState (h : d.control.Settled) (w : World)
    (found : Option (List UInt8)) :
    ∃ frames, d.Served none frames (d.serve (.forceServiceState w) found) := by
  have hsettled : (d.inWorld (.withBytes [] [] w)).control.Settled := by rwa [control_inWorld]
  obtain ⟨frames, hframes, hsilent⟩ := forceServiceState_sends (d.inWorld (.withBytes [] [] w))
  obtain ⟨column, hle, hforce⟩ := control_forceServiceState (d.inWorld (.withBytes [] [] w))
  have hplain (frame : Datagram) (hmem : frame ∈ frames) : Plain frame :=
    (hsilent frame hmem).toPlain
  refine ⟨frames, hframes, fun frame hmem => .inl (hplain frame hmem), ?_, ?_, ?_⟩
  · have hflag := forceServiceState_gotPong (.withBytes [] [] w) d
    rw [countP_plain hplain, Nat.add_zero, Option.any_none, Bool.or_false]
    exact congrArg Bool.toNat hflag
  · have hevents := congrArg Control.events hforce
    rw [hsettled.force_events hle] at hevents
    rw [serve, ← handled_control, hevents, List.filterMap_append, handled_control]
    congr 1
    split
    · rfl
    · exact List.filterMap_eq_nil_iff.mpr fun e he => handled?_of_mem_switchEvents he
  · rw [serve, hforce]
    exact hsettled.step (.force column hle)

theorem updateWith_gives_way (h : d.control.Settled) {pending : Option Datagram}
    (hready : d.currentState = .ready) (hdown : d.gotPong = false)
    (hpong : pending.any isPong = false)
    (hdue : (d.timers .ping).timedOut d.clock.now = true) :
    (d.updateWith pending).currentState = .readyWait := by
  have hflag : (d.afterHandler pending).gotPong = false := by
    rw [afterHandler_gotPong, hdown, hpong, Bool.or_self]
  have hframe : (d.afterHandler pending).due .ping = d.due .ping := by
    cases pending with
    | none => rfl
    | some dgr =>
      obtain ⟨htimers, hclock, -⟩ := datagramHandler_frame dgr d
      rw [afterHandler, due, htimers, hclock, due]
  have hup : (d.afterHandler pending).updateState = .ready := by
    have hcoherent := h.toCoherent.receive (admissible_handling pending d)
    have heq := hcoherent.updateState_eq
    rw [← control_afterHandler] at heq
    refine heq.trans ?_
    rw [control_afterHandler, receive_currentState, control_currentState, hready]
  have hreadings : (d.afterHandler pending).readings.due = true := by
    simp only [readings, hup, hframe, hflag, Bool.not_false, Bool.and_true]
    exact hdue
  rw [updateWith_currentState h, resolve, expiry, control_currentState, hready]
  simp only [hreadings, if_true, Option.getD_some]

theorem serve_gives_way (h : d.control.Settled) {w : World} {found : Option (List UInt8)}
    (hready : d.currentState = .ready) (hdown : d.gotPong = false)
    (hpong : (intake found).any isPong = false)
    (hdue : (d.timers .ping).timedOut (w.millis 0) = true) :
    (d.serve (.update w) found).currentState = .readyWait := by
  obtain ⟨d', hcall, hcontrol, hflag, htimers, hclock, -⟩ :=
    handOver_cases found (d.inWorld (.withBytes [] [] w))
  have hcurrent : d'.currentState = .ready := (congrArg Control.currentState hcontrol).trans hready
  rw [serve, hcall]
  refine updateWith_gives_way ?_ hcurrent (hflag.trans hdown) hpong ?_
  · rwa [hcontrol, control_inWorld]
  · rw [htimers, hclock]
    exact hdue

end Dixie

end Alko.Arduino
