import Alko.Alkod.AlkoManager
import Alko.Arduino.Network
import Alko.Foundation.UnitService

/-! From the machine to the daemon: `slotReadyRead` runs once for every chunk of bytes, and
handles one frame at most. -/

namespace Alko.Alkod

open Foundation
open FrameFormat (Expects Polled stream arrived)

namespace AlkoManager

/-- A chunk reaches the serial buffer, and its `readyRead` signal is served. -/
def readChunk (chunk : List UInt8) (m : AlkoManager) : List ManagerEvent × AlkoManager :=
  (m.receive chunk).slotReadyRead

def readChunks : List (List UInt8) → AlkoManager → List ManagerEvent × AlkoManager
  | [], m => ([], m)
  | chunk :: chunks, m =>
    let now := m.readChunk chunk
    let later := readChunks chunks now.2
    (now.1 ++ later.1, later.2)

def dispatchAll : List (List UInt8) → AlkoManager → List ManagerEvent × AlkoManager
  | [], m => ([], m)
  | datagram :: datagrams, m =>
    let now := m.dispatch datagram
    let later := dispatchAll datagrams now.2
    (now.1 ++ later.1, later.2)

def isPing (datagram : List UInt8) : Bool := datagram.getD 7 0 = Cmd.ping.toByte

def idOf (datagram : List UInt8) : UInt16 :=
  Arduino.Datagram.ofBytes (datagram.getD 3 0) (datagram.getD 4 0)

def ponged (datagram : List UInt8) (m : AlkoManager) : AlkoManager :=
  if isPing datagram then (m.get [Cmd.pong.toByte]).2 else m

theorem dispatchAs_snd (signed : Bool) (datagram : List UInt8) (m : AlkoManager) :
    (m.dispatchAs signed datagram).2 = m.ponged datagram := by
  unfold dispatchAs ponged isPing
  by_cases hping : datagram.getD 7 0 = Cmd.ping.toByte
  · simp only [hping, if_true, decide_true]
    split <;> rfl
  · simp only [hping, if_false, decide_false]
    split <;> rfl

theorem dispatch_snd (datagram : List UInt8) (m : AlkoManager) :
    (m.dispatch datagram).2 = m.ponged datagram := by
  rw [← dispatchAs_false, dispatchAs_snd]

theorem dispatchAs_fst (signed : Bool) (datagram : List UInt8) (m : AlkoManager) :
    (m.dispatchAs signed datagram).1 =
      .recv datagram :: (if isPing datagram then [.send (m.get [Cmd.pong.toByte]).1] else []) ++
        (((m.ponged datagram).requests
          (decodeId signed (datagram.getD 3 0) (datagram.getD 4 0))).map
            fun reply => ManagerEvent.setData reply datagram).toList := by
  unfold dispatchAs ponged isPing
  by_cases hping : datagram.getD 7 0 = Cmd.ping.toByte
  · simp only [hping, if_true, decide_true]
    cases (m.get [Cmd.pong.toByte]).2.requests
      (decodeId signed (datagram.getD 3 0) (datagram.getD 4 0)) <;> rfl
  · simp only [hping, if_false, decide_false, Bool.false_eq_true]
    cases m.requests (decodeId signed (datagram.getD 3 0) (datagram.getD 4 0)) <;> rfl

theorem dispatch_fst (datagram : List UInt8) (m : AlkoManager) :
    (m.dispatch datagram).1 =
      .recv datagram :: (if isPing datagram then [.send (m.get [Cmd.pong.toByte]).1] else []) ++
        (((m.ponged datagram).requests (idOf datagram)).map
          fun reply => ManagerEvent.setData reply datagram).toList := by
  rw [← dispatchAs_false, dispatchAs_fst, (decodeId_eq_iff false _ _).mpr (Or.inl rfl), idOf]

theorem ponged_withReader (datagram : List UInt8) (r : Reader UInt8) (m : AlkoManager) :
    (m.withReader r).ponged datagram = (m.ponged datagram).withReader r := by
  unfold ponged
  split <;> rfl

theorem dispatch_withReader (datagram : List UInt8) (r : Reader UInt8) (m : AlkoManager) :
    (m.withReader r).dispatch datagram =
      ((m.dispatch datagram).1, (m.dispatch datagram).2.withReader r) := by
  apply Prod.ext
  · simp only [dispatch_fst, ponged_withReader]
    rfl
  · simp only [dispatch_snd, ponged_withReader]

theorem dispatchAll_withReader (ds : List (List UInt8)) (r : Reader UInt8) (m : AlkoManager) :
    dispatchAll ds (m.withReader r) = ((dispatchAll ds m).1, (dispatchAll ds m).2.withReader r) := by
  induction ds generalizing m with
  | nil => rfl
  | cons d ds ih => simp only [dispatchAll, dispatch_withReader, ih]

def received (events : List ManagerEvent) : List (List UInt8) :=
  events.filterMap fun
    | .recv datagram => some datagram
    | _ => none

def answered (events : List ManagerEvent) : List (List UInt8) :=
  events.filterMap fun
    | .send bytes => some bytes
    | _ => none

theorem received_dispatch (datagram : List UInt8) (m : AlkoManager) :
    received (m.dispatch datagram).1 = [datagram] := by
  rw [dispatch_fst]
  unfold received
  cases isPing datagram <;>
    cases (m.ponged datagram).requests (idOf datagram) <;> rfl

theorem received_dispatchAll (ds : List (List UInt8)) (m : AlkoManager) :
    received (dispatchAll ds m).1 = ds := by
  induction ds generalizing m with
  | nil => rfl
  | cons d ds ih =>
    have hd := received_dispatch d m
    have hds := ih (m.dispatch d).2
    unfold received at hd hds ⊢
    rw [dispatchAll, List.filterMap_append, hd, hds]
    rfl

theorem answered_dispatch (datagram : List UInt8) (m : AlkoManager) :
    (answered (m.dispatch datagram).1).length = if isPing datagram then 1 else 0 := by
  rw [dispatch_fst]
  unfold answered
  cases isPing datagram <;>
    cases (m.ponged datagram).requests (idOf datagram) <;> rfl

theorem answered_dispatchAll (ds : List (List UInt8)) (m : AlkoManager) :
    (answered (dispatchAll ds m).1).length = ds.countP isPing := by
  induction ds generalizing m with
  | nil => rfl
  | cons d ds ih =>
    have hd := answered_dispatch d m
    have hds := ih (m.dispatch d).2
    unfold answered at hd hds ⊢
    rw [dispatchAll, List.filterMap_append, List.length_append, hd, hds, List.countP_cons,
      Nat.add_comm]

theorem isSome_ponged {m : AlkoManager} {id : UInt16} (datagram : List UInt8)
    (h : (m.requests id).isSome) : ((m.ponged datagram).requests id).isSome := by
  unfold ponged
  split
  · rw [get_snd_requests]
    by_cases hid : id = m.getID
    · rw [hid, Function.update_self]
      rfl
    · rwa [Function.update_of_ne hid]
  · exact h

theorem dispatchAll_passed {ds : List (List UInt8)} {m : AlkoManager} {datagram : List UInt8}
    (hmem : datagram ∈ ds) (h : (m.requests (idOf datagram)).isSome) :
    ∃ reply, ManagerEvent.setData reply datagram ∈ (dispatchAll ds m).1 := by
  induction ds generalizing m with
  | nil => simp at hmem
  | cons d ds ih =>
    simp only [dispatchAll, List.mem_append]
    rcases List.mem_cons.mp hmem with rfl | hmem
    · obtain ⟨reply, hreply⟩ := Option.isSome_iff_exists.mp (isSome_ponged datagram h)
      refine ⟨reply, Or.inl ?_⟩
      rw [dispatch_fst, hreply]
      simp
    · obtain ⟨reply, hreply⟩ :=
        ih hmem (show ((m.dispatch d).2.requests (idOf datagram)).isSome by
          rw [dispatch_snd]
          exact isSome_ponged d h)
      exact ⟨reply, Or.inr hreply⟩

def sizes (frames : List format.Frame) : List ℕ := frames.map fun f => f.letters.length

theorem sizeLetter_eq (f : format.Frame) : UInt8.ofNat (f.body.length + 3) = f.sizeLetter := by
  rw [← f.size_eq]
  exact UInt8.ofNat_toNat

theorem accept_body (m : AlkoManager) (r : Reader UInt8) (f : format.Frame) :
    m.accept r (some f.body) = (m.withReader r).dispatch f.letters := by
  rw [accept, sizeLetter_eq]
  rfl

theorem reader_dispatch (datagram : List UInt8) (m : AlkoManager) :
    (m.dispatch datagram).2.reader = m.reader := by
  rw [dispatch_snd, ponged]
  split <;> rfl

/-- What one chunk does to a daemon that expects `frames`: it waits for more, or it dispatches the
next frame. -/
inductive ChunkRead (m : AlkoManager) (chunk future : List UInt8) :
    List format.Frame → List ManagerEvent × AlkoManager → Prop
  | waits {frames r} (stock : arrived r = arrived m.reader + chunk.length)
      (more : ∀ f ∈ frames.head?, arrived r < f.letters.length) (rest : Expects r future frames) :
      ChunkRead m chunk future frames ([], m.withReader r)
  | reads {f frames r}
      (stock : arrived m.reader + chunk.length = f.letters.length + arrived r)
      (rest : Expects r future frames) :
      ChunkRead m chunk future (f :: frames) ((m.withReader r).dispatch f.letters)

theorem readChunk_chunkRead {m : AlkoManager} {chunk future : List UInt8}
    {frames : List format.Frame} (h : Expects m.reader (chunk ++ future) frames) :
    ChunkRead m chunk future frames (m.readChunk chunk) := by
  have hnow : Expects (m.receive chunk).reader future frames := h.arrive
  have harrived : arrived (m.receive chunk).reader = arrived m.reader + chunk.length :=
    FrameFormat.arrived_arrive m.reader chunk
  rw [readChunk, slotReadyRead_eq]
  cases frames with
  | nil =>
    have hnil : Expects (m.receive chunk).reader ([] ++ future) ([] : List format.Frame) := hnow
    rw [(FrameFormat.poll_nil hnil).1]
    exact .waits harrived (by simp) hnow
  | cons f frames =>
    have hpolled := FrameFormat.poll_now f frames hnow
    rw [harrived] at hpolled
    generalize format.poll [] (m.receive chunk).reader = p,
      hstock : arrived m.reader + chunk.length = stock at hpolled
    cases hpolled with
    | waits more rest => exact .waits hstock.symm (by simpa using more) rest
    | yields rest =>
      rw [accept_body]
      exact .reads hstock rest

def letters (frames : List format.Frame) : List (List UInt8) :=
  frames.map FrameFormat.Frame.letters

/-- The run lemma: the frames dispatched are the first so many, one for each chunk that covers the
next of them. -/
theorem readChunks_served {m : AlkoManager} {chunks : List (List UInt8)}
    {frames : List format.Frame} (h : Expects m.reader chunks.flatten frames) :
    ∃ done todo, frames = done ++ todo ∧
      done.length = served (sizes frames) (arrived m.reader) (chunks.map List.length) ∧
      Expects (readChunks chunks m).2.reader [] todo ∧
      (readChunks chunks m).1 = (dispatchAll (letters done) m).1 ∧
      (readChunks chunks m).2 =
        (dispatchAll (letters done) m).2.withReader (readChunks chunks m).2.reader := by
  -- on the chunks; acting on a frame leaves the reader alone
  induction chunks generalizing m frames with
  | nil => exact ⟨[], frames, rfl, by simp [served], h, rfl, rfl⟩
  | cons chunk chunks ih =>
    have hnow : Expects m.reader (chunk ++ chunks.flatten) frames := h
    have hread := readChunk_chunkRead hnow
    simp only [readChunks]
    generalize m.readChunk chunk = now at hread ⊢
    cases hread with
    | @waits frames r stock more rest =>
      -- nothing was done; what has arrived is in stock for the next chunk
      obtain ⟨done, todo, hsplit, hlen, hexp, hev, hm⟩ :=
        ih (show Expects (m.withReader r).reader chunks.flatten frames from rest)
      rw [dispatchAll_withReader] at hev hm
      refine ⟨done, todo, hsplit, ?_, hexp, hev, hm⟩
      rw [hlen, List.map_cons, show (m.withReader r).reader = r from rfl, stock]
      cases frames with
      | nil => simp only [sizes, List.map_nil, served_nil]
      | cons f frames =>
        refine (served_of_lt ?_ _ _).symm
        rw [← stock]
        exact more f rfl
    | @reads f frames r stock rest =>
      have hreader : ((m.withReader r).dispatch f.letters).2.reader = r := reader_dispatch _ _
      rw [← hreader] at rest
      obtain ⟨done, todo, hsplit, hlen, hexp, hev, hm⟩ := ih rest
      rw [hreader] at hlen
      rw [dispatch_withReader] at hev hm hexp ⊢
      rw [dispatchAll_withReader] at hev hm
      refine ⟨f :: done, todo, congrArg (f :: ·) hsplit, ?_, hexp, ?_, hm⟩
      · rw [List.length_cons, hlen]
        exact (served_of_eq stock _ _).symm
      · simp only [letters, List.map_cons, dispatchAll] at hev ⊢
        rw [hev]

/-- Every frame has been dispatched once and in order, each PING is answered with one PONG, each
frame whose id is in `requests` has gone to a reply, and nothing of any frame is left. -/
structure Delivered (frames : List format.Frame) (m : AlkoManager)
    (r : List ManagerEvent × AlkoManager) : Prop where
  events : r.1 = (dispatchAll (letters frames) m).1
  inOrder : received r.1 = letters frames
  pongs : (answered r.1).length = (letters frames).countP isPing
  passed : ∀ datagram ∈ letters frames, (m.requests (idOf datagram)).isSome →
    ∃ reply, ManagerEvent.setData reply datagram ∈ r.1
  empty : r.2.rx = []
  idle : r.2.sizePending = 0

theorem delivered_of_events {frames : List format.Frame} {m : AlkoManager}
    {r : List ManagerEvent × AlkoManager} (h : r.1 = (dispatchAll (letters frames) m).1)
    (hexp : Expects r.2.reader [] ([] : List format.Frame)) : Delivered frames m r := by
  have hleft : r.2.sizePending = 0 ∧ r.2.rx = [] := by
    cases hexp with
    | header idle letters => exact ⟨idle, (List.append_nil _).symm.trans letters⟩
  refine ⟨h, ?_, ?_, ?_, hleft.2, hleft.1⟩
  · rw [h, received_dispatchAll]
  · rw [h, answered_dispatchAll]
  · rw [h]
    exact fun datagram => dispatchAll_passed

theorem sizes_pos (frames : List format.Frame) : ∀ size ∈ sizes frames, 0 < size := by
  intro size hsize
  obtain ⟨f, -, rfl⟩ := List.mem_map.mp hsize
  rw [FrameFormat.Frame.length_letters]
  omega

theorem sum_sizes (frames : List format.Frame) : (sizes frames).sum = (stream frames).length := by
  rw [stream, List.length_flatten, List.map_map]
  rfl

/-- One readyRead a chunk is enough exactly when the bytes come late: for every `n`, the last `n`
chunks hold no more than the last `n` frames. -/
theorem delivered_iff (m : AlkoManager) (frames : List format.Frame) (chunks : List (List UInt8))
    (hidle : m.sizePending = 0) (hempty : m.rx = []) (hchunks : chunks.flatten = stream frames) :
    Delivered frames m (readChunks chunks m) ↔
      ∀ n < frames.length, ((chunks.map List.length).rtake n).sum ≤ ((sizes frames).rtake n).sum := by
  have hexpects : Expects m.reader chunks.flatten frames :=
    .header hidle (by rw [← hchunks, reader, hempty, List.nil_append])
  obtain ⟨done, todo, hsplit, hlen, hexp, hev, hm⟩ := readChunks_served hexpects
  have hstock : arrived m.reader = 0 := by
    simp only [arrived, reader, hidle, if_true, hempty, List.length_nil]
  have hall : done.length = frames.length ↔ ∀ n < frames.length,
      ((chunks.map List.length).rtake n).sum ≤ ((sizes frames).rtake n).sum := by
    have hsum : (chunks.map List.length).sum = (sizes frames).sum := by
      rw [sum_sizes, ← hchunks, List.length_flatten]
    have hiff := served_all_iff (sizes frames) _ (sizes_pos frames) hsum
    rw [← hstock, ← hlen] at hiff
    simpa only [sizes, List.length_map] using hiff
  rw [← hall]
  constructor
  · intro h
    have hreceived := h.inOrder
    rw [hev, received_dispatchAll] at hreceived
    simpa only [letters, List.length_map] using congrArg List.length hreceived
  · intro h
    have htodo : todo = [] := by
      rw [hsplit, List.length_append] at h
      exact List.eq_nil_of_length_eq_zero (by omega)
    subst htodo
    rw [List.append_nil] at hsplit
    exact delivered_of_events (hsplit ▸ hev) hexp

def commandFrame (command : Cmd) (id : UInt16) : format.Frame where
  sizeLetter := 8
  body := (Arduino.Network.sendCommand command id).toBytes.drop 3
  size_eq := rfl
  minSize_le := le_rfl
  le_maxSize := show 8 ≤ 64 by decide

def twoAnswers : List format.Frame := [commandFrame .ready 2, commandFrame .drinkAvail 3]

def asking : AlkoManager :=
  ((AlkoManager.new.get [Cmd.ping.toByte]).2.get [Cmd.checkAvail.toByte]).2

theorem delivery_incomplete :
    asking.sizePending = 0 ∧ asking.rx = [] ∧
      (∀ f ∈ twoAnswers, makeChecksum f.letters = 0) ∧
      [] ∉ [stream twoAnswers] ∧ [stream twoAnswers].flatten = stream twoAnswers ∧
      (readChunks [stream twoAnswers] asking).2.rx = (commandFrame .drinkAvail 3).letters ∧
      ¬Delivered twoAnswers asking (readChunks [stream twoAnswers] asking) := by
  refine ⟨rfl, rfl, by decide +kernel, by decide, List.append_nil _, by decide +kernel, ?_⟩
  intro h
  exact absurd h.empty (by decide +kernel)

/-- Cutting the first frame in two leaves the second a chunk of its own. -/
theorem delivered_iff_late :
    Delivered twoAnswers asking (readChunks
        [(stream twoAnswers).take 3, ((stream twoAnswers).take 8).drop 3,
          (stream twoAnswers).drop 8] asking) ↔
      ∀ n < 2, (([3, 5, 8] : List ℕ).rtake n).sum ≤ (([8, 8] : List ℕ).rtake n).sum :=
  delivered_iff asking twoAnswers _ rfl rfl (by decide +kernel)

end AlkoManager
end Alko.Alkod
