import Alko.System.Receiving

/-! The daemon's receiver on an arbitrary line: it acts on the frames of the stream, and asks
nothing of their checksum. -/

namespace Alko.System

open Foundation Alkod
open AlkoManager (idOf isPing received)
open FrameFormat (Cut Cuts Took Holds Piece Frame frames consumed)

inductive Service
  | get (request : List UInt8)
  | readyRead (chunk : List UInt8)

structure Serving where
  manager : AlkoManager
  calls : List (List ManagerEvent)

namespace Serving

def step (s : Serving) : Service → Serving
  | .get request => { s with manager := (s.manager.get request).2 }
  | .readyRead chunk =>
    { manager := (s.manager.readChunk chunk).2
      calls := s.calls ++ [(s.manager.readChunk chunk).1] }

def run (services : List Service) (s : Serving) : Serving := services.foldl step s

end Serving

def Service.arrives : Service → List UInt8
  | .get _ => []
  | .readyRead chunk => chunk

def readIn (services : List Service) : List UInt8 := services.flatMap Service.arrives

/-- The call answers the datagram as a PING, or passes it to a reply. -/
def Acts (call : List ManagerEvent) (datagram : List UInt8) : Prop :=
  .recv datagram ∈ call ∧
    ((∃ bytes, .send bytes ∈ call) ∨ ∃ reply, .setData reply datagram ∈ call)

theorem two_le_getID (m : AlkoManager) : 2 ≤ m.getID.toNat := by
  unfold AlkoManager.getID
  split
  · decide
  · rename_i h
    exact UInt16.le_iff_toNat_le.mp (UInt16.not_lt.mp h)

structure Known (start m : AlkoManager) : Prop where
  kept : ∀ id, (start.requests id).isSome → (m.requests id).isSome
  drawn : ∀ id, (m.requests id).isSome → (start.requests id).isSome ∨ 2 ≤ id.toNat

theorem Known.refl (m : AlkoManager) : Known m m := ⟨fun _ h => h, fun _ h => .inl h⟩

theorem Known.get {start m : AlkoManager} (h : Known start m) (request : List UInt8) :
    Known start (m.get request).2 := by
  constructor
  · intro id hid
    rw [AlkoManager.get_snd_requests]
    by_cases heq : id = m.getID
    · rw [heq, Function.update_self]
      rfl
    · rw [Function.update_of_ne heq]
      exact h.kept id hid
  · intro id hid
    rw [AlkoManager.get_snd_requests] at hid
    by_cases heq : id = m.getID
    · exact .inr (heq ▸ two_le_getID m)
    · rw [Function.update_of_ne heq] at hid
      exact h.drawn id hid

theorem Known.ponged {start m : AlkoManager} (h : Known start m) (datagram : List UInt8) :
    Known start (m.ponged datagram) := by
  unfold AlkoManager.ponged
  split
  · exact h.get _
  · exact h

def Done (start : AlkoManager) (call : List ManagerEvent) : Prop :=
  call = [] ∨ ∃ m datagram, Known start m ∧ call = (m.dispatch datagram).1

theorem acts_dispatch {m : AlkoManager} {d datagram : List UInt8} :
    Acts (m.dispatch d).1 datagram ↔
      datagram = d ∧ (isPing d ∨ ((m.ponged d).requests (idOf d)).isSome) := by
  rw [AlkoManager.dispatch_fst, Acts]
  cases hping : isPing d <;> cases (m.ponged d).requests (idOf d) <;>
    simp [eq_comm]

/-- What the daemon has made of the pieces `ps`, with `rest` still to be read. -/
structure Serving.Served (start : AlkoManager) (s : Serving) (ps : List AlkoManager.format.Piece)
    (rest : List UInt8) : Prop where
  holds : AlkoManager.format.Holds s.manager.reader rest
  known : Known start s.manager
  done : ∀ call ∈ s.calls, Done start call
  taken : s.calls.flatMap received = segments ps

theorem letters_frame (f : AlkoManager.format.Frame) :
    0x42 :: 0x53 :: UInt8.ofNat (f.body.length + 3) :: f.body = f.letters := by
  rw [AlkoManager.sizeLetter_eq]
  rfl

namespace Serving

variable {start : AlkoManager} {s : Serving} {ps : List AlkoManager.format.Piece}
  {stream rest : List UInt8}

theorem run_append (services services' : List Service) (s : Serving) :
    s.run (services ++ services') = (s.run services).run services' :=
  List.foldl_append

theorem Served.call {call : List ManagerEvent} {m : AlkoManager}
    {qs : List AlkoManager.format.Piece} {rest' : List UInt8} (h : s.Served start ps rest)
    (hdone : Done start call) (htaken : received call = segments qs) (hknown : Known start m)
    (hholds : AlkoManager.format.Holds m.reader rest') :
    Served start ⟨m, s.calls ++ [call]⟩ (ps ++ qs) rest' := by
  refine ⟨hholds, hknown, ?_, ?_⟩
  · intro call' hcall'
    rcases List.mem_append.mp hcall' with hold | hnew
    · exact h.done call' hold
    · exact List.mem_singleton.mp hnew ▸ hdone
  · simp only [List.flatMap_append, List.flatMap_singleton, segments_append, h.taken, htaken]

theorem Served.readChunk (h : s.Served start ps rest) (chunk : List UInt8) :
    ∃ qs rest', AlkoManager.format.Advance (rest ++ chunk) qs rest' ∧
      (s.step (.readyRead chunk)).Served start (ps ++ qs) rest' := by
  have harrive : AlkoManager.format.Holds (s.manager.receive chunk).reader (rest ++ chunk) :=
    h.holds.arrive chunk
  obtain ⟨rest', htook, hholds⟩ := FrameFormat.poll_took harrive []
  have hcall : s.manager.readChunk chunk = _ := AlkoManager.slotReadyRead_eq _
  generalize (AlkoManager.format.poll [] (s.manager.receive chunk).reader).2 = r at hholds hcall
  generalize (AlkoManager.format.poll [] (s.manager.receive chunk).reader).1 = o at htook hcall
  have hknown : Known start ((s.manager.receive chunk).withReader r) :=
    ⟨h.known.kept, h.known.drawn⟩
  simp only [Serving.step, hcall]
  cases htook with
  | waits stuck =>
    rw [List.append_nil] at hholds
    exact ⟨[], _, .stuck stuck, h.call (.inl rfl) rfl hknown hholds⟩
  | skips hcut =>
    rw [List.append_nil] at hcut
    exact ⟨_, rest', .takes hcut, h.call (.inl rfl) rfl hknown hholds⟩
  | @yields f _ hcut =>
    rw [List.append_nil] at hcut
    refine ⟨_, rest', .takes hcut, ?_⟩
    rw [AlkoManager.accept, letters_frame]
    refine h.call (.inr ⟨_, f.letters, hknown, rfl⟩) (AlkoManager.received_dispatch _ _) ?_ ?_
    · rw [AlkoManager.dispatch_snd]
      exact hknown.ponged f.letters
    · rw [AlkoManager.reader_dispatch]
      exact hholds

theorem Served.step (h : s.Served start ps rest) (hcuts : Cuts stream ps rest) (e : Service) :
    ∃ ps' rest', Cuts (stream ++ e.arrives) ps' rest' ∧ (s.step e).Served start ps' rest' := by
  cases e with
  | get request =>
    refine ⟨ps, rest, ?_, h.holds, h.known.get request, h.done, h.taken⟩
    rwa [Service.arrives, List.append_nil]
  | readyRead chunk =>
    obtain ⟨qs, rest', hadvance, hserved⟩ := h.readChunk chunk
    exact ⟨ps ++ qs, rest', (hcuts.append chunk).trans hadvance.cuts, hserved⟩

theorem Served.run (h : s.Served start ps rest) (hcuts : Cuts stream ps rest)
    (services : List Service) :
    ∃ ps' rest', Cuts (stream ++ readIn services) ps' rest' ∧
      (s.run services).Served start ps' rest' := by
  induction services generalizing s stream ps rest with
  | nil => exact ⟨ps, rest, by simpa [readIn] using hcuts, h⟩
  | cons e services ih =>
    obtain ⟨ps', rest', hcuts', h'⟩ := h.step hcuts e
    obtain ⟨ps'', rest'', hcuts'', h''⟩ := ih h' hcuts'
    refine ⟨ps'', rest'', ?_, h''⟩
    rwa [List.append_assoc] at hcuts''

theorem served_run {m : AlkoManager} (hidle : m.sizePending = 0) (services : List Service) :
    ∃ ps rest, Cuts (m.rx ++ readIn services) ps rest ∧
      (Serving.run services ⟨m, []⟩).Served m ps rest := by
  have hstart : Serving.Served m ⟨m, []⟩ [] m.rx :=
    ⟨.idle hidle, .refl m, by simp, rfl⟩
  exact hstart.run (.nil m.rx) services

theorem Served.acts (h : s.Served start ps rest) {call : List ManagerEvent} {datagram : List UInt8}
    (hcall : call ∈ s.calls) (hacts : Acts call datagram) :
    datagram ∈ segments ps ∧
      (isPing datagram ∨ (start.requests (idOf datagram)).isSome ∨ 2 ≤ (idOf datagram).toNat) := by
  rcases h.done call hcall with rfl | ⟨m, d, hknown, rfl⟩
  · exact absurd hacts.1 (List.not_mem_nil)
  · obtain ⟨rfl, hwhy⟩ := acts_dispatch.mp hacts
    refine ⟨?_, hwhy.imp_right ((hknown.ponged datagram).drawn _)⟩
    rw [← h.taken]
    exact List.mem_flatMap.mpr ⟨_, hcall, by simp [AlkoManager.received_dispatch]⟩

theorem Served.acted (h : s.Served start ps rest) {datagram : List UInt8}
    (hmem : datagram ∈ segments ps)
    (hwhy : isPing datagram ∨ (start.requests (idOf datagram)).isSome) :
    ∃ call ∈ s.calls, Acts call datagram := by
  rw [← h.taken] at hmem
  obtain ⟨call, hcall, hreceived⟩ := List.mem_flatMap.mp hmem
  refine ⟨call, hcall, ?_⟩
  rcases h.done call hcall with rfl | ⟨m, d, hknown, rfl⟩
  · exact absurd hreceived List.not_mem_nil
  · rw [AlkoManager.received_dispatch, List.mem_singleton] at hreceived
    subst hreceived
    exact acts_dispatch.mpr ⟨rfl, hwhy.imp_right ((hknown.ponged datagram).kept _)⟩

/-! The run that reads a whole stream: the bytes come one at a time. -/

def bytewise (stream : List UInt8) : List Service := stream.map fun byte => .readyRead [byte]

theorem readIn_bytewise (stream : List UInt8) : readIn (bytewise stream) = stream := by
  induction stream with
  | nil => rfl
  | cons byte stream ih => exact congrArg (byte :: ·) ih

theorem Served.bytewise (h : s.Served start ps rest)
    (hstuck : AlkoManager.format.cut rest = none) (bytes : List UInt8) :
    ∃ qs rest', Cuts (rest ++ bytes) qs rest' ∧ AlkoManager.format.cut rest' = none ∧
      (s.run (bytewise bytes)).Served start (ps ++ qs) rest' := by
  induction bytes generalizing s ps rest with
  | nil =>
    rw [List.append_nil]
    exact ⟨[], rest, .nil rest, hstuck, by rwa [List.append_nil]⟩
  | cons byte bytes ih =>
    obtain ⟨qs, rest', hadvance, hserved⟩ := h.readChunk [byte]
    obtain ⟨qs', rest'', hcuts, hend, hrun⟩ := ih hserved (hadvance.keeps_up rfl hstuck)
    refine ⟨qs ++ qs', rest'', ?_, hend, by rwa [List.append_assoc] at hrun⟩
    have hfirst := (hadvance.cuts.append bytes).trans hcuts
    rwa [List.append_assoc] at hfirst

/-- Every segment of the stream is taken, if its bytes come one at a time. -/
theorem served_bytewise {m : AlkoManager} (hidle : m.sizePending = 0) (hempty : m.rx = [])
    (stream : List UInt8) :
    ∃ rest, (Serving.run (bytewise stream) ⟨m, []⟩).Served m
      (AlkoManager.format.parse stream) rest := by
  have hstart : Serving.Served m ⟨m, []⟩ [] [] := by
    refine ⟨?_, .refl m, by simp, rfl⟩
    have hholds : AlkoManager.format.Holds m.reader m.rx := .idle hidle
    rwa [hempty] at hholds
  obtain ⟨qs, rest, hcuts, hend, hrun⟩ := hstart.bytewise (by decide) stream
  exact ⟨rest, hcuts.eq_parse hend ▸ hrun⟩

def asked : ℕ → AlkoManager
  | 0 => AlkoManager.new
  | n + 1 => ((asked n).get []).2

theorem run_asked (n : ℕ) :
    Serving.run (List.replicate n (.get [])) ⟨AlkoManager.new, []⟩ = ⟨asked n, []⟩ := by
  induction n with
  | zero => rfl
  | succ n ih =>
    rw [List.replicate_succ', run_append, ih]
    rfl

theorem idle_asked (n : ℕ) : (asked n).sizePending = 0 ∧ (asked n).rx = [] := by
  induction n with
  | zero => exact ⟨rfl, rfl⟩
  | succ n ih => exact ih

theorem id_asked (n : ℕ) (h : n + 2 < 2 ^ 16) : (asked (n + 1)).id.toNat = n + 2 := by
  induction n with
  | zero => rfl
  | succ n ih =>
    have hlast := ih (by omega)
    have hnext : ((asked (n + 1)).id + 1).toNat = n + 3 := by
      rw [UInt16.toNat_add, hlast]
      simp only [UInt16.toNat_one]
      omega
    have hfree : ¬(asked (n + 1)).id + 1 < 2 := by
      rw [UInt16.lt_iff_toNat_lt, hnext]
      exact Nat.not_lt.mpr (Nat.le_add_left 2 (n + 1))
    change (asked (n + 1)).getID.toNat = _
    rw [AlkoManager.getID, if_neg hfree, hnext]

theorem known_asked {id : UInt16} (h : 2 ≤ id.toNat) : ∃ n, ((asked n).requests id).isSome := by
  have hlt := id.toNat_lt
  refine ⟨id.toNat - 2 + 1, ?_⟩
  have hid : (asked (id.toNat - 2)).getID = id := by
    rw [← UInt16.toNat_inj]
    exact (id_asked (id.toNat - 2) (by omega)).trans (by omega)
  rw [asked, AlkoManager.get_snd_requests, hid, Function.update_self]
  rfl

theorem readIn_append (services services' : List Service) :
    readIn (services ++ services') = readIn services ++ readIn services' :=
  List.flatMap_append

theorem readIn_asking (n : ℕ) : readIn (List.replicate n (.get [])) = [] := by
  induction n with
  | zero => rfl
  | succ n ih => exact ih

/-- Whatever the stream, a call acts only on segments of it. Their checksum is right, in every run
that reads the stream, exactly when it is right for every segment of it that is a PING or could be
an answer. -/
theorem intake_sound_iff (stream : List UInt8) :
    (∀ services, readIn services = stream →
        ∀ call ∈ (Serving.run services ⟨AlkoManager.new, []⟩).calls, ∀ datagram,
          Acts call datagram →
            datagram <:+: stream ∧ Segment 64 datagram ∧ makeChecksum datagram = 0) ↔
      ∀ segment ∈ segments (AlkoManager.format.parse stream),
        isPing segment ∨ 2 ≤ (idOf segment).toNat → makeChecksum segment = 0 := by
  constructor
  · intro h segment hsegment hwhy
    -- ask for the id of the segment, and read the stream byte by byte
    have hasked : ∃ n, isPing segment ∨ ((asked n).requests (idOf segment)).isSome := by
      rcases hwhy with hping | hid
      · exact ⟨0, .inl hping⟩
      · obtain ⟨n, hn⟩ := known_asked hid
        exact ⟨n, .inr hn⟩
    obtain ⟨n, hn⟩ := hasked
    obtain ⟨rest, hserved⟩ := served_bytewise (idle_asked n).1 (idle_asked n).2 stream
    obtain ⟨call, hcall, hacts⟩ := hserved.acted hsegment hn
    have hread : readIn (List.replicate n (.get []) ++ Serving.bytewise stream) = stream := by
      rw [readIn_append, readIn_asking, List.nil_append, readIn_bytewise]
    have hrun := h _ hread
    rw [run_append, run_asked] at hrun
    exact (hrun call hcall segment hacts).2.2
  · intro h services hread call hcall datagram hacts
    obtain ⟨ps, rest, hcuts, hserved⟩ := served_run (m := AlkoManager.new) rfl services
    rw [hread, show AlkoManager.new.rx = [] from rfl, List.nil_append] at hcuts
    obtain ⟨hmem, hwhy⟩ := hserved.acts hcall hacts
    obtain ⟨f, hf, rfl⟩ := List.mem_map.mp hmem
    obtain ⟨qs, hparse⟩ := hcuts.prefix_parse
    refine ⟨hcuts.isInfix hf, segment_letters rfl rfl rfl rfl f, h f.letters ?_ ?_⟩
    · rw [← hparse, segments_append]
      exact List.mem_append_left _ hmem
    · exact hwhy.imp_right fun h => h.resolve_left (by simp [AlkoManager.new])

def misaddressed : List UInt8 :=
  ((Arduino.Network.sendCommand .drinkAvail 5).setId 2).toBytes

theorem intake_unsound :
    ¬∀ stream services, readIn services = stream →
      ∀ call ∈ (Serving.run services ⟨AlkoManager.new, []⟩).calls, ∀ datagram,
        Acts call datagram →
          datagram <:+: stream ∧ Segment 64 datagram ∧ makeChecksum datagram = 0 := by
  intro h
  have hacts : Acts [.recv misaddressed, .setData 0 misaddressed] misaddressed := by simp [Acts]
  have hsum := (h misaddressed [.get [Cmd.ping.toByte], .readyRead misaddressed] (List.append_nil _)
    [.recv misaddressed, .setData 0 misaddressed] (by decide +kernel) misaddressed hacts).2.2
  exact absurd hsum (by decide +kernel)

end Serving

end Alko.System
