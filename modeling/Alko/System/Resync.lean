import Alko.Foundation.FrameResync
import Alko.System.Intake

/-! After junk on the line: which junk costs the frame behind it, at both ends. -/

namespace Alko.System

open Foundation Alkod Arduino
open AlkoManager (received)
open FrameFormat (Cuts Piece Frame frames)

namespace Line

theorem reader_poll (l : Line) (late : List UInt8) :
    (l.step (.poll late)).network.reader = (Network.format.poll late l.network.reader).2 := by
  simp only [step, Network.datagramIsPending_eq, reader_accept]

theorem reader_polls (l : Line) (n : ℕ) :
    (l.run (List.replicate n (.poll []))).network.reader =
      (fun r => (Network.format.poll [] r).2)^[n] l.network.reader := by
  induction n generalizing l with
  | zero => rfl
  | succ n ih =>
    have hstep := ih (l.step (.poll []))
    rw [reader_poll] at hstep
    exact hstep

theorem run_append (steps steps' : List LineStep) (l : Line) :
    l.run (steps ++ steps') = (l.run steps).run steps' :=
  List.foldl_append

theorem arrivals_polls (steps : List LineStep) (n : ℕ) :
    arrivals (steps ++ List.replicate n (.poll [])) = arrivals steps := by
  induction n with
  | zero => rw [List.replicate_zero, List.append_nil]
  | succ n ih =>
    rw [List.replicate_succ', ← List.append_assoc, arrivals, List.flatMap_append, ← arrivals, ih]
    exact List.append_nil _

end Line

namespace Serving

theorem reader_readChunk (s : Serving) :
    (s.step (.readyRead [])).manager.reader =
      (AlkoManager.format.poll [] s.manager.reader).2 := by
  have hreceive : s.manager.receive [] = s.manager := by
    simp only [AlkoManager.receive, List.append_nil]
  simp only [step, AlkoManager.readChunk, hreceive, AlkoManager.slotReadyRead_eq]
  generalize AlkoManager.format.poll [] s.manager.reader = p
  cases p.1 with
  | none => rfl
  | some body => exact AlkoManager.reader_dispatch _ _

theorem reader_readChunks (s : Serving) (n : ℕ) :
    (s.run (List.replicate n (.readyRead []))).manager.reader =
      (fun r => (AlkoManager.format.poll [] r).2)^[n] s.manager.reader := by
  induction n generalizing s with
  | zero => rfl
  | succ n ih =>
    have hstep := ih (s.step (.readyRead []))
    rw [reader_readChunk] at hstep
    exact hstep

theorem readIn_polls (services : List Service) (n : ℕ) :
    readIn (services ++ List.replicate n (.readyRead [])) = readIn services := by
  induction n with
  | zero => rw [List.replicate_zero, List.append_nil]
  | succ n ih =>
    rw [List.replicate_succ', ← List.append_assoc, readIn_append, ih]
    exact List.append_nil _

end Serving

theorem exists_segment {segments : List (List UInt8)} {datagrams : List Datagram}
    (h : List.Forall₂ Carries segments datagrams) {dgr : Datagram} (hdgr : dgr ∈ datagrams) :
    ∃ segment ∈ segments, Carries segment dgr := by
  induction h with
  | nil => exact absurd hdgr List.not_mem_nil
  | @cons segment dgr' segments datagrams hcarries _ ih =>
    rcases List.mem_cons.mp hdgr with rfl | hdgr
    · exact ⟨segment, List.mem_cons_self, hcarries⟩
    · obtain ⟨segment', hmem, hcarries'⟩ := ih hdgr
      exact ⟨segment', List.mem_cons_of_mem _ hmem, hcarries'⟩

def daemonFrame (f : Network.format.Frame) : AlkoManager.format.Frame where
  sizeLetter := f.sizeLetter
  body := f.body
  size_eq := f.size_eq
  minSize_le := f.minSize_le
  le_maxSize := f.le_maxSize.trans (show 32 ≤ 64 by decide)

section Resync

variable {junk : List UInt8} {f : Network.format.Frame}

theorem accepted_of_even (hclean : ¬[0x42, 0x53] <:+: junk) (hintact : intact f.letters)
    (heven : Even (junk.rtakeWhile (· = 0x42)).length) {network : Network}
    (hidle : network.sizePending = 0) {steps : List LineStep}
    (hstream : network.rx ++ arrivals steps = junk ++ f.letters) :
    ∃ n, ∃ dgr ∈ ((Line.run steps ⟨network, [], []⟩).run (List.replicate n (.poll []))).accepted,
      Carries f.letters dgr := by
  obtain ⟨n, hrest⟩ := FrameFormat.exists_rest (F := Network.format)
    (Line.run steps ⟨network, [], []⟩).network.reader
  refine ⟨n, ?_⟩
  obtain ⟨ps, rest, hcuts, h⟩ := Line.received_run hidle (steps ++ List.replicate n (.poll []))
  rw [Line.arrivals_polls, hstream] at hcuts
  rw [Line.run_append] at h
  rw [← Line.reader_polls] at hrest
  -- at rest everything has been cut off the stream, and the frame is the only one in it
  have hps := hcuts.eq_parse (h.holds.cut_eq_none hrest)
  have hframes := FrameFormat.frames_of_even (by decide) f hclean heven
  have haccepted := h.accepted
  rw [segments, hps, hframes, List.map_singleton, List.filter_singleton, hintact] at haccepted
  generalize (Line.run _ (Line.run steps _)).accepted = accepted at haccepted ⊢
  cases haccepted with
  | cons hcarries _ => exact ⟨_, List.mem_cons_self, hcarries⟩

theorem length_of_carries {segment : List UInt8} {dgr : Datagram} (h : Carries segment dgr)
    (hmin : 8 ≤ segment.length) : segment.length = dgr.data.length + 8 := by
  rw [h.data, List.length_drop]
  omega

theorem even_of_accepted (hclean : ¬[0x42, 0x53] <:+: junk) {network : Network}
    (hidle : network.sizePending = 0) {steps : List LineStep}
    (hstream : network.rx ++ arrivals steps = junk ++ f.letters) {dgr : Datagram}
    (hdgr : dgr ∈ (Line.run steps ⟨network, [], []⟩).accepted) (hcarries : Carries f.letters dgr) :
    Even (junk.rtakeWhile (· = 0x42)).length := by
  by_contra hodd
  obtain ⟨ps, rest, hcuts, h⟩ := Line.received_run hidle steps
  rw [hstream] at hcuts
  obtain ⟨segment, hsegment, hcarries'⟩ := exists_segment h.accepted hdgr
  obtain ⟨g, hg, rfl⟩ := List.mem_map.mp (List.mem_of_mem_filter hsegment)
  obtain ⟨qs, hqs⟩ := hcuts.prefix_parse
  have hparse : g ∈ frames (Network.format.parse (junk ++ f.letters)) := by
    rw [← hqs, FrameFormat.frames_append]
    exact List.mem_append_left _ hg
  -- what is left of the frame is too short to be read as one of its length
  have hshorter := FrameFormat.shorter_of_odd (by decide) f hclean hodd hparse
  have hlen := length_of_carries hcarries (segment_letters rfl rfl rfl rfl f).minSize
  have hlen' := length_of_carries hcarries' (segment_letters rfl rfl rfl rfl g).minSize
  omega

theorem dispatched_of_even (hclean : ¬[0x42, 0x53] <:+: junk)
    (heven : Even (junk.rtakeWhile (· = 0x42)).length) {m : AlkoManager}
    (hidle : m.sizePending = 0) {services : List Service}
    (hstream : m.rx ++ readIn services = junk ++ f.letters) :
    ∃ n, f.letters ∈ ((Serving.run services ⟨m, []⟩).run
      (List.replicate n (.readyRead []))).calls.flatMap received := by
  obtain ⟨n, hrest⟩ := FrameFormat.exists_rest (F := AlkoManager.format)
    (Serving.run services ⟨m, []⟩).manager.reader
  refine ⟨n, ?_⟩
  obtain ⟨ps, rest, hcuts, h⟩ :=
    Serving.served_run hidle (services ++ List.replicate n (.readyRead []))
  rw [Serving.readIn_polls, hstream] at hcuts
  rw [Serving.run_append] at h
  rw [← Serving.reader_readChunks] at hrest
  have hps := hcuts.eq_parse (h.holds.cut_eq_none hrest)
  have hframes := FrameFormat.frames_of_even (by decide) (daemonFrame f) hclean heven
  rw [h.taken, segments, hps]
  exact List.mem_map.mpr ⟨daemonFrame f, hframes ▸ List.mem_singleton_self _, rfl⟩

theorem even_of_dispatched (hclean : ¬[0x42, 0x53] <:+: junk) {m : AlkoManager}
    (hidle : m.sizePending = 0) {services : List Service}
    (hstream : m.rx ++ readIn services = junk ++ f.letters)
    (hmem : f.letters ∈ (Serving.run services ⟨m, []⟩).calls.flatMap received) :
    Even (junk.rtakeWhile (· = 0x42)).length := by
  by_contra hodd
  obtain ⟨ps, rest, hcuts, h⟩ := Serving.served_run hidle services
  rw [hstream] at hcuts
  rw [h.taken] at hmem
  obtain ⟨g, hg, hletters⟩ := List.mem_map.mp hmem
  obtain ⟨qs, hqs⟩ := hcuts.prefix_parse
  have hparse : g ∈ frames (AlkoManager.format.parse (junk ++ (daemonFrame f).letters)) := by
    change g ∈ frames (AlkoManager.format.parse (junk ++ f.letters))
    rw [← hqs, FrameFormat.frames_append]
    exact List.mem_append_left _ hg
  have hshorter := FrameFormat.shorter_of_odd (by decide) (daemonFrame f) hclean hodd hparse
  exact absurd (congrArg List.length hletters) (Nat.ne_of_lt hshorter)

/-- After junk without a signature, and called on while they consume anything, both receivers come
to the frame behind it exactly when the 0x42 bytes that the junk ends with are even in number. -/
theorem resync_iff (hclean : ¬[0x42, 0x53] <:+: junk) (hintact : intact f.letters) :
    (∀ (network : Network) (steps : List LineStep), network.sizePending = 0 →
      network.rx ++ arrivals steps = junk ++ f.letters →
      ((∃ n, ∃ dgr ∈ ((Line.run steps ⟨network, [], []⟩).run
            (List.replicate n (.poll []))).accepted, Carries f.letters dgr) ↔
        Even (junk.rtakeWhile (· = 0x42)).length)) ∧
    ∀ (m : AlkoManager) (services : List Service), m.sizePending = 0 →
      m.rx ++ readIn services = junk ++ f.letters →
      ((∃ n, f.letters ∈ ((Serving.run services ⟨m, []⟩).run
            (List.replicate n (.readyRead []))).calls.flatMap received) ↔
        Even (junk.rtakeWhile (· = 0x42)).length) := by
  constructor
  · intro network steps hidle hstream
    constructor
    · rintro ⟨n, dgr, hdgr, hcarries⟩
      rw [← Line.run_append] at hdgr
      exact even_of_accepted hclean hidle ((Line.arrivals_polls steps n).symm ▸ hstream) hdgr
        hcarries
    · exact fun heven => accepted_of_even hclean hintact heven hidle hstream
  · intro m services hidle hstream
    constructor
    · rintro ⟨n, hmem⟩
      rw [← Serving.run_append] at hmem
      exact even_of_dispatched hclean hidle ((Serving.readIn_polls services n).symm ▸ hstream) hmem
    · exact fun heven => dispatched_of_even hclean heven hidle hstream

end Resync

def pingFrame : Network.format.Frame :=
  requestFrame (2, ⟨[Cmd.ping.toByte], Line.ping_pos, Line.ping_le⟩)

theorem intact_pingFrame : intact pingFrame.letters := by decide +kernel

/-- One 0x42 before a PING: neither receiver ever comes to it. -/
theorem resync_lost :
    ¬[0x42, 0x53] <:+: ([0x42] : List UInt8) ∧ intact pingFrame.letters ∧
      (¬∃ n, ∃ dgr ∈ ((Line.run [.arrive ([0x42] ++ pingFrame.letters)]
          ⟨Network.new, [], []⟩).run (List.replicate n (.poll []))).accepted,
        Carries pingFrame.letters dgr) ∧
      ¬∃ n, pingFrame.letters ∈ ((Serving.run [.readyRead ([0x42] ++ pingFrame.letters)]
        ⟨AlkoManager.new, []⟩).run (List.replicate n (.readyRead []))).calls.flatMap received := by
  have hclean : ¬[0x42, 0x53] <:+: ([0x42] : List UInt8) := by decide
  have hodd : ¬Even (([0x42] : List UInt8).rtakeWhile (· = 0x42)).length := by decide
  have hread : readIn [.readyRead ([0x42] ++ pingFrame.letters)] = [0x42] ++ pingFrame.letters :=
    List.append_nil _
  refine ⟨hclean, intact_pingFrame, ?_, ?_⟩
  · rintro ⟨n, dgr, hdgr, hcarries⟩
    rw [← Line.run_append] at hdgr
    refine hodd (even_of_accepted hclean rfl ?_ hdgr hcarries)
    exact Line.arrivals_polls _ n
  · rintro ⟨n, hmem⟩
    rw [← Serving.run_append] at hmem
    refine hodd (even_of_dispatched hclean rfl ?_ hmem)
    exact (Serving.readIn_polls _ n).trans hread

theorem resync_iff_pair :
    (∀ (network : Network) (steps : List LineStep), network.sizePending = 0 →
      network.rx ++ arrivals steps = [0x42, 0x42] ++ pingFrame.letters →
      ((∃ n, ∃ dgr ∈ ((Line.run steps ⟨network, [], []⟩).run
            (List.replicate n (.poll []))).accepted, Carries pingFrame.letters dgr) ↔
        Even (([0x42, 0x42] : List UInt8).rtakeWhile (· = 0x42)).length)) ∧
    ∀ (m : AlkoManager) (services : List Service), m.sizePending = 0 →
      m.rx ++ readIn services = [0x42, 0x42] ++ pingFrame.letters →
      ((∃ n, pingFrame.letters ∈ ((Serving.run services ⟨m, []⟩).run
            (List.replicate n (.readyRead []))).calls.flatMap received) ↔
        Even (([0x42, 0x42] : List UInt8).rtakeWhile (· = 0x42)).length) :=
  resync_iff (by decide) intact_pingFrame

end Alko.System
