import Alko.Foundation.FrameParse
import Alko.System.Delivery
import Alko.System.Framing

/-! The machine's receiver on an arbitrary line: whatever arrives, it reports the frames of the
stream whose checksum is right, and complains about the others. -/

namespace Alko.System

open Foundation Alkod Arduino
open AlkoManager (idOf)
open FrameFormat (Cut Cuts Took Holds Piece Frame frames consumed)

/-- A piece of a stream with the signature, a size within the bounds, and that many bytes. -/
structure Segment (maxSize : ℕ) (letters : List UInt8) : Prop where
  signature : ∃ n body, letters = 0x42 :: 0x53 :: n :: body ∧ n.toNat = letters.length
  minSize : 8 ≤ letters.length
  maxSize : letters.length ≤ maxSize

structure Carries (segment : List UInt8) (dgr : Datagram) : Prop where
  id : dgr.id.toNat = 256 * (segment.getD 3 0).toNat + (segment.getD 4 0).toNat
  command : dgr.command = segment.getD 7 0
  data : dgr.data = segment.drop 8

def segments {F : FrameFormat UInt8} (ps : List F.Piece) : List (List UInt8) :=
  (frames ps).map Frame.letters

def intact (segment : List UInt8) : Bool := checksum segment = 0

theorem segments_append {F : FrameFormat UInt8} (ps qs : List F.Piece) :
    segments (ps ++ qs) = segments ps ++ segments qs := by
  simp only [segments, frames, List.filterMap_append, List.map_append]

theorem hiByte_ofBytes (hi lo : UInt8) : Datagram.hiByte (Datagram.ofBytes hi lo) = hi := by
  have hlo := lo.toNat_lt
  rw [← UInt8.toNat_inj, Datagram.toNat_hiByte, Datagram.toNat_ofBytes]
  omega

theorem loByte_ofBytes (hi lo : UInt8) : Datagram.loByte (Datagram.ofBytes hi lo) = lo := by
  have hlo := lo.toNat_lt
  rw [← UInt8.toNat_inj, Datagram.toNat_loByte, Datagram.toNat_ofBytes]
  omega

theorem exists_body (f : Network.format.Frame) :
    ∃ idHi idLo sumHi sumLo command data,
      f.body = idHi :: idLo :: sumHi :: sumLo :: command :: data := by
  have hmin : 8 ≤ f.body.length + 3 := f.minSize_le
  match hbody : f.body, hmin with
  | idHi :: idLo :: sumHi :: sumLo :: command :: data, _ =>
    exact ⟨idHi, idLo, sumHi, sumLo, command, data, rfl⟩
  | [], h => simp at h
  | [_], h => simp at h
  | [_, _], h => simp at h
  | [_, _, _], h => simp at h
  | [_, _, _, _], h => simp at h

theorem segment_letters {F : FrameFormat UInt8} (hsig0 : F.sig0 = 0x42) (hsig1 : F.sig1 = 0x53)
    (hsize : F.size = UInt8.toNat) (hmin : F.minSize = 8) (f : F.Frame) :
    Segment F.maxSize f.letters := by
  have hlen := f.length_letters
  refine ⟨⟨f.sizeLetter, f.body, ?_, ?_⟩, ?_, ?_⟩
  · rw [Frame.letters, hsig0, hsig1]
  · rw [hlen, ← f.size_eq, hsize]
  · rw [hlen, ← hmin]
    exact f.minSize_le
  · rw [hlen]
    exact f.le_maxSize

theorem carries_parse (f : Network.format.Frame) : Carries f.letters (Network.parse f.body) := by
  obtain ⟨idHi, idLo, sumHi, sumLo, command, data, hbody⟩ := exists_body f
  rw [Frame.letters, hbody]
  exact ⟨Datagram.toNat_ofBytes idHi idLo, rfl, rfl⟩

theorem id_parse (f : Network.format.Frame) : (Network.parse f.body).id = idOf f.letters := by
  obtain ⟨idHi, idLo, sumHi, sumLo, command, data, hbody⟩ := exists_body f
  rw [Frame.letters, hbody]
  rfl

theorem toBytes_parse (f : Network.format.Frame) : (Network.parse f.body).toBytes = f.letters := by
  obtain ⟨idHi, idLo, sumHi, sumLo, command, data, hbody⟩ := exists_body f
  have hsize : f.sizeLetter.toNat = f.body.length + 3 := f.size_eq
  have hmax : f.body.length + 3 ≤ 32 := f.le_maxSize
  have hletter : UInt8.ofNat (8 + data.length) = f.sizeLetter := by
    rw [hbody] at hsize
    rw [← UInt8.toNat_inj, UInt8.toNat_ofNat', hsize]
    rw [hbody] at hmax
    simp only [List.length_cons] at hmax ⊢
    omega
  rw [Frame.letters, hbody]
  simp only [Network.parse, Datagram.toBytes, Datagram.getDataSize, hletter, hiByte_ofBytes,
    loByte_ofBytes]
  rfl

theorem checksumIsValid_parse (f : Network.format.Frame) :
    (Network.parse f.body).checksumIsValid = intact f.letters := by
  rw [Datagram.checksumIsValid, Datagram.generateChecksum, toBytes_parse]
  rfl

theorem reader_accept (n : Network) (r : Reader UInt8) (o : Option (List UInt8)) :
    (n.accept r o).network.reader = r := by
  unfold Network.accept
  split
  · rfl
  · split <;> rfl

/-- What the machine has made of the pieces `ps`, with `rest` still to be read. -/
structure Line.Received (start : Network) (l : Line) (ps : List Network.format.Piece)
    (rest : List UInt8) : Prop where
  holds : Network.format.Holds l.network.reader rest
  accepted : List.Forall₂ Carries ((segments ps).filter intact) l.accepted
  sent : l.sent = ((segments ps).filter fun segment => !intact segment).map
    fun segment => Network.sendCommand .chksumInvalid (idOf segment)
  last : l.network.datagram = l.accepted.getLast?.or start.datagram

namespace Line

variable {start : Network} {l : Line} {ps : List Network.format.Piece} {s rest : List UInt8}

theorem Received.waits {r : Reader UInt8} {late : List UInt8} (h : l.Received start ps rest)
    (hcall : l.network.datagramIsPending late = l.network.accept r none)
    (hholds : Network.format.Holds r (rest ++ late)) :
    (l.step (.poll late)).Received start ps (rest ++ late) := by
  simp only [step, hcall, Network.accept, List.append_nil, Bool.false_eq_true, if_false]
  exact ⟨hholds, h.accepted, h.sent, h.last⟩

theorem Received.skips {r : Reader UInt8} {late letters rest' : List UInt8}
    (h : l.Received start ps rest)
    (hcall : l.network.datagramIsPending late = l.network.accept r none)
    (hholds : Network.format.Holds r rest') :
    (l.step (.poll late)).Received start (ps ++ [.junk letters]) rest' := by
  have hsegments : segments (ps ++ [(.junk letters : Network.format.Piece)]) = segments ps := by
    rw [segments_append]
    exact List.append_nil _
  simp only [step, hcall, Network.accept, List.append_nil, Bool.false_eq_true, if_false]
  exact ⟨hholds, hsegments ▸ h.accepted, hsegments ▸ h.sent, h.last⟩

theorem Received.yields {r : Reader UInt8} {late rest' : List UInt8} {f : Network.format.Frame}
    (h : l.Received start ps rest)
    (hcall : l.network.datagramIsPending late = l.network.accept r (some f.body))
    (hholds : Network.format.Holds r rest') :
    (l.step (.poll late)).Received start (ps ++ [.frame f]) rest' := by
  have hsegments : segments (ps ++ [(.frame f : Network.format.Piece)]) =
      segments ps ++ [f.letters] := by
    rw [segments_append]
    rfl
  simp only [Network.accept, checksumIsValid_parse] at hcall
  cases hintact : intact f.letters with
  | true =>
    rw [hintact, if_pos rfl] at hcall
    simp only [step, hcall, List.append_nil, if_true, Network.getPendingDatagram,
      Option.getD_some]
    refine ⟨hholds, ?_, ?_, ?_⟩
    · rw [hsegments, List.filter_append, List.filter_singleton, hintact]
      exact List.rel_append h.accepted (.cons (carries_parse f) .nil)
    · rw [hsegments, List.filter_append, List.filter_singleton, hintact]
      simpa using h.sent
    · simp
  | false =>
    rw [hintact, if_neg (by simp)] at hcall
    simp only [step, hcall, List.append_nil, Bool.false_eq_true, if_false]
    refine ⟨hholds, ?_, ?_, h.last⟩
    · rw [hsegments, List.filter_append, List.filter_singleton, hintact]
      simpa using h.accepted
    · rw [hsegments, List.filter_append, List.filter_singleton, hintact, List.map_append,
        ← h.sent, id_parse]
      rfl

/-- The step lemma: a poll takes at most one piece, and reports a frame as its checksum says. -/
theorem Received.poll (h : l.Received start ps rest) (hcuts : Cuts s ps rest)
    (late : List UInt8) :
    ∃ ps' rest', Cuts (s ++ late) ps' rest' ∧ (l.step (.poll late)).Received start ps' rest' := by
  obtain ⟨rest', htook, hholds⟩ := FrameFormat.poll_took h.holds late
  have hlate := hcuts.append late
  have hcall := Network.datagramIsPending_eq late l.network
  generalize (Network.format.poll late l.network.reader).2 = r at hholds hcall
  generalize (Network.format.poll late l.network.reader).1 = o at htook hcall
  cases htook with
  | waits stuck => exact ⟨ps, _, hlate, h.waits hcall hholds⟩
  | skips hcut => exact ⟨_, rest', hlate.trans (.one hcut), h.skips hcall hholds⟩
  | yields hcut => exact ⟨_, rest', hlate.trans (.one hcut), h.yields hcall hholds⟩

theorem Received.step (h : l.Received start ps rest) (hcuts : Cuts s ps rest) (e : LineStep) :
    ∃ ps' rest', Cuts (s ++ e.arrives) ps' rest' ∧ (l.step e).Received start ps' rest' := by
  cases e with
  | arrive bytes =>
    exact ⟨ps, _, hcuts.append bytes, h.holds.arrive bytes, h.accepted, h.sent, h.last⟩
  | poll late => exact h.poll hcuts late

theorem Received.run (h : l.Received start ps rest) (hcuts : Cuts s ps rest)
    (steps : List LineStep) :
    ∃ ps' rest', Cuts (s ++ arrivals steps) ps' rest' ∧
      (l.run steps).Received start ps' rest' := by
  induction steps generalizing l s ps rest with
  | nil => exact ⟨ps, rest, by simpa [arrivals] using hcuts, h⟩
  | cons e steps ih =>
    obtain ⟨ps', rest', hcuts', h'⟩ := h.step hcuts e
    obtain ⟨ps'', rest'', hcuts'', h''⟩ := ih h' hcuts'
    refine ⟨ps'', rest'', ?_, h''⟩
    rwa [List.append_assoc] at hcuts''

theorem received_run {network : Network} (hidle : network.sizePending = 0)
    (steps : List LineStep) :
    ∃ ps rest, Cuts (network.rx ++ arrivals steps) ps rest ∧
      (Line.run steps ⟨network, [], []⟩).Received network ps rest := by
  have hstart : (⟨network, [], []⟩ : Line).Received network [] network.rx :=
    ⟨.idle hidle, .nil, rfl, (Option.none_or).symm⟩
  exact hstart.run (.nil network.rx) steps

/-- Whatever arrives and however calls come in between, the pieces read are the first of the
stream's only decomposition into frames and junk; the datagrams reported are the intact frames
among them, in order, each other frame costs one CHKSUM_INVALID with its id, the last datagram
accepted stays, and a call that finds a header's worth of bytes consumes some. -/
theorem receiver_sound (network : Network) (hidle : network.sizePending = 0)
    (hempty : network.rx = []) (steps : List LineStep) :
    let l := Line.run steps ⟨network, [], []⟩
    ∃ pieces rest,
      arrivals steps = consumed pieces ++ rest ∧
      pieces <+: Network.format.parse (arrivals steps) ∧
      Network.format.Holds l.network.reader rest ∧
      (∀ segment ∈ segments pieces, Segment 32 segment) ∧
      List.Forall₂ Carries ((segments pieces).filter intact) l.accepted ∧
      l.sent = ((segments pieces).filter fun segment => !intact segment).map
        (fun segment => Network.sendCommand .chksumInvalid (idOf segment)) ∧
      l.network.datagram = l.accepted.getLast?.or network.datagram ∧
      ∀ late, l.network.sizePending = 0 → 8 ≤ l.network.rx.length →
        (l.network.datagramIsPending late).network.rx.length <
          l.network.rx.length + late.length := by
  obtain ⟨ps, rest, hcuts, h⟩ := received_run hidle steps
  rw [hempty, List.nil_append] at hcuts
  refine ⟨ps, rest, hcuts.letters, hcuts.prefix_parse, h.holds, ?_, h.accepted, h.sent, h.last, ?_⟩
  · intro segment hsegment
    obtain ⟨f, -, rfl⟩ := List.mem_map.mp hsegment
    exact segment_letters rfl rfl rfl rfl f
  · intro late hidle hneed
    have hprogress := FrameFormat.poll_progress (F := Network.format) late
      (r := (Line.run steps ⟨network, [], []⟩).network.reader) hidle hneed
    rw [Network.datagramIsPending_eq]
    exact (congrArg (fun r => r.buffer.length) (reader_accept _ _ _)).trans_lt hprogress

def damaged : List LineStep :=
  [.arrive (Network.sendCommand .ping 2).toBytes, .poll [0x00], .poll [],
    .arrive ((Network.sendCommand .ready 3).setId 4).toBytes, .poll [], .poll []]

theorem receiver_sound_damaged :
    let l := Line.run damaged ⟨Network.new, [], []⟩
    (l.accepted.map datagramKey = [(2, [Cmd.ping.toByte])] ∧
      l.sent = [Network.sendCommand .chksumInvalid 4]) ∧
    ∃ pieces rest,
      arrivals damaged = consumed pieces ++ rest ∧
      pieces <+: Network.format.parse (arrivals damaged) ∧
      Network.format.Holds l.network.reader rest ∧
      (∀ segment ∈ segments pieces, Segment 32 segment) ∧
      List.Forall₂ Carries ((segments pieces).filter intact) l.accepted ∧
      l.sent = ((segments pieces).filter fun segment => !intact segment).map
        (fun segment => Network.sendCommand .chksumInvalid (idOf segment)) ∧
      l.network.datagram = l.accepted.getLast?.or Network.new.datagram ∧
      ∀ late, l.network.sizePending = 0 → 8 ≤ l.network.rx.length →
        (l.network.datagramIsPending late).network.rx.length <
          l.network.rx.length + late.length :=
  ⟨by decide +kernel, receiver_sound Network.new rfl rfl damaged⟩

end Line

end Alko.System
