import Alko.System.Receiving

/-! A frame with one byte changed behind its header: the machine's checksum finds it out. -/

namespace Alko.System

open Foundation Arduino
open FrameFormat (Cuts Frame Holds)

def change (f : Network.format.Frame) (i : ℕ) (b : UInt8) : Network.format.Frame where
  sizeLetter := f.sizeLetter
  body := f.body.set (i - 3) b
  size_eq := by rw [List.length_set, f.size_eq]
  minSize_le := by rw [List.length_set]; exact f.minSize_le
  le_maxSize := by rw [List.length_set]; exact f.le_maxSize

theorem letters_change (f : Network.format.Frame) {i : ℕ} (h : 3 ≤ i) (b : UInt8) :
    (change f i b).letters = f.letters.set i b := by
  obtain ⟨j, rfl⟩ := Nat.exists_eq_add_of_le' h
  rfl

theorem length_letters_le (f : Network.format.Frame) : f.letters.length ≤ 65536 := by
  have hmax : f.body.length + 3 ≤ 32 := f.le_maxSize
  rw [Frame.length_letters]
  omega

theorem generateChecksum_parse (f : Network.format.Frame) :
    (Network.parse f.body).generateChecksum = checksum f.letters := by
  rw [Datagram.generateChecksum, toBytes_parse]

theorem generateChecksum_change {f : Network.format.Frame}
    (hvalid : (Network.parse f.body).generateChecksum = 0) {i : ℕ} (hi : 3 ≤ i)
    (hlt : i < f.letters.length) {b : UInt8} (hne : b ≠ f.letters[i]) :
    (Network.parse (change f i b).body).generateChecksum ≠ 0 := by
  rw [generateChecksum_parse] at hvalid ⊢
  rw [letters_change f hi]
  exact checksum_set_ne_zero (length_letters_le f) hvalid hlt hne

theorem datagramIsPending_of_invalid {g : Network.format.Frame}
    (hinvalid : (Network.parse g.body).generateChecksum ≠ 0) {network : Network}
    {s late rest : List UInt8} (hholds : Network.format.Holds network.reader s)
    (hlooks : network.sizePending = 0 → 8 ≤ network.rx.length)
    (hframe : s ++ late = g.letters ++ rest) :
    network.datagramIsPending late =
      ⟨false, [Network.sendCommand .chksumInvalid (Network.parse g.body).id],
        ⟨0, network.datagram, rest⟩⟩ := by
  have hpoll := FrameFormat.poll_frame g hholds hlooks hframe
  have hnot : ¬(Network.parse g.body).checksumIsValid = true := by
    rw [Datagram.checksumIsValid, decide_eq_true_eq]
    exact hinvalid
  rw [Network.datagramIsPending_eq, hpoll, Network.accept]
  simp only [if_neg hnot]

theorem run_of_invalid {g : Network.format.Frame}
    (hinvalid : (Network.parse g.body).generateChecksum ≠ 0) {network : Network}
    (hidle : network.sizePending = 0) (hempty : network.rx = []) {steps : List LineStep}
    (harrivals : arrivals steps = g.letters) :
    let l := Line.run steps ⟨network, [], []⟩
    l.accepted = [] ∧ l.network.datagram = network.datagram ∧
      (l.Idle → l.sent = [Network.sendCommand .chksumInvalid (Network.parse g.body).id]) := by
  have hbad : intact g.letters = false := by
    rw [intact, ← generateChecksum_parse, decide_eq_false_iff_not]
    exact hinvalid
  have hone : Cuts g.letters [.frame g] [] := by
    rw [← List.append_nil g.letters]
    exact .one (.frame g [])
  have hparse : Network.format.parse g.letters = [.frame g] := (hone.eq_parse rfl).symm
  obtain ⟨ps, rest, hcuts, h⟩ := Line.received_run hidle steps
  rw [hempty, List.nil_append, harrivals] at hcuts
  have hintact : (segments ps).filter intact = [] := by
    obtain ⟨qs, hqs⟩ := hcuts.prefix_parse
    have hsegments : segments ps <+: [g.letters] := by
      refine ⟨segments qs, ?_⟩
      rw [← segments_append, hqs, hparse]
      rfl
    rw [List.filter_eq_nil_iff]
    intro segment hmem
    rw [List.mem_singleton.mp (hsegments.subset hmem), hbad]
    exact Bool.false_ne_true
  have haccepted := h.accepted
  rw [hintact, List.forall₂_nil_left_iff] at haccepted
  refine ⟨haccepted, ?_, fun hrest => ?_⟩
  · rw [h.last, haccepted]
    rfl
  · rw [Line.Idle, Network.datagramIsPending_eq, reader_accept] at hrest
    rw [h.sent, hcuts.eq_parse (h.holds.cut_eq_none hrest), hparse]
    simp [segments, FrameFormat.frames, FrameFormat.Piece.toFrame, hbad, id_parse]

/-- A frame with a valid checksum and one byte changed behind the header: its checksum is not zero,
the call that has it before it, in whatever state, reports nothing, keeps the last datagram and
sends one CHKSUM_INVALID, and so do all calls together however it arrives. -/
theorem single_byte_detected (f : Network.format.Frame)
    (hvalid : (Network.parse f.body).generateChecksum = 0) {i : ℕ} (hi : 3 ≤ i)
    (hlt : i < f.letters.length) {b : UInt8} (hne : b ≠ f.letters[i]) :
    (change f i b).letters = f.letters.set i b ∧
      (Network.parse (change f i b).body).generateChecksum ≠ 0 ∧
      (∀ (network : Network) (s late rest : List UInt8), Network.format.Holds network.reader s →
        (network.sizePending = 0 → 8 ≤ network.rx.length) →
        s ++ late = f.letters.set i b ++ rest →
        network.datagramIsPending late =
          ⟨false, [Network.sendCommand .chksumInvalid (Network.parse (change f i b).body).id],
            ⟨0, network.datagram, rest⟩⟩) ∧
      ∀ (network : Network) (steps : List LineStep), network.sizePending = 0 → network.rx = [] →
        arrivals steps = f.letters.set i b →
        let l := Line.run steps ⟨network, [], []⟩
        l.accepted = [] ∧ l.network.datagram = network.datagram ∧
          (l.Idle → l.sent =
            [Network.sendCommand .chksumInvalid (Network.parse (change f i b).body).id]) := by
  have hinvalid := generateChecksum_change hvalid hi hlt hne
  have hletters := letters_change f hi b
  refine ⟨hletters, hinvalid, fun network s late rest hholds hlooks hframe => ?_,
    fun network steps hidle hempty harrivals => ?_⟩
  · rw [← hletters] at hframe
    exact datagramIsPending_of_invalid hinvalid hholds hlooks hframe
  · rw [← hletters] at harrivals
    exact run_of_invalid hinvalid hidle hempty harrivals

def greeting : Network.format.Frame :=
  requestFrame (2, ⟨Cmd.setText3.toByte :: [0x48, 0x65, 0x69], Line.text_pos, Line.text_le⟩)

theorem single_byte_detected_greeting :
    (change greeting 10 0x6A).letters = greeting.letters.set 10 0x6A ∧
      (Network.parse (change greeting 10 0x6A).body).generateChecksum ≠ 0 ∧
      Network.datagramIsPending [] (Network.new.receive (greeting.letters.set 10 0x6A)) =
        ⟨false, [Network.sendCommand .chksumInvalid 2], ⟨0, none, []⟩⟩ := by
  obtain ⟨hletters, hinvalid, hcall, -⟩ := single_byte_detected greeting (by decide +kernel)
    (show 3 ≤ 10 by decide) (by decide) (show (0x6A : UInt8) ≠ greeting.letters[10] by decide)
  exact ⟨hletters, hinvalid, hcall _ _ [] [] (.idle rfl) (fun _ => by decide) rfl⟩

end Alko.System
