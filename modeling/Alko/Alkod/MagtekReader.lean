import Alko.Foundation.Segments
import Alko.Qt.QString

/-! The card reader: the numbers it makes of the key events of the device, a read at a time. -/

namespace Alko.Alkod

open Foundation Qt

structure InputEvent where
  type : ℕ
  code : ℕ
  value : ℤ
  deriving DecidableEq

structure MagtekReader where
  ev : Fin 64 → InputEvent
  data : QString
  -- The loop has been left.
  ended : Bool
  -- What `gotDataFromDevice` has been emitted with.
  emitted : List QString

/-! The keys of a card, each press or release of one a packet of three events. -/

inductive Key
  | digit (d : Fin 10)
  | enter
  | leftShift
  | semicolon
  deriving DecidableEq

def Key.code : Key → ℕ
  | digit 0 => 11
  | digit d => d + 1
  | enter => 28
  | leftShift => 42
  | semicolon => 39

theorem Key.code_digit (d : Fin 10) :
    (Key.digit d).code + 47 ≠ 75 ∧ (Key.digit d).code + 47 ≠ 86 ∧ (Key.digit d).code + 47 ≠ 89 ∧
      (if (Key.digit d).code + 47 = 58 then (Key.digit d).code + 47 - 10
        else (Key.digit d).code + 47) = 48 + d := by
  fin_cases d <;> decide

structure Packet where
  scan : ℤ
  key : Key
  pressed : Bool
  deriving DecidableEq

namespace Packet

def events (p : Packet) : List InputEvent :=
  [⟨4, 4, p.scan⟩, ⟨1, p.key.code, if p.pressed then 1 else 0⟩, ⟨0, 0, 0⟩]

def stroke (p : Packet) : Stroke UInt16 :=
  match p.pressed, p.key with
  | true, .digit d => .letter (UInt16.ofNat (48 + d))
  | true, .enter => .stop
  | _, _ => .idle

end Packet

/-- What one `read` of the device gives; it has no packets when the device fails. -/
structure DeviceRead where
  packets : List Packet
  fits : 3 * packets.length ≤ 64

namespace DeviceRead

def events (r : DeviceRead) : List InputEvent := r.packets.flatMap Packet.events

def strokes (r : DeviceRead) : List (Stroke UInt16) := r.packets.map Packet.stroke

/-- The strokes, and whether they come with the first packet and no space as their scan value. -/
def heeded (r : DeviceRead) : List (Stroke UInt16 × Bool) :=
  match r.packets with
  | [] => []
  | p :: packets => (p.stroke, decide (p.scan ≠ 32)) :: packets.map fun q => (q.stroke, false)

theorem strokes_heeded (r : DeviceRead) : Stroke.strokes r.heeded = r.strokes := by
  rw [heeded, strokes]
  cases r.packets with
  | nil => rfl
  | cons p packets =>
    rw [Stroke.strokes_cons, Stroke.strokes, List.map_map]
    rfl

theorem seen_heeded {r : DeviceRead} {p : Packet} {packets : List Packet}
    (h : r.packets = p :: packets) :
    Stroke.seen r.heeded = if p.scan ≠ 32 then [p.stroke] else [] := by
  have hrest : Stroke.seen (packets.map fun q => (q.stroke, false)) = [] := by
    rw [Stroke.seen, List.map_eq_nil_iff, List.filter_eq_nil_iff]
    rintro _ hx
    obtain ⟨q, -, rfl⟩ := List.mem_map.mp hx
    exact Bool.false_ne_true
  rw [heeded, h]
  by_cases hscan : p.scan = 32
  · simp only [hscan, ne_eq, not_true_eq_false, decide_false, Stroke.seen_false, hrest, if_false]
  · simp only [hscan, ne_eq, not_false_eq_true, decide_true, Stroke.seen_true, hrest, if_true]

end DeviceRead

namespace MagtekReader

/-- The buffer is not initialised. -/
def new (ev : Fin 64 → InputEvent) : MagtekReader := ⟨ev, [], false, []⟩

/-- A turn of the loop: what `read` gives it, and nothing when `read` fails. -/
def readFromDeviceSignalOnly (r : MagtekReader) (events : List InputEvent) : MagtekReader :=
  if r.ended then r
  else if events = [] then { r with ended := true, emitted := r.emitted ++ [r.data] }
  else
    -- the slots behind what was read keep their contents
    let ev := fun i : Fin 64 => events.getD i (r.ev i)
    if (ev 0).value ≠ 32 ∧ (ev 1).value = 1 ∧ (ev 1).type = 1 then
      let c := (ev 1).code + 47
      if c = 75 then { r with ev, data := [], emitted := r.emitted ++ [r.data] }
      else if c = 86 ∨ c = 89 then { r with ev }
      else { r with ev, data := r.data ++ [UInt16.ofNat (if c = 58 then c - 10 else c)] }
    else { r with ev }

def run (r : MagtekReader) (reads : List DeviceRead) : MagtekReader :=
  reads.foldl (fun r read => r.readFromDeviceSignalOnly read.events) r

theorem run_append (r : MagtekReader) (reads reads' : List DeviceRead) :
    r.run (reads ++ reads') = (r.run reads).run reads' := List.foldl_append

structure Took (s : List (Stroke UInt16)) (r r' : MagtekReader) : Prop where
  ended : r'.ended = r.ended
  data : r'.data = Stroke.unfinished s r.data
  emitted : r'.emitted = r.emitted ++ Stroke.segments s r.data

theorem Took.refl (r : MagtekReader) : Took [] r r :=
  ⟨rfl, rfl, (List.append_nil _).symm⟩

theorem Took.trans {s s' : List (Stroke UInt16)} {r r' r'' : MagtekReader} (h : Took s r r')
    (h' : Took s' r' r'') : Took (s ++ s') r r'' where
  ended := h'.ended.trans h.ended
  data := by rw [h'.data, h.data, Stroke.unfinished_append]
  emitted := by rw [h'.emitted, h.emitted, h.data, Stroke.segments_append, List.append_assoc]

theorem took_read {r : MagtekReader} {read : DeviceRead} (hended : r.ended = false)
    (hread : read.packets ≠ []) :
    Took (Stroke.seen read.heeded) r (r.readFromDeviceSignalOnly read.events) := by
  obtain ⟨p, packets, hpackets⟩ := List.exists_cons_of_ne_nil hread
  obtain ⟨scan, key, pressed⟩ := p
  rw [DeviceRead.seen_heeded hpackets, DeviceRead.events, hpackets, List.flatMap_cons,
    Packet.events, List.cons_append, readFromDeviceSignalOnly,
    if_neg (Bool.eq_false_iff.mp hended), if_neg (List.cons_ne_nil _ _)]
  by_cases hscan : scan = 32
  · subst hscan
    exact ⟨rfl, rfl, (List.append_nil _).symm⟩
  · rw [if_pos hscan]
    cases pressed with
    | false =>
      rw [if_neg fun h => (zero_ne_one : (0 : ℤ) ≠ 1) h.2.1]
      exact ⟨rfl, rfl, (List.append_nil _).symm⟩
    | true =>
      rw [if_pos ⟨hscan, rfl, rfl⟩]
      cases key with
      | digit d =>
        obtain ⟨henter, hsemicolon, hshift, hdigit⟩ := Key.code_digit d
        change Took _ r (if (Key.digit d).code + 47 = 75 then _
          else if (Key.digit d).code + 47 = 86 ∨ (Key.digit d).code + 47 = 89 then _ else _)
        rw [if_neg henter, if_neg (not_or.mpr ⟨hsemicolon, hshift⟩)]
        refine ⟨rfl, ?_, (List.append_nil _).symm⟩
        exact congrArg (fun c => r.data ++ [UInt16.ofNat c]) hdigit
      | enter => exact ⟨rfl, rfl, rfl⟩
      | leftShift => exact ⟨rfl, rfl, (List.append_nil _).symm⟩
      | semicolon => exact ⟨rfl, rfl, (List.append_nil _).symm⟩

theorem emitted_failed {r : MagtekReader} (hended : r.ended = false) :
    (r.readFromDeviceSignalOnly []).emitted = r.emitted ++ [r.data] := by
  rw [readFromDeviceSignalOnly, if_neg (Bool.eq_false_iff.mp hended), if_pos rfl]

theorem took_run {r : MagtekReader} {reads : List DeviceRead} (hended : r.ended = false)
    (hreads : ∀ read ∈ reads, read.packets ≠ []) :
    Took (Stroke.seen (reads.flatMap DeviceRead.heeded)) r (r.run reads) := by
  induction reads generalizing r with
  | nil => exact Took.refl r
  | cons read reads ih =>
    obtain ⟨hread, hreads⟩ := List.forall_mem_cons.mp hreads
    have hfirst := took_read hended hread
    rw [List.flatMap_cons, Stroke.seen_append]
    exact hfirst.trans (ih (hfirst.ended.trans hended) hreads)

/-- At any time there is a string for each Enter so far, of the digits before it. -/
def Decodes (ev : Fin 64 → InputEvent) (reads : List DeviceRead) : Prop :=
  ∀ sofar, sofar <+: reads →
    ((new ev).run sofar).emitted = Stroke.segments (sofar.flatMap DeviceRead.strokes) []

theorem strokes_flatMap_heeded (reads : List DeviceRead) :
    Stroke.strokes (reads.flatMap DeviceRead.heeded) = reads.flatMap DeviceRead.strokes := by
  rw [Stroke.strokes, List.map_flatMap]
  exact List.flatMap_congr fun read _ => read.strokes_heeded

theorem Decodes.packets_ne_nil {ev : Fin 64 → InputEvent} {reads : List DeviceRead}
    (h : Decodes ev reads) : ∀ read ∈ reads, read.packets ≠ [] := by
  induction reads using List.reverseRecOn with
  | nil => exact fun _ hread => absurd hread List.not_mem_nil
  | append_singleton reads read ih =>
    have hreads := ih fun sofar hsofar => h sofar (hsofar.trans (List.prefix_append ..))
    have htook := took_run (r := new ev) rfl hreads
    have hbefore := h reads (List.prefix_append ..)
    have hafter := h _ (List.prefix_refl _)
    intro read' hread' hnone
    rcases List.mem_append.mp hread' with hmem | hmem
    · exact hreads read' hmem hnone
    · obtain rfl := List.mem_singleton.mp hmem
      have hstrokes : read'.strokes = [] := by rw [DeviceRead.strokes, hnone, List.map_nil]
      have hevents : read'.events = [] := by rw [DeviceRead.events, hnone, List.flatMap_nil]
      have hfailed := emitted_failed (htook.ended.trans rfl)
      rw [run_append, run, List.foldl_cons, List.foldl_nil, hevents, hfailed, hbefore,
        List.flatMap_append, List.flatMap_singleton, hstrokes, List.append_nil] at hafter
      exact absurd (List.append_right_eq_self.mp hafter) (List.cons_ne_nil _ _)

/-- The batching does no harm exactly when no read fails, every Enter comes first in its read, and
so does every digit that has an Enter behind it, none of them with a space as scan value. -/
theorem decodes_iff (ev : Fin 64 → InputEvent) (reads : List DeviceRead) :
    Decodes ev reads ↔
      (∀ read ∈ reads, read.packets ≠ []) ∧ Stroke.Kept (reads.flatMap DeviceRead.heeded) := by
  have hseen (sofar : List DeviceRead) (hsofar : ∀ read ∈ sofar, read.packets ≠ []) :
      ((new ev).run sofar).emitted = Stroke.segments (sofar.flatMap DeviceRead.strokes) [] ↔
        Stroke.Kept (sofar.flatMap DeviceRead.heeded) := by
    rw [(took_run (r := new ev) rfl hsofar).emitted, ← strokes_flatMap_heeded]
    exact (Stroke.segments_seen_iff _ le_rfl).trans (and_iff_right fun _ => rfl)
  constructor
  · intro h
    have hreads := h.packets_ne_nil
    exact ⟨hreads, (hseen reads hreads).mp (h reads (List.prefix_refl _))⟩
  · rintro ⟨hreads, hkept⟩ sofar ⟨rest, rfl⟩
    rw [List.flatMap_append] at hkept
    exact (hseen sofar fun read hread => hreads read (List.mem_append_left _ hread)).mpr
      hkept.of_append

theorem decodes_batched :
    ¬ Decodes (fun _ => ⟨0, 0, 0⟩)
      [⟨[⟨5, .digit 4, true⟩, ⟨3, .digit 2, true⟩], by decide⟩,
        ⟨[⟨28, .enter, true⟩], by decide⟩] := by
  intro h
  exact absurd (h _ (List.prefix_refl _)) (by decide)

end MagtekReader

end Alko.Alkod
