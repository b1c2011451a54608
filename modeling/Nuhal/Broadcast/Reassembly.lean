import Nuhal.Broadcast.Rounds
import Nuhal.Broadcast.Sending
import Nuhal.Link.Delivery
import Nuhal.Link.Schedule

/-!
# Interleaved reading against plain reading (`nuhal_all/src/protocol.c:395-467`)

Each port has one frame on its way and nothing after it. The polling loop takes the frames a few
bytes at a time, in turn; `protocol_read_block` would take one of them from one port.

* `complete_iff_delivered`: the loop's condition is that some frame is not there yet.
* `Accepts`: what the verification makes of a frame. It is a condition on the frame's bytes and the
  request's command only (`verifyResponses_frames`), and for a plain read it is the same one
  (`readAndValidate_frame`).
* **`broadcast_agrees`**: a broadcast stops after the round that completes the last frame. It
  returns exactly if a plain read and validation of every frame by itself returns, with the same
  bytes and the same streams.
-/

namespace Nuhal.Broadcast

open Nuhal.Lib Nuhal.All Nuhal.Link

/-! ## Delivery -/

/-- Every frame has come in full after some rounds. -/
def Delivered (numPorts : Nat) (raw : Nat → List UInt8) (done : List (Nat → Nat)) : Prop :=
  ∀ p, p < numPorts → total (raw p) done p = (raw p).length

/-- What stands for a frame's length before its first byte, and after it. -/
theorem toNat_announced {raw : List UInt8} (hframe : IsFrame raw) (k : Nat) :
    (announced raw k).toNat = if k = 0 then 1 else raw.length := by
  cases k with
  | zero => rfl
  | succ k =>
    have hhead := hframe.head
    cases raw with
    | nil => cases hhead
    | cons b rest =>
      rw [if_neg (Nat.succ_ne_zero k)]
      show b.toNat = _
      rw [Option.some.inj hhead]
      exact hframe.toNat_length

variable {numPorts : Nat} {raw : Nat → List UInt8} {w w' : World} {done : List (Nat → Nat)}

theorem not_delivered_nil (hpos : 0 < numPorts) (hraw : ∀ p, p < numPorts → IsFrame (raw p)) :
    ¬ Delivered numPorts raw [] := by
  intro h
  have hlong := (hraw 0 hpos).long
  have hzero := h 0 hpos
  rw [total_nil] at hzero
  omega

/-- What has come does not go away. -/
theorem Delivered.append (h : Delivered numPorts raw done) (rest : List (Nat → Nat)) :
    Delivered numPorts raw (done ++ rest) := by
  intro p hp
  have hdone := h p hp
  unfold total at hdone ⊢
  rw [List.map_append, List.sum_append]
  omega

/-- The loop goes on as long as some frame is not there. -/
theorem complete_iff_delivered (hraw : ∀ p, p < numPorts → IsFrame (raw p))
    (hrx : ∀ p, p < numPorts → w.rx p = raw p) :
    Complete (List.range numPorts) w done ↔ Delivered numPorts raw done := by
  have hport : ∀ p, p < numPorts →
      ((announced (w.rx p) (total (w.rx p) done p)).toNat ≤ total (w.rx p) done p ↔
        total (raw p) done p = (raw p).length) := by
    intro p hp
    have hlong := (hraw p hp).long
    have hle := total_le (raw p) done p
    rw [hrx p hp, toNat_announced (hraw p hp)]
    by_cases hzero : total (raw p) done p = 0
    · rw [if_pos hzero]
      omega
    · rw [if_neg hzero]
      omega
  constructor
  · intro h p hp
    exact (hport p hp).mp (h p (List.mem_range.mpr hp))
  · intro h p hp
    exact (hport p (List.mem_range.mp hp)).mpr (h p (List.mem_range.mp hp))

/-- Frames never come near the end of their packets. -/
theorem within_frames (hraw : ∀ p, p < numPorts → IsFrame (raw p))
    (hrx : ∀ p, p < numPorts → w.rx p = raw p) (done : List (Nat → Nat)) :
    Within (List.range numPorts) w done := by
  intro p hp
  have hlt := List.mem_range.mp hp
  refine Nat.le_trans (total_le _ done p) ?_
  rw [hrx p hlt]
  exact (hraw p hlt).short

/-! ## Accepting a frame -/

/-- The frame is a good answer to the request: its checksum is right, it is not an error, and it
repeats the request's command. -/
def Accepts (request : ProtocolPacket) (raw : List UInt8) : Prop :=
  (raw.drop 2).sum = raw.getD 1 0 ∧ raw.getD 2 0 ≠ protocolError ∧
    protocolPacketCommand request = raw.getD 2 0

instance (request : ProtocolPacket) (raw : List UInt8) : Decidable (Accepts request raw) :=
  inferInstanceAs (Decidable (_ ∧ _ ∧ _))

section Accepts

variable {request : ProtocolPacket} {frame : List UInt8} {m m' : Vector UInt8 packetMaxLength}

/-- A packet that holds a frame, byte by byte. -/
theorem getElem?_stored (hstore : store m 0 frame = some m') {i : Nat} (hi : i < frame.length) :
    m'.toList[i]? = frame[i]? := by
  obtain ⟨-, he⟩ := store_eq_some.mp hstore
  rw [he, List.take_zero, List.nil_append, List.getElem?_append_left hi]

/-- A packet that holds a frame is judged by the frame's bytes. -/
theorem stored_frame (hframe : IsFrame frame) (hstore : store m 0 frame = some m') :
    (lengthByte (fresh m')).toNat = frame.length ∧
      (Sound (fresh m') ↔ (frame.drop 2).sum = frame.getD 1 0) ∧
      protocolPacketCommand (fresh m') = frame.getD 2 0 := by
  have hlong := hframe.long
  have h0 := getElem?_stored hstore (show 0 < frame.length by omega)
  have h1 := getElem?_stored hstore (show 1 < frame.length by omega)
  have h2 := getElem?_stored hstore (show 2 < frame.length by omega)
  have hlength : (lengthByte (fresh m')).toNat = frame.length := by
    have hbyte : m'.toList[0]? = some m'[0] := by simp
    have hhead : frame[0]? = some (UInt8.ofNat frame.length) := by
      rw [← List.head?_eq_getElem?]
      exact hframe.head
    rw [hbyte, hhead] at h0
    show m'[0].toNat = _
    rw [Option.some.inj h0]
    exact hframe.toNat_length
  have hchecksum : m'[1] = frame.getD 1 0 := by
    have hbyte : m'.toList[1]? = some m'[1] := by simp
    rw [hbyte] at h1
    rw [List.getD_eq_getElem?_getD, ← h1]
    rfl
  have hwindow : window m' 2 (frame.length - 2) = frame.drop 2 := by
    obtain ⟨-, he⟩ := store_eq_some.mp hstore
    unfold window
    rw [he, List.take_zero, List.nil_append, List.drop_append_of_le_length (by omega)]
    exact List.take_left' List.length_drop
  refine ⟨hlength, ?_, ?_⟩
  · unfold Sound
    rw [hlength]
    show (window m' 2 (frame.length - 2)).sum = m'[1] ↔ _
    rw [hwindow, hchecksum]
  · have hbyte : m'.toList[2]? = some m'[2] := by simp
    rw [hbyte] at h2
    show m'[2] = _
    rw [List.getD_eq_getElem?_getD, ← h2]
    rfl

/-- What `protocol_validate_response` makes of a packet that holds a frame. -/
theorem validate_frame (request : ProtocolPacket) (hframe : IsFrame frame)
    (hstore : store m 0 frame = some m') (w : World) : ∃ msg,
    protocolValidateResponse request (opened (fresh m')) w =
      if frame.getD 2 0 ≠ protocolError ∧ protocolPacketCommand request = frame.getD 2 0 then
        (.ok (), w)
      else (.error (.error msg), w) := by
  have hcommand : protocolPacketCommand (opened (fresh m')) = frame.getD 2 0 :=
    (stored_frame hframe hstore).2.2
  rw [protocolValidateResponse_eq, hcommand]
  by_cases herr : protocolError = frame.getD 2 0
  · refine ⟨"Received an ERROR from downstream.", ?_⟩
    rw [if_pos herr, if_neg (fun h => h.1 herr.symm)]
  · refine ⟨"Request/response mismatch.", ?_⟩
    rw [if_neg herr]
    by_cases hsame : protocolPacketCommand request = frame.getD 2 0
    · rw [if_neg (not_not_intro hsame), if_pos ⟨fun h => herr h.symm, hsame⟩]
    · rw [if_pos hsame, if_neg (fun h => hsame h.2)]

/-- **Verifying and validating** a packet that holds a frame, before going on with `f`. -/
theorem verify_frame {α : Type} (request : ProtocolPacket) (hframe : IsFrame frame)
    (hstore : store m 0 frame = some m') (f : ProtocolPacket → OnPlatform α) (w : World) : ∃ msg,
    (do
      let packet ← protocolVerifyChecksum (fresh m') (UInt8.ofNat (frame.length - 2))
      protocolValidateResponse request packet
      f packet) w =
      if Accepts request frame then f (opened (fresh m')) (looked w 2 (frame.length - 2))
      else (.error (.error msg), looked w 2 (frame.length - 2)) := by
  obtain ⟨hlength, hsound, -⟩ := stored_frame hframe hstore
  have hlong := hframe.long
  by_cases hs : Sound (fresh m')
  · have hverify := protocolVerifyChecksum_ok (by omega) hs w
    rw [hlength] at hverify
    obtain ⟨msg, hvalidate⟩ :=
      validate_frame request hframe hstore (looked w 2 (frame.length - 2))
    refine ⟨msg, ?_⟩
    by_cases hv : frame.getD 2 0 ≠ protocolError ∧ protocolPacketCommand request = frame.getD 2 0
    · have haccepts : Accepts request frame := ⟨hsound.mp hs, hv⟩
      rw [if_pos hv] at hvalidate
      rw [if_pos haccepts]
      exact (Run.bind_of_ok hverify _).trans (Run.bind_of_ok hvalidate _)
    · have hrejects : ¬ Accepts request frame := fun h => hv h.2
      rw [if_neg hv] at hvalidate
      rw [if_neg hrejects]
      exact (Run.bind_of_ok hverify _).trans (Run.bind_of_error hvalidate _)
  · have hverify := protocolVerifyChecksum_mismatch (UInt8.ofNat (frame.length - 2))
      (show 2 ≤ (lengthByte (fresh m')).toNat by omega) hs w
    rw [hlength] at hverify
    refine ⟨"invalid checksum", ?_⟩
    rw [if_neg (fun h => hs (hsound.mpr h.1))]
    exact Run.bind_of_error hverify _

end Accepts

/-- The length byte of a frame is at least 3, and two less is what is verified. -/
theorem verifyResponses_cons (packets : Packets) {length : Nat → UInt8} (q : Nat)
    (ports : List Nat) (inPacket : Packets) (hframe : IsFrame (raw q))
    (hlength : length q = UInt8.ofNat (raw q).length) (w : World) :
    verifyResponses packets length (q :: ports) inPacket w = (do
      let packet ← protocolVerifyChecksum (inPacket q) (UInt8.ofNat ((raw q).length - 2))
      protocolValidateResponse (packets q) packet
      verifyResponses packets length ports (Function.update inPacket q packet)) w := by
  have hlong := hframe.long
  have hless : UInt8.ofNat (raw q).length - 2 = UInt8.ofNat ((raw q).length - 2) := by
    rw [UInt8.ofNat_sub (by omega)]
    rfl
  rw [verifyResponses, hlength, hframe.toNat_length, hless,
    if_neg (show ¬ (raw q).length < 2 by omega)]

/-- **The verification of a broadcast** accepts when it accepts every frame. -/
theorem verifyResponses_frames (packets : Packets) {response : Packets} {length : Nat → UInt8}
    {m : Nat → Vector UInt8 packetMaxLength} (ports : List Nat) (hnodup : ports.Nodup)
    {inPacket : Packets} (w : World)
    (h : ∀ p ∈ ports, IsFrame (raw p) ∧ inPacket p = fresh (m p) ∧
      store (response p)._data 0 (raw p) = some (m p) ∧ length p = UInt8.ofNat (raw p).length) :
    ∃ w' msg, w'.reads = w.reads ∧ w'.tx = w.tx ∧
      verifyResponses packets length ports inPacket w =
        if ∀ p ∈ ports, Accepts (packets p) (raw p) then
          (.ok (fun p => if p ∈ ports then opened (fresh (m p)) else inPacket p), w')
        else (.error (.error msg), w') := by
  induction ports generalizing inPacket w with
  | nil =>
    refine ⟨w, "", rfl, rfl, ?_⟩
    rw [if_pos (fun p hp => absurd hp List.not_mem_nil)]
    simp [verifyResponses]
  | cons q ports ih =>
    obtain ⟨hq, hnodup'⟩ := List.nodup_cons.mp hnodup
    obtain ⟨hframe, hpacket, hstore, hlength⟩ := h q List.mem_cons_self
    have hne : ∀ p ∈ ports, p ≠ q := by
      intro p hp hpq
      exact hq (hpq ▸ hp)
    have hothers : ∀ p ∈ ports, IsFrame (raw p) ∧
        Function.update inPacket q (opened (fresh (m q))) p = fresh (m p) ∧
        store (response p)._data 0 (raw p) = some (m p) ∧
        length p = UInt8.ofNat (raw p).length := by
      intro p hp
      rw [Function.update_of_ne (hne p hp)]
      exact h p (List.mem_cons_of_mem q hp)
    obtain ⟨w', msg', hreads, htx, hrest⟩ :=
      ih hnodup' (looked w 2 ((raw q).length - 2)) hothers
    obtain ⟨msg, hfirst⟩ := verify_frame (packets q) hframe hstore
      (fun packet => verifyResponses packets length ports (Function.update inPacket q packet)) w
    rw [verifyResponses_cons packets q ports inPacket hframe hlength, hpacket, hfirst]
    simp only [List.forall_mem_cons]
    by_cases hq' : Accepts (packets q) (raw q)
    · rw [if_pos hq', hrest]
      refine ⟨w', msg', hreads, htx, ?_⟩
      by_cases hall : ∀ p ∈ ports, Accepts (packets p) (raw p)
      · rw [if_pos hall, if_pos ⟨hq', hall⟩]
        congr 2
        funext p
        by_cases hp : p = q
        · subst hp
          simp [hq]
        · simp [hp]
      · rw [if_neg hall, if_neg (fun h => hall h.2)]
    · refine ⟨looked w 2 ((raw q).length - 2), msg, rfl, rfl, ?_⟩
      rw [if_neg hq', if_neg (fun h => hq' h.1)]

/-! ## The plain reader -/

/-- `protocol_read_block`, and `protocol_validate_response` on what it read. -/
def readAndValidate (port : Nat) (request out : ProtocolPacket) (timeout : UInt32) :
    OnPlatform ProtocolPacket := do
  let packet ← protocolReadBlock port out timeout
  protocolValidateResponse request packet
  return packet

/-- A plain read: its arguments and the world it starts in. -/
structure PlainRead where
  port : Nat
  out : ProtocolPacket
  timeout : UInt32
  world : World

/-- How the read ends, with its validation. -/
def PlainRead.run (read : PlainRead) (request : ProtocolPacket) :
    Except Halt ProtocolPacket × World :=
  readAndValidate read.port request read.out read.timeout read.world

/-- The read has one frame before it, and it comes to an end without being disturbed by a deadline
or a driver. -/
structure PlainRead.Over (read : PlainRead) (request : ProtocolPacket) (raw : List UInt8) :
    Prop where
  rx : read.world.rx read.port = raw
  ended : (read.run request).1 ≠ .error .pending
  undisturbed : Undisturbed (read.run request).2

theorem PlainRead.Over.of_run {read : PlainRead} {request : ProtocolPacket} {raw : List UInt8}
    {r : Except Halt ProtocolPacket} {w' : World} (hrx : read.world.rx read.port = raw)
    (hrun : read.run request = (r, w')) (hended : r ≠ .error .pending) (hu : Undisturbed w') :
    read.Over request raw := by
  refine ⟨hrx, ?_, ?_⟩
  · rw [hrun]
    exact hended
  · rw [hrun]
    exact hu

theorem exists_of_isOk {ε α : Type} {r : Except ε α} (h : r.isOk = true) : ∃ x, r = .ok x := by
  cases r with
  | error e => cases h
  | ok x => exact ⟨x, rfl⟩

/-- **A plain read** of a frame accepts it on the same condition as a broadcast. -/
theorem readAndValidate_frame {read : PlainRead} {request : ProtocolPacket} {raw : List UInt8}
    (hframe : IsFrame raw) (h : read.Over request raw) :
    ∃ m msg, store read.out._data 0 raw = some m ∧ (read.run request).1 =
      if Accepts request raw then .ok (opened (fresh m)) else .error (.error msg) := by
  obtain ⟨m, hm⟩ := exists_store read.out._data (show 0 + raw.length ≤ packetMaxLength by
    rw [Nat.zero_add]
    exact hframe.short)
  have hrx : read.world.rx read.port = raw ++ [] := by
    rw [h.rx, List.append_nil]
  rcases hread : protocolReadBlockError read.port read.out read.timeout true read.world with
    ⟨r, w'⟩
  have hended := h.ended
  have hu := h.undisturbed
  cases r with
  | error e =>
    have hrun : read.run request = (.error e, w') :=
      Run.bind_of_error (Run.bind_of_error hread _) _
    rw [hrun] at hended hu ⊢
    cases readBlock_frame hframe hrx hread hu.expired with
    | waiting _ _ => exact absurd rfl hended
    | failed hfailed => exact absurd hfailed hu.failed
    | mismatch hm' hsound =>
      obtain ⟨-, hsum, -⟩ := stored_frame hframe hm'
      refine ⟨m, "invalid checksum", hm, ?_⟩
      rw [if_neg (fun haccepts => hsound (hsum.mpr haccepts.1))]
  | ok result =>
    obtain ⟨success, packet⟩ := result
    have hplain : protocolReadBlock read.port read.out read.timeout read.world =
        (.ok packet, w') := Run.bind_of_ok hread _
    have hrun : read.run request =
        (do
          protocolValidateResponse request packet
          return packet : OnPlatform ProtocolPacket) w' := Run.bind_of_ok hplain _
    have hvalidate := protocolValidateResponse_eq request packet w'
    -- the validation leaves the world as it is
    have hworld : (read.run request).2 = w' := by
      rw [hrun, Run.bind_apply, hvalidate]
      generalize (if protocolError = protocolPacketCommand packet then _ else _) = rv
      cases rv <;> rfl
    rw [hworld] at hu
    cases readBlock_frame hframe hrx hread hu.expired with
    | packet hm' hsound _ _ =>
      obtain rfl : _ = m := Option.some.inj (hm'.symm.trans hm)
      obtain ⟨-, hsum, -⟩ := stored_frame hframe hm'
      obtain ⟨msg, hvalid⟩ := validate_frame request hframe hm' w'
      refine ⟨_, msg, hm, ?_⟩
      rw [hrun]
      by_cases hv : raw.getD 2 0 ≠ protocolError ∧ protocolPacketCommand request = raw.getD 2 0
      · rw [if_pos hv] at hvalid
        rw [if_pos (show Accepts request raw from ⟨hsum.mp hsound, hv⟩)]
        exact congrArg Prod.fst (Run.bind_of_ok hvalid _)
      · rw [if_neg hv] at hvalid
        rw [if_neg (show ¬ Accepts request raw from fun haccepts => hv haccepts.2)]
        exact congrArg Prod.fst (Run.bind_of_error hvalid _)

/-- A plain read over a frame that is all there. -/
def readAtOnce (raw : List UInt8) : PlainRead :=
  ⟨0, zeroPacket, 0, scheduled raw [.bytes 2, .bytes (raw.length - 2)] []⟩

/-- Such a read takes the header, then the body. -/
theorem readAtOnce_body {raw : List UInt8} (hframe : IsFrame raw) :
    ∃ m m' w₁ w₂, protocolReadBlockError 0 zeroPacket 0 true (readAtOnce raw).world =
        readBody 0 m 0 true w₁ ∧
      uartReadBlockError 0 m 2 (bodyLength m).toNat (bodyTimeout (bodyLength m) 0) .none true w₁ =
        (.ok (raw.length - 2, m'), w₂) ∧
      m'[0].toNat = raw.length ∧ Undisturbed w₂ := by
  have hlong := hframe.long
  have hshort : raw.length ≤ 255 := hframe.short
  have htwo : (raw.take 2).length = 2 := by
    rw [List.length_take]
    omega
  obtain ⟨m, hm⟩ := exists_store zeroPacket._data (show 0 + (raw.take 2).length ≤ 255 by omega)
  have hclock : ∀ i, (readAtOnce raw).world.clock i = 0 := fun i =>
    @lateAt_not_mem [] i List.not_mem_nil
  obtain ⟨w₁, hheader, hrx, hreads, hclock₁, hwait, hlog⟩ : ∃ w₁,
      uartReadBlockError 0 zeroPacket._data 0 2 (headerTimeout 0) .none false
        (readAtOnce raw).world = (.ok (2, m), w₁) ∧
      w₁.rx 0 = raw.drop 2 ∧ w₁.reads = [.bytes (raw.length - 2)] ∧ (∀ i, w₁.clock i = 0) ∧
      (∀ i, w₁.wait i = .ok true) ∧ w₁.log = [.ask 2, .store 0 2] := by
    refine ⟨_, read_whole (by decide) rfl (inTime_before (hclock _) (hclock _)) rfl (Nat.le_refl 2)
      ?_ hm, ?_, rfl, hclock, fun _ => rfl, rfl⟩
    · show 2 ≤ raw.length
      omega
    · show Function.update (readAtOnce raw).world.rx 0 (raw.drop 2) 0 = raw.drop 2
      rw [Function.update_self]
  obtain ⟨-, hlength⟩ := lengthByte_frame hframe htwo (List.take_prefix 2 raw) hm
  have hwhole : store m 2 (raw.drop 2) = store zeroPacket._data 0 raw := by
    have hboth : store m (0 + (raw.take 2).length) (raw.drop 2) =
        store zeroPacket._data 0 (raw.take 2 ++ raw.drop 2) := store_store hm
    rwa [htwo, List.take_append_drop] at hboth
  have hdrop : (raw.drop 2).length = raw.length - 2 := List.length_drop
  obtain ⟨m', hm'⟩ := exists_store m (show 2 + (raw.drop 2).length ≤ 255 by omega)
  obtain ⟨w₂, hbody, hlog₂⟩ : ∃ w₂,
      uartReadBlockError 0 m 2 (raw.length - 2) (bodyTimeout (bodyLength m) 0) .none true w₁ =
        (.ok (raw.length - 2, m'), w₂) ∧
      w₂.log = w₁.log ++ [.ask (raw.length - 2)] ++ [.store 2 (raw.length - 2)] := by
    refine ⟨_, read_whole (by omega) (hwait _) (inTime_before (hclock₁ _) (hclock₁ _)) hreads
      (Nat.le_refl _) ?_ ?_, rfl⟩
    · rw [hrx, hdrop]
    · rw [hrx, ← hdrop, List.take_length, hm']
  refine ⟨m, m', w₁, w₂, protocolReadBlockError_of_header hheader, by rw [hlength]; exact hbody,
    (stored_frame hframe (hwhole.symm.trans hm')).1, ?_, ?_⟩
  · simp [hlog₂, hlog]
  · simp [hlog₂, hlog]

theorem undisturbed_looked {w : World} (h : Undisturbed w) (i k : Nat) :
    Undisturbed (looked w i k) := by
  constructor
  · intro he
    rcases List.mem_append.mp he with he | he
    · exact h.expired he
    · obtain ⟨j, hj, -⟩ := mem_loads he
      cases hj
  · intro he
    rcases List.mem_append.mp he with he | he
    · exact h.failed he
    · obtain ⟨j, hj, -⟩ := mem_loads he
      cases hj

/-- **Every frame can be read by itself.** -/
theorem readAtOnce_over {raw : List UInt8} (request : ProtocolPacket) (hframe : IsFrame raw) :
    (readAtOnce raw).Over request raw := by
  obtain ⟨m, m', w₁, w₂, hstart, hbody, hlength, hu⟩ := readAtOnce_body hframe
  have hlong := hframe.long
  have hu' := undisturbed_looked hu 2 (m'[0].toNat - 2)
  by_cases hsound : Sound (fresh m')
  · have hread := hstart.trans (readBody_sound hbody (by omega) (by omega) hsound)
    have hplain : protocolReadBlock 0 zeroPacket 0 (readAtOnce raw).world =
        (.ok (opened (fresh m')), looked w₂ 2 (m'[0].toNat - 2)) := Run.bind_of_ok hread _
    rcases hvalidate : protocolValidateResponse request (opened (fresh m'))
      (looked w₂ 2 (m'[0].toNat - 2)) with ⟨r, w'⟩
    have hcases := hvalidate.symm.trans (protocolValidateResponse_eq request _ _)
    obtain ⟨hr, rfl⟩ := Prod.mk.inj hcases
    cases r with
    | ok _ =>
      have hrun : (readAtOnce raw).run request = _ :=
        (Run.bind_of_ok hplain _).trans (Run.bind_of_ok hvalidate _)
      exact .of_run rfl hrun nofun hu'
    | error e =>
      have hrun : (readAtOnce raw).run request = _ :=
        (Run.bind_of_ok hplain _).trans (Run.bind_of_error hvalidate _)
      refine .of_run rfl hrun ?_ hu'
      intro h
      cases h
      split at hr
      · cases hr
      · split at hr
        · cases hr
        · cases hr
  · have hread := hstart.trans (readBody_mismatch hbody (by omega) (by omega) hsound)
    have hrun : (readAtOnce raw).run request = _ :=
      Run.bind_of_error (Run.bind_of_error hread _) _
    exact .of_run rfl hrun nofun hu'

/-! ## The two readers -/

theorem stampAfter_kept {w w₁ : World} (h : Kept w w₁) (r : Nat) :
    stampAfter w₁ r = stampAfter w r := by
  induction r with
  | zero =>
    unfold stampAfter
    rw [h.clock, h.ticks]
  | succ r ih =>
    unfold stampAfter
    rw [ih, h.period, h.clock, h.ticks]

theorem late_kept {w w₁ : World} (h : Kept w w₁) (timeout : UInt32) (r : Nat) :
    Late w₁ timeout r ↔ Late w timeout r := by
  unfold Late
  rw [stampAfter_kept h]

section Collect

variable {pkt response : Packets} {btype : BroadcastType} {timeout : UInt32}
  {rest : List (Nat → Nat)} {c : Nat → Nat}

/-- Rounds in time that leave some frame incomplete leave the loop going. -/
theorem goingOn_frames (hraw : ∀ p, p < numPorts → IsFrame (raw p))
    (hrx : ∀ p, p < numPorts → w.rx p = raw p)
    (htime : ∀ r, r < done.length → ¬ Late w timeout (r + 1))
    (hshort : ∀ pre, pre <+: done → pre ≠ [] → ¬ Delivered numPorts raw pre) :
    GoingOn (List.range numPorts) w timeout done := by
  intro pre hpre hne
  refine ⟨within_frames hraw hrx pre, ?_, ?_⟩
  · have hlength := hpre.length_le
    have hpos := List.length_pos_of_ne_nil hne
    have hlate := htime (pre.length - 1) (by omega)
    rwa [Nat.sub_add_cancel hpos] at hlate
  · rw [complete_iff_delivered hraw hrx]
    exact hshort pre hpre hne

/-- What the loop has left in the packets when all frames have come is the frames. -/
theorem polled_frames {polled : List (Nat → Nat)} {st : Receiving} {w₁ : World}
    (hraw : ∀ p, p < numPorts → IsFrame (raw p)) (hrx : ∀ p, p < numPorts → w.rx p = raw p)
    (hdelivered : Delivered numPorts raw polled)
    (h : Polled (List.range numPorts) response w polled rest st w₁) :
    ∀ p ∈ List.range numPorts, IsFrame (raw p) ∧
      st.inPacket p = fresh (st.inPacket p)._data ∧
      store (response p)._data 0 (raw p) = some (st.inPacket p)._data ∧
      st.length p = UInt8.ofNat (raw p).length := by
  intro p hp
  have hlt := List.mem_range.mp hp
  have hframe := hraw p hlt
  have hall := h.assembled p hp
  have htotal : total (w.rx p) polled p = (raw p).length := by
    rw [hrx p hlt]
    exact hdelivered p hlt
  have hlong := hframe.long
  refine ⟨hframe, hall.initial, ?_, ?_⟩
  · have hstored : store (response p)._data 0 ((w.rx p).take (total (w.rx p) polled p)) =
        some (st.inPacket p)._data := hall.stored
    rwa [htotal, hrx p hlt, List.take_length] at hstored
  · rw [h.length p hp, htotal, hrx p hlt]
    apply UInt8.toNat_inj.mp
    rw [toNat_announced hframe, if_neg (by omega)]
    exact hframe.toNat_length.symm

/-- The second half of a broadcast takes up the frames `raw`, leaves the answers of the rounds
`rest`, and returns if it accepts each frame. -/
def CollectsFrames (numPorts : Nat) (raw : Nat → List UInt8) (pkt response : Packets)
    (btype : BroadcastType) (timeout : UInt32) (rest : List (Nat → Nat)) (w : World) : Prop :=
  ∃ (response' : Packets) (m : Nat → Vector UInt8 packetMaxLength) (w' : World) (msg : String),
    w'.reads = answers (List.range numPorts) rest ∧ w'.tx = w.tx ∧
    (∀ p, p < numPorts → store (response p)._data 0 (raw p) = some (m p) ∧
      response' p = opened (fresh (m p))) ∧
    collect numPorts pkt response btype timeout w =
      if ∀ p ∈ List.range numPorts, Accepts (outpack btype pkt p) (raw p) then
        (.ok (pkt, response'), w')
      else (.error (.error msg), w')

/-- The second half of a broadcast when the round `c` completes the last frame. -/
theorem collect_frames (hpos : 0 < numPorts) (hraw : ∀ p, p < numPorts → IsFrame (raw p))
    (hrx : ∀ p, p < numPorts → w.rx p = raw p)
    (hreads : w.reads = answers (List.range numPorts) (done ++ c :: rest))
    (hgoing : GoingOn (List.range numPorts) w timeout done)
    (htime : ¬ Late w timeout (done.length + 1))
    (hdelivered : Delivered numPorts raw (done ++ [c])) :
    CollectsFrames numPorts raw pkt response btype timeout rest w := by
  have hlength : 0 < (List.range numPorts).length := by
    rw [List.length_range]
    exact hpos
  obtain ⟨st, w₁, hpolled, -, hcomplete⟩ := receive_ends response hlength
    List.nodup_range hreads hgoing (within_frames hraw hrx _)
  have hrun := hcomplete htime ((complete_iff_delivered hraw hrx).mpr hdelivered)
  have hports := polled_frames hraw hrx hdelivered hpolled
  obtain ⟨w', msg, hreads', htx, hverify⟩ :=
    verifyResponses_frames (outpack btype pkt) (List.range numPorts)
      List.nodup_range w₁ hports
  refine ⟨fun p => if p ∈ List.range numPorts then opened (fresh (st.inPacket p)._data)
    else st.inPacket p, fun p => (st.inPacket p)._data, w', msg, hreads'.trans hpolled.reads,
    htx.trans hpolled.tx, ?_, ?_⟩
  · intro p hp
    exact ⟨(hports p (List.mem_range.mpr hp)).2.2.1, if_pos (List.mem_range.mpr hp)⟩
  · have hcollect : collect numPorts pkt response btype timeout w = (do
        let response ← verifyResponses (outpack btype pkt) st.length (List.range numPorts)
          st.inPacket
        return (pkt, response) : OnPlatform (Packets × Packets)) w₁ := Run.bind_of_ok hrun _
    rw [hcollect]
    by_cases hall : ∀ p ∈ List.range numPorts, Accepts (outpack btype pkt p) (raw p)
    · rw [if_pos hall] at hverify ⊢
      exact Run.bind_of_ok hverify _
    · rw [if_neg hall] at hverify ⊢
      exact Run.bind_of_error hverify _

end Collect

/-- The command is not part of the header. -/
theorem accepts_withHeader (request : ProtocolPacket) (raw : List UInt8) :
    Accepts (withHeader request) raw ↔ Accepts request raw := by
  unfold Accepts withHeader
  rw [command_headed]

/-- A packet that holds a frame begins with it. -/
theorem take_stored {m m' : Vector UInt8 packetMaxLength} {raw : List UInt8}
    (h : store m 0 raw = some m') : m'.toList.take raw.length = raw := by
  obtain ⟨-, he⟩ := store_eq_some.mp h
  rw [he, List.take_zero, List.nil_append, List.take_left]

/-- Two packets that hold one frame have the same stream. -/
theorem stream_stored {m₁ m₂ m₁' m₂' : Vector UInt8 packetMaxLength} {raw : List UInt8}
    (hframe : IsFrame raw) (h₁ : store m₁ 0 raw = some m₁') (h₂ : store m₂ 0 raw = some m₂') :
    (opened (fresh m₁')).stream = (opened (fresh m₂')).stream := by
  unfold opened
  rw [(stored_frame hframe h₁).1, (stored_frame hframe h₂).1]

section Agreement

variable {pkt response : Packets} {btype : BroadcastType} {timeout : UInt32}
  {rounds rest : List (Nat → Nat)} {c : Nat → Nat} {a : Nat → Nat → Nat} {writes : List Answer}

/-- No beginning of a list of rounds has delivered the frames if no nonempty one has. -/
theorem prefix_not_delivered (hpos : 0 < numPorts) (hraw : ∀ p, p < numPorts → IsFrame (raw p))
    (h : ∀ pre, pre <+: done → pre ≠ [] → ¬ Delivered numPorts raw pre) {pre : List (Nat → Nat)}
    (hpre : pre <+: done) : ¬ Delivered numPorts raw pre := by
  by_cases hne : pre = []
  · rw [hne]
    exact not_delivered_nil hpos hraw
  · exact h pre hpre hne

/-- The commands of the packets that a broadcast sends are those it was given. -/
theorem accepts_prepared (numPorts : Nat) (pkt : Packets) (btype : BroadcastType)
    (raw : Nat → List UInt8) :
    (∀ p ∈ List.range numPorts, Accepts (outpack btype (prepared btype numPorts pkt) p) (raw p)) ↔
      ∀ p, p < numPorts → Accepts (outpack btype pkt p) (raw p) := by
  constructor
  · intro h p hp
    have haccepts := h p (List.mem_range.mpr hp)
    rwa [outpack_prepared pkt hp, accepts_withHeader] at haccepts
  · intro h p hp
    have hlt := List.mem_range.mp hp
    rw [outpack_prepared pkt hlt, accepts_withHeader]
    exact h p hlt

/-- A broadcast whose frames do not all come waits. -/
theorem collect_waiting (hpos : 0 < numPorts) (hraw : ∀ p, p < numPorts → IsFrame (raw p))
    (hrx : ∀ p, p < numPorts → w.rx p = raw p)
    (hreads : w.reads = answers (List.range numPorts) rounds)
    (htime : ∀ r, r < rounds.length → ¬ Delivered numPorts raw (rounds.take r) →
      ¬ Late w timeout (r + 1))
    (hnever : ∀ pre, pre <+: rounds → pre ≠ [] → ¬ Delivered numPorts raw pre) :
    (collect numPorts pkt response btype timeout w).1 = .error .pending := by
  have hlength : 0 < (List.range numPorts).length := by
    rw [List.length_range]
    exact hpos
  have hgoing : GoingOn (List.range numPorts) w timeout rounds := by
    refine goingOn_frames hraw hrx ?_ hnever
    intro r hr
    exact htime r hr (prefix_not_delivered hpos hraw hnever (List.take_prefix r rounds))
  obtain ⟨w', hreceive, -⟩ :=
    receive_waiting response hlength List.nodup_range hreads hgoing
  exact congrArg Prod.fst (Run.bind_of_error hreceive _)

/-- A broadcast goes through the rounds up to the first that completes the last frame. -/
theorem collect_completes (pkt response : Packets) (btype : BroadcastType) (hpos : 0 < numPorts)
    (hraw : ∀ p, p < numPorts → IsFrame (raw p))
    (hrx : ∀ p, p < numPorts → w.rx p = raw p)
    (hreads : w.reads = answers (List.range numPorts) (done ++ c :: rest))
    (htime : ∀ r, r < (done ++ c :: rest).length →
      ¬ Delivered numPorts raw ((done ++ c :: rest).take r) → ¬ Late w timeout (r + 1))
    (hbefore : ∀ pre, pre <+: done → pre ≠ [] → ¬ Delivered numPorts raw pre)
    (hdelivered : Delivered numPorts raw (done ++ [c])) :
    CollectsFrames numPorts raw pkt response btype timeout rest w := by
  have hlate : ∀ r, r ≤ done.length → ¬ Late w timeout (r + 1) := by
    intro r hr
    refine htime r (by rw [List.length_append, List.length_cons]; omega) ?_
    rw [List.take_append_of_le_length hr]
    exact prefix_not_delivered hpos hraw hbefore (List.take_prefix r done)
  have hgoing : GoingOn (List.range numPorts) w timeout done :=
    goingOn_frames hraw hrx (fun r hr => hlate r (Nat.le_of_lt hr)) hbefore
  exact collect_frames hpos hraw hrx hreads hgoing (hlate done.length (Nat.le_refl _)) hdelivered

/-- A plain read returns exactly if it accepts its frame. -/
theorem plain_returns {read : PlainRead} {request : ProtocolPacket} {raw : List UInt8}
    (hraw : IsFrame raw) (hread : read.Over request raw) :
    (∃ packet, (read.run request).1 = .ok packet) ↔ Accepts request raw := by
  obtain ⟨m, msg, -, hrun⟩ := readAndValidate_frame hraw hread
  rw [hrun]
  by_cases h : Accepts request raw
  · rw [if_pos h]
    exact ⟨fun _ => h, fun _ => ⟨_, rfl⟩⟩
  · rw [if_neg h]
    constructor
    · rintro ⟨packet, hok⟩
      cases hok
    · intro h'
      exact absurd h' h

/-- A call that accepts the frames on their condition agrees with plain reads of them. -/
theorem plain_agrees (pkt' : Packets) (msg : String)
    {call : Except Halt (Packets × Packets) × World} {response' : Packets}
    {m : Nat → Vector UInt8 packetMaxLength} {request : Packets}
    (hraw : ∀ p, p < numPorts → IsFrame (raw p))
    (hstored : ∀ p, p < numPorts → store (response p)._data 0 (raw p) = some (m p) ∧
      response' p = opened (fresh (m p)))
    (hcall : call.1 = if ∀ p, p < numPorts → Accepts (request p) (raw p) then
      .ok (pkt', response') else .error (.error msg))
    (plain : Nat → PlainRead) (hplain : ∀ p, p < numPorts → (plain p).Over (request p) (raw p)) :
    ((∃ packets, call.1 = .ok packets) ↔
      ∀ p, p < numPorts → ∃ packet, ((plain p).run (request p)).1 = .ok packet) ∧
    ∀ packets, call.1 = .ok packets → ∀ p, p < numPorts → ∀ packet,
      ((plain p).run (request p)).1 = .ok packet →
      (packets.2 p)._data.toList.take (raw p).length = raw p ∧
      packet._data.toList.take (raw p).length = raw p ∧
      (packets.2 p).stream = packet.stream := by
  by_cases hall : ∀ p, p < numPorts → Accepts (request p) (raw p)
  · rw [if_pos hall] at hcall
    constructor
    · constructor
      · intro _ p hp
        exact (plain_returns (hraw p hp) (hplain p hp)).mpr (hall p hp)
      · intro _
        exact ⟨_, hcall⟩
    · intro packets hok p hp packet hpacket
      obtain rfl : (pkt', response') = packets := Except.ok.inj (hcall.symm.trans hok)
      obtain ⟨hm, hresponse⟩ := hstored p hp
      obtain ⟨mp, msgp, hmp, hrun⟩ := readAndValidate_frame (hraw p hp) (hplain p hp)
      rw [if_pos (hall p hp), hpacket] at hrun
      obtain rfl : packet = opened (fresh mp) := Except.ok.inj hrun
      rw [show (pkt', response').2 p = opened (fresh (m p)) from hresponse]
      exact ⟨take_stored hm, take_stored hmp, stream_stored (hraw p hp) hm hmp⟩
  · rw [if_neg hall] at hcall
    constructor
    · constructor
      · rintro ⟨packets, hok⟩
        cases hcall.symm.trans hok
      · intro h
        exact absurd (fun p hp => (plain_returns (hraw p hp) (hplain p hp)).mp (h p hp)) hall
    · intro packets hok
      cases hcall.symm.trans hok

end Agreement

/-- **Interleaved reading agrees with plain reading.** Every port has one frame on its way and
nothing after it, and the rounds that begin before the last frame is there end in time. As long as a
frame is incomplete the call waits; it leaves its loop right after the first round that completes
them all. It returns exactly if plain reads of the frames, each by itself and of which there are
some, all return, and then it has read the same bytes and left the same streams. -/
theorem broadcast_agrees (numPorts : Nat) (hpos : 0 < numPorts)
    (hmax : numPorts ≤ maxBroadcastPorts)
    (pkt response : Packets) (btype : BroadcastType) (timeout : UInt32)
    (hsend : Sendable btype numPorts pkt) (hshort : (pkt 0).stream.size ≤ 251)
    (raw : Nat → List UInt8) (hraw : ∀ p, p < numPorts → IsFrame (raw p))
    (rounds : List (Nat → Nat)) (a : Nat → Nat → Nat) (writes : List Answer) (w : World)
    (hrx : ∀ p, p < numPorts → w.rx p = raw p)
    (hreads : w.reads = answers (List.range numPorts) rounds)
    (hwrites : w.writes =
      offers a (List.range numPorts) (List.range ((pkt 0).stream.size + 2)) ++ writes)
    (htime : ∀ r, r < rounds.length → ¬ Delivered numPorts raw (rounds.take r) →
      ¬ Late w timeout (r + 1)) :
    let call := protocolBroadcastTimeout numPorts pkt response btype timeout w
    (¬ Delivered numPorts raw rounds → call.1 = .error .pending) ∧
    (Delivered numPorts raw rounds →
      (∃ done c rest, rounds = done ++ c :: rest ∧ ¬ Delivered numPorts raw done ∧
        Delivered numPorts raw (done ++ [c]) ∧ call.2.reads = answers (List.range numPorts) rest) ∧
      (∀ p, p < numPorts → ∃ read : PlainRead, read.Over (outpack btype pkt p) (raw p)) ∧
      ∀ plain : Nat → PlainRead,
        (∀ p, p < numPorts → (plain p).Over (outpack btype pkt p) (raw p)) →
        ((∃ packets, call.1 = .ok packets) ↔
          ∀ p, p < numPorts → ∃ packet, ((plain p).run (outpack btype pkt p)).1 = .ok packet) ∧
        ∀ packets, call.1 = .ok packets → ∀ p, p < numPorts → ∀ packet,
          ((plain p).run (outpack btype pkt p)).1 = .ok packet →
          (packets.2 p)._data.toList.take (raw p).length = raw p ∧
          packet._data.toList.take (raw p).length = raw p ∧
          (packets.2 p).stream = packet.stream) := by
  intro call
  obtain ⟨w₁, hrun, hkept, -, -⟩ :=
    broadcast_sends hpos hmax hsend hshort hwrites response timeout
  have hcall : call = _ := hrun
  have hrx₁ : ∀ p, p < numPorts → w₁.rx p = raw p := by
    intro p hp
    rw [hkept.rx, hrx p hp]
  have hreads₁ : w₁.reads = answers (List.range numPorts) rounds := hkept.reads.trans hreads
  have htime₁ : ∀ r, r < rounds.length → ¬ Delivered numPorts raw (rounds.take r) →
      ¬ Late w₁ timeout (r + 1) := by
    intro r hr hshort'
    rw [late_kept hkept]
    exact htime r hr hshort'
  rcases exists_first (fun pre => ¬ Delivered numPorts raw pre) rounds with
    hnever | ⟨done, c, rest, rfl, hbefore, hfirst⟩
  · constructor
    · intro _
      rw [hcall]
      exact collect_waiting hpos hraw hrx₁ hreads₁ htime₁ hnever
    · intro hall
      exact absurd hall (prefix_not_delivered hpos hraw hnever (List.prefix_refl rounds))
  · have hdelivered : Delivered numPorts raw (done ++ [c]) := not_not.mp hfirst
    have hall : Delivered numPorts raw (done ++ c :: rest) := by
      have happend := hdelivered.append rest
      rwa [List.append_assoc, List.singleton_append] at happend
    obtain ⟨response', m, w', msg, hrest, -, hstored, hcollect⟩ :=
      collect_completes (prepared btype numPorts pkt) response btype hpos hraw hrx₁ hreads₁ htime₁
        hbefore hdelivered
    rw [← hcall] at hcollect
    constructor
    · intro h
      exact absurd hall h
    · intro _
      refine ⟨?_, fun p hp => ⟨readAtOnce (raw p), readAtOnce_over _ (hraw p hp)⟩, ?_⟩
      · refine ⟨done, c, rest, rfl,
          prefix_not_delivered hpos hraw hbefore (List.prefix_refl done), hdelivered, ?_⟩
        rw [hcollect]
        split
        · exact hrest
        · exact hrest
      · intro plain hplain
        refine plain_agrees (prepared btype numPorts pkt) msg hraw hstored ?_ plain hplain
        rw [hcollect]
        simp only [accepts_prepared]
        split <;> rfl

/-- Two frames of different lengths, one byte and two bytes at a time: the broadcast returns, since
the two plain reads do. -/
theorem broadcast_agrees_pair :
    let raw : Nat → List UInt8 := fun p => if p = 0 then frame [0x05] else frame [0x05, 0x07, 0x08]
    let rounds : List (Nat → Nat) := List.replicate 4 fun p => p + 1
    let w := { scheduled [] (answers (List.range 2) rounds) [] with
      rx := raw
      writes := List.replicate 6 (.bytes 1) }
    let request : ProtocolPacket := (protocolPacketInit 0x05 zeroPacket).2
    ∃ packets, (protocolBroadcastTimeout 2 (fun _ => request) (fun _ => zeroPacket) .broadcast 200
      w).1 = .ok packets := by
  intro raw rounds w request
  let plain : Nat → PlainRead := fun p => readAtOnce (raw p)
  have hcases : ∀ p, p < 2 → p = 0 ∨ p = 1 := by omega
  have hraw : ∀ p, p < 2 → IsFrame (raw p) := by
    intro p hp
    rcases hcases p hp with rfl | rfl
    · exact isFrame_frame (by decide) (by decide)
    · exact isFrame_frame (by decide) (by decide)
  have hdelivered : Delivered 2 raw rounds := by
    intro p hp
    rcases hcases p hp with rfl | rfl
    · decide
    · decide
  have htime : ∀ r, r < rounds.length → ¬ Late w 200 (r + 1) := by decide
  have hreturns : ∀ p, p < 2 → ∃ packet, ((plain p).run request).1 = .ok packet := by
    intro p hp
    apply exists_of_isOk
    rcases hcases p hp with rfl | rfl
    · decide +kernel
    · decide +kernel
  have hover : ∀ p, p < 2 → (plain p).Over request (raw p) :=
    fun p hp => readAtOnce_over request (hraw p hp)
  have hsend : Sendable .broadcast 2 fun _ => request :=
    fun _ _ => ⟨show request.stream.size ≤ 253 by decide, rfl⟩
  have h := broadcast_agrees 2 (by decide) (by decide) (fun _ => request) (fun _ => zeroPacket)
    .broadcast 200 hsend (by decide) raw hraw rounds (fun _ _ => 1) [] w (fun _ _ => rfl) rfl
    (by decide) (fun r hr _ => htime r hr)
  exact ((h.2 hdelivered).2.2 plain hover).1.mpr hreturns

end Nuhal.Broadcast
