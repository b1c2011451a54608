import Mathlib.Data.UInt
import Nuhal.All.Protocol
import Nuhal.Link.Writes
import Nuhal.Serial.Cursor

/-!
# Packets on the wire (`nuhal_all/src/protocol.c:64-131, 196-209`)

`frame data` is a packet as it travels: its whole length, the sum of its data bytes, the data. A
packet in memory `Carries data` when its stream says it holds `data.length` bytes and they are
there.

* `protocolChecksum_zero`, `protocolChecksum_sum`, `protocolChecksum_one`: the checksum loop for
  every length byte. From 2 on it sums the bytes `2 … N - 1`; for 0 it is the constant of the
  bootloader; for 1 the index runs past the packet before it could wrap around to 1.
* `protocolVerifyChecksum_ok`, `protocolVerifyChecksum_mismatch`: what the verification does.
* **`protocolWriteBlock_writes`**: sending a packet that carries `data` hands over `frame data`, and
  the packet still carries `data` after it.
-/

namespace Nuhal.Link

open Nuhal.Lib Nuhal.All

/-- A packet as it travels. -/
def frame (data : List UInt8) : List UInt8 :=
  UInt8.ofNat (data.length + 2) :: data.sum :: data

theorem length_frame (data : List UInt8) : (frame data).length = data.length + 2 := rfl

/-! ## The checksum loop -/

/-- The log entries of reading the bytes `i, …, i + k - 1`. -/
def loads (i k : Nat) : List Event := (List.range' i k).map .load

/-- The world after the bytes `i, …, i + k - 1` of a packet were read. -/
def looked (w : World) (i k : Nat) : World := { w with log := w.log ++ loads i k }

theorem mem_loads {i k : Nat} {e : Event} (h : e ∈ loads i k) :
    ∃ j, e = .load j ∧ i ≤ j ∧ j < i + k := by
  obtain ⟨j, hj, rfl⟩ := List.mem_map.mp h
  obtain ⟨hij, hjk⟩ := List.mem_range'_1.mp hj
  exact ⟨j, rfl, hij, hjk⟩

theorem looked_zero (w : World) (i : Nat) : looked w i 0 = w := by
  show { w with log := w.log ++ [] } = w
  rw [List.append_nil]

theorem looked_succ (w : World) (i k : Nat) :
    looked (w.logged (.load i)) (i + 1) k = looked w i (k + 1) := by
  show { w with log := w.log ++ [.load i] ++ loads (i + 1) k } = { w with log := _ }
  rw [List.append_assoc]
  rfl

variable {n : Nat}

theorem loadByte_ok {mem : Vector UInt8 n} {i : Nat} {w : World} (h : i < n) :
    loadByte mem i w = (.ok mem[i], w.logged (.load i)) := by
  unfold loadByte
  rw [Vector.getElem?_eq_getElem h]

theorem loadByte_undefined {mem : Vector UInt8 n} {i : Nat} {w : World} (h : n ≤ i) :
    loadByte mem i w = (.error .undefined, w.logged (.load i)) := by
  unfold loadByte
  rw [Vector.getElem?_eq_none h]

theorem window_succ (v : Vector UInt8 n) {i : Nat} (k : Nat) (h : i < n) :
    window v i (k + 1) = v[i] :: window v (i + 1) k := by
  unfold window
  rw [List.drop_eq_getElem_cons (by rw [Vector.length_toList]; exact h), List.take_succ_cons,
    Vector.getElem_toList]

theorem toNat_add_one {i : UInt8} (h : i.toNat < 255) : (i + 1).toNat = i.toNat + 1 := by
  rw [UInt8.toNat_add]
  exact Nat.mod_eq_of_lt (by simp; omega)

/-- The loop from `i` up to a length it has not passed. -/
theorem checksumLoop_sum (data : Vector UInt8 packetMaxLength) (length : UInt8) :
    ∀ (k fuel : Nat) (i chsum : UInt8) (w : World), i.toNat + k = length.toNat → k < fuel →
      checksumLoop data length fuel i chsum w =
        (.ok (chsum + (window data i.toNat k).sum), looked w i.toNat k)
  | _, 0, _, _, _, _, hfuel => absurd hfuel (Nat.not_lt_zero _)
  | 0, fuel + 1, i, chsum, w, hi, _ => by
    have hend : i = length := UInt8.toNat_inj.mp hi
    unfold checksumLoop
    rw [if_pos hend, looked_zero]
    simp [window]
  | k + 1, fuel + 1, i, chsum, w, hi, hfuel => by
    have hlength := length.toNat_lt
    have hlt : i.toNat < packetMaxLength := by show i.toNat < 255; omega
    have hnext : (i + 1).toNat = i.toNat + 1 := toNat_add_one (by omega)
    have hgo : i ≠ length := fun h => by rw [h] at hi; omega
    unfold checksumLoop
    rw [if_neg hgo, Run.bind_of_ok (loadByte_ok hlt),
      checksumLoop_sum data length k fuel (i + 1) _ _ (by omega) (by omega), hnext, looked_succ,
      window_succ data k hlt, List.sum_cons, UInt8.add_assoc]

/-- The loop from past its end: it leaves the packet. -/
theorem checksumLoop_overrun (data : Vector UInt8 packetMaxLength) (length : UInt8) :
    ∀ (k fuel : Nat) (i chsum : UInt8) (w : World), i.toNat + k = packetMaxLength →
      length.toNat < i.toNat → k < fuel →
      checksumLoop data length fuel i chsum w = (.error .undefined, looked w i.toNat (k + 1))
  | _, 0, _, _, _, _, _, hfuel => absurd hfuel (Nat.not_lt_zero _)
  | 0, fuel + 1, i, chsum, w, hi, hpast, _ => by
    have hgo : i ≠ length := fun h => by rw [h] at hpast; omega
    unfold checksumLoop
    rw [if_neg hgo]
    exact Run.bind_of_error (loadByte_undefined (by omega)) _
  | k + 1, fuel + 1, i, chsum, w, hi, hpast, hfuel => by
    have hlt : i.toNat < packetMaxLength := by omega
    have hnext : (i + 1).toNat = i.toNat + 1 := toNat_add_one hlt
    have hgo : i ≠ length := fun h => by rw [h] at hpast; omega
    unfold checksumLoop
    rw [if_neg hgo, Run.bind_of_ok (loadByte_ok hlt),
      checksumLoop_overrun data length k fuel (i + 1) _ _ (by omega) (by omega) (by omega), hnext,
      looked_succ]

variable {packet : ProtocolPacket}

theorem protocolChecksum_zero (h : lengthByte packet = 0) (w : World) :
    protocolChecksum packet w = (.ok 0xCC, w) := by
  unfold protocolChecksum
  rw [if_pos h]
  rfl

/-- From length 2 on the checksum is the sum of what follows the header. -/
theorem protocolChecksum_sum (h : 2 ≤ (lengthByte packet).toNat) (w : World) :
    protocolChecksum packet w =
      (.ok (window packet._data 2 ((lengthByte packet).toNat - 2)).sum,
        looked w 2 ((lengthByte packet).toNat - 2)) := by
  have hlength := (lengthByte packet).toNat_lt
  have hne : lengthByte packet ≠ 0 := fun h0 => by rw [h0] at h; exact absurd h (by decide)
  unfold protocolChecksum
  rw [if_neg hne, checksumLoop_sum packet._data (lengthByte packet)
    ((lengthByte packet).toNat - 2) 256 2 0 w (by show 2 + _ = _; omega) (by omega),
    UInt8.zero_add]
  rfl

/-- With length 1 the loop reads past the packet. -/
theorem protocolChecksum_one (h : lengthByte packet = 1) (w : World) :
    protocolChecksum packet w = (.error .undefined, looked w 2 254) := by
  unfold protocolChecksum
  rw [h, if_neg (by decide)]
  exact checksumLoop_overrun packet._data 1 253 256 2 0 w rfl (by decide) (by decide)

/-! ## The header -/

/-- The packet holds `data`, as far as its stream is concerned. -/
structure Carries (packet : ProtocolPacket) (data : List UInt8) : Prop where
  size : packet.stream.size = data.length
  fits : data.length ≤ 253
  bytes : window packet._data 2 data.length = data

theorem lengthIndex_lt : 0 < packetMaxLength := by decide

theorem checksumIndex_lt : 1 < packetMaxLength := by decide

/-- `packet` with the header for `data`. -/
def headed (packet : ProtocolPacket) (data : List UInt8) : ProtocolPacket :=
  { stream := { packet.stream with capacity := packet.stream.size }
    _data := (packet._data.set 0 (UInt8.ofNat (data.length + 2)) lengthIndex_lt).set 1 data.sum
      checksumIndex_lt }

theorem carries_window {packet : ProtocolPacket} (h : packet.stream.size ≤ 253) :
    Carries packet (window packet._data 2 packet.stream.size) := by
  have hlength : (window packet._data 2 packet.stream.size).length = packet.stream.size :=
    length_window (by show 2 + _ ≤ 255; omega)
  exact ⟨hlength.symm, by omega, by rw [hlength]⟩

theorem toNat_frameLength {k : Nat} (h : k ≤ 253) : (UInt8.ofNat (k + 2)).toNat = k + 2 :=
  UInt8.toNat_ofNat_of_lt' (by show k + 2 < 256; omega)

theorem drop_set_set (v : Vector UInt8 packetMaxLength) (a b : UInt8) :
    ((v.set 0 a).set 1 b).toList.drop 2 = v.toList.drop 2 := by
  rw [Vector.toList_set, Vector.toList_set, List.drop_set_of_lt (by decide),
    List.drop_set_of_lt (by decide)]

theorem toList_set_set (v : Vector UInt8 packetMaxLength) (a b : UInt8) :
    ((v.set 0 a).set 1 b).toList = a :: b :: v.toList.drop 2 := by
  have hlength : ((v.set 0 a).set 1 b).toList.length = 255 := Vector.length_toList
  rw [← drop_set_set v a b]
  match hl : ((v.set 0 a).set 1 b).toList, hlength with
  | x :: y :: rest, _ =>
    have h0 : ((v.set 0 a).set 1 b).toList[0]? = some a := by simp
    have h1 : ((v.set 0 a).set 1 b).toList[1]? = some b := by simp
    rw [hl] at h0 h1
    cases h0
    cases h1
    rfl

theorem toList_headed (packet : ProtocolPacket) (data : List UInt8) :
    (headed packet data)._data.toList =
      UInt8.ofNat (data.length + 2) :: data.sum :: packet._data.toList.drop 2 :=
  toList_set_set _ _ _

/-- What is sent of a packet with its header. -/
theorem wire_headed {packet : ProtocolPacket} {data : List UInt8} (h : Carries packet data) :
    (headed packet data)._data.toList.take (data.length + 2) = frame data := by
  rw [toList_headed, List.take_succ_cons, List.take_succ_cons]
  exact congrArg (fun rest => _ :: _ :: rest) h.bytes

theorem carries_headed {packet : ProtocolPacket} {data : List UInt8} (h : Carries packet data) :
    Carries (headed packet data) data := by
  refine ⟨h.size, h.fits, ?_⟩
  unfold window
  rw [toList_headed]
  exact h.bytes

theorem lengthByte_headed (packet : ProtocolPacket) (data : List UInt8) :
    lengthByte (headed packet data) = UInt8.ofNat (data.length + 2) := by
  show ((packet._data.set 0 _).set 1 _)[0] = _
  simp

theorem command_headed (packet : ProtocolPacket) (data : List UInt8) :
    protocolPacketCommand (headed packet data) = protocolPacketCommand packet := by
  show ((packet._data.set 0 _).set 1 _)[2] = packet._data[2]
  simp

/-- `protocol_header_init` on a packet that carries `data`. -/
theorem protocolHeaderInit_carries {packet : ProtocolPacket} {data : List UInt8}
    (h : Carries packet data) (w : World) : protocolHeaderInit packet w =
      (.ok (UInt8.ofNat (data.length + 2), headed packet data), looked w 2 data.length) := by
  have hlength := toNat_frameLength h.fits
  generalize hp₁ : ({ packet with
    _data := packet._data.set 0 (UInt8.ofNat (data.length + 2)) } : ProtocolPacket) = packet₁
  have hbyte : lengthByte packet₁ = UInt8.ofNat (data.length + 2) := by
    subst hp₁
    exact Vector.getElem_set_self _
  have hwindow : window packet₁._data 2 data.length = data := by
    have hdrop : packet₁._data.toList.drop 2 = packet._data.toList.drop 2 := by
      subst hp₁
      rw [Vector.toList_set, List.drop_set_of_lt (by decide)]
    unfold window
    rw [hdrop]
    exact h.bytes
  have hsum : protocolChecksum packet₁ w = (.ok data.sum, looked w 2 data.length) := by
    have hlong : 2 ≤ (lengthByte packet₁).toNat := by
      rw [hbyte, hlength]
      omega
    have hloop := protocolChecksum_sum hlong w
    rwa [hbyte, hlength, Nat.add_sub_cancel, hwindow] at hloop
  subst hp₁
  have hset : packet.stream.size + headerBytes = data.length + 2 := by rw [h.size]
  unfold protocolHeaderInit
  rw [hset, Run.bind_of_ok hsum]
  show (Except.ok (lengthByte (headed packet data), headed packet data), _) = _
  rw [lengthByte_headed]

/-! ## Sending a packet -/

/-- How sending `packet`, which carries `data`, ends. -/
def SendEnds (packet : ProtocolPacket) (data sent : List UInt8) (w' : World) :
    Except Halt ProtocolPacket → Prop
  | .ok packet' => packet' = headed packet data ∧ sent = frame data
  | .error .undefined => False
  | .error .pending => sent.length < (frame data).length ∧ w'.writes = []
  | .error (.error _) => .failed ∈ w'.log ∨ .expired ∈ w'.log

/-- What sending a packet does: the bytes it hands over, and how it ends. -/
structure Sends (port : Nat) (packet : ProtocolPacket) (data sent : List UInt8) (w : World)
    (r : Except Halt ProtocolPacket) (w' : World) : Prop where
  given : Sent port sent w w'
  pre : sent <+: frame data
  ends : SendEnds packet data sent w' r
  moves : productive w.writes ≤ productive w'.writes + sent.length

/-- **Sending a packet that carries `data` hands over `frame data`.** -/
theorem protocolWriteBlock_writes {packet : ProtocolPacket} {data : List UInt8} (port : Nat)
    (h : Carries packet data) (w : World) : (protocolWriteBlock port packet).Ends w fun r w' =>
      ∃ sent, Sends port packet data sent w r w' := by
  have hlooked : Sent port [] w (looked w 2 data.length) := by
    refine ⟨(Sent.refl port w).tx, rfl, rfl, ⟨_, rfl, fun _ _ => trivial⟩⟩
  have hframe : frame data ≠ [] := List.cons_ne_nil _ _
  unfold Run.Ends protocolWriteBlock
  rw [Run.bind_of_ok (protocolHeaderInit_carries h w)]
  simp only [toNat_frameLength h.fits, wire_headed h]
  rcases hwrite : uartWriteBlock port (frame data)
    ((UInt8.ofNat (data.length + 2)).toUInt32 * timeoutMsPerByte + timeoutMsBase)
    (looked w 2 data.length) with ⟨r, w'⟩
  obtain ⟨sent, hw⟩ := (uartWriteBlock_writes port _ _ _).elim hwrite
  have hgiven : Sent port sent w w' := hlooked.trans hw.given
  cases r with
  | ok k =>
    rw [Run.bind_of_ok hwrite]
    exact ⟨sent, hgiven, hw.pre, ⟨rfl, hw.ends.2⟩, hw.moves hframe⟩
  | error e =>
    rw [Run.bind_of_error hwrite]
    refine ⟨sent, hgiven, hw.pre, ?_, hw.moves hframe⟩
    match e, hw.ends with
    | .pending, hends => exact ⟨hends.1 hframe, hends.2⟩
    | .error _, hends => exact hends

/-! ## Checking a packet -/

/-- A packet whose stream is set to what follows the command. -/
def opened (packet : ProtocolPacket) : ProtocolPacket :=
  { packet with
    stream := { data := some 2, capacity := (lengthByte packet).toNat - 2, size := 1 } }

/-- The checksum of a packet is the sum of its data. -/
def Sound (packet : ProtocolPacket) : Prop :=
  (window packet._data 2 ((lengthByte packet).toNat - 2)).sum = checksumByte packet

instance (packet : ProtocolPacket) : Decidable (Sound packet) :=
  inferInstanceAs (Decidable (_ = _))

theorem protocolVerifyChecksum_one {packet : ProtocolPacket} {k : UInt8}
    (h : lengthByte packet = 1) (w : World) :
    protocolVerifyChecksum packet k w = (.error .undefined, looked w 2 254) := by
  unfold protocolVerifyChecksum
  exact Run.bind_of_error (protocolChecksum_one h w) _

theorem protocolVerifyChecksum_mismatch {packet : ProtocolPacket} (k : UInt8)
    (h : 2 ≤ (lengthByte packet).toNat) (hsound : ¬ Sound packet) (w : World) :
    protocolVerifyChecksum packet k w = (.error (.error "invalid checksum"),
      looked w 2 ((lengthByte packet).toNat - 2)) := by
  unfold protocolVerifyChecksum
  rw [Run.bind_of_ok (protocolChecksum_sum h w),
    if_pos (show (window packet._data 2 _).sum ≠ checksumByte packet from hsound)]
  rfl

theorem protocolVerifyChecksum_ok {packet : ProtocolPacket} (h : 3 ≤ (lengthByte packet).toNat)
    (hsound : Sound packet) (w : World) :
    protocolVerifyChecksum packet (UInt8.ofNat ((lengthByte packet).toNat - 2)) w =
      (.ok (opened packet), looked w 2 ((lengthByte packet).toNat - 2)) := by
  have hpos : lengthByte packet > 0 := by
    show (0 : UInt8).toNat < _
    exact Nat.lt_of_lt_of_le (by decide) h
  have hlt := (lengthByte packet).toNat_lt
  have hk : (UInt8.ofNat ((lengthByte packet).toNat - 2)).toNat = (lengthByte packet).toNat - 2 :=
    UInt8.toNat_ofNat_of_lt' (by show _ < 256; omega)
  have hdata : 2 + ((lengthByte packet).toNat - 2) ≤ packetMaxLength := by
    show _ ≤ 255
    omega
  -- the stream as `bytestream_init` leaves it, before the command is skipped
  let start : ProtocolPacket :=
    { packet with
      stream := { data := some 2, capacity := (lengthByte packet).toNat - 2, size := 0 } }
  have hplaced : Serial.Placed 2 start := ⟨rfl, Nat.zero_le _, hdata⟩
  have hunread : Serial.unread 2 start =
      [packet._data[2]] ++ window packet._data 3 ((lengthByte packet).toNat - 3) := by
    show window packet._data 2 ((lengthByte packet).toNat - 2) = _
    rw [show (lengthByte packet).toNat - 2 = (lengthByte packet).toNat - 3 + 1 by omega,
      window_succ packet._data _ (show 2 < packetMaxLength by decide)]
    rfl
  have hskip := Serial.extracts_u8 packet._data[2] 2 start _ hplaced hunread
  have hstream : (do
      bytestreamInit headerBytes (UInt8.ofNat ((lengthByte packet).toNat - 2)).toNat
      if lengthByte packet > 0 then
        let _ ← bytestreamExtractU8 : OnStream packetMaxLength Unit) packet =
      (.ok (), opened packet) := by
    rw [Run.bind_of_ok (show bytestreamInit headerBytes _ packet = (.ok (), start) by
      rw [hk]; rfl), if_pos hpos, Run.bind_of_ok hskip]
    rfl
  unfold protocolVerifyChecksum
  rw [Run.bind_of_ok (protocolChecksum_sum (by omega) w),
    if_neg (show ¬ (window packet._data 2 _).sum ≠ checksumByte packet from not_not_intro hsound)]
  show onPacket packet _ _ = _
  unfold onPacket
  rw [hstream]

/-- `protocol_validate_response` looks at the two commands and changes nothing. -/
theorem protocolValidateResponse_eq (request response : ProtocolPacket) (w : World) :
    protocolValidateResponse request response w =
      (if protocolError = protocolPacketCommand response then
          .error (.error "Received an ERROR from downstream.")
        else if protocolPacketCommand request ≠ protocolPacketCommand response then
          .error (.error "Request/response mismatch.")
        else .ok (), w) := by
  unfold protocolValidateResponse
  split
  · rfl
  · split <;> rfl

end Nuhal.Link
