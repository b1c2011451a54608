import Nuhal.Link.Reader
import Nuhal.Link.Schedule

/-!
# What is handed over unverified (`nuhal_all/src/protocol.c:262-284`)

`protocol_read_block` and `protocol_read_nonblock` drop the result of
`protocol_read_block_error`, on the grounds that a timeout is an error there. But a body of no
bytes also reads as none: with a length byte of 0 or 2 the reader returns without having verified
anything, and the packet is handed over as it came. With a length byte of 1 a long body is written
past the packet.

* `HeaderCan`, `lengthAfter`: how much of a header can come, and the length byte it leaves.
* `readBlock_cleared`, `readBlock_uncleared`: with and without such a length byte.
* **`read_verified_iff`**: nothing unverified is handed over on any schedule exactly when no
  schedule can leave one of these length bytes.
-/

namespace Nuhal.Link

open Nuhal.Lib Nuhal.All

variable {port : Nat} {out packet : ProtocolPacket} {stream : List UInt8} {timeout : UInt32}
  {m : Vector UInt8 packetMaxLength} {header body : List UInt8} {w w₁ w' : World} {h : Nat}

/-- The packet is as `protocol_verify_checksum` leaves one that it accepts. -/
structure Verified (packet : ProtocolPacket) : Prop where
  checksum : ∀ w, (protocolChecksum packet w).1 = .ok (checksumByte packet)
  stream : packet.stream =
    { data := some 2
      capacity := (dataLength packet).toUInt8.toNat
      size := if lengthByte packet > 0 then 1 else 0 }

/-- A call ends with a verified packet or in `error`, unless it is still waiting. -/
def EndsVerified : Except Halt ProtocolPacket → Prop
  | .ok packet => Verified packet
  | .error .undefined => False
  | .error .pending => True
  | .error (.error _) => True

/-- The same for a call that may say that there was nothing. -/
def EndsVerifiedIfRead : Except Halt (Bool × ProtocolPacket) → Prop
  | .ok (true, packet) => Verified packet
  | .ok (false, _) => True
  | .error .undefined => False
  | .error .pending => True
  | .error (.error _) => True

/-! ## The header -/

/-- A schedule can make `h` bytes of `stream` the header: fewer than two only before a deadline. -/
structure HeaderCan (timeout : UInt32) (stream : List UInt8) (h : Nat) : Prop where
  le : h ≤ 2
  arrived : h ≤ stream.length
  late : h < 2 → headerTimeout timeout ≠ 0

/-- The length byte, after `h` bytes of `stream` came over the header of `out`. -/
def lengthAfter (out : ProtocolPacket) (stream : List UInt8) (h : Nat) : UInt8 :=
  (stream.take h).head?.getD (lengthByte out)

/-- No schedule leaves a length byte of 0 or 2, or one of 1 with more bytes to come than a packet
has room for. -/
def Cleared (out : ProtocolPacket) (stream : List UInt8) (timeout : UInt32) : Prop :=
  ∀ h, HeaderCan timeout stream h → lengthAfter out stream h ≠ 0 ∧ lengthAfter out stream h ≠ 2 ∧
    (lengthAfter out stream h = 1 → (stream.drop h).length ≤ 253)

/-- What a header's read leaves is one of these. -/
theorem headerCan_of_reads
    (hread : HeaderReads port out timeout header w (.ok (header.length, m)) w₁) :
    HeaderCan timeout (w.rx port) header.length ∧
      m[0] = lengthAfter out (w.rx port) header.length ∧
      w₁.rx port = (w.rx port).drop header.length := by
  obtain ⟨-, hstore, hshort⟩ := hread.ends
  have hrx := hread.taken.rx
  refine ⟨⟨hread.le, ?_, fun hlt => (hshort hlt).2.1⟩, ?_, ?_⟩
  · rw [hrx, List.length_append]
    exact Nat.le_add_right _ _
  · unfold lengthAfter
    rw [hrx, List.take_left]
    exact lengthByte_header hstore
  · rw [hrx, List.drop_left]

/-- And each of them is what some header's read leaves, at a time when the clock is in order. -/
theorem headerCan_schedule (hcan : HeaderCan timeout stream h) (more : List Answer) :
    ∃ (w w₁ : World) (m : Vector UInt8 packetMaxLength), w.rx = (fun _ => stream) ∧
      (∀ i, w.available i = .ok true) ∧
      uartReadBlock port out._data 0 2 (headerTimeout timeout) .none w = (.ok (h, m), w₁) ∧
      m[0] = lengthAfter out stream h ∧ w₁.rx port = stream.drop h ∧ w₁.reads = more ∧
      w₁.wait (w₁.ticks + 1) = .ok true ∧ firstLook w₁ = (0, ⟨0, 0, 0⟩) := by
  let late : List Nat := if h < 2 then [2] else []
  have hle := hcan.le
  have hsmall : 0 + (stream.take h).length ≤ packetMaxLength := by
    rw [List.length_take]
    show _ ≤ 255
    omega
  obtain ⟨m, hm⟩ := exists_store out._data hsmall
  have hlate : ∀ i, i ∈ late → i = 2 ∧ h < 2 := by
    intro i hi
    by_cases hlt : h < 2
    · rw [show late = [2] from if_pos hlt, List.mem_singleton] at hi
      exact ⟨hi, hlt⟩
    · rw [show late = [] from if_neg hlt] at hi
      cases hi
  have htwo : h < 2 → 2 ∈ late := by
    intro hlt
    rw [show late = [2] from if_pos hlt]
    exact List.mem_singleton_self 2
  obtain ⟨w₁, hread, hrx, hreads, hclock, hwait, hticks⟩ := read_realised
    (w := scheduled stream (.bytes h :: more) late) (k := h) rfl rfl
    (fun h0 => absurd (hlate 0 h0).1 (by decide)) (fun h1 => absurd (hlate 1 h1).1 (by decide))
    (show 2 ≠ 0 by decide) hle (fun hlt => ⟨hcan.late hlt, rfl, htwo hlt⟩) rfl hcan.arrived hm
  have hafter : w₁.ticks ∉ late ∧ w₁.ticks + 1 ∉ late := by
    by_cases hlt : h < 2
    · have hthree : w₁.ticks = 3 := hticks.trans (if_pos hlt)
      rw [hthree]
      exact ⟨fun hi => absurd (hlate 3 hi).1 (by decide),
        fun hi => absurd (hlate 4 hi).1 (by decide)⟩
    · exact ⟨fun hi => hlt (hlate _ hi).2, fun hi => hlt (hlate _ hi).2⟩
  refine ⟨_, w₁, m, rfl, fun _ => rfl, hread, lengthByte_header hm, hrx, hreads, ?_, ?_⟩
  · rw [hwait]
    rfl
  · refine firstLook_zero ?_ ?_
    · rw [hclock]
      exact lateAt_not_mem hafter.1
    · rw [hclock]
      exact lateAt_not_mem hafter.2

/-! ## Without such a length byte -/

/-- A packet that was accepted is verified. -/
theorem verified_opened (hlength : 3 ≤ (lengthByte (fresh m)).toNat) (hsound : Sound (fresh m)) :
    Verified (opened (fresh m)) := by
  refine ⟨fun w => ?_, ?_⟩
  · have htwo : 2 ≤ (lengthByte (opened (fresh m))).toNat := Nat.le_of_lt hlength
    rw [protocolChecksum_sum htwo]
    exact congrArg Except.ok hsound
  · have hpos : lengthByte (fresh m) > 0 := Nat.lt_of_lt_of_le (by decide) hlength
    have hlt := (lengthByte (fresh m)).toNat_lt
    have hdata : (dataLength (opened (fresh m))).toUInt8.toNat =
        (lengthByte (fresh m)).toNat - 2 := by
      have hbody : (bodyLength m).toNat = m[0].toNat - 2 :=
        bodyLength_ne_one (ne_one_of_length hlength)
      show (bodyLength m).toUInt8.toNat = m[0].toNat - 2
      rw [UInt32.toNat_toUInt8, hbody]
      exact Nat.mod_eq_of_lt (Nat.lt_of_le_of_lt (Nat.sub_le _ _) m[0].toNat_lt)
    rw [hdata, show (if lengthByte (opened (fresh m)) > 0 then 1 else 0) = 1 from if_pos hpos]
    rfl

/-- A blocking read that must be complete or an error. -/
theorem reads_strict {n off len : Nat} {mem : Vector UInt8 n} {got : List UInt8}
    {r : Except Halt (Nat × Vector UInt8 n)}
    (hread : Reads port mem off len timeout true got w r w') {k : Nat} {mem' : Vector UInt8 n}
    (hok : r = .ok (k, mem')) : got.length = len := by
  subst hok
  obtain ⟨rfl, -, hshort⟩ := hread.ends
  have hle := hread.le
  by_contra hne
  exact absurd (hshort (by omega)).2.2 (by decide)

/-- The part after the header. -/
theorem bodyRead_cleared {r : Except Halt (Bool × ProtocolPacket)} (hzero : m[0] ≠ 0)
    (htwo : m[0] ≠ 2) (hone : m[0] = 1 → (w.rx port).length ≤ 253)
    (hbody : BodyRead port timeout true m w body r w') : EndsVerified (r.map Prod.snd) := by
  have hinside : ∀ {r₁ w₂}, BodyReads port timeout true m body w r₁ w₂ →
      2 + body.length ≤ packetMaxLength := by
    intro r₁ w₂ hread
    have hle := hread.le
    have hlt := m[0].toNat_lt
    show _ ≤ 255
    by_cases h1 : m[0] = 1
    · have hrx := congrArg List.length hread.taken.rx
      rw [List.length_append] at hrx
      have hfew := hone h1
      omega
    · rw [bodyLength_ne_one h1] at hle
      omega
  cases hbody with
  | @stopped _ e _ hread =>
    match e, hread with
    | .undefined, hread =>
      have hover : packetMaxLength < 2 + body.length := hread.ends
      exact absurd (hinside hread) (Nat.not_le.mpr hover)
    | .pending, _ => trivial
    | .error _, _ => trivial
  | nothing hread =>
    have hnone : (0 : Nat) = (bodyLength m).toNat := reads_strict hread rfl
    by_cases h1 : m[0] = 1
    · rw [bodyLength_one h1] at hnone
      omega
    · rw [bodyLength_ne_one h1] at hnone
      have h0 : m[0].toNat ≠ 0 := fun h => hzero (UInt8.toNat_inj.mp h)
      have h1' : m[0].toNat ≠ 1 := fun h => h1 (UInt8.toNat_inj.mp h)
      have h2 : m[0].toNat ≠ 2 := fun h => htwo (UInt8.toNat_inj.mp h)
      omega
  | overrun hread h1 =>
    have hfull := reads_strict hread rfl
    have hfit := hinside hread
    rw [bodyLength_one h1] at hfull
    have hsmall : 2 + body.length ≤ 255 := hfit
    omega
  | mismatch _ _ _ => trivial
  | packet _ hfilled hsound => exact verified_opened hfilled.length hsound

theorem protocolReadBlock_eq (port : Nat) (out : ProtocolPacket) (timeout : UInt32) (w : World) :
    (protocolReadBlock port out timeout w).1 =
      (protocolReadBlockError port out timeout true w).1.map Prod.snd := by
  unfold protocolReadBlock
  rw [Run.bind_apply]
  rcases protocolReadBlockError port out timeout true w with ⟨r, w'⟩
  cases r with
  | ok result => rfl
  | error e => rfl

/-- **With the length bytes cleared, nothing unverified is handed over.** -/
theorem readBlock_cleared (hclear : Cleared out (w.rx port) timeout) :
    EndsVerified (protocolReadBlock port out timeout w).1 := by
  rw [protocolReadBlock_eq]
  have hcases := protocolReadBlockError_cases port out timeout true w
  unfold Run.Ends at hcases
  generalize (protocolReadBlockError port out timeout true w).1 = r at hcases ⊢
  generalize (protocolReadBlockError port out timeout true w).2 = w' at hcases
  cases hcases with
  | @stopped header e _ hread =>
    match e, hread with
    | .undefined, hread =>
      have hle := hread.le
      have hover : 255 < 0 + header.length := hread.ends
      omega
    | .pending, _ => trivial
    | .error _, _ => trivial
  | body hread hbody =>
    obtain ⟨hcan, hbyte, hrest⟩ := headerCan_of_reads hread
    obtain ⟨hzero, htwo, hone⟩ := hclear _ hcan
    rw [← hbyte] at hzero htwo hone
    exact bodyRead_cleared hzero htwo (fun h1 => hrest ▸ hone h1) hbody

/-! ## With such a length byte -/

/-- A packet whose stream is as it was before the header came was not verified. -/
theorem not_verified_start (hstream : packet.stream = ⟨some 2, 253, 0⟩) : ¬ Verified packet := by
  intro h
  have hsame := hstream.symm.trans h.stream
  by_cases hpos : lengthByte packet > 0
  · have hsize : 0 = if lengthByte packet > 0 then 1 else 0 := congrArg Bytestream.size hsame
    rw [if_pos hpos] at hsize
    omega
  · have hzero : lengthByte packet = 0 := UInt8.toNat_inj.mp (Nat.eq_zero_of_not_pos hpos)
    have hcapacity : 253 = (dataLength packet).toUInt8.toNat := congrArg Bytestream.capacity hsame
    unfold dataLength at hcapacity
    rw [if_pos hzero] at hcapacity
    exact absurd hcapacity (by decide)

/-- A read that is handed more than its buffer has room for. -/
theorem read_overrun {n len count : Nat} (mem : Vector UInt8 n) (off : Nat) (te : Bool)
    {rest : List Answer} (hlen : len ≠ 0) (hwait : w.wait (w.ticks + 1) = .ok true)
    (hlook : InTime timeout w) (hreads : w.reads = .bytes count :: rest)
    (hover : n < off + min (min count len) (w.rx port).length) :
    (uartReadBlockError port mem off len timeout .none te w).1 = .error .undefined := by
  let st : Reading n := ⟨timeElapsedInit (w.clock w.ticks), mem, 0⟩
  obtain ⟨stamp, hopen, -⟩ := deadlineOpen_first len hlook
  have hnone : store st.mem (off + st.read) (World.incoming
      { asked w len with ticks := w.ticks + 1 + looks timeout } port count (len - st.read)) =
        none := by
    rw [store_eq_none, length_incoming]
    exact hover
  have hpoll := uartReadNonblock_undefined
    (w := { asked w len with ticks := w.ticks + 1 + looks timeout }) hreads hnone
  have hpass := readPass_open te st hopen hpoll
  rw [uartReadBlockError_start hlen hwait]
  exact congrArg Prod.fst (Run.iterate_of_error hpass)

/-- **Such a length byte on some schedule.** -/
theorem readBlock_uncleared (h : ¬ Cleared out stream timeout) :
    ∃ w : World, w.rx = (fun _ => stream) ∧ (∀ i, w.available i = .ok true) ∧
      ¬ EndsVerified (protocolReadBlock port out timeout w).1 := by
  unfold Cleared at h
  push Not at h
  obtain ⟨k, hcan, hbad⟩ := h
  obtain ⟨w, w₁, m, hrx, havailable, hread, hbyte, hrest, hreads, hwait, hlook⟩ :=
    headerCan_schedule hcan [.bytes 254]
  refine ⟨w, hrx, havailable, ?_⟩
  rw [protocolReadBlock_eq, protocolReadBlockError_of_header hread]
  rw [← hbyte] at hbad
  by_cases hempty : (bodyLength m).toNat = 0
  · rw [readBody_empty hempty]
    exact not_verified_start rfl
  · have hone : m[0] = 1 := by
      by_contra h1
      rw [bodyLength_ne_one h1] at hempty
      by_cases h0 : m[0] = 0
      · rw [h0] at hempty
        exact hempty rfl
      · by_cases h2 : m[0] = 2
        · rw [h2] at hempty
          exact hempty rfl
        · exact h1 (hbad h0 h2).1
    have hmany : 253 < (w₁.rx port).length := by
      rw [hrest]
      exact (hbad (by rw [hone]; decide) (by rw [hone]; decide)).2
    have hlen := bodyLength_one hone
    have htime : InTime (bodyTimeout (bodyLength m) timeout) w₁ := inTime_of_firstLook hlook
    have hover := read_overrun m 2 true hempty hwait htime hreads
      (show 255 < 2 + min (min 254 _) (w₁.rx port).length by omega)
    rcases hbody : uartReadBlockError port m 2 (bodyLength m).toNat
      (bodyTimeout (bodyLength m) timeout) .none true w₁ with ⟨r, w₂⟩
    rw [hbody] at hover
    obtain rfl : r = .error .undefined := hover
    unfold readBody
    rw [Run.bind_of_error hbody]
    exact id

/-! ## Both functions -/

/-- `protocol_read_nonblock`, by what `uart_data_available` says. -/
theorem protocolReadNonblock_cases (port : Nat) (out : ProtocolPacket) (w : World) :
    (protocolReadNonblock port out w).1 = match w.available w.ticks with
      | .ok true => (protocolReadBlock port out timeoutMsBase w).1.map fun packet => (true, packet)
      | .ok false => .ok (false, out)
      | .error msg => .error (.error msg) := by
  unfold protocolReadNonblock
  rw [Run.bind_apply, uartDataAvailable]
  rcases w.available w.ticks with msg | ready
  · rfl
  · cases ready with
    | false => rfl
    | true =>
      dsimp only
      rw [if_pos rfl, Run.bind_apply]
      rcases protocolReadBlock port out timeoutMsBase w with ⟨r, w'⟩
      cases r with
      | ok packet => rfl
      | error e => rfl

theorem endsVerifiedIfRead_map {r : Except Halt ProtocolPacket} :
    EndsVerifiedIfRead (r.map fun packet => (true, packet)) ↔ EndsVerified r := by
  match r with
  | .ok packet => exact Iff.rfl
  | .error .undefined => exact Iff.rfl
  | .error .pending => exact Iff.rfl
  | .error (.error _) => exact Iff.rfl

/-- **When nothing unverified is handed over**: if no schedule leaves a length byte of 0 or 2, nor
one of 1 before more bytes than a packet has room for. `protocol_read_nonblock` reads with a
timeout of `TIMEOUT_MS_BASE`. -/
theorem read_verified_iff (port : Nat) (out : ProtocolPacket) (stream : List UInt8) :
    (∀ timeout : UInt32,
      (∀ w : World, w.rx port = stream → EndsVerified (protocolReadBlock port out timeout w).1) ↔
        Cleared out stream timeout) ∧
    ((∀ w : World, w.rx port = stream → EndsVerifiedIfRead (protocolReadNonblock port out w).1) ↔
      Cleared out stream timeoutMsBase) := by
  constructor
  · intro timeout
    constructor
    · intro h
      by_contra hno
      obtain ⟨w, hrx, -, hbad⟩ := readBlock_uncleared hno
      exact hbad (h w (by rw [hrx]))
    · rintro hclear w rfl
      exact readBlock_cleared hclear
  · constructor
    · intro h
      by_contra hno
      obtain ⟨w, hrx, havailable, hbad⟩ := readBlock_uncleared hno
      have hread := h w (by rw [hrx])
      rw [protocolReadNonblock_cases, havailable] at hread
      exact hbad (endsVerifiedIfRead_map.mp hread)
    · rintro hclear w rfl
      rw [protocolReadNonblock_cases]
      rcases w.available w.ticks with msg | ready
      · trivial
      · cases ready with
        | false => trivial
        | true => exact endsVerifiedIfRead_map.mpr (readBlock_cleared hclear)

/-- The bytes `00 55` have come. They are a packet with length byte 0, whose checksum would have to
be `CC`: it is handed over as it came, by both functions. -/
theorem read_unverified :
    let w := scheduled [0x00, 0x55] [.bytes 2] []
    ∃ packet, (protocolReadBlock 0 zeroPacket 100 w).1 = .ok packet ∧
      (protocolReadNonblock 0 zeroPacket w).1 = .ok (true, packet) ∧
      packet._data.toList.take 2 = [0x00, 0x55] ∧ packet.stream = ⟨some 2, 253, 0⟩ ∧
      ¬ EndsVerified (protocolReadBlock 0 zeroPacket 100 w).1 ∧
      ¬ EndsVerifiedIfRead (protocolReadNonblock 0 zeroPacket w).1 := by
  intro w
  have hseen : (protocolReadBlock 0 zeroPacket 100 w).1.toOption.map
      (fun packet => (packet._data.toList.take 2, packet.stream)) =
        some ([0x00, 0x55], ⟨some 2, 253, 0⟩) := by decide +kernel
  have hnonblock : (protocolReadNonblock 0 zeroPacket w).1 =
      (protocolReadBlock 0 zeroPacket 100 w).1.map fun packet => (true, packet) :=
    protocolReadNonblock_cases 0 zeroPacket w
  rcases hread : (protocolReadBlock 0 zeroPacket 100 w).1 with e | packet
  · rw [hread] at hseen
    cases hseen
  · rw [hread] at hseen hnonblock
    obtain ⟨hbytes, hstream⟩ := Prod.mk.inj (Option.some.inj hseen)
    refine ⟨packet, rfl, hnonblock, hbytes, hstream, not_verified_start hstream, ?_⟩
    rw [hnonblock]
    exact not_verified_start hstream

end Nuhal.Link
