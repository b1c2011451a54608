import Nuhal.All.Programs
import Nuhal.Drivers.TivaDeadlines
import Nuhal.Drivers.Within
import Nuhal.Link.Patience

/-!
# Requests come back (`nuhal_all/src/protocol.c:196-323`)

Each timeout that `protocol_request_timeout` hands down is a sum modulo `2 ^ 32`, and 0 is no
deadline. With a timeout of more than 10 ms, and far enough below `2 ^ 32`, all of them are
deadlines: also the one for a body of `2 ^ 32 - 1` bytes, which a length byte of 1 asks for, and
which is 10 ms less than the timeout.

That read goes beyond the packet where so much comes, and otherwise the checksum's loop does. No
other length byte leads there.

* `request_deadlined`: the three calls have deadlines.
* `request_lengthOne`: a run that leaves the packet has read a length byte of 1.
* **`request_comes_back`**: so on a Tiva a request comes back, whatever the other side sends.
-/

namespace Nuhal.Drivers

open Nuhal.Lib Nuhal.Lib.Run Nuhal.All Nuhal.Clock Nuhal.Tiva Nuhal.Link

variable {n block limit : Nat} {α σ : Type} {timeout : UInt32}

/-! ## What uses no port -/

section NoPort

variable {e : Halt}

/-- A stream function works on the packet alone. -/
theorem onPacket_never {packet : ProtocolPacket} {m : OnStream packetMaxLength Unit}
    (hm : (m packet).1 ≠ .error e) : (onPacket packet m).Never e := by
  intro w
  unfold onPacket
  rcases h : m packet with ⟨r, packet'⟩
  rw [h] at hm
  cases r with
  | ok _ => exact nofun
  | error e' => exact fun he => hm (congrArg Except.error (Except.error.inj he))

/-- The command of a packet lies in it. -/
theorem bytestreamExtractU8_command (capacity : Nat) (mem : Vector UInt8 packetMaxLength) :
    (bytestreamExtractU8 ⟨⟨some 2, capacity, 0⟩, mem⟩).1 =
      if capacity = 0 then .error (.error "overflow") else .ok mem[2] := by
  cases capacity with
  | zero => rfl
  | succ capacity =>
    have hverify : verifyArgs 1 ⟨⟨some 2, capacity + 1, 0⟩, mem⟩ =
        (.ok (), ⟨⟨some 2, capacity + 1, 0⟩, mem⟩) := by
      unfold verifyArgs
      rw [if_neg nofun, if_neg (by dsimp only; omega)]
    unfold bytestreamExtractU8
    rw [bind_of_ok hverify, if_neg (Nat.succ_ne_zero capacity)]
    rfl

/-- The checksum's loop leaves the packet only with a length byte of 1. -/
theorem protocolChecksum_never {packet : ProtocolPacket}
    (hone : lengthByte packet = 1 → e ≠ .undefined) : (protocolChecksum packet).Never e := by
  intro w
  by_cases h0 : lengthByte packet = 0
  · rw [protocolChecksum_zero h0]
    exact nofun
  · by_cases h1 : lengthByte packet = 1
    · rw [protocolChecksum_one h1]
      exact fun he => hone h1 (Except.error.inj he).symm
    · have hlong : 2 ≤ (lengthByte packet).toNat := by
        have h0' : (lengthByte packet).toNat ≠ 0 := fun h => h0 (UInt8.toNat_inj.mp h)
        have h1' : (lengthByte packet).toNat ≠ 1 := fun h => h1 (UInt8.toNat_inj.mp h)
        omega
      rw [protocolChecksum_sum hlong]
      exact nofun

theorem protocolHeaderInit_never {packet : ProtocolPacket}
    (hone : UInt8.ofNat (packet.stream.size + headerBytes) = 1 → e ≠ .undefined) :
    (protocolHeaderInit packet).Never e :=
  (protocolChecksum_never fun h => hone ((Vector.getElem_set_self _).symm.trans h)).bind fun _ =>
    Never.pure _ _

theorem protocolVerifyChecksum_never (he : ∀ msg, e ≠ .error msg) {packet : ProtocolPacket}
    (hone : lengthByte packet = 1 → e ≠ .undefined) (k : UInt8) :
    (protocolVerifyChecksum packet k).Never e := by
  refine (protocolChecksum_never hone).bind fun checksum => ?_
  have hopens : (onPacket packet do
      bytestreamInit headerBytes k.toNat
      if lengthByte packet > 0 then
        let _ ← bytestreamExtractU8).Never e := by
    refine onPacket_never ?_
    rw [bind_of_ok (show bytestreamInit headerBytes k.toNat packet =
      (.ok (), ⟨⟨some 2, k.toNat, 0⟩, packet._data⟩) from rfl)]
    split
    · have hcommand := bytestreamExtractU8_command k.toNat packet._data
      rcases hrun : bytestreamExtractU8 (⟨⟨some 2, k.toNat, 0⟩, packet._data⟩ : ProtocolPacket) with
        ⟨r, packet'⟩
      rw [hrun] at hcommand
      have hr : r = _ := hcommand
      subst hr
      by_cases hk : k.toNat = 0
      · rw [if_pos hk] at hrun
        rw [bind_of_error hrun]
        exact fun h => he _ (Except.error.inj h).symm
      · rw [if_neg hk] at hrun
        rw [bind_of_ok hrun]
        exact nofun
    · exact nofun
  dsimp only
  by_cases hsum : checksum ≠ checksumByte packet
  · rw [if_pos hsum]
    exact (never_error he _).bind fun _ => hopens
  · rw [if_neg hsum]
    exact hopens

theorem protocolValidateResponse_never (he : ∀ msg, e ≠ .error msg)
    (request response : ProtocolPacket) : (protocolValidateResponse request response).Never e := by
  unfold protocolValidateResponse
  dsimp only
  split
  · exact never_error he _
  · split
    · exact never_error he _
    · exact Never.pure _ _

end NoPort

theorem aside_deadlined {m : OnPlatform α} (hm : m.Never .pending) (block limit : Nat) :
    Deadlined block limit 0 (Client.aside m) := by
  have hdone := hm idle
  unfold Client.aside Client.recordAll
  generalize (m idle).2.log = events
  induction events with
  | nil =>
    rcases h : (m idle).1 with e | a
    · rw [h] at hdone
      exact .stop fun he => hdone (congrArg Except.error he)
    · exact .done a
  | cons e events ih => exact .record ih

/-! ## The timeouts of a request -/

/-- The time for a packet, when it is sent. -/
theorem writeTimeout_toNat (length : UInt8) :
    (length.toUInt32 * timeoutMsPerByte + timeoutMsBase).toNat = 10 * length.toNat + 100 := by
  have hlt := length.toNat_lt
  rw [UInt32.toNat_add, UInt32.toNat_mul, UInt8.toNat_toUInt32]
  show (length.toNat * 10 % 2 ^ 32 + 100) % 2 ^ 32 = _
  omega

/-- A body's read has a deadline, whatever the length byte. -/
theorem bodyTimeout_some (out : ProtocolPacket) (h10 : 10 < timeout.toNat)
    (hlimit : timeout.toNat + 2530 ≤ limit) (hfits : limit < 2 ^ 32) :
    bodyTimeout (dataLength out) timeout ≠ 0 ∧
      (bodyTimeout (dataLength out) timeout).toNat ≤ limit := by
  have hlt := out._data[0].toNat_lt
  obtain ⟨hpos, hle⟩ : 0 < (bodyTimeout (dataLength out) timeout).toNat ∧
      (bodyTimeout (dataLength out) timeout).toNat ≤ limit := by
    rw [bodyTimeout_toNat]
    by_cases hone : out._data[0] = 1
    · have hbody : (dataLength out).toNat = 2 ^ 32 - 1 := bodyLength_one hone
      rw [hbody]
      omega
    · have hbody : (dataLength out).toNat = out._data[0].toNat - 2 := bodyLength_ne_one hone
      rw [hbody, Nat.mod_eq_of_lt (by omega)]
      omega
  exact ⟨fun h => absurd hpos (by rw [h]; decide), hle⟩

/-- With a timeout of 10 ms it would have none, for a length byte of 1. -/
example :
    bodyTimeout (dataLength { zeroPacket with _data := zeroPacket._data.set 0 1 }) 10 = 0 := by
  decide

variable {out : ProtocolPacket} {timeoutError : Bool}

/-- `protocol_write_block` makes one call. -/
theorem write_deadlined (packet : ProtocolPacket) (hlimit : 2650 ≤ limit) :
    Deadlined packetMaxLength limit 1 (Client.protocolWriteBlock packet) := by
  show Deadlined _ _ (0 + 1) _
  have hinit : (protocolHeaderInit packet).Never .pending := protocolHeaderInit_never fun _ => nofun
  refine (aside_deadlined hinit _ _).bind fun (length, packet) => ?_
  have hlt := length.toNat_lt
  have htimeout := writeTimeout_toNat length
  refine .write ?_ (fun h => ?_) ?_ fun _ => .done _
  · rw [List.length_take, Vector.length_toList]
    exact Nat.min_le_right _ _
  · rw [h] at htimeout
    have hzero : (0 : UInt32).toNat = 0 := rfl
    omega
  · show (length.toUInt32 * timeoutMsPerByte + timeoutMsBase).toNat ≤ limit
    omega

/-- `protocol_read_block_error` makes two. -/
theorem read_deadlined (h10 : 10 < timeout.toNat) (hlimit : timeout.toNat + 2530 ≤ limit)
    (hfits : limit < 2 ^ 32) :
    Deadlined packetMaxLength limit 2
      (Client.protocolReadBlockError out timeout timeoutError) := by
  have hsome : timeout ≠ 0 := by
    rintro rfl
    exact absurd h10 (by decide)
  have hheader := headerTimeout_toNat hsome
  show Deadlined _ _ (0 + 2) _
  refine (aside_deadlined (onPacket_never fun h => by cases h) _ _).bind fun out => ?_
  refine .read (Nat.le_refl _) (fun _ => ⟨fun h => ?_, by omega⟩) fun got => ?_
  · rw [h] at hheader
    have hzero : (0 : UInt32).toNat = 0 := rfl
    omega
  · refine .read (Nat.le_refl _) (fun _ => bodyTimeout_some _ h10 hlimit hfits)
      fun (count, mem) => ?_
    show Deadlined _ _ 0 (ite _ _ _)
    split
    · exact .done _
    · show Deadlined _ _ (0 + 0) _
      have hverify := @protocolVerifyChecksum_never .pending pending_ne_error
        ⟨out.stream, mem⟩ fun _ => nofun
      exact (aside_deadlined (hverify _) _ _).bind fun _ => .done _

/-- **The calls of a request have deadlines.** -/
theorem request_deadlined (request out : ProtocolPacket) (timeoutError : Bool)
    (h10 : 10 < timeout.toNat) (hbase : 2650 ≤ limit) (hlimit : timeout.toNat + 2530 ≤ limit)
    (hfits : limit < 2 ^ 32) :
    Deadlined packetMaxLength limit 3
      (Client.protocolRequestTimeout request out timeout timeoutError) := by
  show Deadlined _ _ (1 + (2 + (0 + 0))) _
  refine (write_deadlined request hbase).bind fun request => ?_
  refine (read_deadlined h10 hlimit hfits).bind fun (success, out) => ?_
  cases success with
  | true =>
    have hvalidate := protocolValidateResponse_never pending_ne_error request out
    exact (aside_deadlined hvalidate _ _).bind fun _ => .done _
  | false =>
    cases timeoutError with
    | true =>
      exact (aside_deadlined (never_error pending_ne_error "timeout") _ _).bind fun _ => .done _
    | false => exact .done _

/-! ## Staying in the packet -/

variable {d : Driver σ} {passes : Nat}

theorem onDriver_bind {β : Type} (client : Client α) (f : α → Client β) :
    (client >>= f).onDriver d passes = client.onDriver d passes >>= fun a =>
      (f a).onDriver d passes := by
  induction client with
  | done a => rfl
  | stop e => rfl
  | record e next ih =>
    show (d.record e >>= fun _ => (next >>= f).onDriver d passes) = _
    rw [ih]
    exact (bind_assoc _ _ _).symm
  | write data timeout next ih =>
    show (d.uartWriteBlock passes data timeout >>= fun written =>
      (next written >>= f).onDriver d passes) = _
    simp only [ih]
    exact (bind_assoc _ _ _).symm
  | read mem off len timeout term timeoutError next ih =>
    show (d.uartReadBlockError passes mem off len timeout term timeoutError >>= fun got =>
      (next got >>= f).onDriver d passes) = _
    simp only [ih]
    exact (bind_assoc _ _ _).symm

theorem aside_within (hd : Within d) {m : OnPlatform α} (hm : m.Never .undefined) :
    ((Client.aside m).onDriver d passes).Never .undefined := by
  have hdone := hm idle
  unfold Client.aside Client.recordAll
  generalize (m idle).2.log = events
  induction events with
  | nil =>
    rcases h : (m idle).1 with e | a
    · rw [h] at hdone
      exact Never.stop fun he => hdone (congrArg Except.error he)
    · exact Never.pure _ _
  | cons e events ih => exact (hd.records e).bind fun _ => ih

/-- A packet whose data fits is sent from where it lies. -/
theorem write_within (hd : Within d) {packet : ProtocolPacket} (hsize : packet.stream.size ≤ 253) :
    ((Client.protocolWriteBlock packet).onDriver d passes).Never .undefined := by
  have hone : UInt8.ofNat (packet.stream.size + headerBytes) ≠ 1 := by
    intro h
    have hlength : (UInt8.ofNat (packet.stream.size + headerBytes)).toNat = _ :=
      toNat_frameLength hsize
    rw [h] at hlength
    have hbyte : (1 : UInt8).toNat = 1 := rfl
    omega
  unfold Client.protocolWriteBlock
  rw [onDriver_bind]
  refine (aside_within hd (protocolHeaderInit_never fun h => absurd h hone)).bind
    fun (length, packet) => ?_
  exact (uartWriteBlock_within hd passes _ _).bind fun _ => Never.pure _ _

/-- The header that is read has a length byte of 1. -/
def LengthOne (d : Driver σ) (passes : Nat) (out : ProtocolPacket) (timeout : UInt32) (s : σ) :
    Prop :=
  ∃ read mem s', d.uartReadBlockError passes out._data 0 headerBytes (headerTimeout timeout) .none
    false s = (.ok (read, mem), s') ∧ lengthByte (fresh mem) = 1

/-- What follows the header. -/
def afterHeader (mem : Vector UInt8 packetMaxLength) (timeout : UInt32) (timeoutError : Bool) :
    Client (Bool × ProtocolPacket) := do
  let out : ProtocolPacket := fresh mem
  let (count, mem) ← Client.read out._data headerBytes (dataLength out).toNat
    (bodyTimeout (dataLength out) timeout) .none timeoutError .done
  let out := { out with _data := mem }
  if count = 0 then return (false, out)
  else
    let out ← Client.aside (protocolVerifyChecksum out (dataLength out).toUInt8)
    return (true, out)

/-- With any other length byte the body lies in the packet, and so does what the checksum looks
at. -/
theorem afterHeader_within (hd : Within d) {mem : Vector UInt8 packetMaxLength}
    (hone : mem[0] ≠ 1) :
    ((afterHeader mem timeout timeoutError).onDriver d passes).Never .undefined := by
  intro s
  have hlength : (dataLength (fresh mem)).toNat = mem[0].toNat - 2 := bodyLength_ne_one hone
  have hlt := mem[0].toNat_lt
  have hin : headerBytes + (dataLength (fresh mem)).toNat ≤ packetMaxLength := by
    show 2 + _ ≤ 255
    omega
  have hbody := uartReadBlockError_within hd passes mem hin
    (bodyTimeout (dataLength (fresh mem)) timeout) timeoutError s
  refine Ends.bind (Q := fun r _ => r ≠ .error .undefined) hbody
    (fun (count, mem') s' ⟨_, hkept⟩ => ?_) fun e s' he h => he (Except.error.inj h)
  have hhead : mem'[0] = mem[0] := by
    have hget := congrArg List.head? hkept
    simpa [List.head?_take, List.head?_eq_getElem?] using hget
  show Ends (Client.onDriver d passes (if count = 0 then _ else _)) s' _
  by_cases hcount : count = 0
  · rw [if_pos hcount]
    exact nofun
  · rw [if_neg hcount, onDriver_bind]
    have hnot : lengthByte (fresh mem') ≠ 1 := fun h => hone (hhead.symm.trans h)
    have hverify : (protocolVerifyChecksum (fresh mem')
        (dataLength (fresh mem')).toUInt8).Never .undefined :=
      protocolVerifyChecksum_never undefined_ne_error (fun h => absurd h hnot) _
    exact (aside_within hd hverify).bind (fun _ => Never.pure _ _) s'

/-- **Only a length byte of 1 leads out of the packet**, in the read of a body of `2 ^ 32 - 1` bytes
or in the checksum's loop. -/
theorem read_lengthOne (hd : Within d) {s s' : σ}
    (h : (Client.protocolReadBlockError out timeout timeoutError).onDriver d passes s =
      (.error .undefined, s')) : LengthOne d passes out timeout s := by
  have hparts : (Client.protocolReadBlockError out timeout timeoutError).onDriver d passes =
      d.uartReadBlockError passes out._data 0 headerBytes (headerTimeout timeout) .none false >>=
        fun got => (afterHeader got.2 timeout timeoutError).onDriver d passes := rfl
  rw [hparts] at h
  rcases bind_eq_error h with hheader | ⟨⟨read, mem⟩, s₁, hheader, hbody⟩
  · exact absurd rfl ((uartReadBlockError_within hd passes _ (by decide) _ _ s).elim hheader)
  · refine ⟨read, mem, s₁, hheader, ?_⟩
    by_contra hone
    exact afterHeader_within hd hone s₁ (congrArg Prod.fst hbody)

/-- The header of the answer to a request has a length byte of 1. -/
def AnswerLengthOne (d : Driver σ) (passes : Nat) (request out : ProtocolPacket) (timeout : UInt32)
    (s : σ) : Prop :=
  ∃ sent s', (Client.protocolWriteBlock request).onDriver d passes s = (.ok sent, s') ∧
    LengthOne d passes out timeout s'

/-- The same of a request whose data fits. -/
theorem request_lengthOne (hd : Within d) {request : ProtocolPacket}
    (hsize : request.stream.size ≤ 253) {s s' : σ}
    (h : (Client.protocolRequestTimeout request out timeout timeoutError).onDriver d passes s =
      (.error .undefined, s')) : AnswerLengthOne d passes request out timeout s := by
  unfold Client.protocolRequestTimeout at h
  rw [onDriver_bind] at h
  rcases bind_eq_error h with hwrite | ⟨sent, s₁, hwrite, h⟩
  · exact absurd (congrArg Prod.fst hwrite) (write_within hd hsize s)
  · refine ⟨sent, s₁, hwrite, ?_⟩
    rw [onDriver_bind] at h
    rcases bind_eq_error h with hread | ⟨⟨success, out'⟩, s₂, -, h⟩
    · exact read_lengthOne hd hread
    · refine absurd (congrArg Prod.fst h) ?_
      cases success with
      | true =>
        have hvalidate := protocolValidateResponse_never undefined_ne_error sent out'
        show ((Client.aside (protocolValidateResponse sent out') >>= _).onDriver d passes s₂).1 ≠ _
        rw [onDriver_bind]
        exact (aside_within hd hvalidate).bind (fun _ => Never.pure _ _) s₂
      | false =>
        cases timeoutError with
        | true =>
          show ((Client.aside (error "timeout") >>= _).onDriver d passes s₂).1 ≠ _
          rw [onDriver_bind]
          exact (aside_within hd (error_within _)).bind (fun _ => Never.pure _ _) s₂
        | false => exact nofun

/-! ## On the Tiva -/

/-- **A request comes back.** With a timeout of more than 10 ms, and whatever the other side sends
or does not take, each of the three calls that `protocol_request_timeout` makes has a deadline, and
it ends on a Tiva, after so many ticks for each of them: it returns or raises an error, or, only
after a header with a length byte of 1, leaves the packet. -/
theorem request_comes_back {lib : UartWare σ} {tick : SysTick} {perMs cost : Nat}
    {clock : σ → Nat} (hlib : OnSysTick lib tick perMs cost clock) (h10 : 10 < timeout.toNat)
    (hoften : OftenEnough tick perMs cost packetMaxLength (timeout.toNat + 2650)) {passes : Nat}
    (hpasses : (tivaPace tick perMs cost packetMaxLength (timeout.toNat + 2650)).call < passes)
    (port : UartPort) (request out : ProtocolPacket) (timeoutError : Bool) (b : Board σ) :
    Deadlined packetMaxLength (timeout.toNat + 2650) 3
      (Client.protocolRequestTimeout request out timeout timeoutError) ∧
    ∃ r b', (Client.protocolRequestTimeout request out timeout timeoutError).onDriver
        (tivaDriver lib (some port) passes) passes b = (r, b') ∧ r ≠ .error .pending ∧
      (request.stream.size ≤ 253 → r = .error .undefined →
        AnswerLengthOne (tivaDriver lib (some port) passes) passes request out timeout b) ∧
      clock b'.hardware ≤ clock b.hardware +
        3 * (tivaPace tick perMs cost packetMaxLength (timeout.toNat + 2650)).call := by
  have hclient := request_deadlined request out timeoutError h10
    (show 2650 ≤ timeout.toNat + 2650 by omega) (by omega)
    (Nat.lt_of_le_of_lt (Nat.le_add_right _ _) hoften.fits)
  have h := deadlined_onTime hlib hoften hclient hpasses port b
  refine ⟨hclient, _, _, rfl, h.done, fun hsize hr => ?_, h.before⟩
  exact request_lengthOne (tivaDriver_within lib port passes) hsize (Prod.ext hr rfl)

/-- A request to nobody, with a timeout of 100 ms, a thousand ticks a millisecond and a period of
10 ms. -/
theorem request_comes_back_silent :
    Deadlined packetMaxLength ((100 : UInt32).toNat + 2650) 3
      (Client.protocolRequestTimeout zeroPacket zeroPacket 100 true) ∧
    ∃ r b', (Client.protocolRequestTimeout zeroPacket zeroPacket 100 true).onDriver
        (tivaDriver (silent ⟨10000, 1000000⟩) (some ⟨0x4000⟩) 10000000) 10000000 ⟨0, []⟩ =
          (r, b') ∧ r ≠ .error .pending ∧
      (zeroPacket.stream.size ≤ 253 → r = .error .undefined →
        AnswerLengthOne (tivaDriver (silent ⟨10000, 1000000⟩) (some ⟨0x4000⟩) 10000000) 10000000
          zeroPacket zeroPacket 100 ⟨0, []⟩) ∧
      id b'.hardware ≤ id 0 + 3 * (tivaPace ⟨10000, 1000000⟩ 1000 1 packetMaxLength
        ((100 : UInt32).toNat + 2650)).call :=
  request_comes_back (silent_onSysTick ⟨by decide, rfl, by decide, by decide⟩) (by decide)
    ⟨by decide, by decide⟩ (by decide) ⟨0x4000⟩ zeroPacket zeroPacket true ⟨0, []⟩

end Nuhal.Drivers
