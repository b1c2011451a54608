import Nuhal.Broadcast.Reassembly
import Nuhal.Link.Writes

/-!
# What a broadcast sends against a plain write (`nuhal_all/src/protocol.c:350-393`)

`protocol_write_block` hands a packet to the driver until all of it is accepted. The send loop of a
broadcast hands every byte over once and does not look at the result, and the check before it
counts the header twice.

* `transmits_iff`: a plain write that returns has sent the packet's frame.
* `Listens`: a program that sends nothing and does not complain about a packet's size.
  `listens_collect`: everything after the send loop is such a program.
* **`broadcast_plain_iff`**: a broadcast sends what plain writes send exactly when the packets have
  at most 251 data bytes and every byte is accepted at its only try. Where a request is itself an
  error packet no broadcast returns, and then dropped bytes are never found.
-/

namespace Nuhal.Broadcast

open Nuhal.Lib Nuhal.All Nuhal.Link

/-! ## After the send loop -/

/-- Nothing was sent, and no complaint about the size ended the program, unless a driver made it. -/
structure Heard {α : Type} (w : World) (r : Except Halt α) (w' : World) : Prop where
  tx : w'.tx = w.tx
  log : Grown (fun _ => True) w w'
  size : Grown (fun e => e ≠ .failed) w w' → r ≠ .error (.error "packet data too long")

/-- The program leaves all worlds so. -/
def Listens {α : Type} (m : OnPlatform α) : Prop := ∀ w, m.Ends w (Heard w)

section Rules

variable {α β : Type}

theorem Heard.of_ne {r : Except Halt α} {w w' : World} (htx : w'.tx = w.tx)
    (hlog : Grown (fun _ => True) w w') (h : r ≠ .error (.error "packet data too long")) :
    Heard w r w' :=
  ⟨htx, hlog, fun _ => h⟩

theorem Listens.of_ok {m : OnPlatform α}
    (h : ∀ w, ∃ x w', m w = (.ok x, w') ∧ w'.tx = w.tx ∧ Grown (fun _ => True) w w') :
    Listens m := by
  intro w
  obtain ⟨x, w', hrun, htx, hlog⟩ := h w
  exact Run.ends_of_eq hrun (.of_ne htx hlog (by simp))

theorem listens_pure (x : α) : Listens (pure x : OnPlatform α) :=
  Listens.of_ok fun w => ⟨x, w, rfl, rfl, Grown.refl w⟩

theorem listens_stop {e : Halt} (h : e ≠ .error "packet data too long") :
    Listens (Run.stop e : OnPlatform α) := by
  intro w
  refine .of_ne rfl (Grown.refl w) ?_
  intro he
  exact h (Except.error.inj he)

theorem Listens.bind {m : OnPlatform α} {f : α → OnPlatform β} (hm : Listens m)
    (hf : ∀ x, Listens (f x)) : Listens (m >>= f) := by
  intro w
  refine Run.Ends.bind (hm w) ?_ ?_
  · intro x w₁ h₁
    refine (hf x w₁).mono ?_
    intro r w' h'
    exact ⟨h'.tx.trans h₁.tx, h₁.log.trans h'.log,
      fun hquiet => h'.size (hquiet.split h₁.log h'.log).2⟩
  · intro e w₁ h₁
    refine ⟨h₁.tx, h₁.log, ?_⟩
    intro hquiet he
    exact h₁.size hquiet (congrArg Except.error (Except.error.inj he))

theorem Listens.iterate {body : β → OnPlatform (β ⊕ α)} (h : ∀ b, Listens (body b)) (fuel : Nat)
    (b : β) : Listens (Run.iterate .pending body fuel b) := by
  induction fuel generalizing b with
  | zero => exact listens_stop (by decide)
  | succ fuel ih =>
    refine (h b).bind ?_
    intro next
    cases next with
    | inl b' => exact ih b'
    | inr x => exact listens_pure x

end Rules

/-! ### The functions of the second half -/

theorem listens_readNonblock {n : Nat} (port : Nat) (mem : Vector UInt8 n) (off len : Nat) :
    Listens (uartReadNonblock port mem off len) := by
  intro w
  cases hreads : w.reads with
  | nil =>
    exact Run.ends_of_eq (uartReadNonblock_pending hreads)
      (.of_ne rfl (Grown.refl w) (by simp))
  | cons answer rest =>
    cases answer with
    | fail msg =>
      refine Run.ends_of_eq (uartReadNonblock_fail hreads) ⟨rfl, Grown.one rfl trivial, ?_⟩
      rintro ⟨new, hlog, hnew⟩
      obtain rfl : [.failed] = new := List.append_cancel_left hlog
      exact absurd rfl (hnew _ (List.mem_singleton_self _))
    | bytes count =>
      cases hstore : store mem off (w.incoming port count len) with
      | none =>
        exact Run.ends_of_eq (uartReadNonblock_undefined hreads hstore)
          (.of_ne rfl (Grown.one rfl trivial) (by simp))
      | some mem' =>
        exact Run.ends_of_eq (uartReadNonblock_ok hreads hstore)
          (.of_ne rfl (Grown.one rfl trivial) (by simp))

theorem listens_readPorts (ports : List Nat) (st : Receiving) : Listens (readPorts ports st) := by
  induction ports generalizing st with
  | nil => exact listens_pure st
  | cons p ports ih => exact (listens_readNonblock p _ _ 12).bind fun _ => ih _

theorem listens_receiveRound (ports : List Nat) (timeout : UInt32) (st : Receiving) :
    Listens (receiveRound ports timeout st) := by
  have htime : ∀ stamp, Listens (timeElapsedMs stamp) :=
    fun stamp => Listens.of_ok fun w => ⟨_, _, rfl, rfl, [], (List.append_nil _).symm, by simp⟩
  refine (listens_readPorts ports st).bind fun st₁ => (htime _).bind fun elapsed => ?_
  have hgo : ∀ st₂ : Receiving, Listens
      (if keepLooping ports st₂ then pure (.inl st₂) else pure (.inr st₂) :
        OnPlatform (Receiving ⊕ Receiving)) := by
    intro st₂
    split
    · exact listens_pure _
    · exact listens_pure _
  by_cases hlate : elapsed.1 > timeout
  · simp only [if_pos hlate]
    have hrecord : Listens (record .expired) :=
      Listens.of_ok fun w => ⟨_, _, rfl, rfl, Grown.one rfl trivial⟩
    refine hrecord.bind fun _ => ?_
    exact (listens_stop (by decide)).bind fun _ => hgo _
  · simp only [if_neg hlate]
    exact hgo _

theorem listens_receive (ports : List Nat) (response : Packets) (timeout : UInt32) :
    Listens (receive ports response timeout) := by
  have hinit : Listens timeElapsedMsInit :=
    Listens.of_ok fun w => ⟨_, _, rfl, rfl, [], (List.append_nil _).symm, by simp⟩
  refine hinit.bind fun elapsed w => ?_
  exact Listens.iterate (listens_receiveRound ports timeout) (w.reads.length + 1) _ w

theorem listens_loadByte {n : Nat} (mem : Vector UInt8 n) (i : Nat) :
    Listens (loadByte mem i) := by
  intro w
  by_cases hi : i < n
  · exact Run.ends_of_eq (loadByte_ok hi)
      (.of_ne rfl (Grown.one rfl trivial) (by simp))
  · exact Run.ends_of_eq (loadByte_undefined (Nat.le_of_not_lt hi))
      (.of_ne rfl (Grown.one rfl trivial) (by simp))

theorem listens_checksumLoop (data : Vector UInt8 packetMaxLength) (length : UInt8) (fuel : Nat)
    (i chsum : UInt8) : Listens (checksumLoop data length fuel i chsum) := by
  induction fuel generalizing i chsum with
  | zero => exact listens_stop (by decide)
  | succ fuel ih =>
    unfold checksumLoop
    split
    · exact listens_pure chsum
    · exact (listens_loadByte data i.toNat).bind fun b => ih _ _

/-- A stream function that does not stop with the complaint about the size. -/
def Spares {α : Type} (m : OnStream packetMaxLength α) : Prop :=
  ∀ s, (m s).1 ≠ .error (.error "packet data too long")

theorem Spares.bind {α β : Type} {m : OnStream packetMaxLength α}
    {f : α → OnStream packetMaxLength β} (hm : Spares m) (hf : ∀ x, Spares (f x)) :
    Spares (m >>= f) := by
  intro s
  rcases hrun : m s with ⟨r, s'⟩
  have hne := hm s
  rw [hrun] at hne
  cases r with
  | ok x =>
    rw [Run.bind_of_ok hrun]
    exact hf x s'
  | error e =>
    rw [Run.bind_of_error hrun]
    intro he
    exact hne (congrArg Except.error (Except.error.inj he))

theorem spares_verifyArgs (len : Nat) : Spares (verifyArgs len) := by
  intro s
  unfold verifyArgs
  split
  · intro he
    exact absurd (Except.error.inj he) (by decide)
  · split
    · intro he
      exact absurd (Except.error.inj he) (by decide)
    · intro he
      cases he

theorem spares_getData (i : Nat) : Spares (getData i) := by
  intro s
  unfold getData
  split
  · intro he
    cases he
  · intro he
    cases he

/-- Setting a packet's stream and skipping its command. -/
theorem spares_open (packet : ProtocolPacket) (k : Nat) : Spares (do
    bytestreamInit headerBytes k
    if lengthByte packet > 0 then
      let _ ← bytestreamExtractU8) := by
  have hok : ∀ {α : Type} (m : OnStream packetMaxLength α),
      (∀ s, ∃ x, (m s).1 = .ok x) → Spares m := by
    intro α m h s he
    obtain ⟨x, hx⟩ := h s
    rw [hx] at he
    cases he
  have hextract : Spares bytestreamExtractU8 :=
    (spares_verifyArgs 1).bind fun _ => (hok streamSize fun s => ⟨_, rfl⟩).bind fun i =>
      (hok (advance 1) fun s => ⟨_, rfl⟩).bind fun _ => spares_getData i
  refine (hok (bytestreamInit headerBytes k) fun s => ⟨_, rfl⟩).bind fun _ => ?_
  split
  · exact hextract.bind fun _ => hok _ fun s => ⟨_, rfl⟩
  · exact hok _ fun s => ⟨_, rfl⟩

theorem listens_onPacket (packet : ProtocolPacket) {m : OnStream packetMaxLength Unit}
    (h : Spares m) : Listens (onPacket packet m) := by
  intro w
  unfold onPacket Run.Ends
  rcases hm : m packet with ⟨r, packet'⟩
  cases r with
  | ok _ => exact .of_ne rfl (Grown.refl w) (by simp)
  | error e =>
    have hne := h packet
    rw [hm] at hne
    exact .of_ne rfl (Grown.refl w) fun he =>
      hne (congrArg Except.error (Except.error.inj he))

theorem listens_verifyChecksum (packet : ProtocolPacket) (k : UInt8) :
    Listens (protocolVerifyChecksum packet k) := by
  have hsum : Listens (protocolChecksum packet) := by
    unfold protocolChecksum
    split
    · exact listens_pure _
    · exact listens_checksumLoop _ _ _ _ _
  have hstream := listens_onPacket packet (spares_open packet k.toNat)
  refine hsum.bind fun checksum => ?_
  by_cases hne : checksum ≠ checksumByte packet
  · simp only [if_pos hne]
    exact (listens_stop (by decide)).bind fun _ => hstream
  · simp only [if_neg hne]
    exact hstream

theorem listens_validateResponse (request response : ProtocolPacket) :
    Listens (protocolValidateResponse request response) := by
  unfold protocolValidateResponse
  dsimp only
  split
  · exact listens_stop (by decide)
  · split
    · exact listens_stop (by decide)
    · exact listens_pure ()

theorem listens_verifyResponses (packets : Packets) (length : Nat → UInt8) (ports : List Nat)
    (inPacket : Packets) : Listens (verifyResponses packets length ports inPacket) := by
  induction ports generalizing inPacket with
  | nil => exact listens_pure inPacket
  | cons p ports ih =>
    have hrest : Listens (do
        let packet ← protocolVerifyChecksum (inPacket p) (length p - 2)
        protocolValidateResponse (packets p) packet
        verifyResponses packets length ports (Function.update inPacket p packet)) :=
      (listens_verifyChecksum _ _).bind fun packet =>
        (listens_validateResponse _ packet).bind fun _ => ih _
    rw [verifyResponses]
    split
    · exact (listens_stop (by decide)).bind fun _ => hrest
    · exact hrest

/-- **Nothing is sent after the send loop**, and the size is not complained about. -/
theorem listens_collect (numPorts : Nat) (pkt response : Packets) (btype : BroadcastType)
    (timeout : UInt32) : Listens (collect numPorts pkt response btype timeout) :=
  (listens_receive _ response timeout).bind fun st =>
    (listens_verifyResponses _ st.length _ st.inPacket).bind fun _ => listens_pure _

/-! ## The plain write -/

/-- `protocol_write_block` can return with `sent` handed over for the packet. -/
def Transmits (packet : ProtocolPacket) (sent : List UInt8) : Prop :=
  ∃ port v packet' v', protocolWriteBlock port packet v = (.ok packet', v') ∧
    v'.tx port = v.tx port ++ sent

/-- **A plain write transmits the packet's frame.** -/
theorem transmits_iff {packet : ProtocolPacket} (hfits : packet.stream.size ≤ 253)
    {sent : List UInt8} : Transmits packet sent ↔ sent = frame (dataOf packet) := by
  have hcarries : Carries packet (dataOf packet) := carries_window hfits
  constructor
  · rintro ⟨port, v, packet', v', hrun, htx⟩
    obtain ⟨sent', h⟩ := (protocolWriteBlock_writes port hcarries v).elim hrun
    obtain ⟨-, rfl⟩ := h.ends
    have hgained := h.given.tx
    rw [hgained, Function.update_self] at htx
    exact (List.append_cancel_left htx).symm
  · rintro rfl
    let v : World := { scheduled [] [] [] with
      writes := [.bytes (frame (dataOf packet)).length] }
    have hclock : ∀ i, (looked v 2 (dataOf packet).length).clock i = 0 := fun i =>
      @lateAt_not_mem [] i List.not_mem_nil
    have hwrites : (looked v 2 (dataOf packet).length).writes =
        [.bytes (frame (dataOf packet)).length] := rfl
    obtain ⟨v', hwrite, htx, -⟩ := uartWriteBlock_at_once 0
      ((UInt8.ofNat ((dataOf packet).length + 2)).toUInt32 * timeoutMsPerByte + timeoutMsBase)
      hwrites (Nat.le_refl _) (lookInTime_of_still hclock 1)
    refine ⟨0, v, withHeader packet, v', ?_, ?_⟩
    swap
    · rw [htx, Function.update_self]
      rfl
    unfold protocolWriteBlock
    rw [Run.bind_of_ok (protocolHeaderInit_carries hcarries v)]
    simp only [toNat_frameLength hcarries.fits, wire_headed hcarries]
    exact Run.bind_of_ok hwrite _

/-! ## The broadcast against plain writes -/

/-- A call in which no driver failed did not reject its packets for their size, and if it returned
each port accepted what a plain write of its packet transmits. -/
structure SendsPlain (numPorts : Nat) (pkt : Packets) (btype : BroadcastType) (w : World)
    (r : Except Halt (Packets × Packets)) (w' : World) : Prop where
  size : Grown (fun e => e ≠ .failed) w w' → r ≠ .error (.error "packet data too long")
  sent : ∀ packets, r = .ok packets → ∀ p, p < numPorts → ∀ sent,
    Transmits (outpack btype pkt p) sent → w'.tx p = w.tx p ++ sent

/-- Every byte of every frame is accepted at its only try. -/
def AllTaken (numPorts length : Nat) (a : Nat → Nat → Nat) : Prop :=
  ∀ i, i < length → ∀ p, p < numPorts → 0 < a i p

section Parity

variable {numPorts : Nat} {pkt response : Packets} {btype : BroadcastType} {timeout : UInt32}
  {a : Nat → Nat → Nat} {rest : List Answer} {w : World}

/-- A response is only accepted for a request that is not an error packet. -/
theorem validate_ok {request packet : ProtocolPacket} {w w' : World} {x : Unit}
    (h : protocolValidateResponse request packet w = (.ok x, w')) :
    protocolPacketCommand request ≠ protocolError := by
  rw [protocolValidateResponse_eq] at h
  by_cases herror : protocolError = protocolPacketCommand packet
  · rw [if_pos herror] at h
    cases h
  · rw [if_neg herror] at h
    by_cases hsame : protocolPacketCommand request = protocolPacketCommand packet
    · rw [hsame]
      exact fun he => herror he.symm
    · rw [if_pos hsame] at h
      cases h

/-- No broadcast returns for a request that is an error packet. -/
theorem verifyResponses_ok {packets : Packets} {length : Nat → UInt8} {ports : List Nat}
    {inPacket x : Packets} {w w' : World}
    (h : verifyResponses packets length ports inPacket w = (.ok x, w')) :
    ∀ p ∈ ports, protocolPacketCommand (packets p) ≠ protocolError := by
  induction ports generalizing inPacket w with
  | nil =>
    intro p hp
    cases hp
  | cons q ports ih =>
    have hrest : ∃ w₁, (do
        let packet ← protocolVerifyChecksum (inPacket q) (length q - 2)
        protocolValidateResponse (packets q) packet
        verifyResponses packets length ports (Function.update inPacket q packet) :
          OnPlatform Packets) w₁ = (.ok x, w') := by
      rw [verifyResponses] at h
      by_cases hlength : (length q).toNat < headerBytes
      · rw [if_pos hlength] at h
        cases h
      · rw [if_neg hlength] at h
        exact ⟨w, h⟩
    obtain ⟨w₁, hrest⟩ := hrest
    obtain ⟨packet, w₂, -, hrest⟩ := Run.bind_eq_ok hrest
    obtain ⟨_, w₃, hvalidate, hrest⟩ := Run.bind_eq_ok hrest
    intro p hp
    rcases List.mem_cons.mp hp with rfl | hp
    · exact validate_ok hvalidate
    · exact ih hrest p hp

/-- The packets of a broadcast that returned were no error packets. -/
theorem collect_ok {packets : Packets × Packets} {w' : World}
    (h : collect numPorts (prepared btype numPorts pkt) response btype timeout w =
      (.ok packets, w')) :
    ∀ p, p < numPorts → protocolPacketCommand (outpack btype pkt p) ≠ protocolError := by
  obtain ⟨st, w₁, -, hverify⟩ := Run.bind_eq_ok h
  obtain ⟨_, w₂, hverify, -⟩ := Run.bind_eq_ok hverify
  intro p hp
  have hcommand := verifyResponses_ok hverify p (List.mem_range.mpr hp)
  rwa [outpack_prepared pkt hp, withHeader, command_headed] at hcommand

/-- A broadcast whose packets are short enough and whose bytes are all accepted, or which cannot
return. -/
theorem broadcast_sendsPlain (hpos : 0 < numPorts) (hmax : numPorts ≤ maxBroadcastPorts)
    (hsend : Sendable btype numPorts pkt) (hshort : (pkt 0).stream.size ≤ 251)
    (hwrites : w.writes =
      offers a (List.range numPorts) (List.range ((pkt 0).stream.size + 2)) ++ rest)
    (hgood : AllTaken numPorts ((pkt 0).stream.size + 2) a ∨
      ∃ p, p < numPorts ∧ protocolPacketCommand (outpack btype pkt p) = protocolError) :
    (protocolBroadcastTimeout numPorts pkt response btype timeout).Ends w
      (SendsPlain numPorts pkt btype w) := by
  obtain ⟨w₁, hrun, hkept, -, htx⟩ :=
    broadcast_sends hpos hmax hsend hshort hwrites response timeout
  have hlistens := listens_collect numPorts (prepared btype numPorts pkt) response btype timeout w₁
  unfold Run.Ends at hlistens ⊢
  rw [hrun]
  refine ⟨fun hquiet => hlistens.size
    (hquiet.split (hkept.log.mono fun _ _ => trivial) hlistens.log).2, ?_⟩
  intro packets hok p hp sent hsent
  obtain ⟨hfits, hsize⟩ := hsend p hp
  rw [(transmits_iff hfits).mp hsent, hlistens.tx, htx p hp]
  rcases hgood with htaken | ⟨q, hq, hcommand⟩
  · rw [accepted_all]
    intro i hi
    rw [length_frame, length_dataOf hfits, hsize] at hi
    exact htaken i hi p hp
  · exact absurd hcommand (collect_ok (Prod.ext hok rfl) q hq)

/-- One-byte answers to every request: the world in which a broadcast returns whatever it sent. -/
theorem broadcast_returns (hpos : 0 < numPorts) (hmax : numPorts ≤ maxBroadcastPorts)
    (hsend : Sendable btype numPorts pkt) (hshort : (pkt 0).stream.size ≤ 251)
    (hcommand : ∀ p, p < numPorts →
      protocolPacketCommand (outpack btype pkt p) ≠ protocolError) (a : Nat → Nat → Nat)
    (rest : List Answer) (response : Packets) (timeout : UInt32) :
    ∃ w, w.writes = offers a (List.range numPorts) (List.range ((pkt 0).stream.size + 2)) ++ rest ∧
      ∃ packets w', protocolBroadcastTimeout numPorts pkt response btype timeout w =
        (.ok packets, w') ∧
        ∀ p, p < numPorts →
          w'.tx p = w.tx p ++ accepted a p (frame (dataOf (outpack btype pkt p))) := by
  let raw : Nat → List UInt8 := fun p => frame [protocolPacketCommand (outpack btype pkt p)]
  let w : World := { scheduled [] (answers (List.range numPorts) [fun _ => 3]) [] with
    rx := raw
    writes := offers a (List.range numPorts) (List.range ((pkt 0).stream.size + 2)) ++ rest }
  have hraw : ∀ p, p < numPorts → IsFrame (raw p) := fun p _ => isFrame_frame (by simp) (by simp)
  have hdelivered : Delivered numPorts raw ([] ++ [fun _ => 3]) := fun p _ => rfl
  have haccepts : ∀ p, p < numPorts → Accepts (outpack btype pkt p) (raw p) := by
    intro p hp
    refine ⟨rfl, hcommand p hp, rfl⟩
  have hwrites : w.writes =
    offers a (List.range numPorts) (List.range ((pkt 0).stream.size + 2)) ++ rest := rfl
  obtain ⟨w₁, hrun, hkept, -, htx⟩ :=
    broadcast_sends hpos hmax hsend hshort hwrites response timeout
  -- the clock of this world stands still
  have htime : ∀ r, r < ([] ++ [fun _ : Nat => 3]).length →
      ¬ Delivered numPorts raw (([] ++ [fun _ => 3]).take r) → ¬ Late w₁ timeout (r + 1) := by
    intro r hr _
    obtain rfl : r = 0 := Nat.lt_one_iff.mp hr
    rw [late_kept hkept]
    have hclock : ∀ i, w.clock i = 0 := fun i => @lateAt_not_mem [] i List.not_mem_nil
    have hzero : (stampAfter w 1).elapsedTime = 0 := by
      unfold stampAfter stampAfter
      rw [hclock, hclock]
      show (timeElapsed 0 (timeElapsedInit 0) 0).2.elapsedTime = 0
      decide
    unfold Late
    rw [hzero]
    exact Nat.not_lt_zero timeout.toNat
  obtain ⟨response', m, w', msg, -, htx', -, hcollect⟩ :=
    collect_completes (prepared btype numPorts pkt) response btype hpos hraw
      (fun p _ => by rw [hkept.rx]) hkept.reads htime
      (fun pre hpre hne => absurd (List.prefix_nil.mp hpre) hne) hdelivered
  rw [if_pos ((accepts_prepared numPorts pkt btype raw).mpr haccepts)] at hcollect
  refine ⟨w, rfl, _, w', hrun.trans hcollect, ?_⟩
  intro p hp
  rw [htx', htx p hp]

end Parity

/-- **A broadcast sends what plain writes send exactly when** its packets have at most 251 data
bytes and every byte is accepted at its only try, or it cannot return because a request is itself an
error packet. -/
theorem broadcast_plain_iff (numPorts : Nat) (hpos : 0 < numPorts)
    (hmax : numPorts ≤ maxBroadcastPorts) (pkt : Packets) (btype : BroadcastType)
    (hsend : Sendable btype numPorts pkt) (timeout : UInt32) (a : Nat → Nat → Nat)
    (rest : List Answer) :
    (∀ (response : Packets) (w : World),
      w.writes = offers a (List.range numPorts) (List.range ((pkt 0).stream.size + 2)) ++ rest →
      (protocolBroadcastTimeout numPorts pkt response btype timeout).Ends w
        (SendsPlain numPorts pkt btype w)) ↔
    (pkt 0).stream.size ≤ 251 ∧ (AllTaken numPorts ((pkt 0).stream.size + 2) a ∨
      ∃ p, p < numPorts ∧ protocolPacketCommand (outpack btype pkt p) = protocolError) := by
  constructor
  · intro h
    have hshort : (pkt 0).stream.size ≤ 251 := by
      by_contra hlong
      let w : World := { scheduled [] [] [] with
        writes := offers a (List.range numPorts) (List.range ((pkt 0).stream.size + 2)) ++ rest }
      obtain ⟨w', hrun, hkept⟩ := broadcast_tooLong hpos hmax hsend (Nat.lt_of_not_le hlong)
        (fun _ => zeroPacket) timeout w
      refine ((h (fun _ => zeroPacket) w rfl).elim hrun).size (hkept.log.mono ?_) rfl
      rintro e ⟨i, rfl, -⟩
      exact Event.noConfusion
    refine ⟨hshort, ?_⟩
    by_contra hbad
    obtain ⟨hmissing, hcommand⟩ := not_or.mp hbad
    push Not at hcommand
    unfold AllTaken at hmissing
    push Not at hmissing
    obtain ⟨i, hi, p, hp, hzero⟩ := hmissing
    obtain ⟨w, hwrites, packets, w', hrun, htx⟩ :=
      broadcast_returns hpos hmax hsend hshort hcommand a rest (fun _ => zeroPacket) timeout
    obtain ⟨hfits, hsize⟩ := hsend p hp
    have hsent := ((h (fun _ => zeroPacket) w hwrites).elim hrun).sent packets rfl p hp _
      ((transmits_iff hfits).mpr rfl)
    rw [htx p hp] at hsent
    refine accepted_ne ?_ (Nat.le_zero.mp hzero) (List.append_cancel_left hsent)
    rw [length_frame, length_dataOf hfits, hsize]
    exact hi
  · rintro ⟨hshort, hgood⟩ response w hwrites
    exact broadcast_sendsPlain hpos hmax hsend hshort hwrites hgood

/-- Three ports whose drivers always have room for a byte, in every world. -/
theorem broadcast_plain_three :
    let request : ProtocolPacket := (protocolPacketInit 0x05 zeroPacket).2
    ∀ (response : Packets) (w : World),
      w.writes = offers (fun _ _ => 1) (List.range 3) (List.range 3) ++ [] →
      (protocolBroadcastTimeout 3 (fun _ => request) response .broadcast 200).Ends w
        (SendsPlain 3 (fun _ => request) .broadcast w) := by
  intro request
  have hsend : Sendable .broadcast 3 fun _ => request :=
    fun _ _ => ⟨show request.stream.size ≤ 253 by decide, rfl⟩
  refine (broadcast_plain_iff 3 (by decide) (by decide) (fun _ => request) .broadcast hsend 200
    (fun _ _ => 1) []).mpr ⟨by decide, .inl ?_⟩
  intro i _ p _
  exact Nat.one_pos

/-- A driver that is full at the second byte: the broadcast returns and the peer was sent two bytes
of three. And a packet that a plain write transmits and a broadcast rejects. -/
theorem broadcast_drops :
    let request : ProtocolPacket := (protocolPacketInit 0x05 zeroPacket).2
    let long : ProtocolPacket := { zeroPacket with
      stream := { data := some 2, capacity := 253, size := 252 } }
    let w := { scheduled [0x03, 0x05, 0x05] [.bytes 3] [] with
      writes := [.bytes 1, .bytes 0, .bytes 1] }
    let call := protocolBroadcast 1 (fun _ => request) (fun _ => zeroPacket) .broadcast w
    call.1.isOk = true ∧ call.2.tx 0 = [0x03, 0x05] ∧ Transmits request [0x03, 0x05, 0x05] ∧
      ¬ SendsPlain 1 (fun _ => request) .broadcast w call.1 call.2 ∧
      (∃ sent, Transmits long sent) ∧
      (protocolBroadcast 1 (fun _ => long) (fun _ => zeroPacket) .broadcast w).1 =
        .error (.error "packet data too long") := by
  intro request long w call
  have hok : call.1.isOk = true := by decide +kernel
  have htx : call.2.tx 0 = [0x03, 0x05] := by decide +kernel
  have hrequest : request.stream.size ≤ 253 := by decide
  have htransmits : Transmits request [0x03, 0x05, 0x05] := by
    rw [transmits_iff hrequest]
    decide +kernel
  refine ⟨hok, htx, htransmits, ?_, ?_, ?_⟩
  · intro h
    obtain ⟨packets, hpackets⟩ := exists_of_isOk hok
    have hsent := h.sent packets hpackets 0 Nat.one_pos _ htransmits
    rw [htx] at hsent
    exact absurd hsent (by decide)
  · exact ⟨_, (transmits_iff (show long.stream.size ≤ 253 by decide)).mpr rfl⟩
  · have hsend : Sendable .broadcast 1 fun _ => long :=
      fun _ _ => ⟨show long.stream.size ≤ 253 by decide, rfl⟩
    obtain ⟨w', hrun, -⟩ := broadcast_tooLong (by decide) (by decide) hsend
      (show 251 < long.stream.size by decide) (fun _ => zeroPacket) 200 w
    exact congrArg Prod.fst hrun

end Nuhal.Broadcast
