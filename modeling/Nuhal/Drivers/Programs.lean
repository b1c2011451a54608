import Nuhal.All.Programs
import Nuhal.Link.Frame

/-!
# The programs are the functions (`nuhal_all/src/protocol.c:65-331`, `uart.c:103-155`)

The programs of `All/Programs` are on a `World` the functions of `All/Protocol` and of `All/Uart`
(`onPlatform_…`). A function that is called aside uses no port: it does the same in every world,
but for the log (`UsesNoPort`).
-/

namespace Nuhal.Drivers

open Nuhal.Lib Nuhal.All

variable {α β : Type} {port : Nat}

/-! ## Sequencing -/

/-- A program and what follows it run one after the other. -/
theorem onPlatform_bind (client : Client α) (f : α → Client β) :
    (client >>= f).onPlatform port = client.onPlatform port >>= fun a => (f a).onPlatform port := by
  induction client with
  | done a => rfl
  | stop e => rfl
  | record e next ih =>
    show (record e >>= fun _ => (next >>= f).onPlatform port) = _
    rw [ih]
    exact (Run.bind_assoc _ _ _).symm
  | write data timeout next ih =>
    show (uartWriteBlock port data timeout >>= fun written =>
      (next written >>= f).onPlatform port) = _
    simp only [ih]
    exact (Run.bind_assoc _ _ _).symm
  | read mem off len timeout term timeoutError next ih =>
    show (uartReadBlockError port mem off len timeout term timeoutError >>= fun got =>
      (next got >>= f).onPlatform port) = _
    simp only [ih]
    exact (Run.bind_assoc _ _ _).symm

/-- A program of one write is `uart_write_block`. -/
theorem onPlatform_write (data : List UInt8) (timeout : UInt32) :
    (Client.write data timeout .done).onPlatform port = uartWriteBlock port data timeout :=
  Run.bind_pure _

/-- A program of one read is `uart_read_block_error`. -/
theorem onPlatform_read {n : Nat} (mem : Vector UInt8 n) (off len : Nat) (timeout : UInt32)
    (term : UartTerm) (timeoutError : Bool) :
    (Client.read mem off len timeout term timeoutError .done).onPlatform port =
      uartReadBlockError port mem off len timeout term timeoutError :=
  Run.bind_pure _

/-! ## What uses no port -/

/-- A function that does the same in every world and only adds to the log. -/
def UsesNoPort (m : OnPlatform α) : Prop :=
  ∀ w, m w = ((m idle).1, { w with log := w.log ++ (m idle).2.log })

/-- It is enough that the result and the events are the same in every world. -/
theorem usesNoPort_of {m : OnPlatform α} (r : Except Halt α) (events : List Event)
    (h : ∀ w, m w = (r, { w with log := w.log ++ events })) : UsesNoPort m := by
  intro w
  rw [h w, h idle]
  rfl

/-- What leaves the world as it is uses no port. -/
theorem usesNoPort_quiet {m : OnPlatform α} (r : Except Halt α) (h : ∀ w, m w = (r, w)) :
    UsesNoPort m :=
  usesNoPort_of r [] fun w => by rw [h w, List.append_nil]

namespace UsesNoPort

theorem pure (a : α) : UsesNoPort (Pure.pure a) := usesNoPort_quiet (.ok a) fun _ => rfl

theorem stop (e : Halt) : UsesNoPort (Run.stop e : OnPlatform α) :=
  usesNoPort_quiet (.error e) fun _ => rfl

/-- The events of the second part follow those of the first, and an error ends both. -/
theorem bind {m : OnPlatform α} {f : α → OnPlatform β} (hm : UsesNoPort m)
    (hf : ∀ a, UsesNoPort (f a)) : UsesNoPort (m >>= f) := by
  rcases hidle : m idle with ⟨r, w₁⟩
  cases r with
  | ok a =>
    refine usesNoPort_of (f a idle).1 (w₁.log ++ (f a idle).2.log) fun w => ?_
    have hok : m w = (.ok a, { w with log := w.log ++ w₁.log }) := by rw [hm w, hidle]
    rw [Run.bind_of_ok hok, hf a, List.append_assoc]
  | error e =>
    refine usesNoPort_of (.error e) w₁.log fun w => ?_
    have herror : m w = (.error e, { w with log := w.log ++ w₁.log }) := by rw [hm w, hidle]
    rw [Run.bind_of_error herror]

theorem ite {c : Prop} [Decidable c] {m p : OnPlatform α} (hm : UsesNoPort m)
    (hp : UsesNoPort p) : UsesNoPort (if c then m else p) := by
  split
  · exact hm
  · exact hp

end UsesNoPort

/-- A load is logged and reads the block, which is no part of the world. -/
theorem usesNoPort_loadByte {n : Nat} (mem : Vector UInt8 n) (i : Nat) :
    UsesNoPort (loadByte mem i) := by
  cases hmem : mem[i]? with
  | some b =>
    refine usesNoPort_of (.ok b) [.load i] fun w => ?_
    simp only [loadByte, hmem, World.logged]
  | none =>
    refine usesNoPort_of (.error .undefined) [.load i] fun w => ?_
    simp only [loadByte, hmem, World.logged]

/-- A stream function works on the packet alone. -/
theorem usesNoPort_onPacket (packet : ProtocolPacket) (m : OnStream packetMaxLength Unit) :
    UsesNoPort (onPacket packet m) := by
  rcases hrun : m packet with ⟨e | a, packet'⟩
  · refine usesNoPort_quiet (.error e) fun w => ?_
    simp only [onPacket, hrun]
  · refine usesNoPort_quiet (.ok packet') fun w => ?_
    simp only [onPacket, hrun]

/-- Induction on the rounds: each loads one byte. -/
theorem usesNoPort_checksumLoop (data : Vector UInt8 packetMaxLength) (length : UInt8)
    (fuel : Nat) (i chsum : UInt8) : UsesNoPort (checksumLoop data length fuel i chsum) := by
  induction fuel generalizing i chsum with
  | zero => exact UsesNoPort.stop _
  | succ fuel ih =>
    exact UsesNoPort.ite (UsesNoPort.pure _)
      ((usesNoPort_loadByte data i.toNat).bind fun b => ih _ _)

theorem usesNoPort_protocolChecksum (packet : ProtocolPacket) :
    UsesNoPort (protocolChecksum packet) :=
  UsesNoPort.ite (UsesNoPort.pure _) (usesNoPort_checksumLoop _ _ _ _ _)

theorem usesNoPort_protocolHeaderInit (packet : ProtocolPacket) :
    UsesNoPort (protocolHeaderInit packet) :=
  (usesNoPort_protocolChecksum _).bind fun _ => UsesNoPort.pure _

/-- Its error, if any, comes before the stream is touched. -/
theorem usesNoPort_protocolVerifyChecksum (out : ProtocolPacket) (dataLength : UInt8) :
    UsesNoPort (protocolVerifyChecksum out dataLength) :=
  (usesNoPort_protocolChecksum out).bind fun _ =>
    UsesNoPort.ite (UsesNoPort.stop _ |>.bind fun _ => usesNoPort_onPacket _ _)
      (usesNoPort_onPacket _ _)

theorem usesNoPort_protocolValidateResponse (request response : ProtocolPacket) :
    UsesNoPort (protocolValidateResponse request response) :=
  UsesNoPort.ite (UsesNoPort.stop _) (UsesNoPort.ite (UsesNoPort.stop _) (UsesNoPort.pure _))

/-- Events that are left in the log first are there when the rest runs. -/
theorem onPlatform_recordAll (events : List Event) (client : Client α) (w : World) :
    (Client.recordAll events client).onPlatform port w =
      client.onPlatform port { w with log := w.log ++ events } := by
  induction events generalizing w with
  | nil => rw [List.append_nil]; rfl
  | cons e events ih =>
    have hrecord : record e w = (.ok (), w.logged e) := rfl
    show (record e >>= fun _ => (Client.recordAll events client).onPlatform port) w = _
    rw [Run.bind_of_ok hrecord, ih]
    unfold World.logged
    rw [List.append_assoc]
    rfl

/-- **What uses no port can be called aside.** -/
theorem onPlatform_aside {m : OnPlatform α} (h : UsesNoPort m) :
    (Client.aside m).onPlatform port = m := by
  funext w
  unfold Client.aside
  rw [onPlatform_recordAll, h w]
  cases (m idle).1 <;> rfl

/-- A message ends a program as it ends the function. -/
theorem onPlatform_error (msg : String) :
    (Client.aside (error msg)).onPlatform port = (error msg : OnPlatform α) :=
  onPlatform_aside (UsesNoPort.stop _)

/-! ## Formatted text -/

/-- The test of the last byte looks at the buffer. -/
theorem usesNoPort_lastRead {n : Nat} (mem : Vector UInt8 n) (off read : Nat) :
    UsesNoPort (lastRead mem off read) := by
  unfold lastRead
  cases (if off + read = 0 then none else mem[off + read - 1]?) with
  | some b => exact usesNoPort_of (.ok b) [.terminator read] fun _ => rfl
  | none => exact usesNoPort_of (.error .undefined) [.terminator read] fun _ => rfl

/-- `uart_printf` (`uart.c:103-130`): the error comes before the first write. -/
theorem onPlatform_uartPrintf (formatting : Formatting) :
    (Client.uartPrintf formatting).onPlatform port = uartPrintf port formatting := by
  unfold Client.uartPrintf uartPrintf
  by_cases hlen : formatting.len < 0
  · rw [if_pos hlen, if_pos hlen]
    exact onPlatform_error _
  · rw [if_neg hlen, if_neg hlen]
    cases hfits : printfFits formatting.len <;> simp only [onPlatform_bind, onPlatform_write] <;>
      rfl

/-- `uart_scanf` up to `vsscanf` (`uart.c:132-155`), for every byte in front of its buffer. -/
theorem onPlatform_uartScanfLine (front : UInt8) :
    (Client.uartScanfLine front).onPlatform port = uartScanfLine front port := by
  unfold Client.uartScanfLine uartScanfLine uartReadBlock
  simp only [onPlatform_bind, onPlatform_read]
  congr 1
  funext (len, buffer)
  simp only [onPlatform_aside (usesNoPort_lastRead _ _ _)]
  congr 1
  funext last
  by_cases hlast : last ≠ 0x0D ∧ last ≠ 0x0A
  · simp only [if_pos hlast, onPlatform_bind, onPlatform_error]
    rfl
  · simp only [if_neg hlast]
    rfl

/-! ## The functions of the protocol -/

/-- `protocol_write_block`: the header is set aside, then one write. -/
theorem onPlatform_protocolWriteBlock (packet : ProtocolPacket) :
    (Client.protocolWriteBlock packet).onPlatform port = protocolWriteBlock port packet := by
  unfold Client.protocolWriteBlock protocolWriteBlock
  simp only [onPlatform_bind, onPlatform_aside (usesNoPort_protocolHeaderInit packet),
    onPlatform_write]
  rfl

/-- `protocol_read_block_error`: two reads, with the stream and the checksum aside. -/
theorem onPlatform_protocolReadBlockError (out : ProtocolPacket) (timeout : UInt32)
    (timeoutError : Bool) :
    (Client.protocolReadBlockError out timeout timeoutError).onPlatform port =
      protocolReadBlockError port out timeout timeoutError := by
  unfold Client.protocolReadBlockError protocolReadBlockError uartReadBlock
  simp only [onPlatform_bind, onPlatform_aside (usesNoPort_onPacket _ _), onPlatform_read]
  congr 1
  funext out
  congr 1
  funext (_, mem)
  congr 1
  funext (read, mem)
  by_cases hread : read = 0
  · simp only [if_pos hread]
    rfl
  · simp only [if_neg hread, onPlatform_bind,
      onPlatform_aside (usesNoPort_protocolVerifyChecksum _ _)]
    rfl

theorem onPlatform_protocolReadBlock (out : ProtocolPacket) (timeout : UInt32) :
    (Client.protocolReadBlock out timeout).onPlatform port =
      protocolReadBlock port out timeout := by
  unfold Client.protocolReadBlock protocolReadBlock
  rw [onPlatform_bind, onPlatform_protocolReadBlockError]
  rfl

/-- `protocol_request_timeout`: a packet written, one read and the two compared. -/
theorem onPlatform_protocolRequestTimeout (request out : ProtocolPacket) (timeoutMs : UInt32)
    (timeoutError : Bool) :
    (Client.protocolRequestTimeout request out timeoutMs timeoutError).onPlatform port =
      protocolRequestTimeout port request out timeoutMs timeoutError := by
  unfold Client.protocolRequestTimeout protocolRequestTimeout
  simp only [onPlatform_bind, onPlatform_protocolWriteBlock, onPlatform_protocolReadBlockError]
  congr 1
  funext request
  congr 1
  funext (success, out)
  cases success with
  | true =>
    simp only [if_true, onPlatform_bind,
      onPlatform_aside (usesNoPort_protocolValidateResponse _ _)]
    rfl
  | false =>
    cases timeoutError with
    | true =>
      show (Client.aside (error "timeout") >>= fun _ => _).onPlatform port = _
      rw [onPlatform_bind, onPlatform_error]
      rfl
    | false => rfl

end Nuhal.Drivers
