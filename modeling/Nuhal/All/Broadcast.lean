import Mathlib.Logic.Function.Basic
import Nuhal.All.Protocol

/-!
# Broadcasts (`nuhal_all/src/protocol.c:333-478`)

`protocol_broadcast_timeout` sends a packet to up to three ports, one byte to each port in turn, and
then reads one packet from each, up to twelve bytes from each port in turn, until all of them are
complete.

* The handles `ports[0], ports[1], …` are different ports; port `p` of the model is `ports[p]`, and
  an array indexed by ports is a function of `p`.
* `pkt` and `response` are different arrays. The packets that the function changes are returned;
  `response == NULL` uses packets of its own, and the caller of the model passes those.
* The two loops over bytes and ports are recursions over lists of indices, the polling loop is
  `Run.iterate` over one round. A round uses up at least one answer of the schedule, so its length
  is fuel enough.
* `index` and `length` are `uint8_t`: the number of bytes read is added modulo 256.
-/

namespace Nuhal.All

open Nuhal.Lib

/-- `MAX_BROADCAST_PORTS`. -/
abbrev maxBroadcastPorts : Nat := 3

/-- `enum protocol_broadcast_type`. -/
inductive BroadcastType where
  | broadcast
  | anycast
  deriving Repr, DecidableEq

/-- `PROTOCOL_TIMEOUT_DEFAULT`. -/
abbrev protocolTimeoutDefault : UInt32 := 200

/-- One packet for each port. -/
abbrev Packets := Nat → ProtocolPacket

/-- The packet that goes to port `p`, `outpack[p]`. -/
def outpack (btype : BroadcastType) (pkt : Packets) (p : Nat) : ProtocolPacket :=
  match btype with
  | .broadcast => pkt 0
  | .anycast => pkt p

/-- The headers of the packets `i` of a list (`protocol.c:358-379`); `length` is that of the
first. -/
def initHeaders (btype : BroadcastType) (length : UInt8) : List Nat → Packets → OnPlatform Packets
  | [], pkt => pure pkt
  | i :: rest, pkt =>
    match btype with
    | .broadcast => initHeaders btype length rest pkt
    | .anycast => do
      let (lengthI, packet) ← protocolHeaderInit (pkt i)
      if lengthI ≠ length then error "packet length mismatch"
      initHeaders btype length rest (Function.update pkt i packet)

/-- Byte `i` of every packet, to one port after the other; nobody looks at what was accepted. -/
def sendByte (packets : Packets) (i : Nat) : List Nat → OnPlatform Unit
  | [] => pure ()
  | p :: rest => do
    let b ← loadByte (packets p)._data i
    let _ ← uartWriteNonblock p [b]
    sendByte packets i rest

/-- The send loop: the bytes at the indices of a list. -/
def sendBytes (packets : Packets) (ports : List Nat) : List Nat → OnPlatform Unit
  | [] => pure ()
  | i :: rest => do
    sendByte packets i ports
    sendBytes packets ports rest

/-- The variables of the polling loop. -/
structure Receiving where
  inPacket : Packets
  length : Nat → UInt8
  index : Nat → UInt8
  lengthSet : Nat → Bool
  elapsed : TimeElapsed

/-- `uart_read_nonblock(ports[p], &in_packet[p]._data[index[p]], 12)` for every port. -/
def readPorts : List Nat → Receiving → OnPlatform Receiving
  | [], st => pure st
  | p :: rest, st => do
    let (k, mem) ← uartReadNonblock p (st.inPacket p)._data (st.index p).toNat 12
    readPorts rest { st with
      inPacket := Function.update st.inPacket p { st.inPacket p with _data := mem }
      index := Function.update st.index p (st.index p + UInt8.ofNat k) }

/-- Take over the length byte of every port that has one now. -/
def setLengths : List Nat → Receiving → Receiving
  | [], st => st
  | p :: rest, st =>
    if !st.lengthSet p && st.index p > 0 then
      setLengths rest { st with
        length := Function.update st.length p (lengthByte (st.inPacket p))
        lengthSet := Function.update st.lengthSet p true }
    else setLengths rest st

/-- `keep_looping` after a round. -/
def keepLooping (ports : List Nat) (st : Receiving) : Bool :=
  ports.any fun p => st.index p < st.length p

/-- One round of the polling loop. -/
def receiveRound (ports : List Nat) (timeout : UInt32) (st : Receiving) :
    OnPlatform (Receiving ⊕ Receiving) := do
  let st ← readPorts ports st
  let st := setLengths ports st
  let (elapsed, stamp) ← timeElapsedMs st.elapsed
  let st := { st with elapsed := stamp }
  if elapsed > timeout then
    record .expired
    error "timeout"
  if keepLooping ports st then return .inl st
  return .inr st

/-- `in_packet[p]` with its stream initialised. -/
def initPacket (packet : ProtocolPacket) : ProtocolPacket :=
  (protocolPacketStreamInit packet).2

/-- The polling loop (`protocol.c:395-450`). -/
def receive (ports : List Nat) (response : Packets) (timeout : UInt32) : OnPlatform Receiving := do
  let elapsed ← timeElapsedMsInit
  fun w => Run.iterate .pending (receiveRound ports timeout) (w.reads.length + 1)
    { inPacket := fun p => if p ∈ ports then initPacket (response p) else response p
      length := fun _ => 1
      index := fun _ => 0
      lengthSet := fun _ => false
      elapsed } w

/-- The verification (`protocol.c:452-467`) of the ports of a list. -/
def verifyResponses (packets : Packets) (length : Nat → UInt8) :
    List Nat → Packets → OnPlatform Packets
  | [], inPacket => pure inPacket
  | p :: rest, inPacket => do
    if (length p).toNat < headerBytes then error "invalid length"
    let packet ← protocolVerifyChecksum (inPacket p) (length p - 2)
    protocolValidateResponse (packets p) packet
    verifyResponses packets length rest (Function.update inPacket p packet)

/-- `protocol_broadcast_timeout`: the packets `pkt` and `response` after it. -/
def protocolBroadcastTimeout (numPorts : Nat) (pkt response : Packets) (btype : BroadcastType)
    (timeout : UInt32) : OnPlatform (Packets × Packets) := do
  if numPorts > maxBroadcastPorts ∨ numPorts = 0 then error "invalid number of ports"
  let ports := List.range numPorts
  let (length, packet) ← protocolHeaderInit (pkt 0)
  let pkt ← initHeaders btype length ports.tail (Function.update pkt 0 packet)
  if length.toNat > packetMaxLength - headerBytes then error "packet data too long"
  sendBytes (outpack btype pkt) ports (List.range length.toNat)
  let st ← receive ports response timeout
  let response ← verifyResponses (outpack btype pkt) st.length ports st.inPacket
  return (pkt, response)

/-- `protocol_broadcast`. -/
def protocolBroadcast (numPorts : Nat) (pkt response : Packets) (btype : BroadcastType) :
    OnPlatform (Packets × Packets) :=
  protocolBroadcastTimeout numPorts pkt response btype protocolTimeoutDefault

end Nuhal.All
