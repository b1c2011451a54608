import Nuhal.All.Uart

/-!
# The packet protocol (`nuhal_all/src/protocol.c`)

A packet is a block of 255 bytes together with the stream that fills or empties it, so a
`ProtocolPacket` is a `Buffered 255`. Byte 0 is the length `N` of the whole packet, byte 1 the
checksum, bytes `2 … N - 1` the data, the first of which is the command (`protocol.h:3-29`).

* A packet that a function changes through a pointer is returned by it. `out == NULL` makes the
  functions use a packet of their own (`temp`, `devnull`); in the model the caller passes it.
  Other `NULL` arguments do not arise.
* `protocol_checksum` counts a `uint8_t` up to the length byte, so its loop makes at most 256
  rounds: `checksumLoop` has that as its fuel. An index past the packet is `Halt.undefined`.
* `dataLength` is the `uint32_t` subtraction of `protocol.c:237-240`, and `headerTimeout` and
  `bodyTimeout` the two deadlines of a read, all modulo `2 ^ 32`.

The broadcast functions (`protocol.c:333-478`) are in `Nuhal.All.Broadcast`. `protocol_open` only
calls the platform and is left out.
-/

namespace Nuhal.All

open Nuhal.Lib

/-- `PROTOCOL_PACKET_MAX_LENGTH`. -/
abbrev packetMaxLength : Nat := 255

/-- `struct protocol_packet`. -/
abbrev ProtocolPacket := Buffered packetMaxLength

/-- `HEADER_BYTES`. -/
abbrev headerBytes : Nat := 2

/-- `TIMEOUT_MS_PER_BYTE`. -/
abbrev timeoutMsPerByte : UInt32 := 10

/-- `TIMEOUT_MS_BASE`. -/
abbrev timeoutMsBase : UInt32 := 100

/-- `PROTOCOL_ERROR`. -/
abbrev protocolError : UInt8 := 0xFF

/-- `struct protocol_packet out = {0}`. -/
def zeroPacket : ProtocolPacket := ⟨⟨none, 0, 0⟩, Vector.replicate packetMaxLength 0⟩

/-- `packet->_data[LENGTH_INDEX]`. -/
def lengthByte (packet : ProtocolPacket) : UInt8 := packet._data[0]

/-- `packet->_data[CHECKSUM_INDEX]`. -/
def checksumByte (packet : ProtocolPacket) : UInt8 := packet._data[1]

/-- A stream function applied to the packet's own stream. -/
def onPacket (packet : ProtocolPacket) (m : OnStream packetMaxLength Unit) :
    OnPlatform ProtocolPacket := fun w =>
  match m packet with
  | (.ok (), packet') => (.ok packet', w)
  | (.error e, _) => (.error e, w)

/-- `for(uint8_t i = …; i != _data[LENGTH_INDEX]; ++i) chsum += _data[i];` -/
def checksumLoop (data : Vector UInt8 packetMaxLength) (length : UInt8) :
    Nat → UInt8 → UInt8 → OnPlatform UInt8
  | 0, _, _ => Run.stop .pending
  | fuel + 1, i, chsum => do
    if i = length then return chsum
    let b ← loadByte data i.toNat
    checksumLoop data length fuel (i + 1) (chsum + b)

def protocolChecksum (packet : ProtocolPacket) : OnPlatform UInt8 :=
  if lengthByte packet = 0 then pure 0xCC
  else checksumLoop packet._data (lengthByte packet) 256 2 0

/-- `protocol_header_init`: the length it returns, and the packet with its header set. -/
def protocolHeaderInit (packet : ProtocolPacket) : OnPlatform (UInt8 × ProtocolPacket) := do
  let packet := { packet with
    _data := packet._data.set 0 (UInt8.ofNat (packet.stream.size + headerBytes)) }
  let checksum ← protocolChecksum packet
  let packet : ProtocolPacket :=
    { stream := { packet.stream with capacity := packet.stream.size }
      _data := packet._data.set 1 checksum }
  return (lengthByte packet, packet)

def protocolVerifyChecksum (out : ProtocolPacket) (dataLength : UInt8) :
    OnPlatform ProtocolPacket := do
  let checksum ← protocolChecksum out
  if checksum ≠ checksumByte out then error "invalid checksum"
  onPacket out do
    bytestreamInit headerBytes dataLength.toNat
    if lengthByte out > 0 then
      let _ ← bytestreamExtractU8

def protocolPacketCommand (pkt : ProtocolPacket) : UInt8 := pkt._data[2]

def protocolValidateResponse (request response : ProtocolPacket) : OnPlatform Unit := do
  let reqCmd := protocolPacketCommand request
  let respCmd := protocolPacketCommand response
  if protocolError = respCmd then error "Received an ERROR from downstream."
  else if reqCmd ≠ respCmd then error "Request/response mismatch."

def protocolPacketStreamInit : OnStream packetMaxLength Unit :=
  bytestreamInit headerBytes (packetMaxLength - headerBytes)

def protocolPacketInit (command : UInt8) : OnStream packetMaxLength Unit := do
  protocolPacketStreamInit
  bytestreamInjectU8 command

/-- `protocol_write_block`: the packet with the header it was sent with. -/
def protocolWriteBlock (port : Nat) (packet : ProtocolPacket) : OnPlatform ProtocolPacket := do
  let (length, packet) ← protocolHeaderInit packet
  let timeout := length.toUInt32 * timeoutMsPerByte + timeoutMsBase
  let _ ← uartWriteBlock port (packet._data.toList.take length.toNat) timeout
  return packet

/-- The deadline of the header's read (`protocol.c:230-231`). -/
def headerTimeout (timeout : UInt32) : UInt32 :=
  if timeout = 0 then 0 else timeout + timeoutMsPerByte * 2

/-- `data_length` (`protocol.c:237-240`). -/
def dataLength (out : ProtocolPacket) : UInt32 :=
  (if lengthByte out = 0 then 2 else (lengthByte out).toUInt32) - 2

/-- The deadline of the body's read (`protocol.c:247`). -/
def bodyTimeout (dataLength timeout : UInt32) : UInt32 := timeoutMsPerByte * dataLength + timeout

/-- `protocol_read_block_error`: its result, and the packet `out` after it. -/
def protocolReadBlockError (port : Nat) (out : ProtocolPacket) (timeout : UInt32)
    (timeoutError : Bool) : OnPlatform (Bool × ProtocolPacket) := do
  let out ← onPacket out protocolPacketStreamInit
  let (_, mem) ← uartReadBlock port out._data 0 headerBytes (headerTimeout timeout) .none
  let out := { out with _data := mem }
  let (read, mem) ← uartReadBlockError port out._data headerBytes (dataLength out).toNat
    (bodyTimeout (dataLength out) timeout) .none timeoutError
  let out := { out with _data := mem }
  if read = 0 then return (false, out)
  else
    let out ← protocolVerifyChecksum out (dataLength out).toUInt8
    return (true, out)

def protocolReadBlock (port : Nat) (out : ProtocolPacket) (timeout : UInt32) :
    OnPlatform ProtocolPacket := do
  let (_, out) ← protocolReadBlockError port out timeout true
  return out

def protocolReadNonblock (port : Nat) (out : ProtocolPacket) :
    OnPlatform (Bool × ProtocolPacket) := do
  if ← uartDataAvailable then
    let out ← protocolReadBlock port out timeoutMsBase
    return (true, out)
  else return (false, out)

/-- `protocol_request_timeout`: its result, and the packets `in` and `out` after it. -/
def protocolRequestTimeout (port : Nat) (request out : ProtocolPacket) (timeoutMs : UInt32)
    (timeoutError : Bool) : OnPlatform (Bool × ProtocolPacket × ProtocolPacket) := do
  let request ← protocolWriteBlock port request
  let (success, out) ← protocolReadBlockError port out timeoutMs timeoutError
  if success then
    protocolValidateResponse request out
    return (true, request, out)
  else
    if timeoutError then error "timeout"
    return (false, request, out)

def protocolRequest (port : Nat) (request out : ProtocolPacket) :
    OnPlatform (ProtocolPacket × ProtocolPacket) := do
  let (_, request, out) ← protocolRequestTimeout port request out timeoutMsBase true
  return (request, out)

def protocolErrorResponse (port : Nat) : OnPlatform Unit := do
  let out ← onPacket zeroPacket (protocolPacketInit protocolError)
  let _ ← protocolWriteBlock port out

end Nuhal.All
