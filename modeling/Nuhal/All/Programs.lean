import Nuhal.All.Driver
import Nuhal.All.Protocol

/-!
# The packet protocol and lines of text on a platform's driver

`All/Protocol` has the packet functions (`nuhal_all/src/protocol.c:65-331`) on a `World`, and
`All/Uart` has `uart_printf` and `uart_scanf` (`uart.c:103-155`). Here the ones that use a port are
programs (`Client`), which run on any driver. What they do between two uses of the port (checksums,
headers, the stream of a packet, the last byte of a line) uses none, and is taken from there
(`aside`).
-/

namespace Nuhal.All

open Nuhal.Lib

variable {α : Type}

/-- A world in which nothing happens. -/
def idle : World where
  rx _ := []
  tx _ := []
  reads := []
  writes := []
  clock _ := 0
  ticks := 0
  period := 0
  wait _ := .ok true
  available _ := .ok false
  log := []

namespace Client

/-- Leave events in the log. -/
def recordAll (events : List Event) (client : Client α) : Client α := events.foldr .record client

/-- What uses no port. -/
def aside (m : OnPlatform α) : Client α :=
  recordAll (m idle).2.log
    (match (m idle).1 with
      | .ok a => .done a
      | .error e => .stop e)

def protocolWriteBlock (packet : ProtocolPacket) : Client ProtocolPacket := do
  let (length, packet) ← aside (protocolHeaderInit packet)
  let timeout := length.toUInt32 * timeoutMsPerByte + timeoutMsBase
  let _ ← Client.write (packet._data.toList.take length.toNat) timeout .done
  return packet

def protocolReadBlockError (out : ProtocolPacket) (timeout : UInt32) (timeoutError : Bool) :
    Client (Bool × ProtocolPacket) := do
  let out ← aside (onPacket out protocolPacketStreamInit)
  let (_, mem) ← Client.read out._data 0 headerBytes (headerTimeout timeout) .none false .done
  let out := { out with _data := mem }
  let (count, mem) ← Client.read out._data headerBytes (dataLength out).toNat
    (bodyTimeout (dataLength out) timeout) .none timeoutError .done
  let out := { out with _data := mem }
  if count = 0 then return (false, out)
  else
    let out ← aside (protocolVerifyChecksum out (dataLength out).toUInt8)
    return (true, out)

def protocolReadBlock (out : ProtocolPacket) (timeout : UInt32) : Client ProtocolPacket := do
  let (_, out) ← protocolReadBlockError out timeout true
  return out

def protocolRequestTimeout (request out : ProtocolPacket) (timeoutMs : UInt32)
    (timeoutError : Bool) : Client (Bool × ProtocolPacket × ProtocolPacket) := do
  let request ← protocolWriteBlock request
  let (success, out) ← protocolReadBlockError out timeoutMs timeoutError
  if success then
    aside (protocolValidateResponse request out)
    return (true, request, out)
  else
    if timeoutError then aside (error "timeout")
    return (false, request, out)

def uartPrintf (formatting : Formatting) : Client Nat := do
  if formatting.len < 0 then aside (error "printf encoding error")
  else
    let result ← Client.write (formatting.buffer.toList.take (realLen formatting.len))
      (printfTimeout formatting.len) .done
    if !printfFits formatting.len then
      let _ ← Client.write warningArray (UInt32.ofNat (warningArray.length / 2)) .done
      return result
    else return result

/-- `uart_scanf` up to its call of `vsscanf`. -/
def uartScanfLine (front : UInt8) : Client (Nat × Vector UInt8 1024) := do
  let (len, mem) ← Client.read (scanfBuffer front) 1 1024 0 .crOrLf false .done
  let last ← aside (lastRead mem 1 len)
  if last ≠ 0x0D ∧ last ≠ 0x0A then
    aside (error "uart_scanf input too long")
  return (len, mem.drop 1)

end Client

end Nuhal.All
