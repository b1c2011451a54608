import Nuhal.All.Error
import Nuhal.Lib.Memory
import Nuhal.Lib.Run

/-!
# The bytestream (`nuhal_all/src/bytestream.c`)

A `Bytestream` is a cursor into a block of memory. `data` is the place in the block its first byte
lies at (`none` for `NULL`), so a packet's stream, which points at `_data + 2` of the packet
itself, and a stream over a buffer of its own are the same thing: a `Buffered` block. Every
assignment to `bs->data[i]` is a `setData` and every use of it a `getData`; outside the block both
are `Halt.undefined`.

`verifyArgs` compares `size + len` with `capacity` in `size_t`. Both are at most the length of an
object in memory, so the sum does not wrap and the model uses `Nat`. A float travels as its 32-bit
pattern (the `memcpy` of `bytestream_extract_f` and `bytestream_inject_f`).

The string and array functions (`bytestream.c:131-184`) are not used by the packets and records
below and are left to a module of their own.
-/

namespace Nuhal.All

open Nuhal.Lib

/-- `struct bytestream`: where the data starts, how many bytes it has, how many are used. -/
structure Bytestream where
  data : Option Nat
  capacity : Nat
  size : Nat
  deriving Repr, DecidableEq

/-- A bytestream and the block of memory it points into. -/
structure Buffered (n : Nat) where
  stream : Bytestream
  _data : Vector UInt8 n

variable {n : Nat}

/-- A function that works on a bytestream. -/
abbrev OnStream (n : Nat) (α : Type) := Run (Buffered n) Halt α

/-- `error(FILE_LINE, msg)`. -/
def error {σ α : Type} (msg : String) : Run σ Halt α := Run.stop (.error msg)

/-- `bs->size`. -/
def streamSize : OnStream n Nat := fun s => (.ok s.stream.size, s)

/-- `bs->size += len`. -/
def advance (len : Nat) : OnStream n Unit :=
  Run.modify fun s => { s with stream := { s.stream with size := s.stream.size + len } }

/-- `bs->data[i] = b`. -/
def setData (i : Nat) (b : UInt8) : OnStream n Unit := fun s =>
  match s.stream.data.bind fun base => store s._data (base + i) [b] with
  | some v => (.ok (), { s with _data := v })
  | none => (.error .undefined, s)

/-- `bs->data[i]`. -/
def getData (i : Nat) : OnStream n UInt8 := fun s =>
  match s.stream.data.bind fun base => s._data[base + i]? with
  | some b => (.ok b, s)
  | none => (.error .undefined, s)

/-- `verify_args`. -/
def verifyArgs (len : Nat) : OnStream n Unit := fun s =>
  if s.stream.data = none then error "NULL ptr" s
  else if s.stream.size + len > s.stream.capacity then error "overflow" s
  else (.ok (), s)

def bytestreamInit (data len : Nat) : OnStream n Unit :=
  Run.modify fun s => { s with stream := { data := some data, capacity := len, size := 0 } }

def bytestreamInjectU8 (u8 : UInt8) : OnStream n Unit := do
  verifyArgs 1
  let size ← streamSize
  setData size u8
  advance 1

def bytestreamExtractU8 : OnStream n UInt8 := do
  verifyArgs 1
  let index ← streamSize
  advance 1
  getData index

def bytestreamExtractU16 : OnStream n UInt16 := do
  verifyArgs 2
  let size ← streamSize
  let lo ← getData (size + 1)
  let hi ← getData size
  advance 2
  return lo.toUInt16 ||| (hi.toUInt16 <<< 8)

def bytestreamInjectU16 (u16 : UInt16) : OnStream n Unit := do
  verifyArgs 2
  let size ← streamSize
  setData (size + 1) (u16 &&& 0x00FF).toUInt8
  setData size ((u16 &&& 0xFF00) >>> 8).toUInt8
  advance 2

def bytestreamExtractU32 : OnStream n UInt32 := do
  verifyArgs 4
  let size ← streamSize
  let b3 ← getData (size + 3)
  let b2 ← getData (size + 2)
  let b1 ← getData (size + 1)
  let b0 ← getData size
  advance 4
  return b3.toUInt32 ||| (b2.toUInt32 <<< 8) ||| (b1.toUInt32 <<< 16) ||| (b0.toUInt32 <<< 24)

def bytestreamInjectU32 (u32 : UInt32) : OnStream n Unit := do
  verifyArgs 4
  let size ← streamSize
  setData (size + 3) (u32 &&& 0x000000FF).toUInt8
  setData (size + 2) ((u32 &&& 0x0000FF00) >>> 8).toUInt8
  setData (size + 1) ((u32 &&& 0x00FF0000) >>> 16).toUInt8
  setData size ((u32 &&& 0xFF000000) >>> 24).toUInt8
  advance 4

def bytestreamExtractI32 : OnStream n Int32 := do
  let u32 ← bytestreamExtractU32
  return u32.toInt32

def bytestreamInjectI32 (i32 : Int32) : OnStream n Unit := bytestreamInjectU32 i32.toUInt32

/-- The result is the float's bit pattern. -/
def bytestreamExtractF : OnStream n UInt32 := do
  verifyArgs 4
  bytestreamExtractU32

/-- `f` is the float's bit pattern. -/
def bytestreamInjectF (f : UInt32) : OnStream n Unit := bytestreamInjectU32 f

end Nuhal.All
