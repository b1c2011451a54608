import Nuhal.All.Bytestream

/-!
# Strings and arrays in a bytestream (`nuhal_all/src/bytestream.c:131-184`,
`nuhal_all/src/utilities.c:6-14`)

* `utilities_strlen` looks at `str[index]` before it compares `index` with `maxlen`, so it looks at
  the characters up to and with the one it returns the index of. What `str[index]` is, is the
  parameter `load`: a character of the caller's string, or a byte of the stream.
* A pointer to a string is the memory it points to, up to the end of its object; `none` is `NULL`.
  Characters are `UInt8`, and a `CString` is a string as C has it.
* `bs->capacity - bs->size - 1` is a `size_t`, and `sizeMax` is the largest of these. The other
  sums and differences do not wrap around, for the reason given in `All/Bytestream`.
* For the extraction the model also keeps the indices into `bs->data` that were looked at (`seen`).

All these functions are called with a stream (`bs` is not `NULL`).
-/

namespace Nuhal.All

open Nuhal.Lib

variable {n : Nat} {σ : Type}

/-- A string without its terminating NUL. -/
structure CString where
  chars : List UInt8
  noNul : 0 ∉ chars

/-- The memory of a string. -/
def CString.memory (str : CString) : List UInt8 := str.chars ++ [0]

/-- One pass of the loop of `utilities_strlen`. -/
def strlenPass (load : Nat → Run σ Halt UInt8) (maxlen index : Nat) : Run σ Halt (Nat ⊕ Nat) := do
  let c ← load index
  return if c ≠ 0 ∧ index < maxlen then .inl (index + 1) else .inr index

/-- The loop ends at `maxlen` at the latest, so that `maxlen + 1` passes are enough. -/
def utilitiesStrlen (load : Nat → Run σ Halt UInt8) (maxlen : Nat) : Run σ Halt Nat :=
  Run.iterate .undefined (strlenPass load maxlen) (maxlen + 1) 0

/-! ## Injection -/

/-- `a - b` as a `size_t`. -/
def sizeSub (sizeMax a b : Nat) : Nat := if b ≤ a then a - b else a + (sizeMax + 1) - b

/-- `str[i]`. -/
def charAt (str : Option (List UInt8)) (i : Nat) : Run σ Halt UInt8 := fun s =>
  match str.bind fun mem => mem[i]? with
  | some c => (.ok c, s)
  | none => (.error .undefined, s)

/-- `memcpy(&bs->data[bs->size], str, len)`. -/
def copyFrom (str : Option (List UInt8)) (len : Nat) : OnStream n Unit := fun s =>
  match (do
    let mem ← str
    let base ← s.stream.data
    if mem.length < len then none
    store s._data (base + s.stream.size) (mem.take len)) with
  | some v => (.ok (), { s with _data := v })
  | none => (.error .undefined, s)

def bytestreamInjectString (sizeMax : Nat) (str : Option (List UInt8)) : OnStream n Unit := do
  let s ← Run.get
  let maxlen := sizeSub sizeMax (sizeSub sizeMax s.stream.capacity s.stream.size) 1
  let len := (← utilitiesStrlen (charAt str) maxlen) + 1
  verifyArgs len
  if str = none then
    error "NULL ptr"
  copyFrom str len
  advance len

/-! ## Extraction -/

/-- A stream in its block, and the indices into `bs->data` that were looked at. -/
structure Scanned (n : Nat) where
  block : Buffered n
  seen : List Nat

/-- A function on the stream alone. -/
def onBlock {α : Type} (m : OnStream n α) : Run (Scanned n) Halt α := fun s =>
  ((m s.block).1, { s with block := (m s.block).2 })

/-- `bs->data[i]`, with the index written down. -/
def look (i : Nat) : Run (Scanned n) Halt UInt8 := do
  Run.modify fun s => { s with seen := s.seen ++ [i] }
  onBlock (getData i)

/-- The `count` bytes from `bs->data[first]` on. -/
def lookAll (first : Nat) : Nat → Run (Scanned n) Halt (List UInt8)
  | 0 => pure []
  | count + 1 => do
    let bytes ← lookAll first count
    return bytes ++ [← look (first + count)]

/-- What the caller's buffer holds after `chars` were written to its front. -/
def writeFront (str chars : List UInt8) : Run σ Halt (List UInt8) := fun s =>
  if chars.length ≤ str.length then (.ok (chars ++ str.drop chars.length), s)
  else (.error .undefined, s)

/-- `bytestream_extract_string` after its checks of the pointers. -/
def extractInto (str : List UInt8) (len : Nat) : Run (Scanned n) Halt (List UInt8) := do
  let s ← Run.get
  let bs := s.block.stream
  let inLen ← utilitiesStrlen (fun i => look (bs.size + i)) bs.capacity
  if inLen ≥ bs.capacity then
    error "string not null terminated"
  else if inLen ≥ len then
    error "string too long"
  else do
    let chars ← lookAll bs.size inLen
    let out ← writeFront str (chars ++ [0])
    onBlock (advance (inLen + 1))
    return out

/-- `bytestream_extract_string`: what the caller's buffer holds after it. -/
def bytestreamExtractString (str : Option (List UInt8)) (len : Nat) :
    Run (Scanned n) Halt (List UInt8) := do
  onBlock (verifyArgs 0)
  match str with
  | none => error "NULL ptr"
  | some str => extractInto str len

/-! ## Arrays -/

/-- `bytes` is the memory the caller's pointer points to. -/
def bytestreamInjectU8Array (sizeMax : Nat) (bytes : Option (List UInt8)) (len : Nat) :
    OnStream n Unit := do
  if bytes = none then
    error "NULL ptr"
  let s ← Run.get
  if sizeSub sizeMax s.stream.capacity s.stream.size ≤ len then
    error "buffer overrun"
  copyFrom bytes len
  advance len

end Nuhal.All
