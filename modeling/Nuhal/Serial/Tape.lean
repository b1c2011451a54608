import Nuhal.Lib.Foretold
import Nuhal.Serial.Values

/-!
# A bytestream is a tape (`nuhal_all/src/bytestream.c:4-129`)

What a bytestream is for: a `Tape` of bytes, of which some are behind the position and some ahead of
it, in a block with other memory before and after. Writing replaces the next bytes and reading
returns them; both move on, and where there is no room they are an error and do nothing.

A `Script` is a program that sets up streams in a block, writes to them and reads from them, where
what it does next may depend on what it has read. **`script_follows`**: on a stream it does what it
does on the tape that the stream shows. So no script leaves its streams' bytes, whatever it reads,
and an error leaves the block and the stream as they were.
-/

namespace Nuhal.Serial

open Nuhal.Lib Nuhal.All

variable {n : Nat} {α : Type}

/-! ## The tape -/

/-- A block of memory with a stream in it: what lies before its bytes, the bytes that are behind the
position, those ahead of it, and what comes after. -/
structure Tape where
  before : List UInt8
  done : List UInt8
  rest : List UInt8
  after : List UInt8

/-- The whole block. -/
def Tape.block (t : Tape) : List UInt8 := t.before ++ t.done ++ t.rest ++ t.after

/-- A program on a tape. -/
abbrev OnTape (α : Type) := Run Tape Halt α

namespace Tape

/-- A new stream of the `len` bytes from `base` on. -/
def wind (base len : Nat) : OnTape Unit :=
  Run.modify fun t =>
    ⟨t.block.take base, [], (t.block.drop base).take len, t.block.drop (base + len)⟩

def write (bytes : List UInt8) : OnTape Unit := fun t =>
  if bytes.length ≤ t.rest.length then
    (.ok (), { t with done := t.done ++ bytes, rest := t.rest.drop bytes.length })
  else (.error (.error "overflow"), t)

def read (k : Nat) : OnTape (List UInt8) := fun t =>
  if k ≤ t.rest.length then
    (.ok (t.rest.take k), { t with done := t.done ++ t.rest.take k, rest := t.rest.drop k })
  else (.error (.error "overflow"), t)

end Tape

/-- The field that bytes are the encoding of. -/
def FieldType.decode (bytes : List UInt8) : FieldType → Field
  | .u8 => .u8 (UInt8.ofNat (ofBigEndian bytes))
  | .u16 => .u16 (UInt16.ofNat (ofBigEndian bytes))
  | .u32 => .u32 (UInt32.ofNat (ofBigEndian bytes))
  | .i32 => .i32 (UInt32.ofNat (ofBigEndian bytes)).toInt32
  | .f => .f (UInt32.ofNat (ofBigEndian bytes))

theorem type_decode (bytes : List UInt8) (t : FieldType) : (t.decode bytes).type = t := by
  cases t <;> rfl

/-- **A field is the only one of its type with its bytes, and there is one for all bytes.** -/
theorem bytes_decode {bytes : List UInt8} {t : FieldType} (h : bytes.length = t.size) :
    (t.decode bytes).bytes = bytes := by
  have hlt := ofBigEndian_lt bytes
  have hback := bigEndian_ofBigEndian bytes
  rw [h] at hlt hback
  have h32 : t.size = 4 → (UInt32.ofNat (ofBigEndian bytes)).toNat = ofBigEndian bytes := by
    intro hfour
    rw [hfour] at hlt
    exact UInt32.toNat_ofNat_of_lt' hlt
  cases t with
  | u8 =>
    obtain ⟨b, rfl⟩ := List.length_eq_one_iff.mp h
    show [UInt8.ofNat (256 * 0 + b.toNat)] = [b]
    rw [Nat.mul_zero, Nat.zero_add, UInt8.ofNat_toNat]
  | u16 =>
    have h16 : (UInt16.ofNat (ofBigEndian bytes)).toNat = ofBigEndian bytes :=
      UInt16.toNat_ofNat_of_lt' hlt
    show bigEndian 2 (UInt16.ofNat (ofBigEndian bytes)).toNat = bytes
    rw [h16]
    exact hback
  | u32 =>
    show bigEndian 4 (UInt32.ofNat (ofBigEndian bytes)).toNat = bytes
    rw [h32 rfl]
    exact hback
  | i32 =>
    show bigEndian 4 (UInt32.ofNat (ofBigEndian bytes)).toInt32.toUInt32.toNat = bytes
    rw [UInt32.toUInt32_toInt32, h32 rfl]
    exact hback
  | f =>
    show bigEndian 4 (UInt32.ofNat (ofBigEndian bytes)).toNat = bytes
    rw [h32 rfl]
    exact hback

theorem length_bytes (x : Field) : x.bytes.length = x.type.size := by
  cases x <;> simp [Field.bytes, Field.type, FieldType.size]

/-! ## Scripts -/

/-- A program on streams. -/
inductive Script (α : Type) where
  | done (a : α)
  | error (msg : String)
  | init (base len : Nat) (next : Script α)
  | inject (x : Field) (next : Script α)
  | extract (t : FieldType) (next : Field → Script α)

/-- Its streams lie in a block of `n` bytes. -/
def Script.Inside (n : Nat) : Script α → Prop
  | .done _ => True
  | .error _ => True
  | .init base len next => base + len ≤ n ∧ next.Inside n
  | .inject _ next => next.Inside n
  | .extract _ next => ∀ x, (next x).Inside n

/-- The script on a stream. -/
def Script.onStream : Script α → OnStream n α
  | .done a => pure a
  | .error msg => All.error msg
  | .init base len next => do
    bytestreamInit base len
    next.onStream
  | .inject x next => do
    x.inject
    next.onStream
  | .extract t next => do
    let x ← t.extract
    (next x).onStream

/-- The script on a tape. -/
def Script.onTape : Script α → OnTape α
  | .done a => pure a
  | .error msg => All.error msg
  | .init base len next => do
    Tape.wind base len
    next.onTape
  | .inject x next => do
    Tape.write x.bytes
    next.onTape
  | .extract t next => do
    let bytes ← Tape.read t.size
    (next (t.decode bytes)).onTape

/-! ## What a stream shows -/

/-- The stream and its block are the tape. -/
structure Shows (s : Buffered n) (t : Tape) : Prop where
  data : s.stream.data = some t.before.length
  size : s.stream.size = t.done.length
  capacity : s.stream.capacity = t.done.length + t.rest.length
  block : s._data.toList = t.block

/-- The tape that a stream shows. -/
def tapeOf (base : Nat) (s : Buffered n) : Tape where
  before := s._data.toList.take base
  done := window s._data base s.stream.size
  rest := unread base s
  after := s._data.toList.drop (base + s.stream.capacity)

theorem shows_tapeOf {base : Nat} {s : Buffered n} (h : Placed base s) :
    Shows s (tapeOf base s) := by
  have hused := h.used
  have hinside := h.inside
  have hdone : (tapeOf base s).done.length = s.stream.size := length_window (by omega)
  have hrest : (tapeOf base s).rest.length = s.stream.capacity - s.stream.size := length_unread h
  refine ⟨?_, hdone.symm, by rw [hdone, hrest]; omega, ?_⟩
  · rw [h.data]
    congr 1
    show base = (s._data.toList.take base).length
    rw [List.length_take, Vector.length_toList]
    omega
  · unfold Tape.block tapeOf unread window
    simp only
    rw [List.append_assoc (s._data.toList.take base), ← List.drop_drop, ← List.take_add,
      Nat.add_sub_cancel' hused, ← List.drop_drop, List.append_assoc, List.take_append_drop,
      List.take_append_drop]

variable {s : Buffered n} {t : Tape}

theorem Shows.placed (h : Shows s t) : Placed t.before.length s := by
  refine ⟨h.data, ?_, ?_⟩
  · rw [h.size, h.capacity]
    exact Nat.le_add_right _ _
  · have hlength := congrArg List.length h.block
    unfold Tape.block at hlength
    rw [Vector.length_toList] at hlength
    simp only [List.length_append] at hlength
    rw [h.capacity]
    omega

theorem Shows.unread (h : Shows s t) : unread t.before.length s = t.rest := by
  unfold Serial.unread window
  rw [h.block, h.size, h.capacity, Nat.add_sub_cancel_left, Tape.block, List.append_assoc,
    ← List.length_append, List.drop_left, List.take_left]

/-- The bytes of a block, put together in another way. -/
theorem Shows.of_block {before done rest after : List UInt8} {stream : Bytestream}
    {data : Vector UInt8 n} (hstream : stream = ⟨some before.length, done.length + rest.length,
      done.length⟩) (hblock : data.toList = before ++ done ++ rest ++ after) :
    Shows ⟨stream, data⟩ ⟨before, done, rest, after⟩ := by
  subst hstream
  exact ⟨rfl, rfl, rfl, hblock⟩

/-- The position has moved over `bytes`, which are now behind it. -/
theorem Shows.moved (h : Shows s t) {bytes : List UInt8} (hfits : bytes.length ≤ t.rest.length)
    (s' : Buffered n) (hstream : s'.stream = (skip s bytes.length).stream)
    (hblock :
      s'._data.toList = t.before ++ t.done ++ bytes ++ (t.rest.drop bytes.length ++ t.after)) :
    Shows s' { t with done := t.done ++ bytes, rest := t.rest.drop bytes.length } := by
  have hsize := h.size
  have hcapacity := h.capacity
  refine ⟨?_, ?_, ?_, ?_⟩
  · rw [hstream]
    exact h.data
  · rw [hstream, List.length_append, ← hsize]
    rfl
  · rw [hstream, List.length_append, List.length_drop]
    show s.stream.capacity = _
    omega
  · rw [hblock]
    simp only [Tape.block, List.append_assoc]

/-! ## Each function is in step -/

theorem init_inStep {base len : Nat} (h : base + len ≤ n) :
    InStep Shows (bytestreamInit (n := n) base len) (Tape.wind base len) := by
  intro s t hshows
  refine ⟨rfl, ?_⟩
  have hlength : t.block.length = n := by rw [← hshows.block, Vector.length_toList]
  have hbefore : (t.block.take base).length = base := by
    rw [List.length_take]
    omega
  have hrest : ((t.block.drop base).take len).length = len := by
    rw [List.length_take, List.length_drop]
    omega
  refine Shows.of_block ?_ ?_
  · rw [hbefore, hrest, List.length_nil, Nat.zero_add]
  · rw [hshows.block, List.append_nil, ← List.drop_drop, List.append_assoc, List.take_append_drop,
      List.take_append_drop]

theorem inject_inStep (x : Field) : InStep Shows (x.inject (n := n)) (Tape.write x.bytes) := by
  intro s t hshows
  have hplaced := hshows.placed
  unfold Tape.write
  by_cases hfits : x.bytes.length ≤ t.rest.length
  · rw [if_pos hfits]
    obtain ⟨s', hrun, happended⟩ := injects_field x _ s hplaced
      (by rw [hshows.size, hshows.capacity]; omega)
    rw [hrun]
    refine ⟨rfl, ?_⟩
    obtain ⟨-, hmem⟩ := store_eq_some.mp happended.mem
    refine hshows.moved hfits s' happended.stream ?_
    have hblock : s._data.toList = (t.before ++ t.done) ++ (t.rest ++ t.after) := by
      rw [hshows.block, Tape.block, List.append_assoc]
    rw [hmem, hblock, hshows.size, ← List.length_append, List.take_left, ← List.drop_drop,
      List.drop_left, List.drop_append_of_le_length hfits]
  · rw [if_neg hfits]
    have hover : s.stream.capacity < s.stream.size + x.type.size := by
      rw [hshows.size, hshows.capacity, ← length_bytes x]
      omega
    rw [(field_overflow x hshows.data hover).1]
    exact ⟨rfl, hshows⟩

theorem extract_inStep (t : FieldType) : InStep Shows (t.extract (n := n))
    (do return t.decode (← Tape.read t.size)) := by
  intro s tape hshows
  have hplaced := hshows.placed
  rw [Run.bind_apply]
  unfold Tape.read
  by_cases hfits : t.size ≤ tape.rest.length
  · rw [if_pos hfits]
    have hlength : (tape.rest.take t.size).length = t.size := by
      rw [List.length_take, Nat.min_eq_left hfits]
    have hbytes := bytes_decode hlength
    have hrun := extracts_field (n := n) (t.decode (tape.rest.take t.size)) _ s
      (tape.rest.drop t.size) hplaced (by rw [hbytes, hshows.unread, List.take_append_drop])
    rw [type_decode, hbytes, hlength] at hrun
    rw [hrun]
    have hmoved := hshows.moved (hlength.trans_le hfits) (skip s t.size) (by rw [hlength])
      (by
        rw [hlength, List.append_assoc, ← List.append_assoc (tape.rest.take t.size),
          List.take_append_drop, ← List.append_assoc]
        exact hshows.block)
    rw [hlength] at hmoved
    exact ⟨rfl, hmoved⟩
  · rw [if_neg hfits]
    have hover : s.stream.capacity < s.stream.size + (t.decode []).type.size := by
      rw [type_decode, hshows.size, hshows.capacity]
      omega
    have herror := (field_overflow (t.decode []) hshows.data hover).2
    rw [type_decode] at herror
    rw [herror]
    exact ⟨rfl, hshows⟩

/-! ## Whole scripts -/

theorem script_inStep (script : Script α) (h : script.Inside n) :
    InStep Shows (script.onStream (n := n)) script.onTape := by
  induction script with
  | done a => exact fun _ _ hshows => ⟨rfl, hshows⟩
  | error msg => exact fun _ _ hshows => ⟨rfl, hshows⟩
  | init base len next ih => exact InStep.bind (init_inStep h.1) fun _ => ih h.2
  | inject x next ih => exact InStep.bind (inject_inStep x) fun _ => ih h
  | extract t next ih =>
    have hnext := InStep.bind (extract_inStep (n := n) t) fun x => ih x (h x)
    rw [Run.bind_assoc] at hnext
    exact hnext

/-- A tape has no way to leave its block. -/
theorem onTape_defined (script : Script α) (t : Tape) :
    (script.onTape t).1 ≠ .error .undefined := by
  induction script generalizing t with
  | done a => rintro ⟨⟩
  | error msg => rintro ⟨⟩
  | init base len next ih => exact ih _
  | inject x next ih =>
    unfold Script.onTape
    rw [Run.bind_apply, Tape.write]
    by_cases hfits : x.bytes.length ≤ t.rest.length
    · rw [if_pos hfits]
      exact ih _
    · rw [if_neg hfits]
      rintro ⟨⟩
  | extract type next ih =>
    unfold Script.onTape
    rw [Run.bind_apply, Tape.read]
    by_cases hfits : type.size ≤ t.rest.length
    · rw [if_pos hfits]
      exact ih _ _
    · rw [if_neg hfits]
      rintro ⟨⟩

/-- **A stream does what the tape does.** A script ends on a stream as on the tape that the stream
shows, with the same result and the stream showing the tape that is left; so it never reads or
writes a byte outside its streams. -/
theorem script_follows (script : Script α) (hinside : script.Inside n) (base : Nat) (s : Buffered n)
    (hplaced : Placed base s) :
    (script.onStream s).1 = (script.onTape (tapeOf base s)).1 ∧
      Shows (script.onStream s).2 (script.onTape (tapeOf base s)).2 ∧
      (script.onStream s).1 ≠ .error .undefined := by
  obtain ⟨hresult, hshows⟩ := script_inStep script hinside s _ (shows_tapeOf hplaced)
  refine ⟨hresult, hshows, ?_⟩
  rw [hresult]
  exact onTape_defined script _

/-- Read a byte, and write in a new stream as many bytes as it says. -/
def repeatByte : Script Unit :=
  .extract .u8 fun
    | .u8 k => .init 1 4 (k.toNat.rec (.done ()) fun _ next => .inject (.u8 k) next)
    | _ => .error "not a byte"

theorem script_follows_full :
    let s : Buffered 6 := ⟨⟨some 0, 6, 0⟩, #v[5, 0, 0, 0, 0, 9]⟩
    (repeatByte.onStream s).1 = .error (.error "overflow") ∧
      Shows (repeatByte.onStream s).2 ⟨[5], [5, 5, 5, 5], [], [9]⟩ := by
  intro s
  have hinside : repeatByte.Inside 6 := by
    rintro (k | k | k | k | k)
    · refine ⟨by decide, ?_⟩
      generalize hcount : k.toNat = count
      clear hcount
      induction count with
      | zero => trivial
      | succ count ih => exact ih
    · trivial
    · trivial
    · trivial
    · trivial
  obtain ⟨hresult, hshows, -⟩ := script_follows repeatByte hinside 0 s ⟨rfl, by decide, by decide⟩
  exact ⟨hresult, hshows⟩

end Nuhal.Serial
