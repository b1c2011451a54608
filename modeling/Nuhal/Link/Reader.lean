import Nuhal.Link.Frame

/-!
# What reading a packet can do (`nuhal_all/src/protocol.c:211-260`)

`protocol_read_block_error` is two blocking reads, of the header and of the body, and a
verification. `PacketRead` lists every way it can go, `BodyRead` every way the part after the
header can go, and **`protocolReadBlockError_cases`** says that the lists are complete. The
properties of the reader are read off them.

The header's read may come back short (its result is not looked at), and then the length byte is
one that was in the packet before.
-/

namespace Nuhal.Link

open Nuhal.Lib Nuhal.All

/-- A packet with its stream set to all of its data bytes. -/
def fresh (m : Vector UInt8 packetMaxLength) : ProtocolPacket :=
  { stream := { data := some 2, capacity := 253, size := 0 }, _data := m }

@[simp] theorem lengthByte_fresh (m : Vector UInt8 packetMaxLength) :
    lengthByte (fresh m) = m[0] := rfl

/-- The body's length for the length byte in `m`. -/
def bodyLength (m : Vector UInt8 packetMaxLength) : UInt32 := dataLength (fresh m)

theorem bodyLength_one {m : Vector UInt8 packetMaxLength} (h : m[0] = 1) :
    (bodyLength m).toNat = 2 ^ 32 - 1 := by
  unfold bodyLength dataLength
  rw [lengthByte_fresh, h]
  rfl

/-- Every length byte but 1 asks for what is missing to its length; 0 stands for an empty body. -/
theorem bodyLength_ne_one {m : Vector UInt8 packetMaxLength} (h : m[0] ≠ 1) :
    (bodyLength m).toNat = m[0].toNat - 2 := by
  have hlt := m[0].toNat_lt
  unfold bodyLength dataLength
  rw [lengthByte_fresh]
  by_cases h0 : m[0] = 0
  · rw [if_pos h0, h0]
    rfl
  · have h0' : m[0].toNat ≠ 0 := fun h => h0 (UInt8.toNat_inj.mp h)
    have h1' : m[0].toNat ≠ 1 := fun h' => h (UInt8.toNat_inj.mp h')
    rw [if_neg h0, UInt32.toNat_sub, UInt8.toNat_toUInt32]
    show (2 ^ 32 - 2 + m[0].toNat) % 2 ^ 32 = _
    omega

theorem ne_one_of_length {m : Vector UInt8 packetMaxLength} (h : 3 ≤ m[0].toNat) : m[0] ≠ 1 := by
  intro h1
  rw [h1] at h
  exact absurd h (by decide)

theorem bodyLength_congr {m m' : Vector UInt8 packetMaxLength} (h : m[0] = m'[0]) :
    bodyLength m = bodyLength m' := by
  unfold bodyLength dataLength
  rw [lengthByte_fresh, lengthByte_fresh, h]

/-- The part of `protocol_read_block_error` after the header's read, which left the bytes `m`. -/
def readBody (port : Nat) (m : Vector UInt8 packetMaxLength) (timeout : UInt32)
    (timeoutError : Bool) : OnPlatform (Bool × ProtocolPacket) := do
  let (read, m) ← uartReadBlockError port m 2 (bodyLength m).toNat
    (bodyTimeout (bodyLength m) timeout) .none timeoutError
  if read = 0 then return (false, fresh m)
  let out ← protocolVerifyChecksum (fresh m) (bodyLength m).toUInt8
  return (true, out)

variable {port : Nat} {out : ProtocolPacket} {timeout : UInt32} {timeoutError : Bool}

theorem protocolReadBlockError_of_header {w w₁ : World} {k : Nat}
    {m : Vector UInt8 packetMaxLength}
    (h : uartReadBlock port out._data 0 2 (headerTimeout timeout) .none w = (.ok (k, m), w₁)) :
    protocolReadBlockError port out timeout timeoutError w =
      readBody port m timeout timeoutError w₁ := by
  have hinit : onPacket out protocolPacketStreamInit w = (.ok (fresh out._data), w) := rfl
  unfold protocolReadBlockError
  rw [Run.bind_of_ok hinit]
  exact Run.bind_of_ok h _

theorem protocolReadBlockError_header_error {w w₁ : World} {e : Halt}
    (h : uartReadBlock port out._data 0 2 (headerTimeout timeout) .none w = (.error e, w₁)) :
    protocolReadBlockError port out timeout timeoutError w = (.error e, w₁) := by
  have hinit : onPacket out protocolPacketStreamInit w = (.ok (fresh out._data), w) := rfl
  unfold protocolReadBlockError
  rw [Run.bind_of_ok hinit]
  exact Run.bind_of_error h _

/-! ## The body and its verification -/

/-- What the verification needs: some of the body has come and the length byte allows one. -/
structure Filled (m : Vector UInt8 packetMaxLength) (body : List UInt8) : Prop where
  body : body ≠ []
  length : 3 ≤ (lengthByte (fresh m)).toNat

/-- The body's read that came back, from the bytes `m` to the bytes `m'`. -/
abbrev BodyReads (port : Nat) (timeout : UInt32) (timeoutError : Bool)
    (m : Vector UInt8 packetMaxLength) (body : List UInt8) (w : World)
    (r : Except Halt (Nat × Vector UInt8 packetMaxLength)) (w' : World) : Prop :=
  Reads port m 2 (bodyLength m).toNat (bodyTimeout (bodyLength m) timeout) timeoutError body w r w'

/-- **Every way the part after the header can go.** -/
inductive BodyRead (port : Nat) (timeout : UInt32) (timeoutError : Bool)
    (m : Vector UInt8 packetMaxLength) (w : World) :
    List UInt8 → Except Halt (Bool × ProtocolPacket) → World → Prop where
  /-- The read does not come back. -/
  | stopped {body : List UInt8} {e : Halt} {w' : World}
      (h : BodyReads port timeout timeoutError m body w (.error e) w') :
      BodyRead port timeout timeoutError m w body (.error e) w'
  /-- Nothing came, or nothing was asked for. -/
  | nothing {w' : World} (h : BodyReads port timeout timeoutError m [] w (.ok (0, m)) w') :
      BodyRead port timeout timeoutError m w [] (.ok (false, fresh m)) w'
  /-- The length byte is 1 and the checksum leaves the packet. -/
  | overrun {body : List UInt8} {m' : Vector UInt8 packetMaxLength} {w' : World}
      (h : BodyReads port timeout timeoutError m body w (.ok (body.length, m')) w')
      (hone : m[0] = 1) :
      BodyRead port timeout timeoutError m w body (.error .undefined) (looked w' 2 254)
  /-- The checksum is wrong. -/
  | mismatch {body : List UInt8} {m' : Vector UInt8 packetMaxLength} {w' : World}
      (h : BodyReads port timeout timeoutError m body w (.ok (body.length, m')) w')
      (hfilled : Filled m' body) (hsound : ¬ Sound (fresh m')) :
      BodyRead port timeout timeoutError m w body (.error (.error "invalid checksum"))
        (looked w' 2 ((lengthByte (fresh m')).toNat - 2))
  /-- The checksum is right. -/
  | packet {body : List UInt8} {m' : Vector UInt8 packetMaxLength} {w' : World}
      (h : BodyReads port timeout timeoutError m body w (.ok (body.length, m')) w')
      (hfilled : Filled m' body) (hsound : Sound (fresh m')) :
      BodyRead port timeout timeoutError m w body (.ok (true, opened (fresh m')))
        (looked w' 2 ((lengthByte (fresh m')).toNat - 2))

theorem getElem_zero_of_take {v v' : Vector UInt8 packetMaxLength} {k : Nat} (hk : 0 < k)
    (h : v'.toList.take k = v.toList.take k) : v'[0] = v[0] := by
  have h0 := congrArg (fun l => l[0]?) h
  simp only [List.getElem?_take, if_pos hk, Vector.getElem?_toList] at h0
  simpa using h0

/-- The length byte after the header's read: the first byte that came, or the old one. -/
theorem lengthByte_header {m : Vector UInt8 packetMaxLength} {header : List UInt8}
    (h : store out._data 0 header = some m) :
    m[0] = header.head?.getD out._data[0] := by
  obtain ⟨hle, he⟩ := store_eq_some.mp h
  have hm : m.toList[0]? = some m[0] := by simp
  rw [he, List.take_zero, List.nil_append] at hm
  cases header with
  | nil =>
    have hout : out._data.toList[0]? = some out._data[0] := by simp
    rw [List.nil_append, List.length_nil, List.drop_zero, hout] at hm
    exact (Option.some.inj hm).symm
  | cons b rest =>
    rw [List.cons_append, List.getElem?_cons_zero] at hm
    exact (Option.some.inj hm).symm

/-- The body leaves the length byte alone. -/
theorem lengthByte_body {m m' : Vector UInt8 packetMaxLength} {body : List UInt8}
    (h : store m 2 body = some m') : m'[0] = m[0] :=
  getElem_zero_of_take (by decide) (take_store h (Nat.le_refl 2))

/-- What is done with a body that came. -/
def verified (m : Vector UInt8 packetMaxLength) : OnPlatform (Bool × ProtocolPacket) := do
  let out ← protocolVerifyChecksum (fresh m) (bodyLength m).toUInt8
  return (true, out)

/-- The verification after a body that came: the length byte is 1 and the checksum leaves the
packet, or the checksum decides. -/
theorem verified_eq {m m' : Vector UInt8 packetMaxLength} {body : List UInt8} {w w₁ : World}
    (h : BodyReads port timeout timeoutError m body w (.ok (body.length, m')) w₁)
    (hbody : body ≠ []) :
    (m[0] = 1 ∧ verified m' w₁ = (.error .undefined, looked w₁ 2 254)) ∨
    (Filled m' body ∧ ¬ Sound (fresh m') ∧ verified m' w₁ =
      (.error (.error "invalid checksum"), looked w₁ 2 ((lengthByte (fresh m')).toNat - 2))) ∨
    (Filled m' body ∧ Sound (fresh m') ∧ verified m' w₁ =
      (.ok (true, opened (fresh m')), looked w₁ 2 ((lengthByte (fresh m')).toNat - 2))) := by
  have hbyte := lengthByte_body h.ends.2.1
  by_cases hone : lengthByte (fresh m') = 1
  · have hverify := protocolVerifyChecksum_one (k := (bodyLength m').toUInt8) hone w₁
    refine .inl ⟨?_, Run.bind_of_error hverify _⟩
    rw [← hbyte]
    exact hone
  · have hfilled : Filled m' body := by
      refine ⟨hbody, ?_⟩
      have hle := h.le
      have hpos := List.length_pos_of_ne_nil hbody
      rw [lengthByte_fresh, hbyte] at hone ⊢
      rw [bodyLength_ne_one hone] at hle
      omega
    by_cases hsound : Sound (fresh m')
    · have hverify : protocolVerifyChecksum (fresh m') (bodyLength m').toUInt8 w₁ =
          (.ok (opened (fresh m')), looked w₁ 2 ((lengthByte (fresh m')).toNat - 2)) := by
        rw [← UInt8.ofNat_uInt32ToNat, bodyLength_ne_one (m := m') hone]
        exact protocolVerifyChecksum_ok hfilled.length hsound w₁
      exact .inr (.inr ⟨hfilled, hsound, Run.bind_of_ok hverify _⟩)
    · have hverify := protocolVerifyChecksum_mismatch (k := (bodyLength m').toUInt8)
        (Nat.le_of_lt hfilled.length) hsound w₁
      exact .inr (.inl ⟨hfilled, hsound, Run.bind_of_error hverify _⟩)

theorem verify_cases {m m' : Vector UInt8 packetMaxLength} {body : List UInt8} {w w₁ : World}
    (h : BodyReads port timeout timeoutError m body w (.ok (body.length, m')) w₁)
    (hbody : body ≠ []) :
    (verified m').Ends w₁ (BodyRead port timeout timeoutError m w body) := by
  rcases verified_eq h hbody with ⟨hone, heq⟩ | ⟨hfilled, hsound, heq⟩ | ⟨hfilled, hsound, heq⟩
  · exact Run.ends_of_eq heq (.overrun h hone)
  · exact Run.ends_of_eq heq (.mismatch h hfilled hsound)
  · exact Run.ends_of_eq heq (.packet h hfilled hsound)

theorem readBody_cases (port : Nat) (m : Vector UInt8 packetMaxLength) (timeout : UInt32)
    (timeoutError : Bool) (w : World) : (readBody port m timeout timeoutError).Ends w fun r w' =>
      ∃ body, BodyRead port timeout timeoutError m w body r w' := by
  unfold Run.Ends readBody
  rcases hread : uartReadBlockError port m 2 (bodyLength m).toNat
    (bodyTimeout (bodyLength m) timeout) .none timeoutError w with ⟨r, w₁⟩
  obtain ⟨body, h⟩ := (uartReadBlockError_reads port m 2 (bodyLength m).toNat
    (bodyTimeout (bodyLength m) timeout) timeoutError w (by decide)).elim hread
  cases r with
  | error e =>
    rw [Run.bind_of_error hread]
    exact ⟨body, .stopped h⟩
  | ok r =>
    obtain ⟨k, m'⟩ := r
    obtain rfl := h.ends.1
    rw [Run.bind_of_ok hread]
    by_cases hbody : body = []
    · subst hbody
      have hm : m = m' := Option.some.inj ((store_nil (by decide)).symm.trans h.ends.2.1)
      subst hm
      exact ⟨[], .nothing h⟩
    · have hk : body.length ≠ 0 := fun h0 => hbody (List.length_eq_zero_iff.mp h0)
      dsimp only
      rw [if_neg hk]
      exact ⟨body, verify_cases h hbody⟩

/-! ## A body's read that is given -/

/-- A body's read that came back with something leaves the rest to the checksum. -/
theorem readBody_sound {m m' : Vector UInt8 packetMaxLength} {k : Nat} {w w₁ : World}
    (h : uartReadBlockError port m 2 (bodyLength m).toNat (bodyTimeout (bodyLength m) timeout) .none
      timeoutError w = (.ok (k, m'), w₁))
    (hk : k ≠ 0) (hlength : 3 ≤ m'[0].toNat) (hsound : Sound (fresh m')) :
    readBody port m timeout timeoutError w =
      (.ok (true, opened (fresh m')), looked w₁ 2 (m'[0].toNat - 2)) := by
  have hverify : protocolVerifyChecksum (fresh m') (bodyLength m').toUInt8 w₁ =
      (.ok (opened (fresh m')), looked w₁ 2 (m'[0].toNat - 2)) := by
    rw [← UInt8.ofNat_uInt32ToNat, bodyLength_ne_one (ne_one_of_length hlength)]
    exact protocolVerifyChecksum_ok (show 3 ≤ (lengthByte (fresh m')).toNat from hlength) hsound w₁
  unfold readBody
  rw [Run.bind_of_ok h]
  dsimp only
  rw [if_neg hk]
  exact Run.bind_of_ok hverify _

theorem readBody_mismatch {m m' : Vector UInt8 packetMaxLength} {k : Nat} {w w₁ : World}
    (h : uartReadBlockError port m 2 (bodyLength m).toNat (bodyTimeout (bodyLength m) timeout) .none
      timeoutError w = (.ok (k, m'), w₁))
    (hk : k ≠ 0) (hlength : 3 ≤ m'[0].toNat) (hsound : ¬ Sound (fresh m')) :
    readBody port m timeout timeoutError w =
      (.error (.error "invalid checksum"), looked w₁ 2 (m'[0].toNat - 2)) := by
  have hverify := protocolVerifyChecksum_mismatch (k := (bodyLength m').toUInt8)
    (show 2 ≤ (lengthByte (fresh m')).toNat from Nat.le_of_lt hlength) hsound w₁
  unfold readBody
  rw [Run.bind_of_ok h]
  dsimp only
  rw [if_neg hk]
  exact Run.bind_of_error hverify _

/-- A body's read that came back with nothing is a timeout, also when nothing was asked for. -/
theorem readBody_nothing {m : Vector UInt8 packetMaxLength} {w w₁ : World}
    (h : uartReadBlockError port m 2 (bodyLength m).toNat (bodyTimeout (bodyLength m) timeout) .none
      timeoutError w = (.ok (0, m), w₁)) :
    readBody port m timeout timeoutError w = (.ok (false, fresh m), w₁) := by
  unfold readBody
  rw [Run.bind_of_ok h]
  rfl

theorem readBody_empty {m : Vector UInt8 packetMaxLength} {w : World}
    (h : (bodyLength m).toNat = 0) :
    readBody port m timeout timeoutError w = (.ok (false, fresh m), w.logged (.ask 0)) := by
  refine readBody_nothing ?_
  rw [h]
  exact uartReadBlockError_zero w

/-! ## The whole call -/

/-- The header's read. -/
abbrev HeaderReads (port : Nat) (out : ProtocolPacket) (timeout : UInt32) (header : List UInt8)
    (w : World) (r : Except Halt (Nat × Vector UInt8 packetMaxLength)) (w' : World) : Prop :=
  Reads port out._data 0 2 (headerTimeout timeout) false header w r w'

/-- **Every way a call of `protocol_read_block_error` can go.** -/
inductive PacketRead (port : Nat) (out : ProtocolPacket) (timeout : UInt32) (timeoutError : Bool)
    (w : World) : Except Halt (Bool × ProtocolPacket) → World → Prop where
  /-- The header's read does not come back. -/
  | stopped {header : List UInt8} {e : Halt} {w' : World}
      (h : HeaderReads port out timeout header w (.error e) w') :
      PacketRead port out timeout timeoutError w (.error e) w'
  /-- The header's read leaves the bytes `m`, and the rest goes on from there. -/
  | body {header body : List UInt8} {m : Vector UInt8 packetMaxLength} {w₁ w' : World}
      {r : Except Halt (Bool × ProtocolPacket)}
      (h : HeaderReads port out timeout header w (.ok (header.length, m)) w₁)
      (hbody : BodyRead port timeout timeoutError m w₁ body r w') :
      PacketRead port out timeout timeoutError w r w'

/-- The list is complete. -/
theorem protocolReadBlockError_cases (port : Nat) (out : ProtocolPacket) (timeout : UInt32)
    (timeoutError : Bool) (w : World) :
    (protocolReadBlockError port out timeout timeoutError).Ends w
      (PacketRead port out timeout timeoutError w) := by
  rcases hread : uartReadBlock port out._data 0 2 (headerTimeout timeout) .none w with ⟨r, w₁⟩
  obtain ⟨header, h⟩ := (uartReadBlockError_reads port out._data 0 2 (headerTimeout timeout) false
    w (Nat.zero_le _)).elim hread
  cases r with
  | error e => exact Run.ends_of_eq (protocolReadBlockError_header_error hread) (.stopped h)
  | ok r =>
    obtain ⟨k, m⟩ := r
    obtain rfl := h.ends.1
    obtain ⟨body, hbody⟩ := readBody_cases port m timeout timeoutError w₁
    unfold Run.Ends
    rw [protocolReadBlockError_of_header hread]
    exact .body h hbody

end Nuhal.Link
