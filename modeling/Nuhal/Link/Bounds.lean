import Nuhal.Link.Reader
import Nuhal.Link.Schedule

/-!
# Where the packet reader touches memory

`InBounds` is what a call of `protocol_read_block_error` may do to the 255 bytes of its packet:
write only inside them, ask for a body of at most 253 bytes, read only inside them for the
checksum. The body's length is the length byte less 2, as a `uint32_t`: a length byte of 1 asks for
`2 ^ 32 - 1` bytes (the interleaved reader of a broadcast rejects it, `protocol.c:454-460`).

* `bodyRead_inBounds`: with any other length byte the body and its checksum stay inside.
* **`readBlock_inBounds_iff`**: a call stays inside on every schedule exactly when no schedule can
  leave a length byte of 1 in the packet: not from the stream, and, where the header has a
  deadline to miss, not from what the packet held before.
-/

namespace Nuhal.Link

open Nuhal.Lib Nuhal.All

/-- An access that stays inside a packet. -/
def InBounds : Event → Prop
  | .store first count => first + count ≤ packetMaxLength
  | .load i => i < packetMaxLength
  | .ask len => len ≤ packetMaxLength - headerBytes
  | .terminator _ => True
  | .expired => True
  | .failed => True

instance (e : Event) : Decidable (InBounds e) :=
  match e with
  | .store first count => inferInstanceAs (Decidable (first + count ≤ packetMaxLength))
  | .load i => inferInstanceAs (Decidable (i < packetMaxLength))
  | .ask len => inferInstanceAs (Decidable (len ≤ packetMaxLength - headerBytes))
  | .terminator _ => inferInstanceAs (Decidable True)
  | .expired => inferInstanceAs (Decidable True)
  | .failed => inferInstanceAs (Decidable True)

theorem readEvent_inBounds {off len : Nat} (hoff : off + len ≤ packetMaxLength)
    (hlen : len ≤ packetMaxLength - headerBytes) {e : Event} (h : ReadEvent off len e) :
    InBounds e := by
  cases e with
  | store first count => exact Nat.le_trans h.2 hoff
  | load i => exact absurd h id
  | ask k =>
    obtain rfl : k = len := h
    exact hlen
  | terminator r => exact absurd h id
  | expired => exact trivial
  | failed => exact trivial

theorem looked_inBounds (w : World) {i k : Nat} (h : i + k ≤ packetMaxLength) :
    Grown InBounds w (looked w i k) := by
  refine ⟨loads i k, rfl, fun e he => ?_⟩
  obtain ⟨j, rfl, -, hj⟩ := mem_loads he
  exact Nat.lt_of_lt_of_le hj h

variable {port : Nat} {out : ProtocolPacket} {stream : List UInt8} {timeout : UInt32}
  {timeoutError : Bool} {m : Vector UInt8 packetMaxLength} {header body : List UInt8} {w w' : World}

theorem headerReads_inBounds {r : Except Halt (Nat × Vector UInt8 packetMaxLength)}
    (h : HeaderReads port out timeout header w r w') : Grown InBounds w w' :=
  h.taken.log.mono fun _ => readEvent_inBounds (by decide) (by decide)

/-- With a length byte other than 1 the part after the header stays inside the packet. -/
theorem bodyRead_inBounds {r : Except Halt (Bool × ProtocolPacket)} (hone : m[0] ≠ 1)
    (h : BodyRead port timeout timeoutError m w body r w') : Grown InBounds w w' := by
  have hlt := m[0].toNat_lt
  have hlen := bodyLength_ne_one hone
  have hread : ∀ {body r w₁}, BodyReads port timeout timeoutError m body w r w₁ →
      Grown InBounds w w₁ := by
    intro body r w₁ h
    refine h.taken.log.mono fun _ he => readEvent_inBounds ?_ ?_ he
    · show 2 + _ ≤ 255
      omega
    · show _ ≤ 253
      omega
  have hverify : ∀ (m' : Vector UInt8 packetMaxLength) (w₁ : World),
      Grown InBounds w₁ (looked w₁ 2 ((lengthByte (fresh m')).toNat - 2)) := by
    intro m' w₁
    have hlt' := (lengthByte (fresh m')).toNat_lt
    exact looked_inBounds w₁ (by show _ ≤ 255; omega)
  cases h with
  | stopped h => exact hread h
  | nothing h => exact hread h
  | overrun h hone' => exact absurd hone' hone
  | mismatch h _ _ => exact (hread h).trans (hverify _ _)
  | packet h _ _ => exact (hread h).trans (hverify _ _)

/-- The body's length is asked for, whatever happens then. -/
theorem bodyRead_asked {r : Except Halt (Bool × ProtocolPacket)}
    (h : BodyRead port timeout timeoutError m w body r w') :
    .ask (bodyLength m).toNat ∈ w'.log := by
  cases h with
  | stopped h => exact h.asked
  | nothing h => exact h.asked
  | overrun h _ => exact List.mem_append_left _ h.asked
  | mismatch h _ _ => exact List.mem_append_left _ h.asked
  | packet h _ _ => exact List.mem_append_left _ h.asked

/-- A schedule can leave a length byte of 1 in the packet. -/
def CanReadOne (out : ProtocolPacket) (stream : List UInt8) (timeout : UInt32) : Prop :=
  if headerTimeout timeout = 0 then 2 ≤ stream.length ∧ stream.head? = some 1
  else stream.head? = some 1 ∨ lengthByte out = 1

/-- Only then is there a length byte of 1 after the header. -/
theorem lengthByte_ne_one (hone : ¬ CanReadOne out (w.rx port) timeout) {k : Nat}
    (h : HeaderReads port out timeout header w (.ok (k, m)) w') : m[0] ≠ 1 := by
  obtain ⟨hk, hstore, hshort⟩ := h.ends
  have hrx := h.taken.rx
  unfold CanReadOne at hone
  intro hm
  rw [lengthByte_header hstore] at hm
  by_cases h0 : headerTimeout timeout = 0
  · rw [if_pos h0, hrx] at hone
    by_cases hlt : k < 2
    · exact (hshort hlt).2.1 h0
    · match header, hk, hm with
      | b :: c :: rest, _, hm =>
        refine hone ⟨by simp only [List.cons_append, List.length_cons]; omega, ?_⟩
        exact congrArg some hm
      | [b], hk, _ => exact hlt (by rw [hk, List.length_singleton]; decide)
      | [], hk, _ => exact hlt (by rw [hk, List.length_nil]; decide)
  · rw [if_neg h0, hrx] at hone
    match header, hm with
    | b :: rest, hm => exact hone (.inl (congrArg some hm))
    | [], hm => exact hone (.inr hm)

/-- A schedule that leaves a length byte of 1, when there is one: how much of the header comes. -/
theorem canReadOne_schedule (h : CanReadOne out stream timeout) : ∃ k, k ≤ 2 ∧ k ≤ stream.length ∧
    (k < 2 → headerTimeout timeout ≠ 0) ∧
      ∀ m, store out._data 0 (stream.take k) = some m → m[0] = 1 := by
  unfold CanReadOne at h
  by_cases h0 : headerTimeout timeout = 0
  · rw [if_pos h0] at h
    refine ⟨2, Nat.le_refl _, h.1, fun hlt => absurd hlt (Nat.lt_irrefl _), fun m hm => ?_⟩
    rw [lengthByte_header hm, List.head?_take, if_neg (by decide), h.2]
    rfl
  · rw [if_neg h0] at h
    rcases h with hstream | hout
    · have hpos : 1 ≤ stream.length := by
        cases stream with
        | nil => cases hstream
        | cons b rest => exact Nat.succ_le_succ (Nat.zero_le _)
      refine ⟨1, by decide, hpos, fun _ => h0, fun m hm => ?_⟩
      rw [lengthByte_header hm, List.head?_take, if_neg (by decide), hstream]
      rfl
    · refine ⟨0, by decide, Nat.zero_le _, fun _ => h0, fun m hm => ?_⟩
      rw [lengthByte_header hm, List.take_zero]
      exact hout

/-- **The packet reader stays inside its packet on every schedule exactly when no schedule leaves a
length byte of 1**. -/
theorem readBlock_inBounds_iff (port : Nat) (out : ProtocolPacket) (stream : List UInt8)
    (timeout : UInt32) (timeoutError : Bool) :
    (∀ w : World, w.rx port = stream →
      Grown InBounds w (protocolReadBlockError port out timeout timeoutError w).2) ↔
      ¬ CanReadOne out stream timeout := by
  constructor
  · intro h hone
    obtain ⟨k, hk, hlength, hpart, hbyte⟩ := canReadOne_schedule hone
    have hfit : 0 + (stream.take k).length ≤ packetMaxLength := by
      rw [List.length_take]
      show _ ≤ 255
      omega
    obtain ⟨m, hm⟩ := exists_store out._data hfit
    obtain ⟨w', hread⟩ : ∃ w', uartReadBlock port out._data 0 2 (headerTimeout timeout) .none
        (scheduled stream [.bytes k] [2]) = (.ok (k, m), w') := by
      refine (read_realised rfl rfl ?_ ?_ (by decide) hk (fun hlt => ⟨hpart hlt, rfl, ?_⟩) rfl
        hlength hm).imp fun _ h => h.1
      · show 0 ∉ [2]
        decide
      · show 0 + 1 ∉ [2]
        decide
      · show 0 + 2 ∈ [2]
        decide
    have hgrown := h (scheduled stream [.bytes k] [2]) rfl
    rw [protocolReadBlockError_of_header hread] at hgrown
    obtain ⟨body, hbody⟩ := readBody_cases port m timeout timeoutError w'
    have hask := hgrown.all rfl _ (bodyRead_asked hbody)
    rw [bodyLength_one (hbyte m hm)] at hask
    exact absurd hask (by decide)
  · rintro hone w rfl
    have hcases := protocolReadBlockError_cases port out timeout timeoutError w
    unfold Run.Ends at hcases
    generalize (protocolReadBlockError port out timeout timeoutError w).1 = r at hcases
    generalize (protocolReadBlockError port out timeout timeoutError w).2 = w' at hcases
    cases hcases with
    | stopped h => exact headerReads_inBounds h
    | body h hbody =>
      exact (headerReads_inBounds h).trans (bodyRead_inBounds (lengthByte_ne_one hone h) hbody)

/-- A packet with length byte 1 of which three more bytes come in time: the reader asks for
`2 ^ 32 - 1` of them and its checksum reads byte 255. -/
theorem readBlock_overrun :
    let w := scheduled [0x01, 0x00, 0x05, 0x06, 0x07] [.bytes 2, .bytes 3] [4]
    ¬ Grown InBounds w (protocolReadBlockError 0 zeroPacket 100 false w).2 ∧
      .ask 4294967295 ∈ (protocolReadBlockError 0 zeroPacket 100 false w).2.log ∧
      .load 255 ∈ (protocolReadBlockError 0 zeroPacket 100 false w).2.log := by
  intro w
  have hask : .ask 4294967295 ∈ (protocolReadBlockError 0 zeroPacket 100 false w).2.log := by
    decide +kernel
  have hload : .load 255 ∈ (protocolReadBlockError 0 zeroPacket 100 false w).2.log := by
    decide +kernel
  exact ⟨fun h => absurd (h.all rfl _ hload) (by decide), hask, hload⟩

end Nuhal.Link
