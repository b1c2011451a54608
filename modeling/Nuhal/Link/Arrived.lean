import Nuhal.Link.Reader
import Nuhal.Link.Schedule

/-!
# A packet that is there when it is asked for

`Arrived port w`: the next packet has arrived as a whole, so that every call of the driver hands
over all it is asked for. `Answered` is what the callers of the reader count on then: no result
`false`, which they take for a timeout (`protocol.c:312-321`).

* `readBlock_arrived`: with a body, and read in time, the packet is accepted or its checksum is
  wrong.
* **`answered_iff`**: the callers can count on it exactly when the packet has a body and both reads
  look at the clock before their deadline. A packet without a body (`uart.c:13-18` returns 0 for
  it), such as the acknowledgement `00 CC` of the bootloader, is always taken for a timeout.
-/

namespace Nuhal.Link

open Nuhal.Lib Nuhal.All

/-- The whole length that a packet's first byte declares. -/
def declared (b : UInt8) : Nat := if b = 0 then 2 else b.toNat

theorem two_le_declared {b : UInt8} (h : b ≠ 1) : 2 ≤ declared b := by
  unfold declared
  by_cases h0 : b = 0
  · rw [if_pos h0]
  · have h0' : b.toNat ≠ 0 := fun h' => h0 (UInt8.toNat_inj.mp h')
    have h1' : b.toNat ≠ 1 := fun h' => h (UInt8.toNat_inj.mp h')
    rw [if_neg h0]
    omega

/-- The checksum of the packet that `stream` starts with, by the rule for its length. -/
def Checked : List UInt8 → Prop
  | b :: c :: rest => c = if b = 0 then 0xCC else (rest.take (b.toNat - 2)).sum
  | _ => False

instance : DecidablePred Checked := fun stream =>
  match stream with
  | b :: c :: rest =>
    inferInstanceAs (Decidable (c = if b = 0 then 0xCC else (rest.take (b.toNat - 2)).sum))
  | [_] => inferInstanceAs (Decidable False)
  | [] => inferInstanceAs (Decidable False)

/-- The next packet on `port` has arrived: its bytes are there, and the driver hands over what it is
asked for. -/
structure Arrived (port : Nat) (b : UInt8) (w : World) : Prop where
  head : (w.rx port).head? = some b
  ne_one : b ≠ 1
  whole : declared b ≤ (w.rx port).length
  ready : ∀ t, ∃ ready, w.wait t = .ok ready
  answers : ∃ c₁ c₂ rest, w.reads = .bytes c₁ :: .bytes c₂ :: rest ∧ 255 ≤ c₁ ∧ 255 ≤ c₂

/-- What the callers count on: no `false`, a right checksum is accepted, a request does not time
out. -/
structure Answered (port : Nat) (timeout : UInt32) (w : World) : Prop where
  read : ∀ out timeoutError out',
    (protocolReadBlockError port out timeout timeoutError w).1 ≠ .ok (false, out')
  accepted : Checked (w.rx port) → ∀ out timeoutError,
    ∃ out', (protocolReadBlockError port out timeout timeoutError w).1 = .ok (true, out')
  request : ∀ w₀ request request' out timeoutError,
    protocolWriteBlock port request w₀ = (.ok request', w) →
      (∀ p, (protocolRequestTimeout port request out timeout timeoutError w₀).1 ≠ .ok (false, p)) ∧
      (protocolRequestTimeout port request out timeout timeoutError w₀).1 ≠
        .error (.error "timeout")

/-- The world's clock as the body's read finds it, when the header was read in time. -/
def atBody (w : World) (timeout : UInt32) : World :=
  { w with ticks := w.ticks + 1 + looks (headerTimeout timeout) }

/-- Both reads look at the clock before their deadline. -/
structure Punctual (b : UInt8) (timeout : UInt32) (w : World) : Prop where
  header : InTime (headerTimeout timeout) w
  body : InTime (bodyTimeout (UInt32.ofNat (b.toNat - 2)) timeout) (atBody w timeout)

variable {port : Nat} {b : UInt8} {timeout : UInt32} {timeoutError : Bool} {w : World}

/-- The header of a packet that has arrived, read in time. -/
theorem header_arrived (h : Arrived port b w) (hlook : InTime (headerTimeout timeout) w)
    (out : ProtocolPacket) : ∃ m c₂ rest w₁,
      uartReadBlock port out._data 0 2 (headerTimeout timeout) .none w = (.ok (2, m), w₁) ∧
      store out._data 0 ((w.rx port).take 2) = some m ∧ m[0] = b ∧
      w₁.rx port = (w.rx port).drop 2 ∧ w₁.reads = .bytes c₂ :: rest ∧ 255 ≤ c₂ ∧
      w₁.wait = w.wait ∧ ∀ deadline, InTime deadline w₁ ↔ InTime deadline (atBody w timeout) := by
  obtain ⟨c₁, c₂, rest, hreads, hc₁, hc₂⟩ := h.answers
  obtain ⟨ready, hready⟩ := h.ready (w.ticks + 1)
  have hwhole : 2 ≤ (w.rx port).length := Nat.le_trans (two_le_declared h.ne_one) h.whole
  have htwo : ((w.rx port).take 2).length = 2 := by
    rw [List.length_take]
    omega
  have hfit : 0 + ((w.rx port).take 2).length ≤ packetMaxLength := by
    rw [htwo]
    decide
  obtain ⟨m, hm⟩ := exists_store out._data hfit
  have hbyte := lengthByte_header hm
  rw [List.head?_take, if_neg (by decide), h.head, Option.getD_some] at hbyte
  exact ⟨m, c₂, rest, _, read_whole (by decide) hready hlook hreads (by omega) hwhole hm, hm, hbyte,
    Function.update_self _ _ _, rfl, hc₂, rfl, fun _ => Iff.rfl⟩

/-- The checksum of a packet with a body, as its reader computes it. -/
theorem sound_iff_checked {m : Vector UInt8 packetMaxLength} {out : ProtocolPacket}
    {stream : List UInt8} {b : UInt8} (hlength : 3 ≤ b.toNat) (hhead : stream.head? = some b)
    (hwhole : b.toNat ≤ stream.length) (hm : store out._data 0 (stream.take b.toNat) = some m) :
    Sound (fresh m) ↔ Checked stream := by
  match stream, hhead, hwhole with
  | [_], _, hwhole => exact absurd hwhole (by simp only [List.length_singleton]; omega)
  | b' :: c :: rest, hhead, hwhole =>
    obtain rfl : b' = b := Option.some.inj hhead
    obtain ⟨k, hk⟩ : ∃ k, b'.toNat = k + 2 := ⟨b'.toNat - 2, by omega⟩
    obtain ⟨-, he⟩ := store_eq_some.mp hm
    rw [List.take_zero, List.nil_append, hk, List.take_succ_cons, List.take_succ_cons] at he
    have h0 : m.toList[0]? = some m[0] := by simp
    have h1 : m.toList[1]? = some m[1] := by simp
    rw [he] at h0 h1
    have hb : b' = m[0] := Option.some.inj h0
    have hc : c = m[1] := Option.some.inj h1
    have hlen : (rest.take k).length = k := by
      simp only [List.length_cons] at hwhole
      rw [List.length_take]
      omega
    have hwindow : window m 2 k = rest.take k := by
      unfold window
      rw [he]
      exact List.take_left' hlen
    have hne : b' ≠ 0 := fun h0 => by
      rw [h0] at hlength
      exact absurd hlength (by decide)
    unfold Sound
    rw [lengthByte_fresh, ← hb, hk, Nat.add_sub_cancel]
    show (window m 2 k).sum = m[1] ↔
      c = if b' = 0 then 0xCC else (rest.take (b'.toNat - 2)).sum
    rw [if_neg hne, hk, Nat.add_sub_cancel, hwindow, ← hc]
    exact eq_comm

/-- **A packet with a body that is read in time** is accepted if its checksum is right and an error
if not. -/
theorem readBlock_arrived (h : Arrived port b w) (hlength : 3 ≤ b.toNat)
    (htime : Punctual b timeout w) (out : ProtocolPacket) (timeoutError : Bool) :
    if Checked (w.rx port) then
      ∃ out', (protocolReadBlockError port out timeout timeoutError w).1 = .ok (true, out')
    else (protocolReadBlockError port out timeout timeoutError w).1 =
      .error (.error "invalid checksum") := by
  obtain ⟨m, c₂, rest, w₁, hread, hm, hbyte, hrx, hreads, hc₂, hwait, htime'⟩ :=
    header_arrived h htime.header out
  have hlt := b.toNat_lt
  have hne : b ≠ 0 := fun h0 => by
    rw [h0] at hlength
    exact absurd hlength (by decide)
  have hwhole : b.toNat ≤ (w.rx port).length := by
    have := h.whole
    unfold declared at this
    rwa [if_neg hne] at this
  have hlen : (bodyLength m).toNat = b.toNat - 2 := by
    rw [bodyLength_ne_one (by rw [hbyte]; exact h.ne_one), hbyte]
  have hbody : bodyLength m = UInt32.ofNat (b.toNat - 2) := by
    rw [← hlen, UInt32.ofNat_toNat]
  obtain ⟨ready, hready⟩ := h.ready (w₁.ticks + 1)
  have htwo : ((w.rx port).take 2).length = 2 := by
    rw [List.length_take]
    omega
  have hrest : ((w.rx port).drop 2).length = (w.rx port).length - 2 := List.length_drop
  have hfit : 2 + (((w.rx port).drop 2).take (b.toNat - 2)).length ≤ packetMaxLength := by
    rw [List.length_take]
    show _ ≤ 255
    omega
  obtain ⟨m', hm'⟩ := exists_store m hfit
  have hall : store out._data 0 ((w.rx port).take b.toNat) = some m' := by
    have hjoin : (w.rx port).take b.toNat =
        (w.rx port).take 2 ++ ((w.rx port).drop 2).take (b.toNat - 2) := by
      rw [← List.take_add]
      congr 1
      omega
    rw [hjoin, ← store_store hm, htwo]
    exact hm'
  have hlook : InTime (bodyTimeout (bodyLength m) timeout) w₁ := by
    rw [htime', hbody]
    exact htime.body
  have hread₂ : uartReadBlockError port m 2 (bodyLength m).toNat
      (bodyTimeout (bodyLength m) timeout) .none timeoutError w₁ =
        (.ok ((bodyLength m).toNat, m'), _) :=
    read_whole (by omega) (by rw [hwait]; exact hready) hlook hreads (by omega)
      (by rw [hrx]; omega) (by rw [hrx, hlen]; exact hm')
  have hbyte' : m'[0] = b := by rw [lengthByte_body hm', hbyte]
  have hlength' : 3 ≤ m'[0].toNat := by rw [hbyte']; exact hlength
  have hiff := sound_iff_checked hlength h.head hwhole hall
  rw [protocolReadBlockError_of_header hread]
  split
  · rename_i hchecked
    rw [readBody_sound hread₂ (by omega) hlength' (hiff.mpr hchecked)]
    exact ⟨_, rfl⟩
  · rename_i hchecked
    rw [readBody_mismatch hread₂ (by omega) hlength' (fun hs => hchecked (hiff.mp hs))]

/-- A header read that comes too late leaves what the packet held: with a 0 there, and with any
packet without a body, the result is `false`. -/
theorem readBlock_false (h : Arrived port b w)
    (hcond : ¬ (3 ≤ b.toNat ∧ Punctual b timeout w)) :
    ∃ out', (protocolReadBlockError port zeroPacket timeout false w).1 = .ok (false, out') := by
  by_cases hheader : InTime (headerTimeout timeout) w
  · obtain ⟨m, c₂, rest, w₁, hread, hm, hbyte, hrx, hreads, hc₂, hwait, htime'⟩ :=
      header_arrived h hheader zeroPacket
    have hlen : (bodyLength m).toNat = b.toNat - 2 := by
      rw [bodyLength_ne_one (by rw [hbyte]; exact h.ne_one), hbyte]
    rw [protocolReadBlockError_of_header hread]
    by_cases hlength : 3 ≤ b.toNat
    · have hbody : bodyLength m = UInt32.ofNat (b.toNat - 2) := by
        rw [← hlen, UInt32.ofNat_toNat]
      have hlate : ¬ InTime (bodyTimeout (bodyLength m) timeout) w₁ := by
        rw [htime', hbody]
        exact fun hbody => hcond ⟨hlength, hheader, hbody⟩
      obtain ⟨ready, hready⟩ := h.ready (w₁.ticks + 1)
      have hread₂ : uartReadBlockError port m 2 (bodyLength m).toNat
          (bodyTimeout (bodyLength m) timeout) .none false w₁ = (.ok (0, m), _) :=
        read_late (by omega) (by rw [hwait]; exact hready) hlate
      rw [readBody_nothing hread₂]
      exact ⟨_, rfl⟩
    · have hzero : (bodyLength m).toNat = 0 := by omega
      rw [readBody_empty hzero]
      exact ⟨_, rfl⟩
  · obtain ⟨ready, hready⟩ := h.ready (w.ticks + 1)
    have hread : uartReadBlock port zeroPacket._data 0 2 (headerTimeout timeout) .none w =
        (.ok (0, zeroPacket._data), _) := read_late (by decide) hready hheader
    have hzero : (bodyLength zeroPacket._data).toNat = 0 := by decide
    rw [protocolReadBlockError_of_header hread, readBody_empty hzero]
    exact ⟨_, rfl⟩

/-- A request whose reply's read ends with an error other than its own, or with success, does not
time out. -/
theorem request_of_read {w₀ : World} {request request' out : ProtocolPacket}
    (hwrite : protocolWriteBlock port request w₀ = (.ok request', w))
    (h : (∃ out', (protocolReadBlockError port out timeout timeoutError w).1 = .ok (true, out')) ∨
      (protocolReadBlockError port out timeout timeoutError w).1 =
        .error (.error "invalid checksum")) :
    (∀ p, (protocolRequestTimeout port request out timeout timeoutError w₀).1 ≠ .ok (false, p)) ∧
      (protocolRequestTimeout port request out timeout timeoutError w₀).1 ≠
        .error (.error "timeout") := by
  unfold protocolRequestTimeout
  rw [Run.bind_of_ok hwrite]
  rcases hread : protocolReadBlockError port out timeout timeoutError w with ⟨r, w₁⟩
  rw [hread] at h
  rcases h with ⟨out', rfl⟩ | rfl
  · rw [Run.bind_of_ok hread]
    have hvalidate := protocolValidateResponse_eq request' out' w₁
    simp only [if_true]
    split at hvalidate
    · rw [Run.bind_of_error hvalidate]
      simp
    · split at hvalidate
      · rw [Run.bind_of_error hvalidate]
        simp
      · rw [Run.bind_of_ok hvalidate]
        simp
  · rw [Run.bind_of_error hread]
    simp

/-- **The callers can count on a packet that has arrived exactly when it has a body and both reads
look at the clock before their deadline.** -/
theorem answered_iff (h : Arrived port b w) :
    Answered port timeout w ↔ 3 ≤ b.toNat ∧ Punctual b timeout w := by
  constructor
  · intro hanswered
    by_contra hcond
    obtain ⟨out', hfalse⟩ := readBlock_false h hcond
    exact hanswered.read zeroPacket false out' hfalse
  · rintro ⟨hlength, htime⟩
    have hread := readBlock_arrived h hlength htime
    refine ⟨fun out te out' hfalse => ?_, fun hchecked out te => ?_, ?_⟩
    · have := hread out te
      split at this
      · obtain ⟨out'', hok⟩ := this
        rw [hok] at hfalse
        cases hfalse
      · rw [this] at hfalse
        cases hfalse
    · have := hread out te
      rwa [if_pos hchecked] at this
    · intro w₀ request request' out te hwrite
      refine request_of_read hwrite ?_
      have := hread out te
      split at this
      · exact .inl this
      · exact .inr this

/-- A command packet that is read in time. -/
theorem answered_command :
    Answered 0 100 (scheduled [0x03, 0x05, 0x05] [.bytes 255, .bytes 255] []) :=
  (answered_iff (b := 0x03)
    ⟨rfl, by decide, by decide, fun _ => ⟨true, rfl⟩, 255, 255, [], rfl, by decide, by decide⟩).mpr
    ⟨by decide, by decide, by decide⟩

/-- The acknowledgement of the bootloader is there, its checksum is the one the protocol gives it,
and the reader says that nothing came. -/
theorem ack_not_answered :
    let w := scheduled [0x00, 0xCC] [.bytes 255, .bytes 255] []
    Arrived 0 0x00 w ∧ Checked (w.rx 0) ∧ ¬ Answered 0 100 w := by
  intro w
  have hfalse : (match (protocolReadBlockError 0 zeroPacket 100 true w).1 with
      | .ok (success, _) => !success
      | .error _ => false) = true := by decide +kernel
  refine ⟨⟨rfl, by decide, by decide, fun _ => ⟨true, rfl⟩, 255, 255, [], rfl, by decide,
    by decide⟩, by decide, fun h => ?_⟩
  have hread := h.read zeroPacket true
  match hr : (protocolReadBlockError 0 zeroPacket 100 true w).1 with
  | .ok (true, _) =>
    rw [hr] at hfalse
    cases hfalse
  | .ok (false, out') => exact hread out' hr
  | .error _ =>
    rw [hr] at hfalse
    cases hfalse

end Nuhal.Link
