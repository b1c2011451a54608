import Mathlib.Data.UInt
import Nuhal.Link.RoundTrip

/-!
# The reader accepts what the writer sends (`nuhal_all/src/protocol.c:64-131, 168-260`)

A frame that has come, whoever sent it, is accepted exactly if its checksum byte is the sum of the
bytes after it. Such a frame is one that the library itself sends: what a reader finds in the
packet, put into a packet of its own, goes out as the same bytes.

* `sound_iff_checks`: what the reader verifies is `Checks`, of the bytes on the wire.
* `readBlock_consumes`: a frame is taken off the port whole, accepted or not.
* `accepted_resent`: the same bytes go out again.
* **`readBlock_accepts_iff`**.
-/

namespace Nuhal.Link

open Nuhal.Lib Nuhal.All Nuhal.Serial

variable {port : Nat} {out : ProtocolPacket} {timeout : UInt32} {timeoutError : Bool}
  {m : Vector UInt8 packetMaxLength} {raw later : List UInt8} {w w' : World}

/-! ## The checksum of a frame -/

/-- Byte 1 is the sum of the bytes after it. -/
def Checks (raw : List UInt8) : Prop := raw[1]? = some (raw.drop 2).sum

instance (raw : List UInt8) : Decidable (Checks raw) := inferInstanceAs (Decidable (_ = _))

theorem toNat_sum (bytes : List UInt8) :
    bytes.sum.toNat = (bytes.map UInt8.toNat).sum % 256 := by
  induction bytes with
  | nil => rfl
  | cons b rest ih =>
    rw [List.sum_cons, List.map_cons, List.sum_cons, UInt8.toNat_add, ih, Nat.add_mod_mod]

/-- The sum is one of numbers modulo 256. -/
theorem checks_iff (hlong : 2 ≤ raw.length) :
    Checks raw ↔
      raw[1].toNat = ((raw.drop 2).map UInt8.toNat).sum % 256 := by
  unfold Checks
  rw [List.getElem?_eq_getElem (show 1 < raw.length from hlong), Option.some_inj,
    ← UInt8.toNat_inj, toNat_sum]

/-- The reader verifies the checksum of the frame. -/
theorem sound_iff_checks (hframe : IsFrame raw) (hm : store out._data 0 raw = some m) :
    Sound (fresh m) ↔ Checks raw := by
  have hlong := hframe.long
  obtain ⟨hle, he⟩ := store_eq_some.mp hm
  rw [List.take_zero, List.nil_append] at he
  have hbyte : ∀ i, i < raw.length → m.toList[i]? = raw[i]? := by
    intro i hi
    rw [he, List.getElem?_append_left hi]
  have h0 : some m[0] = raw[0]? := by
    rw [← hbyte 0 (by omega)]
    simp
  have h1 : some m[1] = raw[1]? := by
    rw [← hbyte 1 (by omega)]
    simp
  have hlength : m[0].toNat = raw.length := by
    rw [← List.head?_eq_getElem?, hframe.head] at h0
    rw [Option.some_inj.mp h0]
    exact hframe.toNat_length
  have hwindow : window m 2 (raw.length - 2) = raw.drop 2 := by
    unfold window
    rw [he, List.drop_append_of_le_length (by omega)]
    exact List.take_left' List.length_drop
  unfold Sound Checks
  rw [lengthByte_fresh, hlength, ← h1, Option.some_inj]
  show (window m 2 (raw.length - 2)).sum = m[1] ↔ _
  rw [hwindow]
  exact eq_comm

/-- A frame that checks is one that the library sends. -/
theorem eq_frame (hframe : IsFrame raw) (hchecks : Checks raw) : raw = frame (raw.drop 2) := by
  have hlong := hframe.long
  have hhead := hframe.head
  match raw, hlong with
  | a :: b :: rest, _ =>
    have ha : a = UInt8.ofNat (rest.length + 2) := Option.some_inj.mp hhead
    have hb : b = rest.sum := Option.some_inj.mp hchecks
    rw [ha, hb]
    rfl

/-! ## What is taken off the port -/

/-- With the bytes there and no disturbance, a read takes all it asks for. -/
theorem reads_ready {n : Nat} {mem : Vector UInt8 n} {off len : Nat} {te : Bool}
    {got : List UInt8} {r : Except Halt (Nat × Vector UInt8 n)}
    (h : Reads port mem off len timeout te got w r w') (hu : Undisturbed w')
    (hfit : off + len ≤ n) (hroom : len ≤ (w.rx port).length)
    (hready : len ≤ productive w.reads) :
    got.length = len ∧ ∃ mem', r = .ok (len, mem') := by
  rcases reads_onTime h hu.expired hfit with
    ⟨mem', hok, hlength, -⟩ | ⟨-, hreads, hfew⟩ | ⟨msg, -, hfailed⟩
  · exact ⟨hlength, mem', hok⟩
  · have hmoves := h.moves hroom
    rw [hreads] at hmoves
    have hnone : productive [] = 0 := rfl
    omega
  · exact absurd hfailed hu.failed

/-- The body of a frame is taken whole. -/
theorem bodyRead_consumes {r : Except Halt (Bool × ProtocolPacket)} {body : List UInt8}
    (h : BodyRead port timeout timeoutError m w body r w') (hu : Undisturbed w')
    (hfit : 2 + (bodyLength m).toNat ≤ packetMaxLength)
    (hroom : (bodyLength m).toNat ≤ (w.rx port).length)
    (hready : (bodyLength m).toNat ≤ productive w.reads) :
    body.length = (bodyLength m).toNat ∧ w.rx port = body ++ w'.rx port := by
  have hafter : ∀ {i k : Nat} {w₁ : World}, Undisturbed (looked w₁ i k) → Undisturbed w₁ :=
    fun hu' => hu'.before (grown_looked _ _ _)
  cases h with
  | stopped h => exact ⟨(reads_ready h hu hfit hroom hready).1, h.taken.rx⟩
  | nothing h => exact ⟨(reads_ready h hu hfit hroom hready).1, h.taken.rx⟩
  | overrun h _ => exact ⟨(reads_ready h (hafter hu) hfit hroom hready).1, h.taken.rx⟩
  | mismatch h _ _ => exact ⟨(reads_ready h (hafter hu) hfit hroom hready).1, h.taken.rx⟩
  | packet h _ _ => exact ⟨(reads_ready h (hafter hu) hfit hroom hready).1, h.taken.rx⟩

/-- **A frame is taken off the port whole.** -/
theorem readBlock_consumes (hframe : IsFrame raw) (hrx : w.rx port = raw ++ later)
    (hready : raw.length ≤ productive w.reads) {r : Except Halt (Bool × ProtocolPacket)}
    (h : protocolReadBlockError port out timeout timeoutError w = (r, w'))
    (hu : Undisturbed w') : w'.rx port = later := by
  have hlong := hframe.long
  have hshort : raw.length ≤ 255 := hframe.short
  have hlength : (w.rx port).length = raw.length + later.length := by
    rw [hrx, List.length_append]
  cases (protocolReadBlockError_cases port out timeout timeoutError w).elim h with
  | stopped hhead =>
    obtain ⟨-, _, hok⟩ := reads_ready hhead hu (by decide) (by omega) (by omega)
    cases hok
  | @body header body m w₁ _ _ hhead hbody =>
    have hu₁ : Undisturbed w₁ := hu.before hbody.log
    obtain ⟨htwo, -⟩ := reads_ready hhead hu₁ (by decide) (by omega) (by omega)
    have hstore := (reads_full hhead hu₁.expired (by decide)).2
    have hrx₁ : raw ++ later = header ++ w₁.rx port := hrx.symm.trans hhead.taken.rx
    have hpre : header <+: raw :=
      List.prefix_of_prefix_length_le ⟨_, hrx₁.symm⟩ (List.prefix_append raw later) (by omega)
    obtain ⟨-, hlen⟩ := lengthByte_frame hframe htwo hpre hstore
    have hmoves := hhead.moves (by omega)
    have hroom := congrArg List.length hrx₁
    rw [List.length_append, List.length_append] at hroom
    obtain ⟨hfull, htaken⟩ := bodyRead_consumes hbody hu
      (by show _ ≤ 255; omega) (by omega) (by omega)
    rw [htaken, ← List.append_assoc] at hrx₁
    exact (List.append_inj hrx₁ (by rw [List.length_append]; omega)).2.symm

/-! ## Sending it again -/

/-- What a reader finds in `packet`, put into a packet of its own, goes out as `raw`: the command,
and then one byte for each byte that can be extracted. -/
def Resends (raw : List UInt8) (packet : ProtocolPacket) : Prop :=
  ∃ (bytes : List UInt8) (packet' : ProtocolPacket),
    extractFields (List.replicate (raw.length - 3) .u8) packet =
      (.ok (bytes.map Field.u8), packet') ∧
    bytestreamExtractU8 packet' = (.error (.error "overflow"), packet') ∧
    ∀ prior, ∃ sent,
      build ⟨protocolPacketCommand packet, bytes.map Field.u8⟩ prior = (.ok (), sent) ∧
      ∀ (port' : Nat) (v v' : World) (s : Except Halt ProtocolPacket),
        protocolWriteBlock port' sent v = (s, v') → Undisturbed v' →
        raw.length ≤ productive v.writes →
        (∃ packet'', s = .ok packet'') ∧ v'.tx port' = v.tx port' ++ raw

/-- The bytes of a message of single bytes. -/
theorem payload_bytes (c : UInt8) (bytes : List UInt8) :
    (Message.mk c (bytes.map Field.u8)).payload = c :: bytes := by
  show c :: (bytes.map Field.u8).flatMap Field.bytes = c :: bytes
  rw [List.flatMap_map]
  exact congrArg (c :: ·) (List.flatMap_singleton' bytes)

/-- **An accepted frame goes out as the same bytes.** -/
theorem accepted_resent (hframe : IsFrame raw) (hchecks : Checks raw)
    (hm : store out._data 0 raw = some m) : Resends raw (opened (fresh m)) := by
  have hlong := hframe.long
  have hshort : raw.length ≤ 255 := hframe.short
  have hraw := eq_frame hframe hchecks
  obtain ⟨c, bytes, hdata⟩ : ∃ c bytes, raw.drop 2 = c :: bytes :=
    List.exists_cons_of_length_pos (by rw [List.length_drop]; omega)
  have hpayload := payload_bytes c bytes
  rw [hdata, ← hpayload] at hraw
  have hcount : raw.length = bytes.length + 3 := by
    have hlength := congrArg List.length hdata
    rw [List.length_drop, List.length_cons] at hlength
    omega
  have hfits : (Message.mk c (bytes.map Field.u8)).payload.length ≤ 253 := by
    rw [hpayload, List.length_cons]
    omega
  rw [hraw] at hm
  obtain ⟨-, hyields⟩ := yields_of_store hfits hm
  obtain ⟨packet', hextract, hend⟩ := hyields.fields
  have htypes : (bytes.map Field.u8).map Field.type =
      List.replicate (raw.length - 3) FieldType.u8 := by
    rw [List.map_map, hcount, Nat.add_sub_cancel]
    exact List.map_const'
  rw [htypes] at hextract
  refine ⟨bytes, packet', hextract, hend, fun prior => ?_⟩
  rw [hyields.command]
  obtain ⟨sent, hbuild, hcarries⟩ := build_carries hfits prior
  refine ⟨sent, hbuild, fun port' v v' s hsend hu hready => ?_⟩
  obtain ⟨given, hsends⟩ := (protocolWriteBlock_writes port' hcarries v).elim hsend
  match s, hsends.ends with
  | .ok packet'', ⟨_, hgiven⟩ =>
    refine ⟨⟨packet'', rfl⟩, ?_⟩
    rw [hsends.given.tx, Function.update_self, hgiven, ← hraw]
  | .error .undefined, hends => exact hends.elim
  | .error .pending, ⟨hfew, hwrites⟩ =>
    have hmoves := hsends.moves
    rw [hwrites] at hmoves
    have hnone : productive [] = 0 := rfl
    rw [← hraw] at hfew
    omega
  | .error (.error _), hends =>
    rcases hends with hfailed | hexpired
    · exact absurd hfailed hu.failed
    · exact absurd hexpired hu.expired

/-! ## The reader -/

/-- **The reader accepts exactly the writer's frames.** `stream` waits on the port, its first byte
`length` is at least 3 and no larger than what is there; the driver hands the bytes over in any
pieces, and no deadline passes. The packet is accepted if and only if the checksum is right, and is
otherwise an error; `length` bytes are taken off the port; and an accepted packet goes out as the
same bytes. -/
theorem readBlock_accepts_iff {stream : List UInt8} {length : UInt8}
    (hhead : stream.head? = some length) (hlong : 3 ≤ length.toNat)
    (hthere : length.toNat ≤ stream.length) (hrx : w.rx port = stream)
    (hready : length.toNat ≤ productive w.reads) {r : Except Halt (Bool × ProtocolPacket)}
    (h : protocolReadBlockError port out timeout timeoutError w = (r, w'))
    (hu : Undisturbed w') :
    ((∃ packet, r = .ok (true, packet)) ↔
      stream[1]?.map UInt8.toNat =
        some ((((stream.take length.toNat).drop 2).map UInt8.toNat).sum % 256)) ∧
    ((∃ packet, r = .ok (true, packet)) ∨ r = .error (.error "invalid checksum")) ∧
    w'.rx port = stream.drop length.toNat ∧
    ∀ packet, r = .ok (true, packet) → Resends (stream.take length.toNat) packet := by
  have hlt := length.toNat_lt
  have hcount : (stream.take length.toNat).length = length.toNat :=
    List.length_take_of_le hthere
  have hframe : IsFrame (stream.take length.toNat) := by
    refine ⟨by omega, by rw [hcount]; exact Nat.le_of_lt_succ hlt, ?_⟩
    rw [hcount, UInt8.ofNat_toNat, List.head?_take, if_neg (by omega), hhead]
  have hsplit : w.rx port = stream.take length.toNat ++ stream.drop length.toNat := by
    rw [List.take_append_drop, hrx]
  have hchecks : Checks (stream.take length.toNat) ↔ stream[1]?.map UInt8.toNat =
      some ((((stream.take length.toNat).drop 2).map UInt8.toNat).sum % 256) := by
    have hone : stream[1]? = some stream[1] := List.getElem?_eq_getElem (by omega)
    rw [checks_iff (by omega), List.getElem_take, hone, Option.map_some, Option.some_inj]
  have htaken := readBlock_consumes hframe hsplit (by omega) h hu
  rw [← hchecks]
  cases readBlock_frame hframe hsplit h hu.expired with
  | waiting _ hfew => omega
  | failed hfailed => exact absurd hfailed hu.failed
  | mismatch hm hsound =>
    refine ⟨⟨?_, fun hyes => absurd ((sound_iff_checks hframe hm).mpr hyes) hsound⟩, .inr rfl,
      htaken, ?_⟩
    · rintro ⟨packet, hok⟩
      cases hok
    · intro packet hok
      cases hok
  | packet hm hsound _ _ =>
    have hyes := (sound_iff_checks hframe hm).mp hsound
    refine ⟨⟨fun _ => hyes, fun _ => ⟨_, rfl⟩⟩, .inl ⟨_, rfl⟩, htaken, ?_⟩
    rintro packet hok
    cases hok
    exact accepted_resent hframe hyes hm

/-- A frame with one byte of data after its command, and two bytes behind it. -/
theorem readBlock_accepts_iff_four :
    (protocolReadBlockError 0 zeroPacket 100 true
      (scheduled [4, 12, 5, 7, 1, 2] (List.replicate 4 (.bytes 1)) [])).2.rx 0 = [1, 2] ∧
    ∃ packet, (protocolReadBlockError 0 zeroPacket 100 true
      (scheduled [4, 12, 5, 7, 1, 2] (List.replicate 4 (.bytes 1)) [])).1 = .ok (true, packet) := by
  obtain ⟨hiff, -, hrx, -⟩ := readBlock_accepts_iff rfl (by decide) (by decide) rfl
    (by decide) (Prod.eta (protocolReadBlockError 0 zeroPacket 100 true
      (scheduled [4, 12, 5, 7, 1, 2] (List.replicate 4 (.bytes 1)) []))).symm
    ⟨by decide +kernel, by decide +kernel⟩
  exact ⟨hrx, hiff.mpr rfl⟩

end Nuhal.Link
