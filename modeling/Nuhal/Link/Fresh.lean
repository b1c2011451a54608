import Nuhal.Link.Reader
import Nuhal.Link.Schedule

/-!
# What a packet that was read consists of

`protocol_read_block_error` reads into the packet it is given, drops the result of the header's
read, and takes a body of which anything came for a whole one. So the bytes it verifies are a
patchwork: the first `h` bytes that came over the old header, the next `k` over the old data
(`Patched`). The checksum is all that tells such a patchwork from a packet.

* `Whole` is what a successful read promises (`protocol.h:123-133`): the packet is the next bytes
  of the stream, all of them from this call, with the right checksum.
* **`readBlock_whole_iff`**: it holds on every schedule exactly when no patchwork with an old byte
  in it has the right checksum.
-/

namespace Nuhal.Link

open Nuhal.Lib Nuhal.All

/-- The packet is the first `N` bytes of `stream`, of which `rest` is left, and its checksum is
right. -/
structure Whole (out : ProtocolPacket) (stream rest : List UInt8) : Prop where
  length : 3 ≤ (lengthByte out).toNat
  taken : stream = out._data.toList.take (lengthByte out).toNat ++ rest
  sum : checksumByte out = (window out._data 2 ((lengthByte out).toNat - 2)).sum

/-- A schedule can leave `m` for verification: `h` bytes of the stream over the header of `out`
and the next `k` over its data. Fewer than were asked for come only before a deadline. -/
structure Patched (out : ProtocolPacket) (stream : List UInt8) (timeout : UInt32)
    (timeoutError : Bool) (h k : Nat) (m : Vector UInt8 packetMaxLength) : Prop where
  header : h ≤ 2
  headerLate : h < 2 → headerTimeout timeout ≠ 0
  arrived : h + k ≤ stream.length
  started : 0 < k
  length : 3 ≤ m[0].toNat
  body : k ≤ m[0].toNat - 2
  bodyLate : k < m[0].toNat - 2 → bodyTimeout (bodyLength m) timeout ≠ 0 ∧ timeoutError = false
  mem : ∃ m₁, store out._data 0 (stream.take h) = some m₁ ∧
    store m₁ 2 ((stream.drop h).take k) = some m

/-- A byte of the packet is from before the call. -/
def Stale (h k : Nat) (m : Vector UInt8 packetMaxLength) : Prop :=
  h < 2 ∨ k < (lengthByte (fresh m)).toNat - 2

variable {port : Nat} {out out' : ProtocolPacket} {stream : List UInt8} {timeout : UInt32}
  {timeoutError : Bool} {m m' : Vector UInt8 packetMaxLength} {w w₁ w' : World}

/-- Everything a successful read can have verified is such a patchwork. -/
theorem readBlock_patched
    (h : protocolReadBlockError port out timeout timeoutError w = (.ok (true, out'), w')) :
    ∃ header body m, Patched out (w.rx port) timeout timeoutError header body m ∧
      Sound (fresh m) ∧ out' = opened (fresh m) ∧
      w'.rx port = (w.rx port).drop (header + body) := by
  have hcases := (protocolReadBlockError_cases port out timeout timeoutError w).elim h
  cases hcases with
  | body hhead hbody =>
    rename_i header body m₁ w₁
    cases hbody with
    | packet hread hfilled hsound =>
      rename_i m w₂
      obtain ⟨-, hstore₁, hshort₁⟩ := hhead.ends
      obtain ⟨-, hstore₂, hshort₂⟩ := hread.ends
      have hlength : 3 ≤ m[0].toNat := hfilled.length
      have hbyte := lengthByte_body hstore₂
      have hlen : (bodyLength m₁).toNat = m[0].toNat - 2 := by
        rw [bodyLength_congr hbyte.symm]
        exact bodyLength_ne_one (ne_one_of_length hlength)
      have hrx : w.rx port = header ++ (body ++ w₂.rx port) := by
        rw [hhead.taken.rx, hread.taken.rx]
      have hle := hread.le
      refine ⟨header.length, body.length, m, ⟨hhead.le, fun hlt => (hshort₁ hlt).2.1, ?_,
        List.length_pos_of_ne_nil hfilled.body, hlength, by omega, fun hlt => ?_, m₁, ?_, ?_⟩,
        hsound, rfl, ?_⟩
      · rw [hrx]
        simp only [List.length_append]
        omega
      · have hlate := (hshort₂ (by omega)).2
        rwa [bodyLength_congr hbyte.symm] at hlate
      · rw [hrx, List.take_left]
        exact hstore₁
      · rw [hrx, List.drop_left, List.take_left]
        exact hstore₂
      · show w₂.rx port = _
        rw [hrx, ← List.append_assoc, ← List.length_append, List.drop_left]

/-- Without an old byte the patchwork is the packet. -/
theorem whole_of_patched {h k : Nat} (hp : Patched out stream timeout timeoutError h k m)
    (hstale : ¬ Stale h k m) (hsound : Sound (fresh m)) :
    Whole (opened (fresh m)) stream (stream.drop (h + k)) := by
  have hlength := hp.length
  have hbody := hp.body
  have hheader := hp.header
  rw [Stale, lengthByte_fresh] at hstale
  obtain rfl : h = 2 := by omega
  obtain rfl : k = m[0].toNat - 2 := by omega
  obtain ⟨m₁, hstore₁, hstore₂⟩ := hp.mem
  have harrived := hp.arrived
  have htwo : (stream.take 2).length = 2 := by
    rw [List.length_take]
    omega
  have hmem : store out._data 0 (stream.take 2 ++ (stream.drop 2).take (m[0].toNat - 2)) =
      some m := by
    rw [← store_store hstore₁, htwo]
    exact hstore₂
  have htake : stream.take 2 ++ (stream.drop 2).take (m[0].toNat - 2) = stream.take m[0].toNat := by
    rw [← List.take_add]
    congr 1
    omega
  have hlen : (stream.take m[0].toNat).length = m[0].toNat := by
    rw [List.length_take]
    omega
  have hwindow := window_store hmem
  rw [htake, hlen] at hwindow
  refine ⟨hlength, ?_, hsound.symm⟩
  show stream = m.toList.take m[0].toNat ++ _
  rw [show m.toList.take m[0].toNat = stream.take m[0].toNat from hwindow,
    show 2 + (m[0].toNat - 2) = m[0].toNat by omega, List.take_append_drop]

/-- Where the clock of the realising schedule is late, for a header of which `h` bytes come and a
body that starts at reading `t`. -/
def lateReadings (h t : Nat) : List Nat := if h < 2 then [2, t + 2] else [t + 2]

theorem lateReadings_spec {h t : Nat} (ht : h < 2 → t = 3) (hpos : 1 ≤ t) :
    0 ∉ lateReadings h t ∧ 1 ∉ lateReadings h t ∧ (h < 2 → 2 ∈ lateReadings h t) ∧
      t ∉ lateReadings h t ∧ t + 1 ∉ lateReadings h t ∧ t + 2 ∈ lateReadings h t := by
  unfold lateReadings
  by_cases hh : h < 2
  · obtain rfl := ht hh
    rw [if_pos hh]
    exact ⟨by decide, by decide, fun _ => by decide, by decide, by decide, by decide⟩
  · rw [if_neg hh]
    simp only [List.mem_singleton]
    exact ⟨by omega, by omega, fun hlt => absurd hlt hh, by omega, by omega, trivial⟩

/-- Every patchwork with the right checksum is accepted on some schedule. -/
theorem patched_realised {h k : Nat} (port : Nat)
    (hp : Patched out stream timeout timeoutError h k m) (hsound : Sound (fresh m)) :
    ∃ w w', w.rx port = stream ∧ protocolReadBlockError port out timeout timeoutError w =
      (.ok (true, opened (fresh m)), w') ∧ w'.rx port = stream.drop (h + k) := by
  obtain ⟨m₁, hstore₁, hstore₂⟩ := hp.mem
  have harrived := hp.arrived
  have hbyte := lengthByte_body hstore₂
  have hlen : (bodyLength m₁).toNat = m[0].toNat - 2 := by
    rw [bodyLength_congr hbyte.symm]
    exact bodyLength_ne_one (ne_one_of_length hp.length)
  -- the reading of the clock that the body's read starts with
  generalize ht : (if h < 2 then 3 else 1 + looks (headerTimeout timeout)) = t
  obtain ⟨h0, h1, h2, ht0, ht1, ht2⟩ := lateReadings_spec (t := t) (fun hlt => by
    rw [← ht, if_pos hlt]) (by rw [← ht]; split <;> omega)
  let w := scheduled stream [.bytes h, .bytes k] (lateReadings h t)
  obtain ⟨w₁, hread₁, hrx₁, hreads₁, hclock₁, hwait₁, hticks₁⟩ :
      ∃ w₁, uartReadBlock port out._data 0 2 (headerTimeout timeout) .none w =
        (.ok (h, m₁), w₁) ∧ _ :=
    read_realised rfl rfl h0 h1 (by decide) hp.header
      (fun hlt => ⟨hp.headerLate hlt, rfl, h2 hlt⟩) rfl
      (show h ≤ stream.length by omega) hstore₁
  have hticks : w₁.ticks = t := by
    rw [hticks₁, ← ht]
    show (if h < 2 then 0 + 3 else 0 + 1 + looks _) = _
    rw [Nat.zero_add, Nat.zero_add]
  have hlength := hp.length
  obtain ⟨w₂, hread₂, hrx₂, -⟩ :
      ∃ w₂, uartReadBlockError port m₁ 2 (bodyLength m₁).toNat
        (bodyTimeout (bodyLength m₁) timeout) .none timeoutError w₁ = (.ok (k, m), w₂) ∧ _ :=
    read_realised (k := k) hclock₁ hwait₁ (by rw [hticks]; exact ht0) (by rw [hticks]; exact ht1)
      (by rw [hlen]; omega) (by rw [hlen]; exact hp.body)
      (fun hlt => by
        rw [hlen] at hlt
        rw [bodyLength_congr hbyte.symm, hticks]
        exact ⟨(hp.bodyLate hlt).1, (hp.bodyLate hlt).2, ht2⟩)
      hreads₁ (by rw [hrx₁, List.length_drop]; show k ≤ stream.length - h; omega)
      (by rw [hrx₁]; exact hstore₂)
  refine ⟨w, looked w₂ 2 (m[0].toNat - 2), rfl, ?_, ?_⟩
  · rw [protocolReadBlockError_of_header hread₁]
    exact readBody_sound hread₂ (Nat.ne_of_gt hp.started) hp.length hsound
  · show w₂.rx port = _
    rw [hrx₂, hrx₁, List.drop_drop]
    rfl

/-- **Every successful read hands back a whole packet of bytes that came in this call, on every
schedule, exactly when no patchwork with an old byte in it has the right checksum.** -/
theorem readBlock_whole_iff (port : Nat) (out : ProtocolPacket) (stream : List UInt8)
    (timeout : UInt32) (timeoutError : Bool) :
    (∀ (w : World) (out' : ProtocolPacket) (w' : World), w.rx port = stream →
      protocolReadBlockError port out timeout timeoutError w = (.ok (true, out'), w') →
        Whole out' stream (w'.rx port)) ↔
      ∀ h k m, Patched out stream timeout timeoutError h k m → Stale h k m → ¬ Sound (fresh m) := by
  constructor
  · intro hwhole h k m hp hstale hsound
    obtain ⟨w, w', hrx, hread, hrx'⟩ := patched_realised port hp hsound
    have htaken := congrArg List.length (hwhole w _ w' hrx hread).taken
    have hbody := hp.body
    have hheader := hp.header
    have hlength := hp.length
    have hlt := m[0].toNat_lt
    rw [hrx', List.length_append, List.length_take, Vector.length_toList,
      List.length_drop] at htaken
    change stream.length = min m[0].toNat 255 + _ at htaken
    rw [Stale, lengthByte_fresh] at hstale
    omega
  · intro hmix w out' w' hrx hread
    obtain ⟨h, k, m, hp, hsound, rfl, hrest⟩ := readBlock_patched hread
    rw [hrx] at hp hrest
    rw [hrest]
    exact whole_of_patched hp (fun hstale => hmix h k m hp hstale hsound) hsound

/-- A packet that still holds `04 15 05 10` from an earlier call. -/
def usedPacket : ProtocolPacket :=
  { zeroPacket with
    _data := Vector.ofFn fun i => [0x04, 0x15, 0x05, 0x10].getD i 0 }

/-- The packet `04 11 06 0B` comes after the header's deadline. Its header is taken for the body of
the old header, whose checksum it happens to have: the call returns true with the command 4. -/
theorem readBlock_accepts_stale :
    let stream : List UInt8 := [0x04, 0x11, 0x06, 0x0B]
    ∃ out' w', protocolReadBlockError 0 usedPacket 100 true
        (scheduled stream [.bytes 0, .bytes 2] [2]) = (.ok (true, out'), w') ∧
      protocolPacketCommand out' = 0x04 ∧ ¬ Whole out' stream (w'.rx 0) := by
  intro stream
  have hcommand : (match (protocolReadBlockError 0 usedPacket 100 true
      (scheduled stream [.bytes 0, .bytes 2] [2])).1 with
      | .ok (true, out') => protocolPacketCommand out' == 0x04
      | _ => false) = true := by decide +kernel
  have hrest : (protocolReadBlockError 0 usedPacket 100 true
      (scheduled stream [.bytes 0, .bytes 2] [2])).2.rx 0 = [0x06, 0x0B] := by decide +kernel
  rcases hread : protocolReadBlockError 0 usedPacket 100 true
    (scheduled stream [.bytes 0, .bytes 2] [2]) with ⟨r, w'⟩
  rw [hread] at hcommand hrest
  match r, hcommand with
  | .ok (true, out'), hcommand =>
    refine ⟨out', w', rfl, beq_iff_eq.mp hcommand, fun hwhole => ?_⟩
    have htaken : 4 = _ := congrArg List.length hwhole.taken
    have hlength := hwhole.length
    have hleft : (w'.rx 0).length = 2 := congrArg List.length hrest
    rw [List.length_append, List.length_take, Vector.length_toList, hleft] at htaken
    change 4 = min _ 255 + 2 at htaken
    omega

end Nuhal.Link
