import Nuhal.Link.RoundTrip
import Nuhal.Link.Verified

/-!
# Packets without a deadline (`nuhal_all/src/protocol.c:187-331`)

A read with the timeout 0 and `timeout_error` set waits for its header as long as it takes, and
returns only with the whole body. So nothing has to be known of the schedule: what was read is the
frame that came (`readBlock_unhurried`), and what a send that returned has handed over is the whole
frame (`writeBlock_returned`). `request_unhurried` is a request and its answer.
-/

namespace Nuhal.Link

open Nuhal.Lib Nuhal.All

variable {port : Nat} {out packet packet' : ProtocolPacket} {raw later data : List UInt8}
  {w w' : World}

theorem writeBlock_returned (hcarries : Carries packet data)
    (h : protocolWriteBlock port packet w = (.ok packet', w')) :
    packet' = headed packet data ∧ Sent port (frame data) w w' := by
  obtain ⟨sent, hsends⟩ := (protocolWriteBlock_writes port hcarries w).elim h
  obtain ⟨hpacket, rfl⟩ := hsends.ends
  exact ⟨hpacket, hsends.given⟩

/-- A header's read without a deadline is full. -/
theorem header_full {header : List UInt8} {k : Nat} {m : Vector UInt8 packetMaxLength}
    (h : HeaderReads port out 0 header w (.ok (k, m)) w') : header.length = 2 := by
  obtain ⟨rfl, -, hshort⟩ := h.ends
  have hle := h.le
  by_contra hne
  exact (hshort (by omega)).2.1 rfl

/-- **A read without a deadline that returned has read the frame on the port, and nothing after
it.** -/
theorem readBlock_unhurried (hframe : IsFrame raw) (hrx : w.rx port = raw ++ later)
    {result : Bool × ProtocolPacket}
    (h : protocolReadBlockError port out 0 true w = (.ok result, w')) :
    ∃ m, store out._data 0 raw = some m ∧ result = (true, opened (fresh m)) ∧
      Sound (fresh m) ∧ Taken (fun _ => True) port raw w w' := by
  have hlong := hframe.long
  have hshort : raw.length ≤ 255 := hframe.short
  cases (protocolReadBlockError_cases port out 0 true w).elim h with
  | @body header body m w₁ _ _ hhead hbody =>
    have hlength := header_full hhead
    have htaken : Taken (fun _ => True) port header w w₁ := hhead.taken.mono fun _ _ => trivial
    have hrx₁ : raw ++ later = header ++ w₁.rx port := hrx.symm.trans htaken.rx
    have hpre : header <+: raw :=
      List.prefix_of_prefix_length_le ⟨_, hrx₁.symm⟩ (List.prefix_append raw later) (by omega)
    obtain ⟨hbyte, hlen⟩ := lengthByte_frame hframe hlength hpre hhead.ends.2.1
    cases hbody with
    | nothing hread =>
      have hfull := reads_strict hread rfl
      rw [List.length_nil] at hfull
      omega
    | @packet _ m' w₂ hread hfilled hsound =>
      have hfull := reads_strict hread rfl
      have htaken' : Taken (fun _ => True) port (header ++ body) w w₂ :=
        htaken.trans (hread.taken.mono fun _ _ => trivial)
      have hraw : header ++ body = raw := by
        have happend := hrx.symm.trans htaken'.rx
        exact (List.append_inj happend (by rw [List.length_append]; omega)).1.symm
      subst hraw
      refine ⟨m', ?_, rfl, hsound, htaken'.rx, htaken'.others, htaken'.tx, htaken'.writes, ?_⟩
      · rw [← store_store hhead.ends.2.1, hlength]
        exact hread.ends.2.1
      · exact htaken'.log.trans (grown_looked _ _ _)

/-- In particular a message that was sent is what its reader gets. -/
theorem readBlock_yields {msg : Message} (hfits : msg.payload.length ≤ 253)
    (hrx : w.rx port = frame msg.payload ++ later) {result : Bool × ProtocolPacket}
    (h : protocolReadBlockError port out 0 true w = (.ok result, w')) :
    result.1 = true ∧ Yields msg result.2 ∧
      Taken (fun _ => True) port (frame msg.payload) w w' := by
  have hframe : IsFrame (frame msg.payload) :=
    isFrame_frame (Nat.succ_le_succ (Nat.zero_le _)) hfits
  obtain ⟨m, hstore, rfl, -, htaken⟩ := readBlock_unhurried hframe hrx h
  exact ⟨rfl, (yields_of_store hfits hstore).2, htaken⟩

/-- A read without a deadline leaves the transmitter alone, whatever it reads. -/
theorem readBlock_tx {timeout : UInt32} {timeoutError : Bool}
    {r : Except Halt (Bool × ProtocolPacket)}
    (h : protocolReadBlockError port out timeout timeoutError w = (r, w')) : w'.tx = w.tx := by
  cases (protocolReadBlockError_cases port out timeout timeoutError w).elim h with
  | stopped hhead => exact hhead.taken.tx
  | body hhead hbody =>
    have htx := hhead.taken.tx
    cases hbody with
    | stopped hread => exact hread.taken.tx.trans htx
    | nothing hread => exact hread.taken.tx.trans htx
    | overrun hread => exact hread.taken.tx.trans htx
    | mismatch hread => exact hread.taken.tx.trans htx
    | packet hread => exact hread.taken.tx.trans htx

/-- A request that returned was sent, and then a packet was read. -/
theorem request_unhurried (hcarries : Carries packet data)
    {result : Bool × ProtocolPacket × ProtocolPacket}
    (h : protocolRequestTimeout port packet out 0 true w = (.ok result, w')) :
    ∃ w₁, Sent port (frame data) w w₁ ∧
      protocolReadBlockError port out 0 true w₁ = (.ok (true, result.2.2), w') := by
  unfold protocolRequestTimeout at h
  obtain ⟨packet₁, w₁, hwrite, hrest⟩ := Run.bind_eq_ok h
  obtain ⟨-, hsent⟩ := writeBlock_returned hcarries hwrite
  obtain ⟨⟨success, out₁⟩, w₂, hread, hrest⟩ := Run.bind_eq_ok hrest
  cases success with
  | true =>
    simp only [if_true] at hrest
    obtain ⟨⟨⟩, w₃, hvalid, hrest⟩ := Run.bind_eq_ok hrest
    have hsame : w₃ = w₂ := by
      unfold protocolValidateResponse at hvalid
      split at hvalid
      · cases hvalid
      · split at hvalid
        · cases hvalid
        · cases hvalid
          rfl
    cases hrest
    exact ⟨w₁, hsent, hsame ▸ hread⟩
  | false => cases hrest

end Nuhal.Link
