import Nuhal.Lib.Sums
import Nuhal.Link.Acceptance

/-!
# One damaged byte (`nuhal_all/src/protocol.c:64-131, 211-260`)

Both sides sum the same bytes, those from the third one on, so a change of any one byte but the
length changes either the sum or what it is compared with.

* `checks_set`: a frame that checks does not, after one byte was changed.
* `corrupted_rejected`: what the reader makes of it.
* **`single_byte_detected`**: for the frames of `protocol_write_block`, and for any two frames that
  are accepted.
-/

namespace Nuhal.Link

open Nuhal.Lib Nuhal.All

variable {raw raw' : List UInt8} {i : Nat} {b : UInt8}

theorem checks_set (hi : 1 ≤ i) (hlt : i < raw.length) (hb : b ≠ raw[i]) (h : Checks raw) :
    ¬ Checks (raw.set i b) := by
  intro hset
  unfold Checks at h hset
  rcases Nat.lt_or_ge 1 i with htwo | hone
  · -- a data byte: the checksum is the same and the sum is not
    rw [List.getElem?_set_ne (by omega), h, Option.some_inj] at hset
    have hdrop : (raw.set i b).drop 2 = (raw.drop 2).set (i - 2) b := by
      rw [List.drop_set, if_neg (by omega)]
    have hget : (raw.drop 2)[i - 2]? = some raw[i] := by
      rw [List.getElem?_drop, Nat.add_sub_cancel' htwo, List.getElem?_eq_getElem hlt]
    rw [hdrop] at hset
    exact sum_set_ne hget hb hset.symm
  · -- the checksum: the sum is the same
    obtain rfl : i = 1 := by omega
    rw [List.getElem?_set_self hlt, List.drop_set_of_lt (by decide), ← h,
      List.getElem?_eq_getElem hlt, Option.some_inj] at hset
    exact hb hset

theorem isFrame_set (hi : 1 ≤ i) (h : IsFrame raw) : IsFrame (raw.set i b) := by
  refine ⟨by rw [List.length_set]; exact h.long, by rw [List.length_set]; exact h.short, ?_⟩
  rw [List.length_set, ← h.head, List.head?_eq_getElem?, List.head?_eq_getElem?,
    List.getElem?_set_ne (by omega)]

/-- A read that ended in acceptance read a frame that checks. -/
theorem accepted_checks {port : Nat} {out packet : ProtocolPacket} {timeout : UInt32}
    {timeoutError : Bool} {later : List UInt8} {w w' : World} (hframe : IsFrame raw)
    (hrx : w.rx port = raw ++ later)
    (h : protocolReadBlockError port out timeout timeoutError w = (.ok (true, packet), w'))
    (hu : .expired ∉ w'.log) : Checks raw := by
  cases readBlock_frame hframe hrx h hu with
  | packet hm hsound _ _ => exact (sound_iff_checks hframe hm).mp hsound

/-- A frame that does not check ends in the checksum error. -/
theorem corrupted_rejected {port : Nat} {out : ProtocolPacket} {timeout : UInt32}
    {timeoutError : Bool} {later : List UInt8} {w w' : World} (hframe : IsFrame raw)
    (hno : ¬ Checks raw) (hrx : w.rx port = raw ++ later) (hready : raw.length ≤ productive w.reads)
    {r : Except Halt (Bool × ProtocolPacket)}
    (h : protocolReadBlockError port out timeout timeoutError w = (r, w'))
    (hu : Undisturbed w') : r = .error (.error "invalid checksum") := by
  cases readBlock_frame hframe hrx h hu.expired with
  | waiting _ hfew => omega
  | failed hfailed => exact absurd hfailed hu.failed
  | mismatch _ _ => rfl
  | packet hm hsound _ _ => exact absurd ((sound_iff_checks hframe hm).mp hsound) hno

/-- Two frames of one length that both check and are not the same differ at two places. -/
theorem two_places (hframe : IsFrame raw) (hframe' : IsFrame raw')
    (hlength : raw.length = raw'.length) (h : Checks raw) (h' : Checks raw') (hne : raw ≠ raw') :
    ∃ i j, i < j ∧ j < raw.length ∧ raw[i]? ≠ raw'[i]? ∧ raw[j]? ≠ raw'[j]? := by
  have hpos := hframe.long
  obtain ⟨i, hi⟩ : ∃ i, raw[i]? ≠ raw'[i]? := by
    by_contra hsame
    exact hne (List.ext_getElem? fun i => not_not.mp fun hi => hsame ⟨i, hi⟩)
  have hlt : i < raw.length := by
    by_contra hover
    rw [List.getElem?_eq_none (by omega), List.getElem?_eq_none (by omega)] at hi
    exact hi rfl
  -- were it the only one, `raw'` would be `raw` with one byte changed
  obtain ⟨j, hj, hij⟩ : ∃ j, raw[j]? ≠ raw'[j]? ∧ i ≠ j := by
    by_contra honly
    have hset : raw' = raw.set i raw'[i] := by
      refine List.ext_getElem? fun j => ?_
      by_cases hij : i = j
      · subst hij
        rw [List.getElem?_set_self hlt, List.getElem?_eq_getElem (hlength ▸ hlt)]
      · rw [List.getElem?_set_ne hij]
        exact (not_not.mp fun hj => honly ⟨j, hj, hij⟩).symm
    have hone : 1 ≤ i := by
      by_contra hzero
      obtain rfl : i = 0 := by omega
      rw [← List.head?_eq_getElem?, ← List.head?_eq_getElem?, hframe.head, hframe'.head,
        hlength] at hi
      exact hi rfl
    have hb : raw'[i] ≠ raw[i] := by
      rw [List.getElem?_eq_getElem hlt, List.getElem?_eq_getElem (hlength ▸ hlt)] at hi
      exact fun he => hi (congrArg some he.symm)
    exact checks_set hone hlt hb h (hset ▸ h')
  have hlt' : j < raw.length := by
    by_contra hover
    rw [List.getElem?_eq_none (by omega), List.getElem?_eq_none (by omega)] at hj
    exact hj rfl
  rcases Nat.lt_or_gt_of_ne hij with hless | hmore
  · exact ⟨i, j, hless, hlt', hi, hj⟩
  · exact ⟨j, i, hmore, hlt, hj, hi⟩

/-- A frame that some reader accepted, with no deadline passed. -/
def Accepted (raw : List UInt8) : Prop :=
  IsFrame raw ∧ ∃ (port : Nat) (out packet : ProtocolPacket) (timeout : UInt32)
    (timeoutError : Bool) (later : List UInt8) (w w' : World), w.rx port = raw ++ later ∧
    protocolReadBlockError port out timeout timeoutError w = (.ok (true, packet), w') ∧
    .expired ∉ w'.log

theorem Accepted.checks (h : Accepted raw) : Checks raw := by
  obtain ⟨hframe, port, out, packet, timeout, timeoutError, later, w, w', hrx, hread, hu⟩ := h
  exact accepted_checks hframe hrx hread hu

/-- What `protocol_write_block` hands over is a frame that checks. -/
theorem written_frame {port : Nat} {packet packet' : ProtocolPacket} {v v' : World}
    (hsize : packet.stream.size ≤ 253)
    (hwrite : protocolWriteBlock port packet v = (.ok packet', v'))
    (hwire : v'.tx port = v.tx port ++ raw) (hlong : 3 ≤ raw.length) :
    IsFrame raw ∧ Checks raw := by
  have hcarries := carries_window hsize
  obtain ⟨sent, hsends⟩ := (protocolWriteBlock_writes port hcarries v).elim hwrite
  have hsent : raw = frame (window packet._data 2 packet.stream.size) := by
    rw [hsends.given.tx, Function.update_self, hsends.ends.2] at hwire
    exact (List.append_cancel_left hwire).symm
  rw [hsent, length_frame] at hlong
  rw [hsent]
  exact ⟨isFrame_frame (by omega) hcarries.fits, rfl⟩

/-- **A single damaged byte is detected.** A frame that `protocol_write_block` handed over ends in
the checksum error when any one byte of it but the length is another one; and two different frames
of one length that are both accepted differ at two places. -/
theorem single_byte_detected :
    (∀ (port port' : Nat) (packet packet' out : ProtocolPacket) (v v' w w' : World)
      (wire later : List UInt8) (i : Nat) (b : UInt8) (timeout : UInt32) (timeoutError : Bool)
      (r : Except Halt (Bool × ProtocolPacket)), packet.stream.size ≤ 253 →
      protocolWriteBlock port packet v = (.ok packet', v') →
      v'.tx port = v.tx port ++ wire → 3 ≤ wire.length →
      1 ≤ i → i < wire.length → wire[i]? ≠ some b →
      w.rx port' = wire.set i b ++ later → wire.length ≤ productive w.reads →
      protocolReadBlockError port' out timeout timeoutError w = (r, w') → Undisturbed w' →
      r = .error (.error "invalid checksum")) ∧
    ∀ raw raw' : List UInt8, Accepted raw → Accepted raw' → raw.length = raw'.length →
      raw ≠ raw' → ∃ i j, i < j ∧ j < raw.length ∧ raw[i]? ≠ raw'[i]? ∧ raw[j]? ≠ raw'[j]? := by
  constructor
  · intro port port' packet packet' out v v' w w' wire later i b timeout timeoutError r hsize hwrite
      hwire hlong hi hlt hb hrx hready hread hu
    obtain ⟨hframe, hchecks⟩ := written_frame hsize hwrite hwire hlong
    have hother : b ≠ wire[i] := by
      rintro rfl
      exact hb (List.getElem?_eq_getElem hlt)
    refine corrupted_rejected (isFrame_set hi hframe) (checks_set hi hlt hother hchecks) hrx ?_
      hread
      hu
    rw [List.length_set]
    exact hready
  · intro raw raw' h h' hlength hne
    exact two_places h.1 h'.1 hlength h.checks h'.checks hne

/-- A packet with the command 5 is sent as `03 05 05`, and arrives as `03 05 04`. -/
theorem single_byte_detected_five :
    (protocolReadBlockError 0 zeroPacket 100 true
      (scheduled [3, 5, 4] (List.replicate 3 (.bytes 1)) [])).1 =
        .error (.error "invalid checksum") :=
  single_byte_detected.1 1 0 ⟨⟨some 2, 253, 1⟩, zeroPacket._data.set 2 5⟩ _ zeroPacket
    { scheduled [] [] [] with writes := [.bytes 3] } _ _ _ [3, 5, 5] [] 2 4 100 true _ (by decide)
    rfl (by decide +kernel) (by decide) (by decide) (by decide) (by decide) rfl (by decide)
    (Prod.eta _).symm ⟨by decide +kernel, by decide +kernel⟩

end Nuhal.Link
