import Nuhal.Link.Reader

/-!
# Reading a frame that comes in time

When a whole frame is on its way and no deadline passes, the packet reader takes exactly that
frame, however it is chunked (`readBlock_frame`): it accepts or rejects it by its checksum, unless
a driver fails or it is still waiting because the schedule did not hand over enough. `FrameRead` is
that result.
-/

namespace Nuhal.Link

open Nuhal.Lib Nuhal.All

/-- A byte sequence whose first byte is its own length, as long as a packet can be. -/
structure IsFrame (raw : List UInt8) : Prop where
  long : 3 ≤ raw.length
  short : raw.length ≤ packetMaxLength
  head : raw.head? = some (UInt8.ofNat raw.length)

/-- Its length fits into the length byte. -/
theorem IsFrame.toNat_length {raw : List UInt8} (h : IsFrame raw) :
    (UInt8.ofNat raw.length).toNat = raw.length :=
  UInt8.toNat_ofNat_of_lt' (Nat.lt_succ_of_le h.short)

theorem isFrame_frame {data : List UInt8} (hpos : 1 ≤ data.length) (hfits : data.length ≤ 253) :
    IsFrame (frame data) :=
  ⟨by rw [length_frame]; omega, by rw [length_frame]; show _ ≤ 255; omega, rfl⟩

/-- What a frame leaves in a packet that read it. -/
theorem frame_stored {m m' : Vector UInt8 packetMaxLength} {data : List UInt8}
    (h : store m 0 (frame data) = some m') :
    m'[0] = UInt8.ofNat (data.length + 2) ∧ m'[1] = data.sum ∧ window m' 2 data.length = data := by
  obtain ⟨hle, he⟩ := store_eq_some.mp h
  rw [List.take_zero, List.nil_append] at he
  have h0 : m'.toList[0]? = some m'[0] := by simp
  have h1 : m'.toList[1]? = some m'[1] := by simp
  rw [he] at h0 h1
  refine ⟨(Option.some.inj h0).symm, (Option.some.inj h1).symm, ?_⟩
  unfold window
  rw [he]
  exact List.take_left

/-- A frame that was sent has the right checksum. -/
theorem sound_frame {m m' : Vector UInt8 packetMaxLength} {data : List UInt8}
    (hfits : data.length ≤ 253) (h : store m 0 (frame data) = some m') : Sound (fresh m') := by
  obtain ⟨h0, h1, hwindow⟩ := frame_stored h
  unfold Sound
  rw [lengthByte_fresh, h0, toNat_frameLength hfits, Nat.add_sub_cancel]
  show (window m' 2 data.length).sum = m'[1]
  rw [hwindow, h1]

/-- What reading the frame `raw` comes to when no deadline passes. -/
inductive FrameRead (port : Nat) (out : ProtocolPacket) (raw : List UInt8) (w : World) :
    Except Halt (Bool × ProtocolPacket) → World → Prop where
  /-- The schedule handed over too little. -/
  | waiting {w' : World} (hreads : w'.reads = []) (hfew : productive w.reads < raw.length) :
      FrameRead port out raw w (.error .pending) w'
  /-- A driver raised an error. -/
  | failed {msg : String} {w' : World} (h : .failed ∈ w'.log) :
      FrameRead port out raw w (.error (.error msg)) w'
  /-- The checksum is wrong. -/
  | mismatch {m : Vector UInt8 packetMaxLength} {w' : World}
      (hm : store out._data 0 raw = some m) (hsound : ¬ Sound (fresh m)) :
      FrameRead port out raw w (.error (.error "invalid checksum")) w'
  /-- The frame is accepted and nothing else is taken off the port. -/
  | packet {m : Vector UInt8 packetMaxLength} {w' : World}
      (hm : store out._data 0 raw = some m) (hsound : Sound (fresh m))
      (htaken : Taken (fun _ => True) port raw w w')
      (hmoves : productive w.reads ≤ productive w'.reads + raw.length) :
      FrameRead port out raw w (.ok (true, opened (fresh m))) w'

variable {port : Nat} {out : ProtocolPacket} {timeout : UInt32} {timeoutError : Bool}
  {m m' : Vector UInt8 packetMaxLength} {header body raw later : List UInt8} {w w₁ w' : World}

/-- A read with no deadline passed did not come back short. -/
theorem reads_onTime {n : Nat} {mem : Vector UInt8 n} {off len : Nat} {te : Bool}
    {got : List UInt8} {r : Except Halt (Nat × Vector UInt8 n)}
    (h : Reads port mem off len timeout te got w r w') (hu : .expired ∉ w'.log)
    (hfit : off + len ≤ n) :
    (∃ mem', r = .ok (len, mem') ∧ got.length = len ∧ store mem off got = some mem') ∨
      (r = .error .pending ∧ w'.reads = [] ∧ got.length < len) ∨
      ∃ msg, r = .error (.error msg) ∧ .failed ∈ w'.log := by
  have hle := h.le
  match r, h.ends with
  | .ok (k, mem'), ⟨hk, hstore, hshort⟩ =>
    have hfull : ¬ k < len := fun hlt => hu (hshort hlt).1
    have hlen : k = len := by omega
    exact .inl ⟨mem', by rw [hlen], by omega, hstore⟩
  | .error .undefined, hends =>
    have hover : n < off + got.length := hends
    omega
  | .error .pending, hends => exact .inr (.inl ⟨rfl, hends.2, hends.1⟩)
  | .error (.error msg), hends =>
    rcases hends.2 with hfailed | hexpired
    · exact .inr (.inr ⟨msg, rfl, hfailed⟩)
    · exact absurd hexpired.1 hu

/-- In particular a read that returned is full. -/
theorem reads_full {n : Nat} {mem mem' : Vector UInt8 n} {off len k : Nat} {te : Bool}
    {got : List UInt8} (h : Reads port mem off len timeout te got w (.ok (k, mem')) w')
    (hu : .expired ∉ w'.log) (hfit : off + len ≤ n) :
    got.length = len ∧ store mem off got = some mem' := by
  rcases reads_onTime h hu hfit with ⟨mem'', hok, hlength, hstore⟩ | ⟨he, -⟩ | ⟨msg, he, -⟩
  · obtain ⟨-, rfl⟩ := Prod.mk.inj (Except.ok.inj hok)
    exact ⟨hlength, hstore⟩
  · cases he
  · cases he

theorem grown_looked (w : World) (i k : Nat) : Grown (fun _ => True) w (looked w i k) :=
  ⟨loads i k, rfl, fun _ _ => trivial⟩

/-- The part after the header only adds to the log. -/
theorem BodyRead.log {r : Except Halt (Bool × ProtocolPacket)}
    (h : BodyRead port timeout timeoutError m w body r w') : Grown (fun _ => True) w w' := by
  cases h with
  | stopped h => exact h.taken.log.mono fun _ _ => trivial
  | nothing h => exact h.taken.log.mono fun _ _ => trivial
  | overrun h _ => exact (h.taken.log.mono fun _ _ => trivial).trans (grown_looked _ _ _)
  | mismatch h _ _ => exact (h.taken.log.mono fun _ _ => trivial).trans (grown_looked _ _ _)
  | packet h _ _ => exact (h.taken.log.mono fun _ _ => trivial).trans (grown_looked _ _ _)

theorem readBlock_log (port : Nat) (out : ProtocolPacket) (timeout : UInt32) (timeoutError : Bool)
    (w : World) :
    Grown (fun _ => True) w (protocolReadBlockError port out timeout timeoutError w).2 := by
  have hcases := protocolReadBlockError_cases port out timeout timeoutError w
  unfold Run.Ends at hcases
  generalize (protocolReadBlockError port out timeout timeoutError w).1 = r at hcases
  generalize (protocolReadBlockError port out timeout timeoutError w).2 = w' at hcases ⊢
  cases hcases with
  | stopped hhead => exact hhead.taken.log.mono fun _ _ => trivial
  | body hhead hbody => exact (hhead.taken.log.mono fun _ _ => trivial).trans hbody.log

/-- The length byte of a frame, and what it asks for. -/
theorem lengthByte_frame (hframe : IsFrame raw) (hlength : header.length = 2)
    (hpre : header <+: raw) (hm : store out._data 0 header = some m) :
    m[0].toNat = raw.length ∧ (bodyLength m).toNat = raw.length - 2 := by
  have hlong := hframe.long
  obtain ⟨rest, rfl⟩ := hpre
  have hhead : header.head? = some (UInt8.ofNat (header ++ rest).length) := by
    rw [← hframe.head, List.head?_append_of_ne_nil]
    exact List.ne_nil_of_length_pos (by omega)
  have hbyte := lengthByte_header hm
  rw [hhead, Option.getD_some] at hbyte
  have htoNat : m[0].toNat = (header ++ rest).length := by
    rw [hbyte]
    exact hframe.toNat_length
  exact ⟨htoNat, by rw [bodyLength_ne_one (ne_one_of_length (by omega)), htoNat]⟩

/-- A header and a body that came in full are the frame. -/
theorem frame_of_reads {k : Nat} (hrx : w.rx port = raw ++ later) (hlength : header.length = 2)
    (hstore : store out._data 0 header = some m)
    (htaken : Taken (fun _ => True) port header w w₁)
    (hlen : (bodyLength m).toNat + 2 = raw.length) (hshort : raw.length ≤ packetMaxLength)
    (h : BodyReads port timeout timeoutError m body w₁ (.ok (k, m')) w')
    (hu : .expired ∉ w'.log) :
    store out._data 0 raw = some m' ∧ Taken (fun _ => True) port raw w w' := by
  obtain ⟨hfull, hstore'⟩ := reads_full h hu (by omega)
  have htaken' := htaken.trans (h.taken.mono fun _ _ => trivial)
  have hraw : header ++ body = raw := by
    have happend := hrx.symm.trans htaken'.rx
    exact (List.append_inj happend (by rw [List.length_append]; omega)).1.symm
  rw [hraw] at htaken'
  refine ⟨?_, htaken'⟩
  rw [← hraw, ← store_store hstore, hlength]
  exact hstore'

/-- The body of a frame whose header has come. -/
theorem bodyRead_frame {r : Except Halt (Bool × ProtocolPacket)} (hframe : IsFrame raw)
    (hrx : w.rx port = raw ++ later)
    (hhead : HeaderReads port out timeout header w (.ok (header.length, m)) w₁)
    (hbody : BodyRead port timeout timeoutError m w₁ body r w') (hu : .expired ∉ w'.log) :
    FrameRead port out raw w r w' := by
  have hlong := hframe.long
  have hshort : raw.length ≤ 255 := hframe.short
  -- the header came in full, so the length byte is the frame's
  obtain ⟨hlength, hstore⟩ := reads_full hhead (fun he => hu (hbody.log.mem he)) (by decide)
  have htaken : Taken (fun _ => True) port header w w₁ := hhead.taken.mono fun _ _ => trivial
  have hrx₁ : raw ++ later = header ++ w₁.rx port := hrx.symm.trans htaken.rx
  have hpre : header <+: raw :=
    List.prefix_of_prefix_length_le ⟨_, hrx₁.symm⟩ (List.prefix_append raw later) (by omega)
  obtain ⟨hbyte, hlen⟩ := lengthByte_frame hframe hlength hpre hstore
  have hlen' : (bodyLength m).toNat + 2 = raw.length := by omega
  have hmoves₁ := hhead.moves (by rw [hrx, List.length_append]; omega)
  have hroom : (bodyLength m).toNat ≤ (w₁.rx port).length := by
    have h := congrArg List.length hrx₁
    rw [List.length_append, List.length_append] at h
    omega
  have hfit : 2 + (bodyLength m).toNat ≤ packetMaxLength := by
    show _ ≤ 255
    omega
  cases hbody with
  | stopped hread =>
    rcases reads_onTime hread hu hfit with ⟨_, hok, -⟩ | ⟨he, hreads, hlt⟩ | ⟨msg, he, hfailed⟩
    · cases hok
    · cases he
      have hmoves₂ := hread.moves hroom
      rw [hreads] at hmoves₂
      refine .waiting hreads ?_
      have hnone : productive [] = 0 := rfl
      omega
    · cases he
      exact .failed hfailed
  | nothing hread =>
    obtain ⟨hfull, -⟩ := reads_full hread hu hfit
    rw [List.length_nil] at hfull
    omega
  | overrun _ hone => exact absurd hone (ne_one_of_length (by omega))
  | mismatch hread _ hsound =>
    exact .mismatch (frame_of_reads hrx hlength hstore htaken hlen' hframe.short hread
      fun he => hu (List.mem_append_left _ he)).1 hsound
  | packet hread _ hsound =>
    obtain ⟨hm', htaken'⟩ := frame_of_reads hrx hlength hstore htaken hlen' hframe.short hread
      fun he => hu (List.mem_append_left _ he)
    have hle := hread.le
    have hmoves := hmoves₁.trans (Nat.add_le_add_right (hread.moves hroom) header.length)
    rw [Nat.add_assoc] at hmoves
    refine .packet hm' hsound ⟨htaken'.rx, htaken'.others, htaken'.tx, htaken'.writes, ?_⟩
      (hmoves.trans (Nat.add_le_add_left (by omega) _))
    exact htaken'.log.trans (grown_looked _ _ _)

/-- **A frame that comes in time is read whole, and nothing after it.** -/
theorem readBlock_frame (hframe : IsFrame raw) (hrx : w.rx port = raw ++ later)
    {r : Except Halt (Bool × ProtocolPacket)}
    (h : protocolReadBlockError port out timeout timeoutError w = (r, w'))
    (hu : .expired ∉ w'.log) :
    FrameRead port out raw w r w' := by
  have hlong := hframe.long
  cases (protocolReadBlockError_cases port out timeout timeoutError w).elim h with
  | stopped hhead =>
    rcases reads_onTime hhead hu (by decide) with
      ⟨_, hok, -⟩ | ⟨he, hreads, hlt⟩ | ⟨msg, he, hfailed⟩
    · cases hok
    · cases he
      have hmoves := hhead.moves (by rw [hrx, List.length_append]; omega)
      rw [hreads] at hmoves
      refine .waiting hreads ?_
      have hnone : productive [] = 0 := rfl
      omega
    · cases he
      exact .failed hfailed
  | body hhead hbody => exact bodyRead_frame hframe hrx hhead hbody hu

end Nuhal.Link
