import Nuhal.All.Broadcast
import Nuhal.Link.Frame

/-!
# What a broadcast sends (`nuhal_all/src/protocol.c:350-393`)

The first half of `protocol_broadcast_timeout` sets the headers and hands every byte to every
port once, whatever becomes of it.

* `Kept w w'`: nothing but the transmitters and the log changed.
* `initHeaders_headed`: the headers, for packets of one length.
* `sendBytes_gained`: a port's transmitter gains the bytes that were accepted at their only try.
* **`broadcast_sends`**: a call that gets past its checks goes on as `collect`, in a world where
  each port was sent what it accepted of its packet's frame.
-/

namespace Nuhal.Broadcast

open Nuhal.Lib Nuhal.All Nuhal.Link

/-- An event that reads a byte of a packet. -/
def LoadsInside (e : Event) : Prop := ∃ i, e = .load i ∧ i < packetMaxLength

/-- Between `w` and `w'` only transmitters and the log changed, the log by reading bytes of
packets. -/
structure Kept (w w' : World) : Prop where
  rx : w'.rx = w.rx
  reads : w'.reads = w.reads
  clock : w'.clock = w.clock
  ticks : w'.ticks = w.ticks
  period : w'.period = w.period
  log : Grown LoadsInside w w'

theorem Kept.refl (w : World) : Kept w w := ⟨rfl, rfl, rfl, rfl, rfl, Grown.refl w⟩

theorem Kept.trans {w w₁ w₂ : World} (h₁ : Kept w w₁) (h₂ : Kept w₁ w₂) : Kept w w₂ :=
  ⟨h₂.rx.trans h₁.rx, h₂.reads.trans h₁.reads, h₂.clock.trans h₁.clock, h₂.ticks.trans h₁.ticks,
    h₂.period.trans h₁.period, h₁.log.trans h₂.log⟩

theorem kept_looked (w : World) {i k : Nat} (h : i + k ≤ packetMaxLength) :
    Kept w (looked w i k) := by
  refine ⟨rfl, rfl, rfl, rfl, rfl, loads i k, rfl, ?_⟩
  intro e he
  obtain ⟨j, rfl, -, hj⟩ := mem_loads he
  exact ⟨j, rfl, Nat.lt_of_lt_of_le hj h⟩

/-! ## Headers -/

/-- The data bytes of a packet. -/
def dataOf (packet : ProtocolPacket) : List UInt8 := window packet._data 2 packet.stream.size

theorem length_dataOf {packet : ProtocolPacket} (h : packet.stream.size ≤ 253) :
    (dataOf packet).length = packet.stream.size :=
  (carries_window h).size.symm

/-- The packet with its header. -/
def withHeader (packet : ProtocolPacket) : ProtocolPacket := headed packet (dataOf packet)

theorem protocolHeaderInit_withHeader {packet : ProtocolPacket} (h : packet.stream.size ≤ 253)
    (w : World) : ∃ w', protocolHeaderInit packet w =
      (.ok (UInt8.ofNat (packet.stream.size + 2), withHeader packet), w') ∧ Kept w w' ∧
        w'.tx = w.tx ∧ w'.writes = w.writes := by
  have hinit := protocolHeaderInit_carries (carries_window h) w
  have hlength : (window packet._data 2 packet.stream.size).length = packet.stream.size :=
    length_dataOf h
  rw [hlength] at hinit
  refine ⟨_, hinit, kept_looked w ?_, rfl, rfl⟩
  show _ ≤ 255
  omega

/-- The packets that are sent fit, and have one length. -/
def Sendable (btype : BroadcastType) (numPorts : Nat) (pkt : Packets) : Prop :=
  ∀ p, p < numPorts → (outpack btype pkt p).stream.size ≤ 253 ∧
    (outpack btype pkt p).stream.size = (pkt 0).stream.size

/-- The headers of the packets of a list, for packets of one length. -/
theorem initHeaders_headed (btype : BroadcastType) (size : Nat) (ports : List Nat)
    (hnodup : ports.Nodup) (pkt : Packets) (w : World)
    (hsize : btype = .anycast →
      ∀ p ∈ ports, (pkt p).stream.size ≤ 253 ∧ (pkt p).stream.size = size) :
    ∃ w', initHeaders btype (UInt8.ofNat (size + 2)) ports pkt w =
        (.ok (fun p => if btype = .anycast ∧ p ∈ ports then withHeader (pkt p) else pkt p), w') ∧
      Kept w w' ∧ w'.tx = w.tx ∧ w'.writes = w.writes := by
  induction ports generalizing pkt w with
  | nil =>
    refine ⟨w, ?_, Kept.refl w, rfl, rfl⟩
    simp [initHeaders]
  | cons i rest ih =>
    have hrest := (List.nodup_cons.mp hnodup).2
    have hi := (List.nodup_cons.mp hnodup).1
    cases btype with
    | broadcast =>
      obtain ⟨w', hrun, hkept⟩ := ih hrest pkt w (fun h => by cases h)
      refine ⟨w', ?_, hkept⟩
      simp only [initHeaders]
      simpa using hrun
    | anycast =>
      obtain ⟨hfits, hsame⟩ := hsize rfl i List.mem_cons_self
      obtain ⟨w₁, hinit, hkept₁, htx₁, hwrites₁⟩ := protocolHeaderInit_withHeader hfits w
      have hothers : ∀ p ∈ rest, p ≠ i := by
        intro p hp hpi
        exact hi (hpi ▸ hp)
      obtain ⟨w', hrun, hkept, htx, hwrites⟩ :=
        ih hrest (Function.update pkt i (withHeader (pkt i)))
        w₁ (by
          intro _ p hp
          rw [Function.update_of_ne (hothers p hp)]
          exact hsize rfl p (List.mem_cons_of_mem i hp))
      have hresult : (fun p => if BroadcastType.anycast = .anycast ∧ p ∈ rest then
            withHeader (Function.update pkt i (withHeader (pkt i)) p)
          else Function.update pkt i (withHeader (pkt i)) p) =
          fun p => if BroadcastType.anycast = .anycast ∧ p ∈ i :: rest then withHeader (pkt p)
            else pkt p := by
        funext p
        by_cases hpi : p = i
        · subst hpi
          simp [hi]
        · simp [hpi]
      rw [hresult] at hrun
      refine ⟨w', ?_, hkept₁.trans hkept, htx.trans htx₁, hwrites.trans hwrites₁⟩
      have hgo : initHeaders .anycast (UInt8.ofNat (size + 2)) (i :: rest) pkt w =
          initHeaders .anycast (UInt8.ofNat (size + 2)) rest
            (Function.update pkt i (withHeader (pkt i))) w₁ := by
        rw [hsame] at hinit
        simp only [initHeaders]
        rw [Run.bind_of_ok hinit]
        simp
      exact hgo.trans hrun

/-! ## The send loop -/

/-- The answers of the drivers to the bytes of a broadcast: byte `i` is handed to one port after the
other, and port `p` takes up to `a i p` of this one byte. -/
def offers (a : Nat → Nat → Nat) (ports indices : List Nat) : List Answer :=
  indices.flatMap fun i => ports.map fun p => .bytes (a i p)

/-- Byte `i` of a list, if the driver took it. -/
def taken? (a : Nat → Nat → Nat) (p : Nat) (bytes : List UInt8) (i : Nat) : Option UInt8 :=
  if 0 < a i p then bytes[i]? else none

/-- What a port was sent of a list of bytes that were handed to it once. -/
def accepted (a : Nat → Nat → Nat) (p : Nat) (bytes : List UInt8) : List UInt8 :=
  (List.range bytes.length).filterMap (taken? a p bytes)

theorem filterMap_getElem? (bytes : List UInt8) {k : Nat} (hk : k ≤ bytes.length) :
    (List.range k).filterMap (fun i => bytes[i]?) = bytes.take k := by
  induction k with
  | zero => simp
  | succ k ih =>
    have hget : bytes[k]? = some bytes[k] := List.getElem?_eq_getElem hk
    rw [List.range_succ, List.filterMap_append, ih (Nat.le_of_succ_le hk), List.take_add_one, hget]
    simp [hget]

/-- Every byte arrives if every byte was taken at its only try. -/
theorem accepted_all {a : Nat → Nat → Nat} {p : Nat} {bytes : List UInt8}
    (h : ∀ i, i < bytes.length → 0 < a i p) : accepted a p bytes = bytes := by
  have htaken : ∀ i ∈ List.range bytes.length, taken? a p bytes i = bytes[i]? := by
    intro i hi
    exact if_pos (h i (List.mem_range.mp hi))
  unfold accepted
  rw [List.filterMap_congr htaken, filterMap_getElem? bytes (Nat.le_refl _), List.take_length]

/-- A byte that was not taken is missing. -/
theorem accepted_ne {a : Nat → Nat → Nat} {p i : Nat} {bytes : List UInt8} (hi : i < bytes.length)
    (h : a i p = 0) : accepted a p bytes ≠ bytes := by
  have hnone : taken? a p bytes i = none := if_neg (by omega)
  have hlt : (accepted a p bytes).length < (List.range bytes.length).length :=
    List.length_filterMap_lt_length_iff_exists.mpr ⟨i, List.mem_range.mpr hi, hnone⟩
  intro heq
  rw [heq, List.length_range] at hlt
  exact Nat.lt_irrefl _ hlt

section SendLoop

variable {a : Nat → Nat → Nat} {w : World} {rest : List Answer}

/-- One byte for one port. -/
theorem sendByte_cons (packets : Packets) (ports : List Nat) {i p : Nat} {writes : List Answer}
    (hi : i < packetMaxLength) (hwrites : w.writes = .bytes (a i p) :: writes) :
    ∃ w', sendByte packets i (p :: ports) w = sendByte packets i ports w' ∧ Kept w w' ∧
      w'.writes = writes ∧ w'.tx = Function.update w.tx p
        (w.tx p ++ (taken? a p (packets p)._data.toList i).toList) := by
  have htaken : [(packets p)._data[i]].take (a i p) =
      (taken? a p (packets p)._data.toList i).toList := by
    have hget : (packets p)._data.toList[i]? = some (packets p)._data[i] := by simp
    unfold taken?
    cases ha : a i p with
    | zero => simp
    | succ k => simp [hget]
  have hload : loadByte (packets p)._data i w =
      (.ok (packets p)._data[i], w.logged (.load i)) := loadByte_ok hi
  have hsend : uartWriteNonblock p [(packets p)._data[i]] (w.logged (.load i)) =
      (.ok ([(packets p)._data[i]].take (a i p)).length,
        { w.logged (.load i) with
          tx := Function.update w.tx p (w.tx p ++ [(packets p)._data[i]].take (a i p))
          writes := writes }) := by
    unfold uartWriteNonblock
    simp only [World.logged, hwrites]
  refine ⟨_, (Run.bind_of_ok hload _).trans (Run.bind_of_ok hsend _), ?_, rfl, ?_⟩
  · exact ⟨rfl, rfl, rfl, rfl, rfl, Grown.one rfl ⟨i, rfl, hi⟩⟩
  · rw [htaken]

/-- One byte for every port. -/
theorem sendByte_gained (packets : Packets) {i : Nat} (hi : i < packetMaxLength) (ports : List Nat)
    (hnodup : ports.Nodup)
    (hwrites : w.writes = ports.map (fun p => .bytes (a i p)) ++ rest) :
    ∃ w', sendByte packets i ports w = (.ok (), w') ∧ Kept w w' ∧ w'.writes = rest ∧
      (∀ p ∈ ports, w'.tx p = w.tx p ++ (taken? a p (packets p)._data.toList i).toList) ∧
      ∀ p, p ∉ ports → w'.tx p = w.tx p := by
  induction ports generalizing w with
  | nil =>
    refine ⟨w, rfl, Kept.refl w, hwrites, ?_, fun _ _ => rfl⟩
    intro p hp
    cases hp
  | cons q ports ih =>
    obtain ⟨hq, hnodup'⟩ := List.nodup_cons.mp hnodup
    obtain ⟨w₁, hrun, hkept₁, hwrites₁, htx₁⟩ := sendByte_cons packets ports hi hwrites
    obtain ⟨w', hrest, hkept, hwrites', hgained, hothers⟩ := ih hnodup' hwrites₁
    refine ⟨w', hrun.trans hrest, hkept₁.trans hkept, hwrites', ?_, ?_⟩
    · intro p hp
      by_cases hpq : p = q
      · subst hpq
        rw [hothers p hq, htx₁, Function.update_self]
      · rw [hgained p (List.mem_of_ne_of_mem hpq hp), htx₁, Function.update_of_ne hpq]
    · intro p hp
      obtain ⟨hpq, hps⟩ := not_or.mp (fun h => hp (List.mem_cons.mpr h))
      rw [hothers p hps, htx₁, Function.update_of_ne hpq]

/-- **The send loop**: every port gets the bytes that were taken at their only try. -/
theorem sendBytes_gained (packets : Packets) (ports indices : List Nat) (hnodup : ports.Nodup)
    (hindices : ∀ i ∈ indices, i < packetMaxLength)
    (hwrites : w.writes = offers a ports indices ++ rest) :
    ∃ w', sendBytes packets ports indices w = (.ok (), w') ∧ Kept w w' ∧ w'.writes = rest ∧
      ∀ p ∈ ports, w'.tx p =
        w.tx p ++ indices.filterMap (taken? a p (packets p)._data.toList) := by
  induction indices generalizing w with
  | nil =>
    refine ⟨w, rfl, Kept.refl w, hwrites, ?_⟩
    intro p _
    simp
  | cons i indices ih =>
    have hfirst : w.writes = ports.map (fun p => .bytes (a i p)) ++
        (offers a ports indices ++ rest) := by
      rw [hwrites, ← List.append_assoc]
      rfl
    obtain ⟨w₁, hsend, hkept₁, hwrites₁, hgained₁, -⟩ :=
      sendByte_gained packets (hindices i List.mem_cons_self) ports hnodup hfirst
    obtain ⟨w', hrest, hkept, hwrites', hgained⟩ :=
      ih (fun j hj => hindices j (List.mem_cons_of_mem i hj)) hwrites₁
    refine ⟨w', (Run.bind_of_ok hsend _).trans hrest, hkept₁.trans hkept, hwrites', ?_⟩
    intro p hp
    rw [hgained p hp, hgained₁ p hp, List.append_assoc, List.filterMap_cons]
    cases taken? a p (packets p)._data.toList i <;> rfl

end SendLoop

/-- The bytes of a packet with its header that are handed over are those of its frame. -/
theorem filterMap_withHeader {packet : ProtocolPacket} (h : packet.stream.size ≤ 253)
    (a : Nat → Nat → Nat) (p : Nat) :
    (List.range (packet.stream.size + 2)).filterMap
        (taken? a p (withHeader packet)._data.toList) = accepted a p (frame (dataOf packet)) := by
  have hlength : (frame (dataOf packet)).length = packet.stream.size + 2 := by
    rw [length_frame, length_dataOf h]
  have hwire : (withHeader packet)._data.toList.take (packet.stream.size + 2) =
      frame (dataOf packet) := by
    have hwire := wire_headed (carries_window h)
    rwa [show (window packet._data 2 packet.stream.size).length = packet.stream.size from
      length_dataOf h] at hwire
  unfold accepted
  rw [hlength]
  refine List.filterMap_congr ?_
  intro i hi
  unfold taken?
  rw [← hwire, List.getElem?_take_of_lt (List.mem_range.mp hi)]

/-! ## The first half of a broadcast -/

/-- The packets after the header phase. -/
def prepared (btype : BroadcastType) (numPorts : Nat) (pkt : Packets) : Packets := fun p =>
  if p = 0 ∨ btype = .anycast ∧ p < numPorts then withHeader (pkt p) else pkt p

theorem outpack_prepared {btype : BroadcastType} {numPorts p : Nat} (pkt : Packets)
    (hp : p < numPorts) :
    outpack btype (prepared btype numPorts pkt) p = withHeader (outpack btype pkt p) := by
  cases btype with
  | broadcast => simp [outpack, prepared]
  | anycast => simp [outpack, prepared, hp]

/-- The second half of a broadcast: `protocol.c:395-467`. -/
def collect (numPorts : Nat) (pkt response : Packets) (btype : BroadcastType) (timeout : UInt32) :
    OnPlatform (Packets × Packets) := do
  let st ← receive (List.range numPorts) response timeout
  let response ← verifyResponses (outpack btype pkt) st.length (List.range numPorts) st.inPacket
  return (pkt, response)

section Call

variable {numPorts : Nat} {pkt : Packets} {btype : BroadcastType} {w : World}

theorem mem_range_tail {numPorts p : Nat} :
    p ∈ (List.range numPorts).tail ↔ p ≠ 0 ∧ p < numPorts := by
  cases numPorts with
  | zero => simp
  | succ n =>
    rw [List.range_succ_eq_map, List.tail_cons, List.mem_map]
    constructor
    · rintro ⟨q, hq, rfl⟩
      exact ⟨Nat.succ_ne_zero q, Nat.succ_lt_succ (List.mem_range.mp hq)⟩
    · rintro ⟨hne, hlt⟩
      exact ⟨p - 1, List.mem_range.mpr (by omega), by omega⟩

/-- The header of the first packet and those of the others. -/
theorem prepared_eq (btype : BroadcastType) (numPorts : Nat) (pkt : Packets) :
    (fun p => if btype = .anycast ∧ p ∈ (List.range numPorts).tail then
      withHeader (Function.update pkt 0 (withHeader (pkt 0)) p)
      else Function.update pkt 0 (withHeader (pkt 0)) p) = prepared btype numPorts pkt := by
  funext p
  unfold prepared
  by_cases hp : p = 0
  · subst hp
    rw [if_neg (fun h => (mem_range_tail.mp h.2).1 rfl), if_pos (.inl rfl), Function.update_self]
  · rw [Function.update_of_ne hp]
    simp only [mem_range_tail, hp, ne_eq, not_false_eq_true, true_and, false_or]

/-- The header phase of a call that gets past its checks. -/
theorem broadcast_headers (hpos : 0 < numPorts) (hmax : numPorts ≤ maxBroadcastPorts)
    (hsend : Sendable btype numPorts pkt) (response : Packets) (timeout : UInt32) (w : World) :
    ∃ w₁, protocolBroadcastTimeout numPorts pkt response btype timeout w =
        (if 251 < (pkt 0).stream.size then error "packet data too long"
        else do
          sendBytes (outpack btype (prepared btype numPorts pkt)) (List.range numPorts)
            (List.range ((pkt 0).stream.size + 2))
          collect numPorts (prepared btype numPorts pkt) response btype timeout) w₁ ∧
      Kept w w₁ ∧ w₁.tx = w.tx ∧ w₁.writes = w.writes := by
  have hfits : (pkt 0).stream.size ≤ 253 := by
    have hzero := (hsend 0 hpos).1
    cases btype <;> exact hzero
  obtain ⟨wa, hinit, hkepta, htxa, hwritesa⟩ := protocolHeaderInit_withHeader hfits w
  obtain ⟨w₁, hrest, hkept, htx, hwrites⟩ := initHeaders_headed btype
    (pkt 0).stream.size (List.range numPorts).tail List.nodup_range.tail
    (Function.update pkt 0 (withHeader (pkt 0))) wa (by
      intro hany p hp
      obtain ⟨hne, hlt⟩ := mem_range_tail.mp hp
      rw [Function.update_of_ne hne]
      have hp := hsend p hlt
      rwa [hany] at hp)
  rw [prepared_eq] at hrest
  refine ⟨w₁, ?_, hkepta.trans hkept, htx.trans htxa, hwrites.trans hwritesa⟩
  have hlength : (UInt8.ofNat ((pkt 0).stream.size + 2)).toNat = (pkt 0).stream.size + 2 :=
    toNat_frameLength hfits
  unfold protocolBroadcastTimeout
  rw [if_neg (by omega)]
  refine (Run.bind_of_ok hinit _).trans ((Run.bind_of_ok hrest _).trans ?_)
  by_cases hlong : 251 < (pkt 0).stream.size
  · have hover : (pkt 0).stream.size + 2 > packetMaxLength - headerBytes := by
      show 253 < _
      omega
    simp only [hlength, if_pos hover, if_pos hlong]
    rfl
  · have hfit : ¬ (pkt 0).stream.size + 2 > packetMaxLength - headerBytes := by
      show ¬ 253 < _
      omega
    simp only [hlength, if_neg hfit, if_neg hlong]
    rfl

/-- A packet of more than 251 data bytes is rejected. -/
theorem broadcast_tooLong (hpos : 0 < numPorts) (hmax : numPorts ≤ maxBroadcastPorts)
    (hsend : Sendable btype numPorts pkt) (hlong : 251 < (pkt 0).stream.size)
    (response : Packets) (timeout : UInt32) (w : World) :
    ∃ w', protocolBroadcastTimeout numPorts pkt response btype timeout w =
      (.error (.error "packet data too long"), w') ∧ Kept w w' := by
  obtain ⟨w', hrun, hkept, -⟩ := broadcast_headers hpos hmax hsend response timeout w
  rw [if_pos hlong] at hrun
  exact ⟨w', hrun, hkept⟩

/-- **A call that gets past its checks** goes on as `collect` after every port was sent what it
accepted of its packet's frame. -/
theorem broadcast_sends {a : Nat → Nat → Nat} {rest : List Answer} (hpos : 0 < numPorts)
    (hmax : numPorts ≤ maxBroadcastPorts) (hsend : Sendable btype numPorts pkt)
    (hshort : (pkt 0).stream.size ≤ 251)
    (hwrites : w.writes =
      offers a (List.range numPorts) (List.range ((pkt 0).stream.size + 2)) ++ rest)
    (response : Packets) (timeout : UInt32) :
    ∃ w₁, protocolBroadcastTimeout numPorts pkt response btype timeout w =
        collect numPorts (prepared btype numPorts pkt) response btype timeout w₁ ∧
      Kept w w₁ ∧ w₁.writes = rest ∧
      ∀ p, p < numPorts →
        w₁.tx p = w.tx p ++ accepted a p (frame (dataOf (outpack btype pkt p))) := by
  obtain ⟨wa, hrun, hkepta, htxa, hwritesa⟩ :=
    broadcast_headers hpos hmax hsend response timeout w
  obtain ⟨w₁, hsent, hkept, hrest, hgained⟩ := sendBytes_gained
    (outpack btype (prepared btype numPorts pkt)) (List.range numPorts)
    (List.range ((pkt 0).stream.size + 2)) List.nodup_range (by
      intro i hi
      have hlt := List.mem_range.mp hi
      show i < 255
      omega) (hwritesa.trans hwrites)
  refine ⟨w₁, ?_, hkepta.trans hkept, hrest, ?_⟩
  · rw [hrun, if_neg (Nat.not_lt_of_le hshort)]
    exact Run.bind_of_ok hsent _
  · intro p hp
    obtain ⟨hfits, hsize⟩ := hsend p hp
    rw [hgained p (List.mem_range.mpr hp), htxa, outpack_prepared pkt hp, ← hsize,
      filterMap_withHeader hfits]

end Call

end Nuhal.Broadcast
