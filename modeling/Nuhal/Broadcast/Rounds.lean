import Mathlib.Data.List.Induction
import Nuhal.All.Broadcast
import Nuhal.Link.Reader

/-!
# The polling loop of a broadcast (`nuhal_all/src/protocol.c:395-450`)

Every round of the loop reads every port once, up to twelve bytes, whether its packet is complete
or not. A schedule by rounds is a list of functions: `c p` is what the driver of port `p` moves at
most in a round `c`.

* `total`: how many bytes of its stream a port has taken after a number of rounds. It depends only
  on that port's own chunks.
* `Assembled`, `Polled`: the loop's variables after some rounds, in terms of the totals. The bytes
  of every port lie at the beginning of its packet, and the `uint8_t` counter is the total, as
  long as the total is at most 255.
* `readPorts_assembled`, `readPorts_overrun`: the reads of one round.
* **`receive_polls`**: after rounds that left every total within 255, no deadline passed and a
  packet incomplete the loop is where `Polled` says. `receive_overrun`, `receive_ends` and
  `receive_waiting` are what the round after that does.
-/

namespace Nuhal.Broadcast

open Nuhal.Lib Nuhal.All Nuhal.Link

/-! ## Totals -/

/-- The answers of a schedule by rounds, one for every port in every round. -/
def answers (ports : List Nat) (rounds : List (Nat → Nat)) : List Answer :=
  rounds.flatMap fun c => ports.map fun p => .bytes (c p)

/-- How many bytes of its stream a port has taken after some rounds. -/
def total (stream : List UInt8) (rounds : List (Nat → Nat)) (p : Nat) : Nat :=
  min stream.length (rounds.map fun c => min (c p) 12).sum

theorem total_nil (stream : List UInt8) (p : Nat) : total stream [] p = 0 := Nat.min_zero _

theorem total_le (stream : List UInt8) (rounds : List (Nat → Nat)) (p : Nat) :
    total stream rounds p ≤ stream.length := Nat.min_le_left _ _

theorem total_concat (stream : List UInt8) (rounds : List (Nat → Nat)) (c : Nat → Nat) (p : Nat) :
    total stream (rounds ++ [c]) p = min stream.length (total stream rounds p + min (c p) 12) := by
  unfold total
  simp only [List.map_append, List.map_cons, List.map_nil, List.sum_append, List.sum_cons,
    List.sum_nil]
  omega

/-- The length byte of a stream if `k` bytes of it have come, else the 1 that stands for it. -/
def announced (stream : List UInt8) (k : Nat) : UInt8 := (stream.take k).headD 1

/-- The length byte does not change once it is there. -/
theorem announced_mono {stream : List UInt8} {j k : Nat} (hj : 0 < j) (hk : j ≤ k) :
    announced stream k = announced stream j := by
  unfold announced
  cases stream with
  | nil => rw [List.take_nil, List.take_nil]
  | cons b rest =>
    obtain ⟨j, rfl⟩ := Nat.exists_eq_succ_of_ne_zero (Nat.ne_of_gt hj)
    obtain ⟨k, rfl⟩ := Nat.exists_eq_succ_of_ne_zero (show k ≠ 0 by omega)
    rfl

/-! ## One port -/

/-- A port's part of the loop's variables after `k` bytes of its stream. -/
structure Assembled (response : ProtocolPacket) (stream : List UInt8) (k : Nat)
    (packet : ProtocolPacket) (index : UInt8) (rx : List UInt8) : Prop where
  le : k ≤ stream.length
  initial : packet = fresh packet._data
  stored : store response._data 0 (stream.take k) = some packet._data
  counter : index.toNat = k
  left : rx = stream.drop k

section Port

variable {response packet : ProtocolPacket} {stream rx : List UInt8} {k : Nat} {index : UInt8}

theorem Assembled.start (response : ProtocolPacket) (stream : List UInt8) :
    Assembled response stream 0 (initPacket response) 0 stream :=
  ⟨Nat.zero_le _, rfl, store_nil (Nat.zero_le _), rfl, rfl⟩

/-- A packet never holds more than 255 bytes. -/
theorem Assembled.fits (h : Assembled response stream k packet index rx) : k ≤ packetMaxLength := by
  have hle := store_le h.stored
  rwa [List.length_take, Nat.min_eq_left h.le, Nat.zero_add] at hle

/-- What a read of the port gets. -/
theorem Assembled.length_got (h : Assembled response stream k packet index rx) (c : Nat) :
    k + (rx.take (min c 12)).length = min stream.length (k + min c 12) := by
  have hle := h.le
  rw [h.left, List.length_take, List.length_drop]
  omega

theorem Assembled.take_got (h : Assembled response stream k packet index rx) (c : Nat) :
    stream.take k ++ rx.take (min c 12) = stream.take (min stream.length (k + min c 12)) := by
  rw [h.left, ← List.take_add, List.take_eq_take_iff]
  omega

/-- What a read of the port stores, as one store from the beginning of the packet. -/
theorem Assembled.store_got (h : Assembled response stream k packet index rx) (c : Nat) :
    store packet._data k (rx.take (min c 12)) =
      store response._data 0 (stream.take (min stream.length (k + min c 12))) := by
  have hk : 0 + (stream.take k).length = k := by
    rw [List.length_take, Nat.min_eq_left h.le, Nat.zero_add]
  have hstore : store packet._data (0 + (stream.take k).length) (rx.take (min c 12)) =
      store response._data 0 (stream.take k ++ rx.take (min c 12)) := store_store h.stored
  rwa [hk, h.take_got] at hstore

/-- **One read** of a port whose packet has room. -/
theorem Assembled.read (h : Assembled response stream k packet index rx) {c : Nat}
    (hfits : min stream.length (k + min c 12) ≤ packetMaxLength) :
    ∃ mem, store packet._data index.toNat (rx.take (min c 12)) = some mem ∧
      Assembled response stream (min stream.length (k + min c 12)) { packet with _data := mem }
        (index + UInt8.ofNat (rx.take (min c 12)).length)
        (rx.drop (rx.take (min c 12)).length) := by
  have hgot := h.length_got c
  have hlength : (stream.take (min stream.length (k + min c 12))).length =
      min stream.length (k + min c 12) := by
    rw [List.length_take]
    omega
  obtain ⟨mem, hmem⟩ := exists_store response._data (show
    0 + (stream.take (min stream.length (k + min c 12))).length ≤ packetMaxLength by omega)
  refine ⟨mem, ?_, ⟨by omega, ?_, hmem, ?_, ?_⟩⟩
  · rw [h.counter, h.store_got, hmem]
  · rw [h.initial]
    rfl
  · have hroom : min stream.length (k + min c 12) ≤ 255 := hfits
    rw [UInt8.toNat_add, UInt8.toNat_ofNat', h.counter]
    omega
  · rw [h.left, List.drop_drop, ← h.left, hgot]

/-- One read of a port whose packet has no room for it. -/
theorem Assembled.overrun (h : Assembled response stream k packet index rx) {c : Nat}
    (hover : packetMaxLength < min stream.length (k + min c 12)) :
    store packet._data index.toNat (rx.take (min c 12)) = none ∧
      packetMaxLength < index.toNat + (rx.take (min c 12)).length := by
  have hgot := h.length_got c
  have hpast : packetMaxLength < index.toNat + (rx.take (min c 12)).length := by
    rw [h.counter]
    omega
  exact ⟨store_eq_none.mpr hpast, hpast⟩

/-- The length byte, once a byte has come. -/
theorem Assembled.length_byte (h : Assembled response stream k packet index rx) (hk : 0 < k) :
    lengthByte packet = announced stream k := by
  obtain ⟨-, he⟩ := store_eq_some.mp h.stored
  have hle := h.le
  have hbyte : packet._data.toList[0]? = some packet._data[0] := by simp
  rw [he, List.take_zero, List.nil_append] at hbyte
  show packet._data[0] = _
  unfold announced
  match hs : stream.take k, hbyte with
  | b :: rest, hbyte => exact (Option.some.inj hbyte).symm
  | [], _ =>
    have hlength := congrArg List.length hs
    rw [List.length_take, List.length_nil] at hlength
    omega

end Port

/-! ## The reads of a round -/

/-- A read of the loop stays inside its packet: `count` bytes go to the indices from `first`, the
counter's value, on, and the counter goes up by `count` without wrapping around. -/
def Contained : Event → Prop
  | .store first count => first + count ≤ packetMaxLength ∧
      (UInt8.ofNat first + UInt8.ofNat count).toNat = first + count
  | .load _ => True
  | .ask _ => True
  | .terminator _ => True
  | .expired => True
  | .failed => True

theorem contained_store {first count : Nat} :
    Contained (.store first count) ↔ first + count ≤ packetMaxLength := by
  constructor
  · exact fun h => h.1
  · intro h
    have hle : first + count ≤ 255 := h
    refine ⟨h, ?_⟩
    rw [UInt8.toNat_add, UInt8.toNat_ofNat', UInt8.toNat_ofNat']
    omega

/-- Between `w` and `w'` something was done outside of a packet. -/
def Strayed (w w' : World) : Prop :=
  ∃ new e, w'.log = w.log ++ new ∧ e ∈ new ∧ ¬ Contained e

theorem Strayed.one {w w' : World} {e : Event} (h : w'.log = w.log ++ [e]) (he : ¬ Contained e) :
    Strayed w w' := ⟨[e], e, h, List.mem_singleton_self e, he⟩

theorem Strayed.after {E : Event → Prop} {w w₁ w' : World} (h : Strayed w₁ w')
    (hlog : Grown E w w₁) : Strayed w w' := by
  obtain ⟨new, e, hnew, he, hout⟩ := h
  obtain ⟨before, hbefore, -⟩ := hlog
  refine ⟨before ++ new, e, ?_, List.mem_append_right before he, hout⟩
  rw [hnew, hbefore, List.append_assoc]

theorem Strayed.not_grown {w w' : World} (h : Strayed w w') : ¬ Grown Contained w w' := by
  rintro ⟨new', hlog, hinside⟩
  obtain ⟨new, e, hnew, he, hout⟩ := h
  have hsame : new = new' := List.append_cancel_left (hnew.symm.trans hlog)
  exact hout (hinside e (hsame ▸ he))

/-- Nothing that was not read has changed. -/
structure Untouched (ports : List Nat) (st : Receiving) (w : World) (st' : Receiving)
    (w' : World) : Prop where
  others : ∀ p, p ∉ ports →
    st'.inPacket p = st.inPacket p ∧ st'.index p = st.index p ∧ w'.rx p = w.rx p
  length : st'.length = st.length
  lengthSet : st'.lengthSet = st.lengthSet
  elapsed : st'.elapsed = st.elapsed
  tx : w'.tx = w.tx
  clock : w'.clock = w.clock
  ticks : w'.ticks = w.ticks
  period : w'.period = w.period

section Reads

variable {response : Packets} {stream : Nat → List UInt8} {taken : Nat → Nat} {c : Nat → Nat}

/-- Every port of a list is as it is after `taken p` bytes of its stream. -/
def AllAssembled (response : Packets) (stream : Nat → List UInt8) (taken : Nat → Nat)
    (ports : List Nat) (st : Receiving) (w : World) : Prop :=
  ∀ p ∈ ports, Assembled (response p) (stream p) (taken p) (st.inPacket p) (st.index p) (w.rx p)

/-- The totals after one more round. -/
def advanced (stream : Nat → List UInt8) (taken c : Nat → Nat) (p : Nat) : Nat :=
  min (stream p).length (taken p + min (c p) 12)

/-- The loop's variables after a read of port `p`. -/
def gotBytes (st : Receiving) (p k : Nat) (mem : Vector UInt8 packetMaxLength) : Receiving :=
  { st with
    inPacket := Function.update st.inPacket p { st.inPacket p with _data := mem }
    index := Function.update st.index p (st.index p + UInt8.ofNat k) }

/-- A read of one port leaves the other ports alone. -/
theorem untouched_gotBytes (st : Receiving) (w : World) (p off k : Nat)
    (mem : Vector UInt8 packetMaxLength) (rest : List Answer) :
    Untouched [p] st w (gotBytes st p k mem) (w.received p off k rest) := by
  refine ⟨?_, rfl, rfl, rfl, rfl, rfl, rfl, rfl⟩
  intro q hq
  have hne : q ≠ p := fun h => hq (List.mem_singleton.mpr h)
  exact ⟨Function.update_of_ne hne _ _, Function.update_of_ne hne _ _,
    Function.update_of_ne hne _ _⟩

theorem Untouched.trans {ports : List Nat} {p : Nat} {st st₁ st' : Receiving} {w w₁ w' : World}
    (h₁ : Untouched [p] st w st₁ w₁) (h₂ : Untouched ports st₁ w₁ st' w') :
    Untouched (p :: ports) st w st' w' := by
  refine ⟨?_, h₂.length.trans h₁.length, h₂.lengthSet.trans h₁.lengthSet,
    h₂.elapsed.trans h₁.elapsed, h₂.tx.trans h₁.tx, h₂.clock.trans h₁.clock,
    h₂.ticks.trans h₁.ticks, h₂.period.trans h₁.period⟩
  intro q hq
  obtain ⟨hqp, hqs⟩ := not_or.mp (fun h => hq (List.mem_cons.mpr h))
  obtain ⟨hpacket₁, hindex₁, hrx₁⟩ := h₁.others q (fun h => hqp (List.mem_singleton.mp h))
  obtain ⟨hpacket₂, hindex₂, hrx₂⟩ := h₂.others q hqs
  exact ⟨hpacket₂.trans hpacket₁, hindex₂.trans hindex₁, hrx₂.trans hrx₁⟩

/-- Ports that were not touched are as they were. -/
theorem AllAssembled.untouched {ports touched : List Nat} {st st' : Receiving} {w w' : World}
    (h : AllAssembled response stream taken ports st w) (hu : Untouched touched st w st' w')
    (hdisjoint : ∀ p ∈ ports, p ∉ touched) : AllAssembled response stream taken ports st' w' := by
  intro p hp
  obtain ⟨hpacket, hindex, hrx⟩ := hu.others p (hdisjoint p hp)
  rw [hpacket, hindex, hrx]
  exact h p hp

/-- The reads of a round begin with one of the first port, if that has room. -/
theorem readPorts_cons {p : Nat} (rest : List Nat) {st : Receiving} {w : World} {k : Nat}
    {reads : List Answer}
    (h : Assembled (response p) (stream p) k (st.inPacket p) (st.index p) (w.rx p))
    (hreads : w.reads = .bytes (c p) :: reads)
    (hfits : min (stream p).length (k + min (c p) 12) ≤ packetMaxLength) :
    ∃ st₁ w₁, readPorts (p :: rest) st w = readPorts rest st₁ w₁ ∧
      Assembled (response p) (stream p) (min (stream p).length (k + min (c p) 12))
        (st₁.inPacket p) (st₁.index p) (w₁.rx p) ∧
      w₁.reads = reads ∧ Untouched [p] st w st₁ w₁ ∧ Grown Contained w w₁ := by
  obtain ⟨mem, hstore, hread⟩ := h.read hfits
  have hle := store_le hstore
  have hpoll := uartReadNonblock_ok hreads hstore
  refine ⟨gotBytes st p (w.incoming p (c p) 12).length mem,
    w.received p (st.index p).toNat (w.incoming p (c p) 12).length reads, ?_, ?_, rfl,
    untouched_gotBytes st w p _ _ mem reads, Grown.one rfl (contained_store.mpr hle)⟩
  · exact Run.bind_of_ok hpoll _
  · simp only [gotBytes, World.received, Function.update_self]
    exact hread

/-- **The reads of one round**, when every packet has room. -/
theorem readPorts_assembled (ports : List Nat) {st : Receiving} {w : World} {rest : List Answer}
    (hnodup : ports.Nodup) (h : AllAssembled response stream taken ports st w)
    (hreads : w.reads = ports.map (fun p => .bytes (c p)) ++ rest)
    (hfits : ∀ p ∈ ports, advanced stream taken c p ≤ packetMaxLength) :
    ∃ st' w', readPorts ports st w = (.ok st', w') ∧
      AllAssembled response stream (advanced stream taken c) ports st' w' ∧ w'.reads = rest ∧
      Untouched ports st w st' w' ∧ Grown Contained w w' := by
  induction ports generalizing st w with
  | nil =>
    refine ⟨st, w, rfl, ?_, hreads, ?_, Grown.refl w⟩
    · intro p hp
      cases hp
    · exact ⟨fun _ _ => ⟨rfl, rfl, rfl⟩, rfl, rfl, rfl, rfl, rfl, rfl, rfl⟩
  | cons p ports ih =>
    obtain ⟨hp, hnodup'⟩ := List.nodup_cons.mp hnodup
    obtain ⟨st₁, w₁, hrun, hfirst, hreads₁, huntouched₁, hlog₁⟩ :=
      readPorts_cons ports (h p List.mem_cons_self) hreads (hfits p List.mem_cons_self)
    have hothers : AllAssembled response stream taken ports st₁ w₁ := by
      refine AllAssembled.untouched (fun q hq => h q (List.mem_cons_of_mem p hq)) huntouched₁ ?_
      intro q hq hqp
      exact hp (List.mem_singleton.mp hqp ▸ hq)
    obtain ⟨st', w', hrest, hall, hreads', huntouched, hlog⟩ := ih hnodup' hothers hreads₁
      (fun q hq => hfits q (List.mem_cons_of_mem p hq))
    refine ⟨st', w', hrun.trans hrest, ?_, hreads', huntouched₁.trans huntouched,
      hlog₁.trans hlog⟩
    intro q hq
    rcases List.mem_cons.mp hq with rfl | hq
    · obtain ⟨hpacket, hindex, hrx⟩ := huntouched.others q hp
      rw [hpacket, hindex, hrx]
      exact hfirst
    · exact hall q hq

/-- **The reads of one round** when a packet has no room for what comes: the first such read
leaves the packet. -/
theorem readPorts_overrun (ports : List Nat) {st : Receiving} {w : World} {rest : List Answer}
    (hnodup : ports.Nodup) (h : AllAssembled response stream taken ports st w)
    (hreads : w.reads = ports.map (fun p => .bytes (c p)) ++ rest)
    (hover : ∃ p ∈ ports, packetMaxLength < advanced stream taken c p) :
    ∃ w', readPorts ports st w = (.error .undefined, w') ∧ Strayed w w' := by
  induction ports generalizing st w with
  | nil =>
    obtain ⟨p, hp, -⟩ := hover
    cases hp
  | cons p ports ih =>
    obtain ⟨hp, hnodup'⟩ := List.nodup_cons.mp hnodup
    have hheld := h p List.mem_cons_self
    by_cases hfits : advanced stream taken c p ≤ packetMaxLength
    · obtain ⟨st₁, w₁, hrun, -, hreads₁, huntouched₁, hlog₁⟩ :=
        readPorts_cons ports hheld hreads hfits
      have hothers : AllAssembled response stream taken ports st₁ w₁ := by
        refine AllAssembled.untouched (fun q hq => h q (List.mem_cons_of_mem p hq)) huntouched₁ ?_
        intro q hq hqp
        exact hp (List.mem_singleton.mp hqp ▸ hq)
      have hover' : ∃ q ∈ ports, packetMaxLength < advanced stream taken c q := by
        obtain ⟨q, hq, hlt⟩ := hover
        rcases List.mem_cons.mp hq with rfl | hq
        · omega
        · exact ⟨q, hq, hlt⟩
      obtain ⟨w', hrest, hstrayed⟩ := ih hnodup' hothers hreads₁ hover'
      exact ⟨w', hrun.trans hrest, hstrayed.after hlog₁⟩
    · obtain ⟨hstore, hpast⟩ := hheld.overrun (Nat.lt_of_not_le hfits)
      have hpoll := uartReadNonblock_undefined hreads hstore
      have hout : ¬ Contained (.store (st.index p).toNat (w.incoming p (c p) 12).length) :=
        fun hin => Nat.not_le_of_lt hpast (contained_store.mp hin)
      exact ⟨_, Run.bind_of_error hpoll _, Strayed.one rfl hout⟩

end Reads

/-! ## A round -/

section SetLengths

theorem setLengths_same (ports : List Nat) (st : Receiving) :
    (setLengths ports st).inPacket = st.inPacket ∧ (setLengths ports st).index = st.index ∧
      (setLengths ports st).elapsed = st.elapsed := by
  induction ports generalizing st with
  | nil => exact ⟨rfl, rfl, rfl⟩
  | cons p ports ih =>
    unfold setLengths
    split
    · exact ih _
    · exact ih _

/-- What `setLengths` leaves of a port's length: that of the packet, once and for all. -/
theorem setLengths_at (ports : List Nat) (st : Receiving) (p : Nat) :
    (setLengths ports st).length p =
        (if p ∈ ports ∧ st.lengthSet p = false ∧ 0 < st.index p then lengthByte (st.inPacket p)
          else st.length p) ∧
      (setLengths ports st).lengthSet p =
        (st.lengthSet p || (decide (p ∈ ports) && decide (0 < st.index p))) := by
  induction ports generalizing st with
  | nil => simp [setLengths]
  | cons q ports ih =>
    unfold setLengths
    split
    · rename_i hset
      obtain ⟨hunset, hpos⟩ := Bool.and_eq_true_iff.mp hset
      have hunset' : st.lengthSet q = false := by simpa using hunset
      have hpos' : 0 < st.index q := by simpa using hpos
      rw [(ih _).1, (ih _).2]
      by_cases hpq : p = q
      · subst hpq
        simp [hunset', hpos']
      · simp [hpq]
    · rename_i hset
      rw [(ih _).1, (ih _).2]
      by_cases hpq : p = q
      · subst hpq
        cases hlength : st.lengthSet p with
        | true => simp
        | false =>
          have hzero : ¬ 0 < st.index p := fun h => hset (by simp [hlength, h])
          simp [hzero]
      · simp [hpq]

end SetLengths

/-- The stamp of the polling loop after `r` readings of the clock. -/
def stampAfter (w : World) : Nat → TimeElapsed
  | 0 => timeElapsedInit (w.clock w.ticks)
  | r + 1 => (timeElapsed w.period (stampAfter w r) (w.clock (w.ticks + 1 + r))).2

/-- The loop gives up after `r` rounds, if it is still running. -/
def Late (w : World) (timeout : UInt32) (r : Nat) : Prop :=
  timeout < (stampAfter w r).elapsedTime

instance (w : World) (timeout : UInt32) (r : Nat) : Decidable (Late w timeout r) :=
  inferInstanceAs (Decidable (timeout < (stampAfter w r).elapsedTime))

/-- After some rounds every port's total fits into a packet. -/
def Within (ports : List Nat) (w : World) (done : List (Nat → Nat)) : Prop :=
  ∀ p ∈ ports, total (w.rx p) done p ≤ packetMaxLength

instance (ports : List Nat) (w : World) (done : List (Nat → Nat)) :
    Decidable (Within ports w done) :=
  inferInstanceAs (Decidable (∀ p ∈ ports, total (w.rx p) done p ≤ packetMaxLength))

/-- After some rounds every port has taken as many bytes as its length byte says. -/
def Complete (ports : List Nat) (w : World) (done : List (Nat → Nat)) : Prop :=
  ∀ p ∈ ports, (announced (w.rx p) (total (w.rx p) done p)).toNat ≤ total (w.rx p) done p

instance (ports : List Nat) (w : World) (done : List (Nat → Nat)) :
    Decidable (Complete ports w done) :=
  inferInstanceAs (Decidable (∀ p ∈ ports,
    (announced (w.rx p) (total (w.rx p) done p)).toNat ≤ total (w.rx p) done p))

/-- The loop, entered in `w₀`, has gone through the rounds `done`, and `rest` is to come. -/
structure Polled (ports : List Nat) (response : Packets) (w₀ : World)
    (done rest : List (Nat → Nat)) (st : Receiving) (w : World) : Prop where
  assembled : AllAssembled response w₀.rx (fun p => total (w₀.rx p) done p) ports st w
  length : ∀ p ∈ ports, st.length p = announced (w₀.rx p) (total (w₀.rx p) done p)
  lengthSet : ∀ p ∈ ports, st.lengthSet p = decide (0 < total (w₀.rx p) done p)
  elapsed : st.elapsed = stampAfter w₀ done.length
  reads : w.reads = answers ports rest
  tx : w.tx = w₀.tx
  clock : w.clock = w₀.clock
  ticks : w.ticks = w₀.ticks + 1 + done.length
  period : w.period = w₀.period
  log : Grown Contained w₀ w

section Round

variable {ports : List Nat} {response : Packets} {w₀ w : World} {done rest : List (Nat → Nat)}
  {c : Nat → Nat} {st : Receiving}

theorem Polled.fits (h : Polled ports response w₀ done rest st w) : Within ports w₀ done :=
  fun p hp => (h.assembled p hp).fits

/-- The totals go up by one round. -/
theorem advanced_total (w₀ : World) (done : List (Nat → Nat)) (c : Nat → Nat) :
    advanced w₀.rx (fun p => total (w₀.rx p) done p) c =
      fun p => total (w₀.rx p) (done ++ [c]) p := by
  funext p
  exact (total_concat (w₀.rx p) done c p).symm

theorem index_pos {k : Nat} {index : UInt8} (h : index.toNat = k) : 0 < index ↔ 0 < k := by
  rw [← h]
  exact UInt8.lt_iff_toNat_lt

/-- A port's length and its flag after a round. -/
theorem setLengths_announced (h : Polled ports response w₀ done (c :: rest) st w)
    {st₁ : Receiving} {w₁ : World}
    (hread : AllAssembled response w₀.rx (fun p => total (w₀.rx p) (done ++ [c]) p) ports st₁ w₁)
    (hlength : st₁.length = st.length) (hset : st₁.lengthSet = st.lengthSet) {p : Nat}
    (hp : p ∈ ports) :
    (setLengths ports st₁).length p = announced (w₀.rx p) (total (w₀.rx p) (done ++ [c]) p) ∧
      (setLengths ports st₁).lengthSet p = decide (0 < total (w₀.rx p) (done ++ [c]) p) := by
  have hindex := index_pos (hread p hp).counter
  have hmono : total (w₀.rx p) done p ≤ total (w₀.rx p) (done ++ [c]) p := by
    have hle := total_le (w₀.rx p) done p
    rw [total_concat]
    omega
  rw [(setLengths_at ports st₁ p).1, (setLengths_at ports st₁ p).2, hlength, hset, h.length p hp,
    h.lengthSet p hp]
  by_cases hold : 0 < total (w₀.rx p) done p
  · have hnew : 0 < total (w₀.rx p) (done ++ [c]) p := by omega
    rw [announced_mono hold hmono]
    simp [hold, hnew]
  · by_cases hnew : 0 < total (w₀.rx p) (done ++ [c]) p
    · rw [(hread p hp).length_byte hnew]
      simp [hold, hnew, hp, hindex]
    · have hzero : total (w₀.rx p) (done ++ [c]) p = 0 := by omega
      have hzero' : total (w₀.rx p) done p = 0 := by omega
      simp [hindex, hzero, hzero']

/-- The loop condition is that some packet is not complete. -/
theorem Polled.keepLooping (h : Polled ports response w₀ done rest st w) :
    keepLooping ports st = true ↔ ¬ Complete ports w₀ done := by
  have hshort : ∀ p ∈ ports, st.index p < st.length p ↔
      total (w₀.rx p) done p < (announced (w₀.rx p) (total (w₀.rx p) done p)).toNat := by
    intro p hp
    rw [UInt8.lt_iff_toNat_lt, (h.assembled p hp).counter, h.length p hp]
  unfold All.keepLooping Complete
  rw [List.any_eq_true]
  constructor
  · rintro ⟨p, hp, hlt⟩ hcomplete
    have hlt' := (hshort p hp).mp (of_decide_eq_true hlt)
    exact Nat.not_le_of_lt hlt' (hcomplete p hp)
  · intro hincomplete
    push Not at hincomplete
    obtain ⟨p, hp, hlt⟩ := hincomplete
    exact ⟨p, hp, decide_eq_true ((hshort p hp).mpr hlt)⟩

/-- **One round** that leaves every total within a packet. -/
theorem receiveRound_within (timeout : UInt32) (hnodup : ports.Nodup)
    (h : Polled ports response w₀ done (c :: rest) st w) (hfits : Within ports w₀ (done ++ [c])) :
    ∃ st' w', Polled ports response w₀ (done ++ [c]) rest st' w' ∧
      receiveRound ports timeout st w =
        if Late w₀ timeout (done.length + 1) then
          (.error (.error "timeout"), w'.logged .expired)
        else if Complete ports w₀ (done ++ [c]) then (.ok (.inr st'), w')
        else (.ok (.inl st'), w') := by
  obtain ⟨st₁, w₁, hrun, hread, hreads, huntouched, hlog⟩ :=
    readPorts_assembled ports hnodup h.assembled h.reads (by rw [advanced_total]; exact hfits)
  rw [advanced_total] at hread
  have hsame := setLengths_same ports st₁
  have hticks : w₁.ticks = w₀.ticks + 1 + done.length := huntouched.ticks.trans h.ticks
  have helapsed : (setLengths ports st₁).elapsed = stampAfter w₀ done.length := by
    rw [hsame.2.2, huntouched.elapsed, h.elapsed]
  -- the clock is read once, and the stamp of the model is the one of the loop
  have htime : timeElapsedMs (setLengths ports st₁).elapsed w₁ =
      (.ok ((stampAfter w₀ (done.length + 1)).elapsedTime, stampAfter w₀ (done.length + 1)),
        { w₁ with ticks := w₁.ticks + 1 }) := by
    unfold timeElapsedMs
    rw [helapsed, huntouched.period, h.period, huntouched.clock, h.clock, hticks]
    rfl
  have hpolled : Polled ports response w₀ (done ++ [c]) rest
      { setLengths ports st₁ with elapsed := stampAfter w₀ (done.length + 1) }
      { w₁ with ticks := w₁.ticks + 1 } := by
    refine ⟨?_, ?_, ?_, ?_, hreads, huntouched.tx.trans h.tx, huntouched.clock.trans h.clock, ?_,
      huntouched.period.trans h.period, h.log.trans hlog⟩
    · intro p hp
      show Assembled _ _ _ ((setLengths ports st₁).inPacket p) ((setLengths ports st₁).index p) _
      rw [hsame.1, hsame.2.1]
      exact hread p hp
    · intro p hp
      exact (setLengths_announced h hread huntouched.length huntouched.lengthSet hp).1
    · intro p hp
      exact (setLengths_announced h hread huntouched.length huntouched.lengthSet hp).2
    · rw [List.length_append]
      rfl
    · rw [List.length_append, hticks]
      rfl
  refine ⟨_, _, hpolled, ?_⟩
  unfold receiveRound
  rw [Run.bind_of_ok hrun, Run.bind_of_ok htime]
  have hlate : Late w₀ timeout (done.length + 1) ↔
      (stampAfter w₀ (done.length + 1)).elapsedTime > timeout := Iff.rfl
  by_cases hl : Late w₀ timeout (done.length + 1)
  · rw [if_pos hl]
    simp only [if_pos (hlate.mp hl)]
    rfl
  · rw [if_neg hl]
    simp only [if_neg (fun he => hl (hlate.mpr he))]
    by_cases hc : Complete ports w₀ (done ++ [c])
    · rw [if_pos hc, if_neg (fun hk => hpolled.keepLooping.mp hk hc)]
      rfl
    · rw [if_neg hc, if_pos (hpolled.keepLooping.mpr hc)]
      rfl

end Round

/-! ## The loop -/

/-- After the rounds `done` the loop goes on. -/
structure Going (ports : List Nat) (w : World) (timeout : UInt32) (done : List (Nat → Nat)) :
    Prop where
  within : Within ports w done
  inTime : ¬ Late w timeout done.length
  incomplete : ¬ Complete ports w done

/-- After each of the rounds `done` the loop goes on. -/
def GoingOn (ports : List Nat) (w : World) (timeout : UInt32) (done : List (Nat → Nat)) : Prop :=
  ∀ pre, pre <+: done → pre ≠ [] → Going ports w timeout pre

theorem GoingOn.of_concat {ports : List Nat} {w : World} {timeout : UInt32}
    {done : List (Nat → Nat)} {c : Nat → Nat} (h : GoingOn ports w timeout (done ++ [c])) :
    GoingOn ports w timeout done :=
  fun pre hpre hne => h pre (hpre.trans (List.prefix_append done [c])) hne

theorem length_answers (ports : List Nat) (rounds : List (Nat → Nat)) :
    (answers ports rounds).length = rounds.length * ports.length := by
  unfold answers
  induction rounds with
  | nil => simp
  | cons c rounds ih =>
    rw [List.flatMap_cons, List.length_append, ih, List.length_map, List.length_cons,
      Nat.add_one_mul, Nat.add_comm]

section Loop

variable {ports : List Nat} {timeout : UInt32} {w : World} {done rest : List (Nat → Nat)}
  {c : Nat → Nat}

theorem polled_start (response : Packets) (hreads : w.reads = answers ports rest)
    (elapsed : TimeElapsed)
    (helapsed : elapsed = stampAfter w 0) :
    Polled ports response w [] rest
      { inPacket := fun p => if p ∈ ports then initPacket (response p) else response p
        length := fun _ => 1
        index := fun _ => 0
        lengthSet := fun _ => false
        elapsed } { w with ticks := w.ticks + 1 } := by
  refine ⟨?_, ?_, ?_, helapsed, hreads, rfl, rfl, rfl, rfl, Grown.refl w⟩
  · intro p hp
    simp only [if_pos hp, total_nil]
    exact Assembled.start (response p) (w.rx p)
  · intro p _
    rw [total_nil]
    rfl
  · intro p _
    rw [total_nil]
    rfl

/-- **The loop after rounds that all left it going.** -/
theorem receive_polls (response : Packets) (hports : 0 < ports.length) (hnodup : ports.Nodup)
    (hreads : w.reads = answers ports (done ++ rest)) (hgoing : GoingOn ports w timeout done) :
    ∃ st w', Polled ports response w done rest st w' ∧
      receive ports response timeout w = Run.iterate .pending (receiveRound ports timeout)
        (w.reads.length - done.length + 1) st w' := by
  induction done using List.reverseRecOn generalizing rest with
  | nil => exact ⟨_, _, polled_start response hreads _ rfl, rfl⟩
  | append_singleton done c ih =>
    rw [List.append_assoc, List.singleton_append] at hreads
    obtain ⟨st, w₁, hpolled, hrun⟩ := ih hreads hgoing.of_concat
    have hlast := hgoing (done ++ [c]) (List.prefix_refl _) (by simp)
    obtain ⟨st', w', hpolled', hround⟩ :=
      receiveRound_within timeout hnodup hpolled hlast.within
    have hlate := hlast.inTime
    rw [List.length_append, List.length_singleton] at hlate
    rw [if_neg hlate, if_neg hlast.incomplete] at hround
    refine ⟨st', w', hpolled', hrun.trans ?_⟩
    have hfuel : w.reads.length - done.length =
        w.reads.length - (done ++ [c]).length + 1 := by
      have hle : (done ++ [c]).length ≤ w.reads.length := by
        rw [hreads, length_answers]
        refine Nat.le_trans ?_ (Nat.le_mul_of_pos_right _ hports)
        simp
      rw [List.length_append, List.length_singleton] at hle ⊢
      omega
    rw [hfuel]
    exact Run.iterate_of_inl hround

/-- The round after which the loop ends, if its reads stay inside the packets. -/
theorem receive_ends (response : Packets) (hports : 0 < ports.length) (hnodup : ports.Nodup)
    (hreads : w.reads = answers ports (done ++ c :: rest)) (hgoing : GoingOn ports w timeout done)
    (hfits : Within ports w (done ++ [c])) :
    ∃ st' w', Polled ports response w (done ++ [c]) rest st' w' ∧
      (Late w timeout (done.length + 1) → receive ports response timeout w =
        (.error (.error "timeout"), w'.logged .expired)) ∧
      (¬ Late w timeout (done.length + 1) → Complete ports w (done ++ [c]) →
        receive ports response timeout w = (.ok st', w')) := by
  obtain ⟨st, w₁, hpolled, hrun⟩ := receive_polls response hports hnodup hreads hgoing
  obtain ⟨st', w', hpolled', hround⟩ :=
    receiveRound_within timeout hnodup hpolled hfits
  refine ⟨st', w', hpolled', ?_, ?_⟩
  · intro hlate
    rw [if_pos hlate] at hround
    exact hrun.trans (Run.iterate_of_error hround)
  · intro hlate hcomplete
    rw [if_neg hlate, if_pos hcomplete] at hround
    exact hrun.trans (Run.iterate_of_inr hround)

/-- The round in which some packet has no room for what comes. -/
theorem receive_overrun (response : Packets) (hports : 0 < ports.length) (hnodup : ports.Nodup)
    (hreads : w.reads = answers ports (done ++ c :: rest)) (hgoing : GoingOn ports w timeout done)
    (hover : ¬ Within ports w (done ++ [c])) :
    ∃ w', receive ports response timeout w = (.error .undefined, w') ∧ Strayed w w' := by
  obtain ⟨st, w₁, hpolled, hrun⟩ := receive_polls response hports hnodup hreads hgoing
  unfold Within at hover
  push Not at hover
  obtain ⟨w', hread, hstrayed⟩ := readPorts_overrun ports hnodup hpolled.assembled hpolled.reads
    (by rw [advanced_total]; exact hover)
  refine ⟨w', hrun.trans ?_, hstrayed.after hpolled.log⟩
  exact Run.iterate_of_error (Run.bind_of_error hread _)

/-- The loop waits for more as long as no round has ended it. -/
theorem receive_waiting (response : Packets) (hports : 0 < ports.length) (hnodup : ports.Nodup)
    (hreads : w.reads = answers ports done) (hgoing : GoingOn ports w timeout done) :
    ∃ w', receive ports response timeout w = (.error .pending, w') ∧ Grown Contained w w' := by
  have hreads' : w.reads = answers ports (done ++ []) := by
    rw [List.append_nil]
    exact hreads
  obtain ⟨st, w₁, hpolled, hrun⟩ := receive_polls response hports hnodup hreads' hgoing
  have hread : readPorts ports st w₁ = (.error .pending, w₁) := by
    cases ports with
    | nil => exact absurd hports (Nat.lt_irrefl 0)
    | cons p ports => exact Run.bind_of_error (uartReadNonblock_pending hpolled.reads) _
  exact ⟨w₁, hrun.trans (Run.iterate_of_error (Run.bind_of_error hread _)), hpolled.log⟩

end Loop

/-- A list either has a property on all its beginnings or there is a first one without it. -/
theorem exists_first {α : Type} (P : List α → Prop) (l : List α) :
    (∀ pre, pre <+: l → pre ≠ [] → P pre) ∨
      ∃ done c rest, l = done ++ c :: rest ∧ (∀ pre, pre <+: done → pre ≠ [] → P pre) ∧
        ¬ P (done ++ [c]) := by
  induction l using List.reverseRecOn with
  | nil =>
    left
    intro pre hpre hne
    exact absurd (List.prefix_nil.mp hpre) hne
  | append_singleton l c ih =>
    rcases ih with hall | ⟨done, d, rest, rfl, hall, hfirst⟩
    · by_cases hlast : P (l ++ [c])
      · left
        intro pre hpre hne
        rcases List.prefix_concat_iff.mp hpre with rfl | hpre
        · exact hlast
        · exact hall pre hpre hne
      · exact .inr ⟨l, c, [], rfl, hall, hlast⟩
    · exact .inr ⟨done, d, rest ++ [c], by simp, hall, hfirst⟩

end Nuhal.Broadcast
