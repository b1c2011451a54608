import Nuhal.Link.BackPressure
import Nuhal.Link.Passes
import Nuhal.Link.Reader

/-!
# What comes in time (`nuhal_all/src/uart.c:8-101`, `protocol.c:196-260`)

How many bytes a blocking read gets before its deadline is settled before it begins: by the bytes on
the link, by what the driver hands over of them and by what the clock shows. The same goes for how
long a blocking write takes, and for the bytes that the two reads of a packet lay over the packet
that they are given.

* `Brings`: a read, up to its deadline, gets `k` bytes. By `brings_of_read` and `read_of_brings`
  this is what `uart_read_block_error` returns, and `pastRead` what it leaves.
* `Sending`: the last byte of a write is taken in its `i`-th pass; `sending_of_writeBlock` and
  `writeBlock_of_sending` are the same for a packet that is sent.
* `Fills`: the header's read gets `h` bytes and the body's `k`, which turns the packet into `m`. By
  `fills_of_readBlock` and `readBlock_of_fills` these are the packets that
  `protocol_read_block_error` can accept, and what it takes off the link for them.
-/

namespace Nuhal.Link

open Nuhal.Lib Nuhal.All

variable {n port off len i h k : Nat} {mem mem' : Vector UInt8 n} {timeout : UInt32}
  {w w₁ w₂ : World}

/-! ## A read -/

/-- Two platforms on which a read of `port` goes the same way. -/
structure Alike (port : Nat) (w w' : World) : Prop where
  rx : w'.rx port = w.rx port
  reads : w'.reads = w.reads
  clock : w'.clock = w.clock
  period : w'.period = w.period
  ticks : w'.ticks = w.ticks
  wait : w'.wait = w.wait

theorem Alike.refl (port : Nat) (w : World) : Alike port w w := ⟨rfl, rfl, rfl, rfl, rfl, rfl⟩

theorem Alike.symm (h : Alike port w w₁) : Alike port w₁ w :=
  ⟨h.rx.symm, h.reads.symm, h.clock.symm, h.period.symm, h.ticks.symm, h.wait.symm⟩

theorem Alike.lookInTime (h : Alike port w w₁) (timeout : UInt32) (i : Nat) :
    LookInTime timeout w₁ i ↔ LookInTime timeout w i := by
  unfold LookInTime
  rw [h.period, h.clock, h.ticks]

theorem Alike.arrivedBy (h : Alike port w w₁) (len i : Nat) :
    arrivedBy w₁ port len i = arrivedBy w port len i := by
  unfold Link.arrivedBy
  rw [h.reads, h.rx]

/-- A read of `len` bytes gets `k` of them, in the passes up to the one after `i` others: all of
them, or those that have come when the deadline passes. -/
structure Brings (port len : Nat) (timeout : UInt32) (w : World) (i k : Nat) : Prop where
  ready : ∃ ready, w.wait (w.ticks + 1) = .ok ready
  looks : ∀ j < i, LookInTime timeout w (j + 1)
  answers : ∀ j < i, ∃ count, w.reads[j]? = some (.bytes count)
  short : ∀ j < i, arrivedBy w port len (j + 1) < len
  ends : ¬ LookInTime timeout w (i + 1) ∧ k = arrivedBy w port len i ∨
    LookInTime timeout w (i + 1) ∧ (∃ count, w.reads[i]? = some (.bytes count)) ∧
      arrivedBy w port len (i + 1) = len ∧ k = len

/-- The platform after such a read, as far as it matters for the next one. -/
def pastRead (w : World) (port len : Nat) (timeout : UInt32) (i k : Nat) : World :=
  { w with
    rx := Function.update w.rx port ((w.rx port).drop k)
    reads := w.reads.drop (if k = len then i + 1 else i)
    ticks := w.ticks + 1 + (i + 1) * looks timeout }

theorem Brings.congr (hbrings : Brings port len timeout w i k) (h : Alike port w w₁) :
    Brings port len timeout w₁ i k := by
  obtain ⟨hready, hlooks, hanswers, hshort, hends⟩ := hbrings
  refine ⟨?_, fun j hj => (h.lookInTime timeout _).mpr (hlooks j hj), fun j hj => ?_,
    fun j hj => ?_, ?_⟩
  · rw [h.wait, h.ticks]
    exact hready
  · rw [h.reads]
    exact hanswers j hj
  · rw [h.arrivedBy]
    exact hshort j hj
  · rw [h.lookInTime, h.arrivedBy, h.arrivedBy, h.reads]
    exact hends

theorem Alike.pastRead (h : Alike port w w₁) (len : Nat) (timeout : UInt32) (i k : Nat) :
    Alike port (pastRead w port len timeout i k) (pastRead w₁ port len timeout i k) := by
  refine ⟨?_, ?_, h.clock, h.period, ?_, h.wait⟩
  · show Function.update w₁.rx port _ port = Function.update w.rx port _ port
    rw [Function.update_self, Function.update_self, h.rx]
  · show w₁.reads.drop _ = w.reads.drop _
    rw [h.reads]
  · show w₁.ticks + 1 + _ = w.ticks + 1 + _
    rw [h.ticks]

theorem rx_pastRead (w : World) (port len : Nat) (timeout : UInt32) (i k : Nat) :
    (pastRead w port len timeout i k).rx port = (w.rx port).drop k :=
  Function.update_self _ _ _

theorem Alike.trans (h : Alike port w w₁) (h' : Alike port w₁ w₂) : Alike port w w₂ :=
  ⟨h'.rx.trans h.rx, h'.reads.trans h.reads, h'.clock.trans h.clock, h'.period.trans h.period,
    h'.ticks.trans h.ticks, h'.wait.trans h.wait⟩

/-- Before the last pass of a read that is late, bytes are missing. -/
theorem Brings.lt_of_late (hbrings : Brings port len timeout w i k) (hlen : 0 < len) :
    arrivedBy w port len i < len := by
  cases i with
  | zero =>
    rw [arrivedBy_zero]
    exact hlen
  | succ i => exact hbrings.short i (Nat.lt_succ_self i)

theorem Brings.le (hbrings : Brings port len timeout w i k) : k ≤ len := by
  rcases hbrings.ends with ⟨-, rfl⟩ | ⟨-, -, -, rfl⟩
  · exact arrivedBy_le w port len i
  · exact Nat.le_refl _

theorem Brings.le_length (hbrings : Brings port len timeout w i k) :
    k ≤ (w.rx port).length := by
  rcases hbrings.ends with ⟨-, rfl⟩ | ⟨-, -, hfull, rfl⟩
  · exact arrivedBy_le_length w port len i
  · exact Nat.le_trans (Nat.le_of_eq hfull.symm) (arrivedBy_le_length w port k (i + 1))

theorem Brings.goesOn (hbrings : Brings port len timeout w i k) (mem : Vector UInt8 n) (off : Nat) :
    ∀ j < i, GoesOn port mem off len timeout .none w j := fun j hj =>
  ⟨hbrings.looks j hj, hbrings.answers j hj, hbrings.short j hj, fun h => absurd rfl h⟩

theorem Brings.stops (hbrings : Brings port len timeout w i k) (mem : Vector UInt8 n) (off : Nat) :
    ¬ GoesOn port mem off len timeout .none w i := by
  intro hgo
  rcases hbrings.ends with ⟨hlate, -⟩ | ⟨-, -, hfull, -⟩
  · exact hlate hgo.look
  · exact absurd hgo.short (by rw [hfull]; exact Nat.lt_irrefl _)

/-- What the last pass of a read leaves. -/
theorem alike_pastRead {stamp : TimeElapsed} {passes : Nat}
    (hrx : w₁.rx port = (w.rx port).drop k) (hreads : w₁.reads = w.reads.drop passes)
    (hpasses : passes = if k = len then i + 1 else i)
    (hlooked : Looked timeout w (i + 1) stamp w₁) :
    Alike port (pastRead w port len timeout i k) w₁ := by
  refine ⟨?_, ?_, hlooked.clock, hlooked.period, hlooked.reading, hlooked.wait⟩
  · rw [hrx, rx_pastRead]
  · rw [hreads, hpasses]
    rfl

/-- **What a read returned is what came in time.** -/
theorem brings_of_read (hoff : off + len ≤ n) (hlen : 0 < len)
    (hrun : uartReadBlockError port mem off len timeout .none false w = (.ok (k, mem'), w₁)) :
    ∃ i, Brings port len timeout w i k ∧ store mem off ((w.rx port).take k) = some mem' ∧
      Alike port (pastRead w port len timeout i k) w₁ := by
  cases hwait : w.wait (w.ticks + 1) with
  | error msg => cases hrun.symm.trans (uartReadBlockError_wait (Nat.ne_of_gt hlen) hwait)
  | ok ready =>
    obtain ⟨i, hgo, hends, ⟨stamp, hlooked⟩, -⟩ :=
      (uartReadBlockError_passes hoff hlen hwait).elim hrun
    have hbrings : ∀ {k}, _ → Brings port len timeout w i k := fun hends =>
      ⟨⟨ready, hwait⟩, fun j hj => (hgo j hj).look, fun j hj => (hgo j hj).answer,
        fun j hj => (hgo j hj).short, hends⟩
    refine ⟨i, ?_⟩
    cases hends with
    | late _ hlook _ hmem hrx hreads =>
      have hlate := hbrings (.inl ⟨hlook, rfl⟩)
      have hlt := hlate.lt_of_late hlen
      exact ⟨hlate, hmem,
        alike_pastRead hrx hreads (by rw [if_neg (Nat.ne_of_lt hlt)]) hlooked⟩
    | complete count _ hlook hanswer hdone hmem hrx hreads =>
      have hfull : arrivedBy w port len (i + 1) = len := by
        rcases hdone with hfull | ⟨b, -, hends⟩
        · exact hfull
        · cases hends
      rw [hfull] at hmem hrx ⊢
      exact ⟨hbrings (.inr ⟨hlook, ⟨count, hanswer⟩, hfull, rfl⟩), hmem,
        alike_pastRead hrx hreads (by rw [if_pos rfl]) hlooked⟩

/-- **A read returns what comes in time.** -/
theorem read_of_brings (mem : Vector UInt8 n) (hoff : off + len ≤ n) (hlen : 0 < len)
    (hbrings : Brings port len timeout w i k) :
    ∃ mem' w₁, uartReadBlockError port mem off len timeout .none false w = (.ok (k, mem'), w₁) ∧
      store mem off ((w.rx port).take k) = some mem' ∧
      Alike port (pastRead w port len timeout i k) w₁ := by
  rcases hrun : uartReadBlockError port mem off len timeout .none false w with ⟨r, w₁⟩
  obtain ⟨ready, hwait⟩ := hbrings.ready
  obtain ⟨i', hends⟩ := (uartReadBlockError_passes hoff hlen hwait).elim hrun
  obtain rfl := hends.unique (hbrings.goesOn mem off) (hbrings.stops mem off)
  obtain ⟨stamp, hlooked⟩ := hends.looked
  have hlt := hbrings.lt_of_late hlen
  rcases hbrings.ends with ⟨hlook, rfl⟩ | ⟨hlook, ⟨count, hanswer⟩, hfull, rfl⟩
  · cases hends.ends with
    | late mem' _ _ hmem hrx hreads =>
      exact ⟨mem', w₁, rfl, hmem,
        alike_pastRead hrx hreads (by rw [if_neg (Nat.ne_of_lt hlt)]) hlooked⟩
    | timedOut _ herror => cases herror
    | waiting htime => exact absurd htime hlook
    | failed _ htime => exact absurd htime hlook
    | complete _ _ htime => exact absurd htime hlook
    | outside _ _ htime => exact absurd htime hlook
  · cases hends.ends with
    | late _ hlate => exact absurd hlook hlate
    | timedOut hlate => exact absurd hlook hlate
    | waiting _ hnone => cases hanswer.symm.trans hnone
    | failed _ _ hfail => cases hanswer.symm.trans hfail
    | complete _ mem' _ _ _ hmem hrx hreads =>
      rw [hfull] at hmem hrx ⊢
      exact ⟨mem', w₁, rfl, hmem, alike_pastRead hrx hreads (by rw [if_pos rfl]) hlooked⟩
    | outside _ hterm => exact absurd rfl hterm

/-! ## A write -/

/-- The last byte of a write is taken in the pass after `i` others. -/
structure Sending (data : List UInt8) (timeout : UInt32) (w : World) (i : Nat) : Prop where
  goesOn : ∀ j < i, WritesOn data timeout w j
  look : LookInTime timeout w (i + 1)
  answer : ∃ count, w.writes[i]? = some (.bytes count)
  all : sentBy w data (i + 1) = data.length

/-- The platform after such a write, as far as it matters for a read. -/
def pastWrite (w : World) (timeout : UInt32) (i : Nat) : World :=
  { w with ticks := w.ticks + 1 + (i + 1) * looks timeout }

variable {data : List UInt8}

theorem alike_pastWrite {stamp : TimeElapsed} {sent : List UInt8}
    (hsent : Sent port sent w w₁) (hlooked : Looked timeout w (i + 1) stamp w₁) :
    Alike port (pastWrite w timeout i) w₁ :=
  ⟨congrFun hsent.rx port, hsent.reads, hlooked.clock, hlooked.period, hlooked.reading,
    hlooked.wait⟩

theorem sending_of_write (hrun : uartWriteBlock port data timeout w = (.ok k, w₁)) :
    ∃ i, Sending data timeout w i ∧ Alike port (pastWrite w timeout i) w₁ := by
  obtain ⟨sent, hwrites⟩ := (uartWriteBlock_writes port data timeout w).elim hrun
  obtain ⟨i, hgo, hstops⟩ := (uartWriteBlock_passes port data timeout w).elim hrun
  cases hstops with
  | complete count stamp hlook hanswer hall _ hlooked =>
    exact ⟨i, ⟨hgo, hlook, ⟨count, hanswer⟩, hall⟩, alike_pastWrite hwrites.given hlooked⟩

theorem write_of_sending (port : Nat) (h : Sending data timeout w i) :
    ∃ w₁, uartWriteBlock port data timeout w = (.ok data.length, w₁) ∧
      Alike port (pastWrite w timeout i) w₁ := by
  rcases hrun : uartWriteBlock port data timeout w with ⟨r, w₁⟩
  obtain ⟨sent, hwrites⟩ := (uartWriteBlock_writes port data timeout w).elim hrun
  obtain ⟨i', hgo, hstops⟩ := (uartWriteBlock_passes port data timeout w).elim hrun
  have hstop : ¬ WritesOn data timeout w i := fun hon => Nat.ne_of_lt hon.short h.all
  obtain rfl := Run.first_stop_unique hgo hstops.not_writesOn h.goesOn hstop
  obtain ⟨count, hanswer⟩ := h.answer
  cases hstops with
  | timedOut _ hlate => exact absurd h.look hlate
  | waiting hnone => cases hanswer.symm.trans hnone
  | failed _ _ hfail => cases hanswer.symm.trans hfail
  | complete _ stamp _ _ _ _ hlooked =>
    exact ⟨w₁, rfl, alike_pastWrite hwrites.given hlooked⟩

/-- The deadline of sending a packet with these data (`protocol.c:207`). -/
def writeTimeout (data : List UInt8) : UInt32 :=
  (UInt8.ofNat (data.length + 2)).toUInt32 * timeoutMsPerByte + timeoutMsBase

/-- A packet that is sent is written behind its checksum. -/
theorem protocolWriteBlock_eq {packet : ProtocolPacket} (h : Carries packet data) (port : Nat)
    (w : World) : protocolWriteBlock port packet w =
      (uartWriteBlock port (frame data) (writeTimeout data) >>= fun _ => pure (headed packet data))
        (looked w 2 data.length) := by
  unfold protocolWriteBlock
  rw [Run.bind_of_ok (protocolHeaderInit_carries h w)]
  simp only [toNat_frameLength h.fits, wire_headed h]
  rfl

/-- The log does not matter. -/
theorem Alike.of_looked {a b : Nat} (h : Alike port (pastWrite (looked w a b) timeout i) w₁) :
    Alike port (pastWrite w timeout i) w₁ :=
  ⟨h.rx, h.reads, h.clock, h.period, h.ticks, h.wait⟩

theorem Sending.of_looked {a b : Nat} (h : Sending data timeout (looked w a b) i) :
    Sending data timeout w i :=
  ⟨fun j hj => ⟨(h.goesOn j hj).look, (h.goesOn j hj).answer, (h.goesOn j hj).short⟩, h.look,
    h.answer, h.all⟩

theorem sending_of_writeBlock {packet packet' : ProtocolPacket} (hcarries : Carries packet data)
    (hrun : protocolWriteBlock port packet w = (.ok packet', w₁)) :
    packet' = headed packet data ∧ ∃ i, Sending (frame data) (writeTimeout data) w i ∧
      Alike port (pastWrite w (writeTimeout data) i) w₁ := by
  rw [protocolWriteBlock_eq hcarries] at hrun
  obtain ⟨k, w₂, hwrite, hrest⟩ := Run.bind_eq_ok hrun
  cases hrest
  obtain ⟨i, hsending, halike⟩ := sending_of_write hwrite
  exact ⟨rfl, i, hsending.of_looked, halike.of_looked⟩

theorem writeBlock_of_sending {packet : ProtocolPacket} (port : Nat)
    (hcarries : Carries packet data) (h : Sending (frame data) (writeTimeout data) w i) :
    ∃ w₁, protocolWriteBlock port packet w = (.ok (headed packet data), w₁) ∧
      Alike port (pastWrite w (writeTimeout data) i) w₁ := by
  have hlooked : Sending (frame data) (writeTimeout data) (looked w 2 data.length) i :=
    ⟨fun j hj => ⟨(h.goesOn j hj).look, (h.goesOn j hj).answer, (h.goesOn j hj).short⟩, h.look,
      h.answer, h.all⟩
  obtain ⟨w₁, hwrite, halike⟩ := write_of_sending port hlooked
  refine ⟨w₁, ?_, halike.of_looked⟩
  rw [protocolWriteBlock_eq hcarries, Run.bind_of_ok hwrite]
  rfl

/-! ## A packet -/

variable {out : ProtocolPacket} {m m₁ : Vector UInt8 packetMaxLength}

/-- `h` bytes come to the header's read in time, and then `k` to the body's. Laid over what `out`
held, they are `m`. -/
inductive Fills (port : Nat) (out : ProtocolPacket) (timeout : UInt32) (w : World) :
    Nat → Nat → Vector UInt8 packetMaxLength → Prop
  | intro {i j h k : Nat} {m₁ m : Vector UInt8 packetMaxLength}
      (hheader : Brings port 2 (headerTimeout timeout) w i h)
      (hm₁ : store out._data 0 ((w.rx port).take h) = some m₁) (hlength : 3 ≤ m₁[0].toNat)
      (hbody : Brings port (bodyLength m₁).toNat (bodyTimeout (bodyLength m₁) timeout)
        (pastRead w port 2 (headerTimeout timeout) i h) j k)
      (hk : 0 < k) (hm : store m₁ 2 (((w.rx port).drop h).take k) = some m) :
      Fills port out timeout w h k m

theorem bodyLength_of_long (hlength : 3 ≤ m[0].toNat) :
    (bodyLength m).toNat = m[0].toNat - 2 ∧ 2 + (bodyLength m).toNat ≤ packetMaxLength ∧
      0 < (bodyLength m).toNat := by
  have hlt := m[0].toNat_lt
  have hlen := bodyLength_ne_one (ne_one_of_length hlength)
  refine ⟨hlen, ?_, by omega⟩
  show _ ≤ 255
  omega

/-- How many bytes that can be. -/
theorem Fills.le (hfills : Fills port out timeout w h k m) :
    3 ≤ m[0].toNat ∧ h ≤ 2 ∧ k ≤ m[0].toNat - 2 ∧ h + k ≤ (w.rx port).length := by
  obtain ⟨hheader, hm₁, hlength, hbody, -, hm⟩ := hfills
  have hle := hbody.le_length
  have hin := hheader.le_length
  have hmost := hbody.le
  rw [rx_pastRead, List.length_drop] at hle
  rw [(bodyLength_of_long hlength).1] at hmost
  rw [lengthByte_body hm]
  exact ⟨hlength, hheader.le, hmost, by omega⟩

theorem readBlock_of_fills (hfills : Fills port out timeout w h k m) (halike : Alike port w w₁)
    (hsound : Sound (fresh m)) :
    ∃ w₂, protocolReadBlockError port out timeout false w₁ = (.ok (true, opened (fresh m)), w₂) ∧
      w₂.rx port = (w.rx port).drop (h + k) := by
  obtain ⟨hheader, hm₁, hlength, hbody, hk, hm⟩ := hfills
  rename_i i j m₁
  obtain ⟨m₁', w₂, hread, hstore, hnext⟩ :=
    read_of_brings out._data (show 0 + headerBytes ≤ packetMaxLength by decide) (by decide)
      (hheader.congr halike)
  rw [halike.rx] at hstore
  obtain rfl := Option.some.inj (hm₁.symm.trans hstore)
  have hnext := (halike.pastRead 2 (headerTimeout timeout) i h).trans hnext
  obtain ⟨-, hfits, hpos⟩ := bodyLength_of_long hlength
  obtain ⟨m', w₃, hread', hstore', hlast⟩ :=
    read_of_brings m₁ hfits hpos (hbody.congr hnext)
  rw [hnext.rx, rx_pastRead] at hstore'
  obtain rfl := Option.some.inj (hm.symm.trans hstore')
  have hbyte := lengthByte_body hm
  have hrx := hlast.rx
  rw [rx_pastRead, hnext.rx, rx_pastRead, List.drop_drop] at hrx
  rw [protocolReadBlockError_of_header hread]
  exact ⟨_, readBody_sound hread' (Nat.ne_of_gt hk) (by rw [hbyte]; exact hlength) hsound, hrx⟩

theorem fills_of_readBlock (halike : Alike port w w₁) {out' : ProtocolPacket}
    (hrun : protocolReadBlockError port out timeout false w₁ = (.ok (true, out'), w₂)) :
    ∃ h k m, Fills port out timeout w h k m ∧ Sound (fresh m) ∧ out' = opened (fresh m) ∧
      w₂.rx port = (w.rx port).drop (h + k) := by
  rcases hread : uartReadBlock port out._data 0 2 (headerTimeout timeout) .none w₁ with ⟨r, w₃⟩
  match r, hread with
  | .error e, hread => cases hrun.symm.trans (protocolReadBlockError_header_error hread)
  | .ok (h, m₁), hread =>
    obtain ⟨i, hheader, hm₁, hnext⟩ := brings_of_read (by decide) (by decide) hread
    rw [protocolReadBlockError_of_header hread] at hrun
    obtain ⟨⟨k, m⟩, w₄, hread', hrest⟩ := Run.bind_eq_ok hrun
    obtain ⟨body, hreads⟩ := (uartReadBlockError_reads port m₁ 2 (bodyLength m₁).toNat
      (bodyTimeout (bodyLength m₁) timeout) false w₃ (by decide)).elim hread'
    obtain rfl := hreads.ends.1
    dsimp only at hrest
    by_cases hk : body.length = 0
    · rw [if_pos hk] at hrest
      cases hrest
    rw [if_neg hk] at hrest
    have hbody : body ≠ [] := fun hnil => hk (congrArg List.length hnil)
    rcases verified_eq hreads hbody with ⟨-, heq⟩ | ⟨-, -, heq⟩ | ⟨hfilled, hsound, heq⟩
    · cases hrest.symm.trans heq
    · cases hrest.symm.trans heq
    · cases hrest.symm.trans heq
      have hbyte := lengthByte_body hreads.ends.2.1
      have hlength : 3 ≤ m₁[0].toNat := by
        rw [← hbyte]
        exact hfilled.length
      obtain ⟨-, hfits, hpos⟩ := bodyLength_of_long hlength
      obtain ⟨j, hbrings, hm, hlast⟩ := brings_of_read hfits hpos hread'
      have hbefore := (halike.pastRead 2 (headerTimeout timeout) i h).trans hnext
      rw [hbefore.rx, rx_pastRead] at hm
      rw [halike.rx] at hm₁
      have hrx := hlast.rx
      rw [rx_pastRead, hbefore.rx, rx_pastRead, List.drop_drop] at hrx
      exact ⟨h, body.length, m, .intro (hheader.congr halike.symm) hm₁ hlength
        (hbrings.congr hbefore.symm) (Nat.pos_of_ne_zero hk) hm, hsound, rfl, hrx⟩

end Nuhal.Link
