import Nuhal.Link.Course
import Nuhal.Link.Fresh

/-!
# Repeated requests (`nuhal_all/src/protocol.c:286-322`)

A requester calls `protocol_request_timeout` again and again, with `timeout_error` false, and goes
on after a false result. A responder answers every request with one packet that starts with the
request's command. An `Exchange` is one call with everything the environment does to it: what the
responder puts after the command, how the drivers chunk and delay, what the clock shows. Nothing is
read before the request is written, so the reply can be put on the link when the call starts.

Replies are told apart by their command only, and a reply that comes after its call gave up stays on
the link (`Requester.inFlight`). A packet that comes in part is completed by what `out` held before.

* `Comes`: the bytes that come to the two reads of a call in time, and what they make of `out`.
* `Orderly`: if this has the right checksum and the request's command, it is a packet that came as a
  whole, and the first on the link is the call's own reply.
* `ownReply_iff`: a true result of a call is its own reply exactly when the call is orderly.
* **`exchangeAll_answered`**: so every true result of a run is the call's own reply exactly when all
  of its calls are orderly. `orderly_of_still`: they are, where nothing is late.
* `exchangeAll_late_reply`: a run with two requests of one command in which the second gets the
  reply to the first.
-/

namespace Nuhal.Link

open Nuhal.Lib Nuhal.All

/-- A call, and what happens while it runs. -/
structure Exchange where
  request : ProtocolPacket
  out : ProtocolPacket
  timeout : UInt32
  payload : List UInt8
  reads : List Answer
  writes : List Answer
  clock : Nat → UInt32
  period : UInt32
  wait : Nat → Except String Bool

/-- The command of the request. -/
def Exchange.command (ex : Exchange) : UInt8 := protocolPacketCommand ex.request

/-- The data of the responder's packet. -/
def Exchange.reply (ex : Exchange) : List UInt8 := ex.command :: ex.payload

/-- The request has a command, and request and reply fit into packets. -/
structure Exchange.Fits (ex : Exchange) : Prop where
  command : 1 ≤ ex.request.stream.size
  request : ex.request.stream.size ≤ 253
  reply : ex.reply.length ≤ 253

/-- Between two calls: the bytes on the way to the requester. -/
structure Requester where
  inFlight : List UInt8
  deriving DecidableEq

/-- The platform a call runs on. -/
def Exchange.world (ex : Exchange) (inFlight : List UInt8) : World :=
  { rx := fun _ => inFlight
    tx := fun _ => []
    reads := ex.reads
    writes := ex.writes
    clock := ex.clock
    ticks := 0
    period := ex.period
    wait := ex.wait
    available := fun _ => .ok true
    log := [] }

/-- The call itself. -/
def Exchange.run (port : Nat) (ex : Exchange) (s : Requester) :
    Except Halt (Bool × ProtocolPacket × ProtocolPacket) × World :=
  protocolRequestTimeout port ex.request ex.out ex.timeout false
    (ex.world (s.inFlight ++ frame ex.reply))

/-- One exchange: the result and the packet `out`, and what it leaves for the next. -/
def exchange (port : Nat) (ex : Exchange) (s : Requester) :
    Except Halt (Bool × ProtocolPacket) × Requester :=
  match ex.run port s with
  | (.ok (success, _, out), w) =>
    (.ok (success, out), ⟨w.rx port⟩)
  | (.error e, w) => (.error e, ⟨w.rx port⟩)

/-- The results of a run: it goes on until a call does not return. -/
def exchangeAll (port : Nat) : List Exchange → Requester → List (Bool × ProtocolPacket)
  | [], _ => []
  | ex :: rest, s =>
    match exchange port ex s with
    | (.ok result, s') => result :: exchangeAll port rest s'
    | (.error _, _) => []

/-- The packet is the one the responder sent. -/
def IsReply (out : ProtocolPacket) (reply : List UInt8) : Prop :=
  out._data.toList.take (lengthByte out).toNat = frame reply

instance (out : ProtocolPacket) (reply : List UInt8) : Decidable (IsReply out reply) :=
  inferInstanceAs (Decidable (_ = _))

/-- The bytes on the link while the call runs. -/
def Exchange.stream (ex : Exchange) (s : Requester) : List UInt8 := s.inFlight ++ frame ex.reply

/-- The data of the request. -/
def Exchange.data (ex : Exchange) : List UInt8 :=
  window ex.request._data 2 ex.request.stream.size

/-- `h` bytes of the link come to the header's read of the call in time, and `k` to the body's. Laid
over what `out` held, they are `m`. -/
def Comes (port : Nat) (ex : Exchange) (s : Requester) (h k : Nat)
    (m : Vector UInt8 packetMaxLength) : Prop :=
  ∃ i, Sending (frame ex.data) (writeTimeout ex.data) (ex.world (ex.stream s)) i ∧
    Fills port ex.out ex.timeout (pastWrite (ex.world (ex.stream s)) (writeTimeout ex.data) i) h k m

/-- The checksum is right and the command the request's. -/
structure Exchange.Accepts (ex : Exchange) (m : Vector UInt8 packetMaxLength) : Prop where
  sound : Sound (fresh m)
  command : ex.command = protocolPacketCommand (fresh m)
  noError : protocolError ≠ protocolPacketCommand (fresh m)

/-- What comes to the call in time and could be accepted is a whole packet, and the call's own reply
is the first on the link. -/
def Orderly (port : Nat) (ex : Exchange) (s : Requester) : Prop :=
  ∀ h k m, Comes port ex s h k m → ex.Accepts m →
    ¬ Stale h k m ∧ frame ex.reply <+: ex.stream s

/-- A true result is the call's own reply: the packet holds it, and it is what was taken off the
link. -/
def OwnReply (port : Nat) (ex : Exchange) (s : Requester) : Prop :=
  ∀ out s', exchange port ex s = (.ok (true, out), s') →
    IsReply out ex.reply ∧ ex.stream s = frame ex.reply ++ s'.inFlight

/-- Something holds of every call of a run and the state before it. -/
def EveryCall (port : Nat) (P : Exchange → Requester → Prop) : List Exchange → Requester → Prop
  | [], _ => True
  | ex :: rest, s => P ex s ∧
    ∀ result s', exchange port ex s = (.ok result, s') → EveryCall port P rest s'

/-- All calls of a run are orderly. -/
abbrev AllOrderly (port : Nat) : List Exchange → Requester → Prop := EveryCall port (Orderly port)

/-- All true results of a run are the calls' own replies. -/
abbrev AllAnswered (port : Nat) : List Exchange → Requester → Prop := EveryCall port (OwnReply port)

variable {port : Nat} {request request' out out' : ProtocolPacket} {timeout : UInt32}
  {timeoutError success : Bool} {w w' : World}

/-- A request that was answered: it was sent, a packet was read, and that has its command. -/
theorem request_returned
    (h : protocolRequestTimeout port request out timeout timeoutError w =
      (.ok (true, request', out'), w')) :
    ∃ w₁, protocolWriteBlock port request w = (.ok request', w₁) ∧
      protocolReadBlockError port out timeout timeoutError w₁ = (.ok (true, out'), w') ∧
      protocolPacketCommand request' = protocolPacketCommand out' ∧
      protocolError ≠ protocolPacketCommand out' := by
  obtain ⟨packet, w₁, hwrite, h⟩ := Run.bind_eq_ok h
  obtain ⟨⟨success₁, out₁⟩, w₂, hread, h⟩ := Run.bind_eq_ok h
  refine ⟨w₁, ?_⟩
  cases success₁ with
  | true =>
    obtain ⟨u, w₃, hvalidate, h⟩ := Run.bind_eq_ok h
    rw [protocolValidateResponse_eq] at hvalidate
    obtain ⟨hok, rfl⟩ := Prod.mk.inj hvalidate
    cases h
    split at hok
    · cases hok
    · rename_i hnoError
      split at hok
      · cases hok
      · rename_i hsame
        exact ⟨hwrite, hread, not_not.mp hsame, hnoError⟩
  | false =>
    cases timeoutError with
    | true => cases h
    | false => cases h

/-- The other way round. -/
theorem request_of_answer {w₁ : World}
    (hwrite : protocolWriteBlock port request w = (.ok request', w₁))
    (hread : protocolReadBlockError port out timeout timeoutError w₁ = (.ok (true, out'), w'))
    (hsame : protocolPacketCommand request' = protocolPacketCommand out')
    (hnoError : protocolError ≠ protocolPacketCommand out') :
    protocolRequestTimeout port request out timeout timeoutError w =
      (.ok (true, request', out'), w') := by
  have hvalidate := protocolValidateResponse_eq request' out' w'
  rw [if_neg hnoError, if_neg (not_not.mpr hsame)] at hvalidate
  unfold protocolRequestTimeout
  rw [Run.bind_of_ok hwrite, Run.bind_of_ok hread]
  simp only [if_true]
  rw [Run.bind_of_ok hvalidate]
  rfl

variable {ex : Exchange} {s s' : Requester} {h k : Nat} {m : Vector UInt8 packetMaxLength}

theorem Exchange.Fits.carries (hfits : ex.Fits) : Carries ex.request ex.data :=
  carries_window hfits.request

/-- **What a call accepts is what came to it in time.** -/
theorem comes_of_exchange (hfits : ex.Fits) (hrun : exchange port ex s = (.ok (true, out), s')) :
    ∃ h k m, Comes port ex s h k m ∧ ex.Accepts m ∧ out = opened (fresh m) ∧
      s'.inFlight = (ex.stream s).drop (h + k) := by
  unfold exchange at hrun
  rcases hcall : ex.run port s with ⟨r, w⟩
  rw [hcall] at hrun
  match r, hcall, hrun with
  | .ok (true, request', out'), hcall, hrun =>
    cases hrun
    obtain ⟨w₁, hwrite, hread, hsame, hnoError⟩ := request_returned hcall
    obtain ⟨rfl, i, hsending, halike⟩ := sending_of_writeBlock hfits.carries hwrite
    obtain ⟨h, k, m, hfills, hsound, rfl, hrx⟩ := fills_of_readBlock halike hread
    rw [command_headed] at hsame
    exact ⟨h, k, m, ⟨i, hsending, hfills⟩, ⟨hsound, hsame, hnoError⟩, rfl, hrx⟩

/-- **And what comes in time and can be accepted is.** -/
theorem exchange_of_comes (hfits : ex.Fits) (hcomes : Comes port ex s h k m)
    (haccepts : ex.Accepts m) : exchange port ex s =
      (.ok (true, opened (fresh m)), ⟨(ex.stream s).drop (h + k)⟩) := by
  obtain ⟨i, hsending, hfills⟩ := hcomes
  obtain ⟨w₁, hwrite, halike⟩ := writeBlock_of_sending port hfits.carries hsending
  obtain ⟨w', hread, hrx⟩ := readBlock_of_fills hfills halike haccepts.sound
  have hcommand : protocolPacketCommand (headed ex.request ex.data) =
      protocolPacketCommand (opened (fresh m)) := by
    rw [command_headed]
    exact haccepts.command
  have hcall : ex.run port s = _ := request_of_answer hwrite hread hcommand haccepts.noError
  unfold exchange
  rw [hcall]
  dsimp only
  rw [hrx]
  rfl

theorem Comes.fills (hcomes : Comes port ex s h k m) : ∃ w : World, w.rx port = ex.stream s ∧
    w.clock = ex.clock ∧ Fills port ex.out ex.timeout w h k m := by
  obtain ⟨i, -, hfills⟩ := hcomes
  exact ⟨_, rfl, rfl, hfills⟩

/-- A whole packet is what the link begins with. -/
theorem Comes.window (hcomes : Comes port ex s h k m) (hstale : ¬ Stale h k m) :
    (ex.stream s).take (h + k) = m.toList.take m[0].toNat ∧ h + k = m[0].toNat := by
  obtain ⟨w, hrx, -, hfills⟩ := hcomes.fills
  obtain ⟨hlength, hheader, hbody, hwithin⟩ := hfills.le
  rw [Stale, lengthByte_fresh] at hstale
  obtain ⟨-, hm₁, -, -, -, hm⟩ := hfills
  rename_i m₁
  rw [hrx] at hm₁ hm hwithin
  have htwo : h = ((ex.stream s).take h).length := by
    rw [List.length_take]
    omega
  have hwhole : ((ex.stream s).take (h + k)).length = m[0].toNat := by
    rw [List.length_take]
    omega
  have hstore : store ex.out._data 0 ((ex.stream s).take (h + k)) = some m := by
    rw [List.take_add, ← store_store hm₁, ← htwo, show 0 + h = 2 by omega]
    exact hm
  refine ⟨?_, by omega⟩
  rw [← window_store hstore, hwhole]
  rfl

/-- **A true result of a call is its own reply exactly when the call is orderly.** -/
theorem ownReply_iff (hfits : ex.Fits) : OwnReply port ex s ↔ Orderly port ex s := by
  constructor
  · intro hown h k m hcomes haccepts
    obtain ⟨hreply, htaken⟩ := hown _ _ (exchange_of_comes hfits hcomes haccepts)
    refine ⟨?_, _, htaken.symm⟩
    obtain ⟨w, hrx, -, hfills⟩ := hcomes.fills
    obtain ⟨hlength, hheader, hbody, hwithin⟩ := hfills.le
    have hlt := m[0].toNat_lt
    rw [hrx] at hwithin
    -- the reply is as long as its packet says, and as what was taken
    have hall : min m[0].toNat 255 = (frame ex.reply).length := by
      rw [← hreply, List.length_take, Vector.length_toList]
      rfl
    have hrest := congrArg List.length htaken
    rw [List.length_append, List.length_drop] at hrest
    rw [Stale, lengthByte_fresh]
    omega
  · intro horderly out s' hrun
    obtain ⟨h, k, m, hcomes, haccepts, rfl, hrest⟩ := comes_of_exchange hfits hrun
    obtain ⟨hstale, hfront⟩ := horderly h k m hcomes haccepts
    obtain ⟨hwindow, hlength⟩ := hcomes.window hstale
    obtain ⟨later, hlater⟩ := hfront
    have hbyte : m[0].toNat = (frame ex.reply).length := by
      obtain ⟨w, -, -, hfills⟩ := hcomes.fills
      have hlong := hfills.le.1
      have hhead := congrArg List.head? hwindow
      have hm : m.toList.head? = some m[0] := by simp [List.head?_eq_getElem?]
      have hframe : (frame ex.reply ++ later).head? =
          some (UInt8.ofNat (ex.reply.length + 2)) := rfl
      rw [← hlater, List.head?_take, List.head?_take, if_neg (by omega), if_neg (by omega), hm,
        hframe] at hhead
      rw [← Option.some.inj hhead, toNat_frameLength hfits.reply]
      rfl
    have hreply : (ex.stream s).take (h + k) = frame ex.reply := by
      rw [hlength, hbyte, ← hlater, List.take_left]
    refine ⟨hwindow.symm.trans hreply, ?_⟩
    rw [hrest, ← hreply, List.take_append_drop]

/-- **A call on a clock that stands still, with nothing left on the link, is orderly.** -/
theorem orderly_of_still (hclock : ∀ i, ex.clock i = 0) (hempty : s.inFlight = []) :
    Orderly port ex s := by
  intro h k m hcomes _
  refine ⟨?_, ?_⟩
  · obtain ⟨w, -, hsame, hfills⟩ := hcomes.fills
    obtain ⟨hheader, -, hlength, hbody, -, hm⟩ := hfills
    rename_i i j m₁
    have hstill : ∀ i, w.clock i = 0 := fun i => (congrFun hsame i).trans (hclock i)
    have hwhole : ∀ {len timeout} {w : World} {i k}, (∀ i, w.clock i = 0) →
        Brings port len timeout w i k → k = len := fun hstill hbrings =>
      hbrings.ends.elim (fun hlate => absurd (lookInTime_of_still hstill _) hlate.1)
        fun hends => hends.2.2.2
    have htwo := hwhole hstill hheader
    have hrest := hwhole (w := pastRead w port 2 _ i h) hstill hbody
    rw [(bodyLength_of_long hlength).1, ← lengthByte_body hm] at hrest
    rw [Stale, lengthByte_fresh, htwo, hrest]
    omega
  · unfold Exchange.stream
    rw [hempty]
    exact List.prefix_rfl

/-! ## Runs -/

/-- What holds of every call under a condition on calls that decides it. -/
theorem everyCall_iff {P Q : Exchange → Requester → Prop} :
    ∀ {exs : List Exchange} (s : Requester), (∀ ex ∈ exs, ∀ s, P ex s ↔ Q ex s) →
      (EveryCall port P exs s ↔ EveryCall port Q exs s)
  | [], _, _ => Iff.rfl
  | ex :: rest, s, h => by
    have hrest : ∀ ex ∈ rest, ∀ s, P ex s ↔ Q ex s := fun ex hmem =>
      h ex (List.mem_cons_of_mem _ hmem)
    unfold EveryCall
    rw [h ex List.mem_cons_self s]
    exact and_congr_right fun _ => forall_congr' fun result => forall_congr' fun s' =>
      imp_congr_right fun _ => everyCall_iff s' hrest

/-- The k-th result of a run all of whose results are the calls' own replies. -/
theorem isReply_of_allAnswered : ∀ (exs : List Exchange) (s : Requester), AllAnswered port exs s →
    ∀ (k : Nat) (ex : Exchange) (result : Bool × ProtocolPacket), exs[k]? = some ex →
      (exchangeAll port exs s)[k]? = some result → result.1 = true → IsReply result.2 ex.reply
  | [], _, _, k, ex, result, hex, _, _ => by cases hex
  | first :: rest, s, ⟨hown, hall⟩, k, ex, result, hex, hresult, hsuccess => by
    unfold exchangeAll at hresult
    rcases hfirst : exchange port first s with ⟨r, s'⟩
    rw [hfirst] at hresult
    cases r with
    | error e => cases hresult
    | ok result₁ =>
      cases k with
      | zero =>
        obtain rfl : first = ex := Option.some.inj hex
        obtain rfl : result₁ = result := Option.some.inj hresult
        obtain ⟨success, out⟩ := result₁
        obtain rfl : success = true := hsuccess
        exact (hown out s' hfirst).1
      | succ k =>
        exact isReply_of_allAnswered rest s' (hall result₁ s' hfirst) k ex result hex hresult
          hsuccess

/-- A request with the command 5, answered with `payload`. -/
def promptExchange (payload : List UInt8) : Exchange :=
  { request := (protocolPacketInit 0x05 zeroPacket).2
    out := zeroPacket
    timeout := 100
    payload := payload
    reads := [.bytes 1, .bytes 0, .bytes 255, .bytes 255]
    writes := [.bytes 1, .bytes 0, .bytes 2]
    clock := fun _ => 0
    period := 0
    wait := fun _ => .ok true }

/-- The same request, the reply to which does not come before the deadlines. -/
def lateExchange (payload : List UInt8) : Exchange :=
  { promptExchange payload with
    reads := [.bytes 0]
    writes := [.bytes 255]
    clock := lateAt [4] }

theorem fits_example (payload : List UInt8) (h : payload.length ≤ 252) :
    (promptExchange payload).Fits ∧ (lateExchange payload).Fits := by
  have hreply : (0x05 :: payload).length ≤ 253 := Nat.succ_le_succ h
  have hone : 1 ≤ (protocolPacketInit 0x05 zeroPacket).2.stream.size := by decide
  have hmany : (protocolPacketInit 0x05 zeroPacket).2.stream.size ≤ 253 := by decide
  exact ⟨⟨hone, hmany, hreply⟩, ⟨hone, hmany, hreply⟩⟩

/-- **Every true result of a run is the call's own reply exactly when all calls are orderly**, and
so the `k`-th true result is the reply to the `k`-th request. -/
theorem exchangeAll_answered (port : Nat) (exs : List Exchange) (hfits : ∀ ex ∈ exs, ex.Fits)
    (s : Requester) :
    (AllAnswered port exs s ↔ AllOrderly port exs s) ∧
    (AllOrderly port exs s → ∀ (k : Nat) (ex : Exchange) (result : Bool × ProtocolPacket),
      exs[k]? = some ex → (exchangeAll port exs s)[k]? = some result → result.1 = true →
        IsReply result.2 ex.reply) := by
  have hiff : AllAnswered port exs s ↔ AllOrderly port exs s :=
    everyCall_iff s fun ex hmem s => ownReply_iff (hfits ex hmem)
  exact ⟨hiff, fun horderly => isReply_of_allAnswered exs s (hiff.mpr horderly)⟩

/-- Two requests that are answered in time. -/
theorem exchangeAll_answered_twice :
    AllAnswered 0 [promptExchange [1], promptExchange [2]] ⟨[]⟩ ∧
    ∃ out,
      (exchangeAll 0 [promptExchange [1], promptExchange [2]] ⟨[]⟩)[1]? = some (true, out) ∧
      IsReply out [0x05, 2] := by
  have htrue : ((exchangeAll 0 [promptExchange [1], promptExchange [2]] ⟨[]⟩)[1]?.any
      fun result => result.1) = true := by decide +kernel
  have hempty : (exchange 0 (promptExchange [1]) ⟨[]⟩).2 = ⟨[]⟩ := by decide +kernel
  have hall : AllOrderly 0 [promptExchange [1], promptExchange [2]] ⟨[]⟩ := by
    refine ⟨orderly_of_still (fun _ => rfl) rfl, fun _ s' h => ?_⟩
    obtain rfl : s' = ⟨[]⟩ := (congrArg Prod.snd h).symm.trans hempty
    exact ⟨orderly_of_still (fun _ => rfl) rfl, fun _ _ _ => trivial⟩
  have hfits : ∀ ex ∈ [promptExchange [1], promptExchange [2]], ex.Fits := by
    intro ex hmem
    rcases List.mem_cons.mp hmem with rfl | hmem
    · exact (fits_example [1] (by decide)).1
    · obtain rfl := List.mem_singleton.mp hmem
      exact (fits_example [2] (by decide)).1
  obtain ⟨⟨success, out⟩, hresult, hsuccess⟩ := (Option.any_eq_true _ _).mp htrue
  have hsuccess : success = true := hsuccess
  rw [hsuccess] at hresult
  obtain ⟨hiff, hreplies⟩ := exchangeAll_answered 0 _ hfits ⟨[]⟩
  exact ⟨hiff.mpr hall, out, hresult, hreplies hall 1 _ _ rfl hresult rfl⟩

/-- Two requests with one command, of which the first times out: the second gets the reply to the
first. -/
theorem exchangeAll_late_reply :
    (∀ ex ∈ [lateExchange [1], promptExchange [2]], ex.Fits) ∧
    ∃ out, (exchangeAll 0 [lateExchange [1], promptExchange [2]] ⟨[]⟩)[1]? = some (true, out) ∧
      IsReply out (lateExchange [1]).reply ∧ ¬ IsReply out (promptExchange [2]).reply := by
  have hrun : ((exchangeAll 0 [lateExchange [1], promptExchange [2]] ⟨[]⟩)[1]?.any
      fun result => result.1 && (decide (IsReply result.2 (lateExchange [1]).reply) &&
        !decide (IsReply result.2 (promptExchange [2]).reply))) = true := by decide +kernel
  refine ⟨fun ex hmem => ?_, ?_⟩
  · rcases List.mem_cons.mp hmem with rfl | hmem
    · exact (fits_example [1] (by decide)).2
    · obtain rfl := List.mem_singleton.mp hmem
      exact (fits_example [2] (by decide)).1
  · obtain ⟨⟨success, out⟩, hresult, hreply⟩ := (Option.any_eq_true _ _).mp hrun
    rw [Bool.and_eq_true, Bool.and_eq_true, decide_eq_true_eq, Bool.not_eq_true',
      decide_eq_false_iff_not] at hreply
    obtain ⟨hsuccess, hfirst, hsecond⟩ := hreply
    have hsuccess : success = true := hsuccess
    rw [hsuccess] at hresult
    exact ⟨out, hresult, hfirst, hsecond⟩

end Nuhal.Link
