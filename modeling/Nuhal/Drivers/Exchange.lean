import Nuhal.Drivers.Host
import Nuhal.Drivers.Programs
import Nuhal.Link.Unhurried

/-!
# Requests and answers between two platforms (`nuhal_all/src/protocol.c:65-331`)

One program asks (`askAll`), one request after the other, and the other one serves (`serveAll`): it
reads a packet and answers it with the message that `handle` makes of it. Each runs on a driver of
its own, with a wire in each direction between them. What is known of a wire is that it keeps the
order: what comes out of it is the beginning of what went in (`InOrder`).

* `askAll_sends`, `askAll_reads` and `serveAll_serves`: the two programs on worlds.
* **`requests_answered`**: whatever the two platforms do, and however their steps are interleaved,
  if both programs return, every request was read as it was sent, in order, and the answer to it was
  read as the answer to it.
-/

namespace Nuhal.Drivers

open Nuhal.Lib Nuhal.All Nuhal.Link Nuhal.Linux Nuhal.Tiva

/-- A request to make: its message, the packet it is built in, and the packet for the answer. -/
structure Ask where
  msg : Message
  prior : ProtocolPacket
  out : ProtocolPacket

/-- Make the requests one after the other: the packets of the answers. -/
def askAll : List Ask → Client (List ProtocolPacket)
  | [] => pure []
  | ask :: rest => do
    let (_, _, out) ← Client.protocolRequestTimeout (build ask.msg ask.prior).2 ask.out 0 true
    let outs ← askAll rest
    return out :: outs

/-- Read a request into each of the packets and answer it: the packets of the requests. -/
def serveAll (handle : ProtocolPacket → Message) : List ProtocolPacket →
    Client (List ProtocolPacket)
  | [] => pure []
  | out :: rest => do
    let request ← Client.protocolReadBlock out 0
    let _ ← Client.protocolWriteBlock (build (handle request) zeroPacket).2
    let requests ← serveAll handle rest
    return request :: requests

variable {port : Nat} {handle : ProtocolPacket → Message} {w w' : World}

/-! ## On worlds -/

theorem onPlatform_done {α : Type} (a : α) (w : World) :
    (pure a : Client α).onPlatform port w = (.ok a, w) := rfl

theorem onPlatform_askAll_cons (ask : Ask) (rest : List Ask) :
    (askAll (ask :: rest)).onPlatform port = do
      let (_, _, out) ← protocolRequestTimeout port (build ask.msg ask.prior).2 ask.out 0 true
      let outs ← (askAll rest).onPlatform port
      return out :: outs := by
  rw [askAll]
  simp only [onPlatform_bind, onPlatform_protocolRequestTimeout]
  rfl

theorem onPlatform_serveAll_cons (out : ProtocolPacket) (rest : List ProtocolPacket) :
    (serveAll handle (out :: rest)).onPlatform port = do
      let request ← protocolReadBlock port out 0
      let _ ← protocolWriteBlock port (build (handle request) zeroPacket).2
      let requests ← (serveAll handle rest).onPlatform port
      return request :: requests := by
  rw [serveAll]
  simp only [onPlatform_bind, onPlatform_protocolReadBlock, onPlatform_protocolWriteBlock]
  rfl

/-- The first request of many, and the rest. -/
theorem askAll_cons {ask : Ask} {rest : List Ask} {answers : List ProtocolPacket}
    (hfits : ask.msg.payload.length ≤ 253)
    (h : (askAll (ask :: rest)).onPlatform port w = (.ok answers, w')) :
    ∃ w₁ w₂ out outs, Sent port (frame ask.msg.payload) w w₁ ∧
      protocolReadBlockError port ask.out 0 true w₁ = (.ok (true, out), w₂) ∧
      (askAll rest).onPlatform port w₂ = (.ok outs, w') ∧ answers = out :: outs := by
  rw [onPlatform_askAll_cons] at h
  obtain ⟨⟨_, _, out⟩, w₂, hrequest, h⟩ := Run.bind_eq_ok h
  obtain ⟨outs, w₃, hrest, h⟩ := Run.bind_eq_ok h
  cases h
  obtain ⟨packet, hbuild, hcarries⟩ := build_carries hfits ask.prior
  rw [show (build ask.msg ask.prior).2 = packet by rw [hbuild]] at hrequest
  obtain ⟨w₁, hsent, hread⟩ := request_unhurried hcarries hrequest
  exact ⟨w₁, w₂, out, outs, hsent, hread, hrest, rfl⟩

/-- The first request to serve, and the rest. -/
theorem serveAll_cons (hhandle : ∀ packet, (handle packet).payload.length ≤ 253)
    {out : ProtocolPacket} {rest requests : List ProtocolPacket}
    (h : (serveAll handle (out :: rest)).onPlatform port w = (.ok requests, w')) :
    ∃ w₁ w₂ result requests', protocolReadBlockError port out 0 true w = (.ok result, w₁) ∧
      Sent port (frame (handle result.2).payload) w₁ w₂ ∧
      (serveAll handle rest).onPlatform port w₂ = (.ok requests', w') ∧
      requests = result.2 :: requests' := by
  rw [onPlatform_serveAll_cons] at h
  obtain ⟨request, w₁, hread, h⟩ := Run.bind_eq_ok h
  obtain ⟨packet, w₂, hwrite, h⟩ := Run.bind_eq_ok h
  obtain ⟨requests', w₃, hrest, h⟩ := Run.bind_eq_ok h
  cases h
  obtain ⟨result, w₀, hread', hsame⟩ := Run.bind_eq_ok hread
  cases hsame
  obtain ⟨built, hbuild, hcarries⟩ := build_carries (hhandle result.2) zeroPacket
  rw [show (build (handle result.2) zeroPacket).2 = built by rw [hbuild]] at hwrite
  exact ⟨w₁, w₂, result, requests', hread', (writeBlock_returned hcarries hwrite).2, hrest, rfl⟩

/-- **The requests are sent in order**, whatever is answered. -/
theorem askAll_sends {asks : List Ask} {answers : List ProtocolPacket}
    (hfits : ∀ ask ∈ asks, ask.msg.payload.length ≤ 253)
    (h : (askAll asks).onPlatform port w = (.ok answers, w')) :
    w'.tx port = w.tx port ++ frames (asks.map Ask.msg) := by
  induction asks generalizing w answers with
  | nil =>
    cases (onPlatform_done _ w).symm.trans h
    exact (List.append_nil _).symm
  | cons ask rest ih =>
    obtain ⟨w₁, w₂, out, outs, hsent, hread, hrest, rfl⟩ :=
      askAll_cons (hfits ask List.mem_cons_self) h
    have htx := ih (fun ask hask => hfits ask (List.mem_cons_of_mem _ hask)) hrest
    rw [htx, readBlock_tx hread, hsent.tx, Function.update_self, List.append_assoc, List.map_cons,
      frames_cons]

/-- **The answers are read in order.** -/
theorem askAll_reads {asks : List Ask} {replies : List Message} {answers : List ProtocolPacket}
    {later : List UInt8} (hlen : replies.length = asks.length)
    (hfits : ∀ ask ∈ asks, ask.msg.payload.length ≤ 253)
    (hreplies : ∀ msg ∈ replies, msg.payload.length ≤ 253)
    (hrx : w.rx port = frames replies ++ later)
    (h : (askAll asks).onPlatform port w = (.ok answers, w')) :
    List.Forall₂ Yields replies answers ∧ w'.rx port = later := by
  induction asks generalizing w answers replies with
  | nil =>
    obtain rfl := List.length_eq_zero_iff.mp hlen
    cases (onPlatform_done _ w).symm.trans h
    exact ⟨.nil, hrx⟩
  | cons ask rest ih =>
    obtain ⟨msg, replies, rfl⟩ := List.exists_cons_of_length_eq_add_one hlen
    obtain ⟨w₁, w₂, out, outs, hsent, hread, hrest, rfl⟩ :=
      askAll_cons (hfits ask List.mem_cons_self) h
    rw [← hsent.rx, frames_cons, List.append_assoc] at hrx
    obtain ⟨-, hyields, htaken⟩ := readBlock_yields (hreplies msg List.mem_cons_self) hrx hread
    have hrx₂ : w₂.rx port = frames replies ++ later :=
      List.append_cancel_left (htaken.rx.symm.trans hrx)
    obtain ⟨hall, hlater⟩ := ih (Nat.succ.inj hlen)
      (fun ask hask => hfits ask (List.mem_cons_of_mem _ hask))
      (fun msg hmsg => hreplies msg (List.mem_cons_of_mem _ hmsg)) hrx₂ hrest
    exact ⟨.cons hyields hall, hlater⟩

/-- **The requests are read in order, and each is answered.** -/
theorem serveAll_serves (hhandle : ∀ packet, (handle packet).payload.length ≤ 253)
    {outs requests : List ProtocolPacket} {msgs : List Message} {later : List UInt8}
    (hlen : msgs.length = outs.length) (hfits : ∀ msg ∈ msgs, msg.payload.length ≤ 253)
    (hrx : w.rx port = frames msgs ++ later)
    (h : (serveAll handle outs).onPlatform port w = (.ok requests, w')) :
    List.Forall₂ Yields msgs requests ∧ w'.rx port = later ∧
      w'.tx port = w.tx port ++ frames (requests.map handle) := by
  induction outs generalizing w msgs requests with
  | nil =>
    obtain rfl := List.length_eq_zero_iff.mp hlen
    cases (onPlatform_done _ w).symm.trans h
    exact ⟨.nil, hrx, (List.append_nil _).symm⟩
  | cons out rest ih =>
    obtain ⟨msg, msgs, rfl⟩ := List.exists_cons_of_length_eq_add_one hlen
    obtain ⟨w₁, w₂, result, requests, hread, hsent, hrest, rfl⟩ := serveAll_cons hhandle h
    rw [frames_cons, List.append_assoc] at hrx
    obtain ⟨-, hyields, htaken⟩ := readBlock_yields (hfits msg List.mem_cons_self) hrx hread
    have hrx₂ : w₂.rx port = frames msgs ++ later := by
      rw [hsent.rx]
      exact List.append_cancel_left (htaken.rx.symm.trans hrx)
    obtain ⟨hall, hlater, htx⟩ := ih (Nat.succ.inj hlen)
      (fun msg hmsg => hfits msg (List.mem_cons_of_mem _ hmsg)) hrx₂ hrest
    refine ⟨.cons hyields hall, hlater, ?_⟩
    rw [htx, hsent.tx, Function.update_self, htaken.tx, List.append_assoc, List.map_cons,
      frames_cons]

/-! ## On drivers -/

/-- A wire: while what was `put` into it grew from `put` to `put'`, what was `got` out of it grew
from `got` to `got'`, and that is the beginning of what went in. -/
def InOrder (put put' got got' : List UInt8) : Prop :=
  ∃ sent taken, put' = put ++ sent ∧ got' = got ++ taken ∧ taken <+: sent

variable {σ τ : Type} {d : Driver σ} {d' : Driver τ} {period period' : UInt32}
  {got put : σ → List UInt8} {got' put' : τ → List UInt8}

/-- **Requests are answered by their own answers.** -/
theorem requests_answered (asks : List Ask) (outs : List ProtocolPacket)
    (handle : ProtocolPacket → Message) (hlen : outs.length = asks.length)
    (hfits : ∀ ask ∈ asks, ask.msg.payload.length ≤ 253)
    (hhandle : ∀ packet, (handle packet).payload.length ≤ 253) (s s' : σ) (t t' : τ)
    (hd : Accountable d period got put s) (hd' : Accountable d' period' got' put' t)
    (passes passes' : Nat) (answers requests : List ProtocolPacket)
    (hask : (askAll asks).onDriver d passes s = (.ok answers, s'))
    (hserve : (serveAll handle outs).onDriver d' passes' t = (.ok requests, t'))
    (hthere : InOrder (put s) (put s') (got' t) (got' t'))
    (hback : InOrder (put' t) (put' t') (got s) (got s')) :
    List.Forall₂ Yields (asks.map Ask.msg) requests ∧
      List.Forall₂ Yields (requests.map handle) answers := by
  obtain ⟨sent, taken, hput, hgot, rest, rfl⟩ := hthere
  obtain ⟨sent', taken', hput', hgot', rest', rfl⟩ := hback
  have hworld := client_asOnWorld 0 hd hask fun h => by cases h
  have hworld' := client_asOnWorld 0 hd' hserve fun h => by cases h
  -- what was asked does not depend on what was answered
  obtain ⟨v, v', -, -, hrun, -, -, htx, hputs, -, -, -⟩ := hworld []
  have hasked := askAll_sends hfits hrun
  have hsent : taken ++ rest = frames (asks.map Ask.msg) := by
    rw [htx, List.nil_append] at hasked
    rw [hputs, hasked] at hput
    exact (List.append_cancel_left hput).symm
  -- so the other side was asked that
  obtain ⟨u, u', read, lost, hrun', -, -, htx', hputs', hgots', -, hok'⟩ := hworld' rest
  obtain ⟨rfl, hrx', -⟩ := hok' _ rfl
  have htaken : read = taken := by
    rw [List.append_nil] at hgots'
    exact List.append_cancel_left (hgots'.symm.trans hgot)
  rw [htaken, hsent, ← List.append_nil (frames _)] at hrx'
  obtain ⟨hrequests, -, hanswered⟩ := serveAll_serves hhandle (by rw [List.length_map, hlen])
    (by simpa using hfits) hrx' hrun'
  have hsent' : taken' ++ rest' = frames (requests.map handle) := by
    rw [htx', List.nil_append] at hanswered
    rw [hputs', hanswered] at hput'
    exact (List.append_cancel_left hput').symm
  -- and these are the answers that came back
  obtain ⟨u₁, u₁', read', lost', hrun₁, -, -, -, -, hgots, -, hok⟩ := hworld rest'
  obtain ⟨rfl, hrx, -⟩ := hok _ rfl
  have htaken' : read' = taken' := by
    rw [List.append_nil] at hgots
    exact List.append_cancel_left (hgots.symm.trans hgot')
  rw [htaken', hsent', ← List.append_nil (frames _)] at hrx
  have hcount : (requests.map handle).length = asks.length := by
    rw [List.length_map, ← hrequests.length_eq, List.length_map]
  exact ⟨hrequests, (askAll_reads hcount hfits (by simpa using fun packet _ => hhandle packet)
    hrx hrun₁).1⟩

/-- The answer to a request repeats its command, with two bytes after it. -/
def repeated (packet : ProtocolPacket) : Message := ⟨protocolPacketCommand packet, [.u16 0x1234]⟩

theorem exists_of_isOk {ε α : Type} {r : Except ε α} (h : r.isOk = true) : ∃ a, r = .ok a := by
  cases r with
  | ok a => exact ⟨a, rfl⟩
  | error e => cases h

/-- Linux asks a Tiva. -/
theorem requests_answered_tiva :
    let request : Message := ⟨0x05, [.u8 7]⟩
    let host := (askAll [⟨request, zeroPacket, zeroPacket⟩]).onDriver (hostDriver buffered 8) 8
      ⟨frame [0x05, 0x12, 0x34], [], []⟩
    let tiva := (serveAll repeated [zeroPacket]).onDriver
      (tivaDriver receiving (some ⟨0x4000⟩) 8) 8 ⟨frame [0x05, 7], []⟩
    ∃ answers requests, host.1 = .ok answers ∧ tiva.1 = .ok requests ∧
      List.Forall₂ Yields [request] requests ∧
      List.Forall₂ Yields (requests.map repeated) answers := by
  intro request host tiva
  obtain ⟨answers, hanswers⟩ : ∃ answers, host.1 = .ok answers :=
    exists_of_isOk (by decide +kernel)
  obtain ⟨requests, hrequests⟩ : ∃ requests, tiva.1 = .ok requests :=
    exists_of_isOk (by decide +kernel)
  have hput : host.2.put = [] ++ frame [0x05, 7] := by decide +kernel
  have hgot : host.2.got = [] ++ frame [0x05, 0x12, 0x34] := by decide +kernel
  have htaken : takenOff 0x4000 tiva.2 = [] ++ frame [0x05, 7] := by decide +kernel
  have hsent : putInto 0x4000 tiva.2 = [] ++ frame [0x05, 0x12, 0x34] := by decide +kernel
  obtain ⟨hserved, hanswered⟩ := requests_answered [⟨request, zeroPacket, zeroPacket⟩] [zeroPacket]
    repeated rfl (by decide) (fun _ => (by decide : 3 ≤ 253)) _ host.2 _ tiva.2
    (hostDriver_sound buffered_transfers 8 _) (tivaDriver_sound receiving_charOrNone 0x4000 8 _)
    8 8 answers requests (by rw [← hanswers]) (by rw [← hrequests])
    ⟨_, _, hput, htaken, List.prefix_refl _⟩ ⟨_, _, hsent, hgot, List.prefix_refl _⟩
  exact ⟨answers, requests, hanswers, hrequests, hserved, hanswered⟩

end Nuhal.Drivers
