import Nuhal.Link.Delivery
import Nuhal.Link.Requests

/-!
# Requests that are refused (`nuhal_all/src/protocol.c:325-331, 480-489`)

`protocol_request` is `protocol_request_timeout` with 100 ms, an error where these pass, and its
result ignored. `protocol_error_response` sends a packet with the one byte `PROTOCOL_ERROR`.

* `protocolRequest_returned`: a request that returns has read a packet with its own command.
* `errorResponse_sends`: an error response that returns has sent `frame [PROTOCOL_ERROR]`.
* **`errorResponse_refuses`**: a request that gets it ends in an error, and never returns.
-/

namespace Nuhal.Link

open Nuhal.Lib Nuhal.All

variable {port : Nat} {request request' out out' : ProtocolPacket} {timeout : UInt32}
  {timeoutError : Bool} {data later : List UInt8} {v v' w w' : World}

/-! ## Requests -/

/-- A request that raises its timeouts does not return without an answer. -/
theorem success_of_returned {success : Bool}
    (h : protocolRequestTimeout port request out timeout true w =
      (.ok (success, request', out'), w')) : success = true := by
  obtain ⟨packet, w₁, -, h⟩ := Run.bind_eq_ok h
  obtain ⟨⟨answered, out₁⟩, w₂, -, h⟩ := Run.bind_eq_ok h
  cases answered with
  | true =>
    obtain ⟨u, w₃, -, h⟩ := Run.bind_eq_ok h
    cases h
    rfl
  | false => cases h

/-- **A request that returns was answered**: it was sent, a packet was read in time, and that has
the request's command. -/
theorem protocolRequest_returned
    (h : protocolRequest port request out w = (.ok (request', out'), w')) :
    ∃ w₁, protocolWriteBlock port request w = (.ok request', w₁) ∧
      protocolReadBlockError port out timeoutMsBase true w₁ = (.ok (true, out'), w') ∧
      protocolPacketCommand request' = protocolPacketCommand out' ∧
      protocolError ≠ protocolPacketCommand out' := by
  obtain ⟨⟨success, request₁, out₁⟩, w₁, hcall, h⟩ := Run.bind_eq_ok h
  cases h
  obtain rfl := success_of_returned hcall
  exact request_returned hcall

/-- A request that ends before it has its answer. -/
theorem protocolRequest_of_error {e : Halt}
    (h : protocolRequestTimeout port request out timeoutMsBase true w = (.error e, w')) :
    protocolRequest port request out w = (.error e, w') :=
  Run.bind_of_error h _

/-- The two packets are compared in the world that the read left. -/
theorem world_of_compared {w₁ : World} {success : Bool}
    {r : Except Halt (Bool × ProtocolPacket × ProtocolPacket)}
    (h : (do
      if success then
        protocolValidateResponse request out'
        return (true, request, out')
      else
        if timeoutError then error "timeout"
        return (false, request, out') :
        OnPlatform (Bool × ProtocolPacket × ProtocolPacket)) w₁ = (r, w')) : w₁ = w' := by
  cases success with
  | true =>
    rcases hvalidate : protocolValidateResponse request out' w₁ with ⟨r₁, w₂⟩
    obtain rfl : w₁ = w₂ :=
      congrArg Prod.snd ((protocolValidateResponse_eq request out' w₁).symm.trans hvalidate)
    simp only [if_true] at h
    cases r₁ with
    | ok u =>
      rw [Run.bind_of_ok hvalidate] at h
      exact congrArg Prod.snd h
    | error e =>
      rw [Run.bind_of_error hvalidate] at h
      exact congrArg Prod.snd h
  | false =>
    cases timeoutError with
    | true => exact congrArg Prod.snd h
    | false => exact congrArg Prod.snd h

/-- The packet that was read has the command that was sent. -/
theorem command_of_store {m m' : Vector UInt8 packetMaxLength} {c : UInt8}
    (h : store m 0 (frame (c :: data)) = some m') :
    protocolPacketCommand (opened (fresh m')) = c := by
  obtain ⟨-, he⟩ := store_eq_some.mp h
  rw [List.take_zero, List.nil_append] at he
  have hcommand : m'.toList[2]? = some m'[2] := by simp
  rw [he] at hcommand
  exact (Option.some.inj hcommand).symm

/-- **A request that gets an error packet is refused**, unless a deadline passes, a driver fails or
the schedules hand over too little. -/
theorem request_refused {r : Except Halt (Bool × ProtocolPacket × ProtocolPacket)}
    (hcarries : Carries request data) (hrx : w.rx port = frame [protocolError] ++ later)
    (hrun : protocolRequestTimeout port request out timeout timeoutError w = (r, w'))
    (hu : Undisturbed w') :
    r = .error (.error "Received an ERROR from downstream.") ∨
      r = .error .pending ∧
        (productive w.writes < (frame data).length ∨
          productive w.reads < (frame [protocolError]).length) := by
  rcases hwrite : protocolWriteBlock port request w with ⟨r₁, w₁⟩
  obtain ⟨sent, hsends⟩ := (protocolWriteBlock_writes port hcarries w).elim hwrite
  unfold protocolRequestTimeout at hrun
  cases r₁ with
  | error e =>
    rw [Run.bind_of_error hwrite] at hrun
    cases hrun
    match e, hsends.ends with
    | .pending, ⟨hfew, hwrites⟩ =>
      have hmoves := hsends.moves
      have hnone : productive [] = 0 := rfl
      rw [hwrites, hnone] at hmoves
      exact .inr ⟨rfl, .inl (by omega)⟩
    | .error _, hends => exact (hends.elim hu.failed hu.expired).elim
  | ok packet =>
    rw [Run.bind_of_ok hwrite] at hrun
    rcases hread : protocolReadBlockError port out timeout timeoutError w₁ with ⟨r₂, w₂⟩
    have hframe : IsFrame (frame [protocolError]) := isFrame_frame (by decide) (by decide)
    have hrx₁ : w₁.rx port = frame [protocolError] ++ later := by rw [hsends.given.rx, hrx]
    have hschedule : productive w₁.reads = productive w.reads := by rw [hsends.given.reads]
    cases r₂ with
    | error e =>
      rw [Run.bind_of_error hread] at hrun
      cases hrun
      cases readBlock_frame hframe hrx₁ hread hu.expired with
      | waiting hreads hfew => exact .inr ⟨rfl, .inr (by omega)⟩
      | failed hfailed => exact absurd hfailed hu.failed
      | mismatch hm hsound => exact absurd (sound_frame (by decide) hm) hsound
    | ok result =>
      rw [Run.bind_of_ok hread] at hrun
      -- what is left uses no port
      obtain rfl : w₂ = w' := world_of_compared hrun
      cases readBlock_frame hframe hrx₁ hread hu.expired with
      | packet hm hsound htaken hmoves =>
        have hrefused : protocolError = protocolPacketCommand (opened (fresh _)) :=
          (command_of_store hm).symm
        refine .inl ?_
        rename_i m
        have hvalidate := protocolValidateResponse_eq packet (opened (fresh m)) w₂
        rw [if_pos hrefused] at hvalidate
        dsimp only at hrun
        rw [if_pos rfl, Run.bind_of_error hvalidate] at hrun
        exact (congrArg Prod.fst hrun).symm

/-! ## Error responses -/

theorem commandIndex_lt : 2 < packetMaxLength := by decide

/-- The packet of an error response. -/
def errorPacket : ProtocolPacket :=
  { stream := ⟨some 2, 253, 1⟩
    _data := zeroPacket._data.set 2 protocolError commandIndex_lt }

theorem carries_errorPacket : Carries errorPacket [protocolError] := ⟨rfl, by decide, rfl⟩

/-- An error response is that packet sent. -/
theorem protocolErrorResponse_eq (port : Nat) : protocolErrorResponse port =
    protocolWriteBlock port errorPacket >>= fun _ => pure () := by
  have hinit : onPacket zeroPacket (protocolPacketInit protocolError) =
      (pure errorPacket : OnPlatform ProtocolPacket) := rfl
  unfold protocolErrorResponse
  rw [hinit]
  rfl

/-- **An error response that returns has sent the byte `PROTOCOL_ERROR`.** -/
theorem errorResponse_sends (h : protocolErrorResponse port w = (.ok (), w')) :
    Sent port (frame [protocolError]) w w' := by
  rw [protocolErrorResponse_eq] at h
  obtain ⟨packet, w₁, hwrite, h⟩ := Run.bind_eq_ok h
  cases h
  obtain ⟨sent, hsends⟩ := (protocolWriteBlock_writes port carries_errorPacket w).elim hwrite
  obtain ⟨-, hall⟩ := hsends.ends
  rw [← hall]
  exact hsends.given

/-- **A request that gets an error response is refused.** What a responder sent on its world `v`
comes to the requester's world `w`, with anything after it: undisturbed, the request does not
return. -/
theorem errorResponse_refuses {r : Except Halt (ProtocolPacket × ProtocolPacket)}
    (hresponse : protocolErrorResponse port v = (.ok (), v')) (hidle : v.tx port = [])
    (hcarries : Carries request data) (hlink : w.rx port = v'.tx port ++ later)
    (hrun : protocolRequest port request out w = (r, w')) (hu : Undisturbed w') :
    r = .error (.error "Received an ERROR from downstream.") ∨
      r = .error .pending ∧
        (productive w.writes < (frame data).length ∨
          productive w.reads < (frame [protocolError]).length) := by
  have hsent : v'.tx port = frame [protocolError] := by
    rw [(errorResponse_sends hresponse).tx, Function.update_self, hidle, List.nil_append]
  rw [hsent] at hlink
  rcases hcall : protocolRequestTimeout port request out timeoutMsBase true w with ⟨r₁, w₁⟩
  cases r₁ with
  | ok result =>
    have hreturn : protocolRequest port request out w = (.ok (result.2.1, result.2.2), w₁) :=
      Run.bind_of_ok hcall _
    rw [hreturn] at hrun
    cases hrun
    rcases request_refused hcarries hlink hcall hu with h | ⟨h, -⟩
    · cases h
    · cases h
  | error e =>
    rw [protocolRequest_of_error hcall] at hrun
    cases hrun
    rcases request_refused hcarries hlink hcall hu with h | ⟨h, hfew⟩
    · cases h
      exact .inl rfl
    · cases h
      exact .inr ⟨rfl, hfew⟩

end Nuhal.Link
