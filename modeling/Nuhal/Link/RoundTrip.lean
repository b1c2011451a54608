import Nuhal.Link.Delivery
import Nuhal.Link.Schedule
import Nuhal.Serial.Values

/-!
# A list of packets over a link

A `Message` is what a program means to send: a command and the fields that follow it. `build` puts
it into a packet, `sendAll` sends packets one after the other with `protocol_write_block`, `readAll`
reads them with `protocol_read_block_error`. Between the two is a link: what the sender's
transmitter gained is what the reader's port has to deliver.

* `build_carries`: a message that fits is built without an error.
* `sendAll_sends`: the transmitter gets the packets' frames, in order; a packet can be sent again.
* `readAll_reads`: frames are read one by one, each as a whole and nothing of the next.
* **`link_round_trip`**: what is read is what was sent, for every pattern of short writes and every
  chunking, as long as no deadline passes and no driver fails.
-/

namespace Nuhal.Link

open Nuhal.Lib Nuhal.All Nuhal.Serial

/-- A command and the fields after it. -/
structure Message where
  command : UInt8
  fields : List Field

/-- The data bytes of a message. -/
def Message.payload (msg : Message) : List UInt8 :=
  msg.command :: msg.fields.flatMap Field.bytes

/-- `protocol_packet_init` and the injects after it. -/
def build (msg : Message) : OnStream packetMaxLength Unit := do
  protocolPacketInit msg.command
  injectFields msg.fields

/-- Send the packets `objects i` for every `i` of a list, each as its last send left it. -/
def sendAll (port : Nat) : List Nat → (Nat → ProtocolPacket) → OnPlatform (Nat → ProtocolPacket)
  | [], objects => pure objects
  | i :: rest, objects => do
    let packet ← protocolWriteBlock port (objects i)
    sendAll port rest (Function.update objects i packet)

/-- The arguments of a call of `protocol_read_block_error`. -/
structure ReadCall where
  out : ProtocolPacket
  timeout : UInt32
  timeoutError : Bool

/-- Read a packet with each of the calls. -/
def readAll (port : Nat) : List ReadCall → OnPlatform (List (Bool × ProtocolPacket))
  | [] => pure []
  | call :: rest => do
    let result ← protocolReadBlockError port call.out call.timeout call.timeoutError
    let results ← readAll port rest
    return result :: results

/-- The packet is `msg` as its reader wants it. -/
structure Yields (msg : Message) (packet : ProtocolPacket) : Prop where
  length : (lengthByte packet).toNat = msg.payload.length + 2
  checksum : checksumByte packet = msg.payload.sum
  command : protocolPacketCommand packet = msg.command
  /-- The same types in the same order give the same values, and then there is nothing left. -/
  fields : ∃ packet', extractFields (msg.fields.map Field.type) packet = (.ok msg.fields, packet') ∧
    bytestreamExtractU8 packet' = (.error (.error "overflow"), packet')

/-! ## Building -/

theorem injects_message (msg : Message) : Injects (n := packetMaxLength) (do
    bytestreamInjectU8 msg.command
    injectFields msg.fields) msg.payload :=
  (injects_u8 msg.command).bind (injects_fields msg.fields)

/-- **A message that fits is built**, whatever the packet held before. -/
theorem build_carries {msg : Message} (hfits : msg.payload.length ≤ 253) (prior : ProtocolPacket) :
    ∃ packet, build msg prior = (.ok (), packet) ∧ Carries packet msg.payload := by
  have hplaced : Placed 2 (fresh prior._data) := ⟨rfl, Nat.zero_le _, Nat.le_refl 255⟩
  obtain ⟨packet, hinject, happended⟩ := injects_message msg 2 (fresh prior._data) hplaced
    (by show 0 + _ ≤ 253; omega)
  refine ⟨packet, ?_, ?_, hfits, ?_⟩
  · unfold build protocolPacketInit
    rw [Run.bind_assoc]
    exact hinject
  · rw [happended.stream]
    exact Nat.zero_add _
  · exact window_store happended.mem

/-! ## Sending -/

/-- The bytes of the frames of a list of messages. -/
def frames (msgs : List Message) : List UInt8 := msgs.flatMap fun msg => frame msg.payload

theorem frames_cons (msg : Message) (msgs : List Message) :
    frames (msg :: msgs) = frame msg.payload ++ frames msgs := rfl

variable {port : Nat} {msgs : Nat → Message}

/-- **Sending hands over the frames of the packets, in order**, unless the transmitter stops
accepting. -/
theorem sendAll_sends : ∀ (sends : List Nat) {objects : Nat → ProtocolPacket} {w w' : World}
    {r : Except Halt (Nat → ProtocolPacket)},
    (∀ i ∈ sends, Carries (objects i) (msgs i).payload) →
    sendAll port sends objects w = (r, w') →
    Grown (fun _ => True) w w' ∧ (Undisturbed w' →
      r = .error .pending ∧ productive w.writes < (frames (sends.map msgs)).length ∨
      (∃ objects', r = .ok objects') ∧ Sent port (frames (sends.map msgs)) w w')
  | [], objects, w, _, _, _, hsend => by
    cases hsend
    exact ⟨Grown.refl w, fun _ => .inr ⟨⟨objects, rfl⟩, Sent.refl port w⟩⟩
  | i :: rest, objects, w, w', r, hcarries, hsend => by
    rcases hfirst : protocolWriteBlock port (objects i) w with ⟨r₁, w₁⟩
    obtain ⟨sent, h⟩ :=
      (protocolWriteBlock_writes port (hcarries i List.mem_cons_self) w).elim hfirst
    have hmoves := h.moves
    rw [List.map_cons, frames_cons, List.length_append]
    unfold sendAll at hsend
    cases r₁ with
    | error e =>
      rw [Run.bind_of_error hfirst] at hsend
      cases hsend
      refine ⟨h.given.log, fun hu => .inl ?_⟩
      match e, h.ends with
      | .pending, hends =>
        rw [hends.2] at hmoves
        have hnone : productive [] = 0 := rfl
        have hlt := hends.1
        exact ⟨rfl, by omega⟩
      | .error _, hends =>
        rcases hends with hfailed | hexpired
        · exact absurd hfailed hu.failed
        · exact absurd hexpired hu.expired
    | ok packet =>
      rw [Run.bind_of_ok hfirst] at hsend
      obtain ⟨rfl, rfl⟩ := h.ends
      have hcarries' : ∀ j ∈ rest,
          Carries (Function.update objects i (headed (objects i) (msgs i).payload) j)
            (msgs j).payload := by
        intro j hmem
        by_cases hj : j = i
        · subst hj
          rw [Function.update_self]
          exact carries_headed (hcarries j List.mem_cons_self)
        · rw [Function.update_of_ne hj]
          exact hcarries j (List.mem_cons_of_mem i hmem)
      obtain ⟨hlog, hrest⟩ := sendAll_sends rest hcarries' hsend
      refine ⟨h.given.log.trans hlog, fun hu => ?_⟩
      rcases hrest hu with ⟨hpending, hfew⟩ | ⟨hok, hsent⟩
      · exact .inl ⟨hpending, by omega⟩
      · exact .inr ⟨hok, h.given.trans hsent⟩

/-! ## Reading -/

/-- **The packet that read a message's frame is accepted and yields the message.** -/
theorem yields_of_store {m m' : Vector UInt8 packetMaxLength} {msg : Message}
    (hfits : msg.payload.length ≤ 253) (h : store m 0 (frame msg.payload) = some m') :
    Sound (fresh m') ∧ Yields msg (opened (fresh m')) := by
  obtain ⟨h0, h1, hwindow⟩ := frame_stored h
  have hlength : (lengthByte (fresh m')).toNat = msg.payload.length + 2 := by
    rw [lengthByte_fresh, h0]
    exact toNat_frameLength hfits
  have hpos : 0 < msg.payload.length := Nat.succ_pos _
  have hplaced : Placed 2 (opened (fresh m')) := by
    refine ⟨rfl, ?_, ?_⟩
    · show 1 ≤ (lengthByte (fresh m')).toNat - 2
      omega
    · show 2 + ((lengthByte (fresh m')).toNat - 2) ≤ 255
      omega
  have hcommand : m'[2] = msg.command ∧
      window m' 3 (msg.fields.flatMap Field.bytes).length = msg.fields.flatMap Field.bytes := by
    have hcons := hwindow
    rw [show msg.payload.length = (msg.fields.flatMap Field.bytes).length + 1 from rfl,
      window_succ m' _ (show 2 < packetMaxLength by decide)] at hcons
    exact List.cons.inj hcons
  have hunread : unread 2 (opened (fresh m')) = msg.fields.flatMap Field.bytes ++ [] := by
    show window m' 3 ((lengthByte (fresh m')).toNat - 2 - 1) = _
    rw [hlength, Nat.add_sub_cancel, List.append_nil]
    exact hcommand.2
  have hextract := extracts_fields msg.fields 2 _ [] hplaced hunread
  have hend : msg.payload.length = (msg.fields.flatMap Field.bytes).length + 1 := rfl
  have hover : verifyArgs 1 (skip (opened (fresh m')) (msg.fields.flatMap Field.bytes).length) =
      (.error (.error "overflow"),
        skip (opened (fresh m')) (msg.fields.flatMap Field.bytes).length) := by
    have hdata : (skip (opened (fresh m')) (msg.fields.flatMap Field.bytes).length).stream.data =
        some 2 := rfl
    refine verifyArgs_overflow hdata ?_
    show (lengthByte (fresh m')).toNat - 2 < 1 + (msg.fields.flatMap Field.bytes).length + 1
    omega
  exact ⟨sound_frame hfits h, hlength, h1, hcommand.1, _, hextract, Run.bind_of_error hover _⟩

/-- A list of calls goes on with the rest in the world the first call left. -/
theorem readAll_cons {call : ReadCall} {w w₁ w₂ : World} {result : Bool × ProtocolPacket}
    {r₂ : Except Halt (List (Bool × ProtocolPacket))} (calls : List ReadCall)
    (hfirst : protocolReadBlockError port call.out call.timeout call.timeoutError w =
      (.ok result, w₁))
    (hall : readAll port calls w₁ = (r₂, w₂)) :
    readAll port (call :: calls) w = (r₂.map (result :: ·), w₂) := by
  unfold readAll
  rw [Run.bind_of_ok hfirst]
  cases r₂ with
  | error e => exact Run.bind_of_error hall _
  | ok results => exact Run.bind_of_ok hall _

theorem readAll_log : ∀ (calls : List ReadCall) (w : World),
    Grown (fun _ => True) w (readAll port calls w).2
  | [], w => Grown.refl w
  | call :: calls, w => by
    have hlog := readBlock_log port call.out call.timeout call.timeoutError w
    rcases hfirst : protocolReadBlockError port call.out call.timeout call.timeoutError w with
      ⟨r₁, w₁⟩
    rw [hfirst] at hlog
    cases r₁ with
    | error e =>
      unfold readAll
      rw [Run.bind_of_error hfirst]
      exact hlog
    | ok result =>
      have hrest := readAll_log calls w₁
      rw [readAll_cons calls hfirst rfl]
      exact hlog.trans hrest

/-- **Frames are read one by one**, each as a whole and nothing of the next, unless the rest is not
delivered. -/
theorem readAll_reads : ∀ (calls : List ReadCall) (sent : List Message) {later : List UInt8}
    {w w' : World} {r : Except Halt (List (Bool × ProtocolPacket))},
    calls.length = sent.length → (∀ msg ∈ sent, msg.payload.length ≤ 253) →
    readAll port calls w = (r, w') → w.rx port = frames sent ++ later → Undisturbed w' →
      r = .error .pending ∧ productive w.reads < (frames sent).length ∨
      w'.rx port = later ∧ ∃ packets, r = .ok (packets.map fun packet => (true, packet)) ∧
        List.Forall₂ Yields sent packets
  | [], [], later, w, w', r, _, _, hread, hrx, _ => by
    cases hread
    exact .inr ⟨hrx, [], rfl, .nil⟩
  | call :: calls, msg :: sent, later, w, w', r, hlen, hfits, hread, hrx, hu => by
    have hfit := hfits msg List.mem_cons_self
    have hframe : IsFrame (frame msg.payload) :=
      isFrame_frame (Nat.succ_le_succ (Nat.zero_le _)) hfit
    rcases hfirst : protocolReadBlockError port call.out call.timeout call.timeoutError w with
      ⟨r₁, w₁⟩
    rcases hall : readAll port calls w₁ with ⟨r₂, w₂⟩
    have hrestLog := @readAll_log port calls w₁
    rw [hall] at hrestLog
    rw [frames_cons, List.append_assoc] at hrx
    rw [frames_cons, List.length_append]
    cases r₁ with
    | error e =>
      unfold readAll at hread
      rw [Run.bind_of_error hfirst] at hread
      cases hread
      cases readBlock_frame hframe hrx hfirst hu.expired with
      | waiting hreads hfew => exact .inl ⟨rfl, by omega⟩
      | failed h => exact absurd h hu.failed
      | mismatch hm hsound => exact absurd (yields_of_store hfit hm).1 hsound
    | ok result =>
      rw [readAll_cons calls hfirst hall] at hread
      cases hread
      -- the first call was not disturbed either: the log only grows
      cases readBlock_frame hframe hrx hfirst (hu.before hrestLog).expired with
      | packet hm hsound htaken hmoves =>
        have hrx₁ : w₁.rx port = frames sent ++ later :=
          List.append_cancel_left (htaken.rx.symm.trans hrx)
        rcases readAll_reads calls sent (Nat.succ.inj hlen)
          (fun msg hmsg => hfits msg (List.mem_cons_of_mem _ hmsg)) hall hrx₁ hu with
          ⟨rfl, hfew⟩ | ⟨hlater, packets, rfl, hyields⟩
        · exact .inl ⟨rfl, by omega⟩
        · exact .inr ⟨hlater, _ :: packets, rfl, .cons (yields_of_store hfit hm).2 hyields⟩

/-! ## Over the link -/

/-- **What is read is what was sent.** The objects `i` in `sends` are packets built from `msgs i`,
whatever they held before, and are sent in that order, any of them any number of times. Whatever
the transmitter accepts at a time, it ends up with the packets' frames, unless it stops accepting.
Whatever the receiver hands over at a time and whatever packets they are read into, they are read
back in order and nothing after them is touched, unless the receiver stops handing over. -/
theorem link_round_trip (msgs : Nat → Message) (prior : Nat → ProtocolPacket) (sends : List Nat)
    (calls : List ReadCall) (port port' : Nat) (w w' : World)
    (r : Except Halt (Nat → ProtocolPacket))
    (hfits : ∀ i ∈ sends, (msgs i).payload.length ≤ 253) (hcalls : calls.length = sends.length)
    (hsend : sendAll port sends (fun i => (build (msgs i) (prior i)).2) w = (r, w'))
    (hu : Undisturbed w') :
    (∀ i ∈ sends, (build (msgs i) (prior i)).1 = .ok ()) ∧
    (r = .error .pending ∧ productive w.writes < (frames (sends.map msgs)).length ∨
      (∃ objects, r = .ok objects) ∧ w'.tx port = w.tx port ++ frames (sends.map msgs) ∧
      ∀ (v v' : World) (wire later : List UInt8) (s : Except Halt (List (Bool × ProtocolPacket))),
        w'.tx port = w.tx port ++ wire → v.rx port' = wire ++ later →
        readAll port' calls v = (s, v') → Undisturbed v' →
          s = .error .pending ∧ productive v.reads < wire.length ∨
          v'.rx port' = later ∧ ∃ packets, s = .ok (packets.map fun packet => (true, packet)) ∧
            List.Forall₂ Yields (sends.map msgs) packets) := by
  have hbuilt : ∀ i ∈ sends, (build (msgs i) (prior i)).1 = .ok () ∧
      Carries (build (msgs i) (prior i)).2 (msgs i).payload := by
    intro i hi
    obtain ⟨packet, hbuild, hcarries⟩ := build_carries (hfits i hi) (prior i)
    rw [hbuild]
    exact ⟨rfl, hcarries⟩
  refine ⟨fun i hi => (hbuilt i hi).1, ?_⟩
  rcases (sendAll_sends sends (fun i hi => (hbuilt i hi).2) hsend).2 hu with hpending | ⟨hok, hsent⟩
  · exact .inl hpending
  · have htx : w'.tx port = w.tx port ++ frames (sends.map msgs) := by
      rw [hsent.tx, Function.update_self]
    refine .inr ⟨hok, htx, fun v v' wire later s hwire hrx hread hu' => ?_⟩
    obtain rfl : wire = frames (sends.map msgs) := List.append_cancel_left (hwire.symm.trans htx)
    refine readAll_reads calls (sends.map msgs) (by rw [List.length_map, hcalls]) ?_ hread hrx hu'
    intro msg hmsg
    obtain ⟨i, hi, rfl⟩ := List.mem_map.mp hmsg
    exact hfits i hi

/-- A packet sent twice over a transmitter that is full now and then, and read back a few bytes at
a time. -/
theorem link_round_trip_resent :
    let msg : Message := ⟨0x05, [.u16 0x1234, .i32 (-2)]⟩
    let w := { scheduled [] [] [] with writes := .bytes 0 :: List.replicate 18 (.bytes 4) }
    let v := scheduled (frames [msg, msg] ++ [0xAA]) (.bytes 0 :: List.replicate 18 (.bytes 3)) []
    let call : ReadCall := ⟨zeroPacket, 100, false⟩
    (sendAll 1 [0, 0] (fun _ => (build msg zeroPacket).2) w).2.tx 1 = frames [msg, msg] ∧
      (readAll 0 [call, call] v).2.rx 0 = [0xAA] ∧
      ∃ packets, (readAll 0 [call, call] v).1 = .ok (packets.map fun packet => (true, packet)) ∧
        List.Forall₂ Yields [msg, msg] packets := by
  intro msg w v call
  have hu : Undisturbed (sendAll 1 [0, 0] (fun _ => (build msg zeroPacket).2) w).2 :=
    ⟨by decide +kernel, by decide +kernel⟩
  have hu' : Undisturbed (readAll 0 [call, call] v).2 := ⟨by decide +kernel, by decide +kernel⟩
  obtain ⟨-, ⟨-, hfew⟩ | ⟨-, htx, hread⟩⟩ := link_round_trip (fun _ => msg) (fun _ => zeroPacket)
    [0, 0] [call, call] 1 0 w _ _ (fun _ _ => by decide) rfl (Prod.eta _).symm hu
  · exact absurd hfew (by decide)
  · rcases hread v _ _ [0xAA] _ htx rfl (Prod.eta _).symm hu' with ⟨-, hfew⟩ | ⟨hlater, hpackets⟩
    · exact absurd hfew (by decide)
    · exact ⟨htx, hlater, hpackets⟩

end Nuhal.Link
