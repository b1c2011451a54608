import Nuhal.Tiva.Uart

/-!
# What a pass-through loses (`nuhal_tiva/src/uart_tiva.c:38-70`)

`uart_passthrough` takes a character from one port and offers it to the other, whose result it
does not look at. If the transmit FIFO is full at that moment the character is gone: nothing keeps
it for the next pass.

* `Moved`: one character on its way from port to port; `passthrough_moves`: all that a run does.
* `Balanced`: what was taken from each port is what the other has accepted, in order.
* `RoomInPasses`: in every pass the other FIFO has room for a character that was taken.
* **`passthrough_exact_iff`**: a run loses nothing exactly in that case.
-/

namespace Nuhal.Ports

open Nuhal.Lib Nuhal.All Nuhal.Tiva

variable {σ : Type} {lib : TivaWare σ} {port1 port2 : UartPort} {b b' : Board σ} {rx : Int32}
  {log : List UartEvent}

/-- The characters taken from the receive FIFO at `base`, in order. -/
def gotOn (base : UInt32) (log : List UartEvent) : List UInt8 :=
  log.filterMap fun
    | .got at_ c => if at_ = base then some c else none
    | _ => none

/-- The characters that the transmit FIFO at `base` has accepted, in order. -/
def putOn (base : UInt32) (log : List UartEvent) : List UInt8 :=
  log.filterMap fun
    | .put at_ c true => if at_ = base then some c else none
    | _ => none

/-- The bytes put on each port are exactly those received on the other, in order. -/
def Balanced (base1 base2 : UInt32) (log : List UartEvent) : Prop :=
  putOn base2 log = gotOn base1 log ∧ putOn base1 log = gotOn base2 log

/-- The log without the break that ended the loop, and the character it came with. -/
def beforeBreak (log : List UartEvent) : List UartEvent :=
  match log.reverse with
  | .broke :: .got _ _ :: rest => rest.reverse
  | .broke :: rest => rest.reverse
  | _ => log

/-- Until the break, nothing was dropped or duplicated. -/
def LosesNothing (base1 base2 : UInt32) (log : List UartEvent) : Prop :=
  Balanced base1 base2 (beforeBreak log)

/-! ## The condition -/

/-- If a character was taken, the transmit FIFO at `base` has room for it. -/
def RoomFor (lib : TivaWare σ) (base : UInt32) (rx : Int32) (s : σ) : Prop :=
  0 ≤ rx → (lib.uartCharPutNonBlocking base (rxchar rx) s).1 = true

/-- The hardware after a character that was taken has been offered. -/
def offered (lib : TivaWare σ) (base : UInt32) (rx : Int32) (s : σ) : σ :=
  if 0 ≤ rx then (lib.uartCharPutNonBlocking base (rxchar rx) s).2 else s

/-- Both characters that a pass may take find room, unless it ends at a break. -/
def RoomInPass (lib : TivaWare σ) (port1 port2 : UartPort) (s : σ) : Prop :=
  let (rx1, s₁) := lib.uartCharGetNonBlocking port1.base s
  let (errors, s₂) := lib.uartRxErrorGet port1.base s₁
  errors &&& uartRxErrorBreak = 0 →
    RoomFor lib port2.base rx1 s₂ ∧
      let (rx2, s₄) := lib.uartCharGetNonBlocking port2.base (offered lib port2.base rx1 s₂)
      RoomFor lib port1.base rx2 s₄

/-- In every one of the first `passes` passes that the loop gets to, a character that was taken
from one port finds room in the transmit FIFO of the other. -/
def RoomInPasses (lib : TivaWare σ) (port1 port2 : UartPort) : Nat → Board σ → Prop
  | 0, _ => True
  | passes + 1, b => RoomInPass lib port1 port2 b.hardware ∧
      ∀ b', passthroughPass lib port1 port2 b = (.ok (.inl ()), b') →
        RoomInPasses lib port1 port2 passes b'

/-! ## Characters on their way -/

/-- A character that was taken from one port and offered to another. -/
structure Moved where
  source : UInt32
  target : UInt32
  c : UInt8
  accepted : Bool

def Moved.events (m : Moved) : List UartEvent := [.got m.source m.c, .put m.target m.c m.accepted]

/-- The character goes from one of the two ports to the other. -/
def Moved.Between (m : Moved) (base1 base2 : UInt32) : Prop :=
  (m.source = base1 ∧ m.target = base2) ∨ (m.source = base2 ∧ m.target = base1)

/-- All the events of some characters. -/
def traffic (moved : List Moved) : List UartEvent := moved.flatMap Moved.events

variable {base1 base2 base : UInt32} {moved : List Moved} {m : Moved}

@[simp] theorem traffic_nil : traffic [] = [] := rfl

@[simp] theorem traffic_cons : traffic (m :: moved) = m.events ++ traffic moved := rfl

@[simp] theorem gotOn_append (l l' : List UartEvent) :
    gotOn base (l ++ l') = gotOn base l ++ gotOn base l' := List.filterMap_append ..

@[simp] theorem putOn_append (l l' : List UartEvent) :
    putOn base (l ++ l') = putOn base l ++ putOn base l' := List.filterMap_append ..

@[simp] theorem gotOn_events (m : Moved) :
    gotOn base m.events = if m.source = base then [m.c] else [] := by
  unfold gotOn Moved.events
  by_cases h : m.source = base <;> simp [h]

@[simp] theorem putOn_events (m : Moved) :
    putOn base m.events = if m.accepted ∧ m.target = base then [m.c] else [] := by
  unfold putOn Moved.events
  by_cases h : m.target = base <;> cases m.accepted <;> simp [h]

theorem Balanced.append {l l' : List UartEvent} (h : Balanced base1 base2 l)
    (h' : Balanced base1 base2 l') : Balanced base1 base2 (l ++ l') := by
  unfold Balanced
  rw [putOn_append, putOn_append, gotOn_append, gotOn_append, h.1, h.2, h'.1, h'.2]
  exact ⟨rfl, rfl⟩

/-- A character that was accepted is on both sides. -/
theorem balanced_events (hbetween : m.Between base1 base2) (haccepted : m.accepted = true) :
    Balanced base1 base2 m.events := by
  unfold Balanced
  rw [gotOn_events, gotOn_events, putOn_events, putOn_events, haccepted]
  rcases hbetween with ⟨hs, ht⟩ | ⟨hs, ht⟩
  · rw [hs, ht]
    simp [eq_comm]
  · rw [hs, ht]
    simp [eq_comm]

theorem balanced_traffic (hbetween : ∀ m ∈ moved, m.Between base1 base2)
    (haccepted : ∀ m ∈ moved, m.accepted = true) : Balanced base1 base2 (traffic moved) := by
  induction moved with
  | nil => exact ⟨rfl, rfl⟩
  | cons m moved ih =>
    rw [traffic_cons]
    refine (balanced_events (hbetween m ?_) (haccepted m ?_)).append (ih ?_ ?_)
    · exact List.mem_cons_self
    · exact List.mem_cons_self
    · exact fun m' hm' => hbetween m' (List.mem_cons_of_mem _ hm')
    · exact fun m' hm' => haccepted m' (List.mem_cons_of_mem _ hm')

/-- How many characters the two ports gave. -/
def gotCount (base1 base2 : UInt32) (log : List UartEvent) : Nat :=
  (gotOn base1 log).length + (gotOn base2 log).length

/-- How many characters the two ports accepted. -/
def putCount (base1 base2 : UInt32) (log : List UartEvent) : Nat :=
  (putOn base1 log).length + (putOn base2 log).length

theorem gotCount_append (l l' : List UartEvent) :
    gotCount base1 base2 (l ++ l') = gotCount base1 base2 l + gotCount base1 base2 l' := by
  unfold gotCount
  rw [gotOn_append, gotOn_append, List.length_append, List.length_append]
  omega

theorem putCount_append (l l' : List UartEvent) :
    putCount base1 base2 (l ++ l') = putCount base1 base2 l + putCount base1 base2 l' := by
  unfold putCount
  rw [putOn_append, putOn_append, List.length_append, List.length_append]
  omega

theorem Balanced.counts (h : Balanced base1 base2 log) :
    putCount base1 base2 log = gotCount base1 base2 log := by
  unfold putCount gotCount
  rw [h.1, h.2]
  exact Nat.add_comm _ _

/-- One character: at least as often taken as accepted, and more often if it was refused. -/
theorem counts_events (hbetween : m.Between base1 base2) :
    putCount base1 base2 m.events ≤ gotCount base1 base2 m.events ∧
      (m.accepted = false → putCount base1 base2 m.events < gotCount base1 base2 m.events) := by
  cases hm : m.accepted with
  | true => exact ⟨Nat.le_of_eq (balanced_events hbetween hm).counts, fun h => by cases h⟩
  | false =>
    have hput : putCount base1 base2 m.events = 0 := by simp [putCount, hm]
    have hgot : 0 < gotCount base1 base2 m.events := by
      unfold gotCount
      rw [gotOn_events, gotOn_events]
      rcases hbetween with ⟨hs, -⟩ | ⟨hs, -⟩
      · rw [if_pos hs, List.length_singleton]
        omega
      · rw [if_pos hs, List.length_singleton]
        omega
    exact ⟨by omega, fun _ => by omega⟩

theorem counts_traffic (hbetween : ∀ m ∈ moved, m.Between base1 base2) :
    putCount base1 base2 (traffic moved) ≤ gotCount base1 base2 (traffic moved) ∧
      ((∃ m ∈ moved, m.accepted = false) →
        putCount base1 base2 (traffic moved) < gotCount base1 base2 (traffic moved)) := by
  induction moved with
  | nil =>
    refine ⟨Nat.le_refl _, ?_⟩
    rintro ⟨m, hm, -⟩
    cases hm
  | cons m moved ih =>
    obtain ⟨hle, hlt⟩ := counts_events (hbetween m List.mem_cons_self)
    obtain ⟨ihle, ihlt⟩ := ih fun m' hm' => hbetween m' (List.mem_cons_of_mem _ hm')
    rw [traffic_cons, putCount_append, gotCount_append]
    refine ⟨by omega, ?_⟩
    rintro ⟨m', hm', hrefused⟩
    rcases List.mem_cons.mp hm' with rfl | htail
    · have := hlt hrefused
      omega
    · have := ihlt ⟨m', htail, hrefused⟩
      omega

/-- **What was moved is balanced exactly when nothing was refused.** -/
theorem balanced_traffic_iff (hbetween : ∀ m ∈ moved, m.Between base1 base2) :
    Balanced base1 base2 (traffic moved) ↔ ∀ m ∈ moved, m.accepted = true := by
  refine ⟨fun h m hm => ?_, balanced_traffic hbetween⟩
  by_contra hrefused
  have hlt := (counts_traffic hbetween).2 ⟨m, hm, Bool.eq_false_iff.mpr hrefused⟩
  rw [h.counts] at hlt
  exact Nat.lt_irrefl _ hlt

/-- What comes before the break is found in the log of any run. -/
theorem beforeBreak_traffic (moved : List Moved) {last : List UartEvent}
    (hlast : last = [] ∨ last = [.broke] ∨ ∃ base c, last = [.got base c, .broke]) :
    beforeBreak (traffic moved ++ last) = traffic moved := by
  have hback : (traffic moved).reverse = [] ∨
      ∃ at_ c accepted rest, (traffic moved).reverse = .put at_ c accepted :: rest := by
    rcases List.eq_nil_or_concat moved with rfl | ⟨moved', m, rfl⟩
    · exact .inl rfl
    · refine .inr ⟨m.target, m.c, m.accepted, .got m.source m.c :: (traffic moved').reverse, ?_⟩
      simp [traffic, Moved.events]
  have hsame : (traffic moved).reverse.reverse = traffic moved := List.reverse_reverse _
  unfold beforeBreak
  rw [List.reverse_append]
  rcases hlast with rfl | rfl | ⟨base, c, rfl⟩
  · rcases hback with hnil | ⟨at_, c, accepted, rest, hput⟩
    · rw [hnil]
      exact List.append_nil _
    · rw [hput]
      exact List.append_nil _
  · rcases hback with hnil | ⟨at_, c, accepted, rest, hput⟩
    · rw [hnil] at hsame ⊢
      exact hsame
    · rw [hput] at hsame ⊢
      exact hsame
  · exact hsame

/-! ## A pass -/

/-- The character `rx`, if there was one, on its way. -/
def hop (source target : UInt32) (rx : Int32) (accepted : Bool) : List Moved :=
  if 0 ≤ rx then [⟨source, target, rxchar rx, accepted⟩] else []

theorem roomFor_iff {s : σ} {source : UInt32} : RoomFor lib base rx s ↔
    ∀ m ∈ hop source base rx (lib.uartCharPutNonBlocking base (rxchar rx) s).1,
      m.accepted = true := by
  unfold RoomFor hop
  by_cases h : 0 ≤ rx <;> simp [h]

/-- A character is taken from one port and offered to another. -/
theorem hop_log (lib : TivaWare σ) (source : UInt32) (target : UartPort) (rx : Int32) (s : σ)
    (log : List UartEvent) :
    passOn lib target rx ⟨s, if 0 ≤ rx then log ++ [.got source (rxchar rx)] else log⟩ =
      (.ok (), ⟨offered lib target.base rx s, log ++ traffic (hop source target.base rx
        (lib.uartCharPutNonBlocking target.base (rxchar rx) s).1)⟩) := by
  unfold passOn offered hop
  by_cases h : 0 ≤ rx
  · rw [if_pos h, if_pos h, if_pos h, if_pos h, Run.bind_apply]
    unfold Tiva.uartWriteNonblock putChars
    dsimp only
    rw [Run.bind_apply]
    unfold charPut
    dsimp only
    cases (lib.uartCharPutNonBlocking target.base (rxchar rx) s).1 with
    | true => simp [putChars, Moved.events]
    | false => simp [Moved.events]
  · rw [if_neg h, if_neg h, if_neg h, if_neg h]
    simp

/-- How a pass ends: with characters on their way, or at a break. -/
inductive PassEnds (lib : TivaWare σ) (port1 port2 : UartPort) (b : Board σ) :
    Except Halt (Unit ⊕ Unit) → Board σ → Prop
  | goes {b' : Board σ} (moved : List Moved)
      (between : ∀ m ∈ moved, m.Between port1.base port2.base)
      (room : RoomInPass lib port1 port2 b.hardware ↔ ∀ m ∈ moved, m.accepted = true)
      (log : b'.log = b.log ++ traffic moved) : PassEnds lib port1 port2 b (.ok (.inl ())) b'
  | broke {b' : Board σ} (last : List UartEvent)
      (hlast : last = [.broke] ∨ ∃ base c, last = [.got base c, .broke])
      (room : RoomInPass lib port1 port2 b.hardware) (log : b'.log = b.log ++ last) :
      PassEnds lib port1 port2 b (.ok (.inr ())) b'

theorem hop_between {base' : UInt32} {accepted : Bool} (hsource : base = base1 ∧ base' = base2 ∨
    base = base2 ∧ base' = base1) : ∀ m ∈ hop base base' rx accepted, m.Between base1 base2 := by
  unfold hop
  by_cases h : 0 ≤ rx
  · rw [if_pos h]
    intro m hm
    rw [List.mem_singleton.mp hm]
    exact hsource
  · rw [if_neg h]
    intro m hm
    cases hm

/-- **The step lemma.** -/
theorem passthroughPass_ends (lib : TivaWare σ) (port1 port2 : UartPort) (b : Board σ) :
    (passthroughPass lib port1 port2).Ends b (PassEnds lib port1 port2 b) := by
  rcases hget : lib.uartCharGetNonBlocking port1.base b.hardware with ⟨rx1, s₁⟩
  rcases herrors : lib.uartRxErrorGet port1.base s₁ with ⟨errors, s₂⟩
  have hbreak : rxBreak lib port1.base
      ⟨s₁, if 0 ≤ rx1 then b.log ++ [.got port1.base (rxchar rx1)] else b.log⟩ =
      (.ok (errors &&& uartRxErrorBreak != 0),
        ⟨s₂, if 0 ≤ rx1 then b.log ++ [.got port1.base (rxchar rx1)] else b.log⟩) := by
    unfold rxBreak
    rw [herrors]
  have hfirst : charGet lib port1.base b =
      (.ok rx1, ⟨s₁, if 0 ≤ rx1 then b.log ++ [.got port1.base (rxchar rx1)] else b.log⟩) := by
    unfold charGet
    rw [hget]
  unfold passthroughPass Run.Ends
  rw [Run.bind_of_ok hfirst, Run.bind_of_ok hbreak]
  by_cases hbroke : errors &&& uartRxErrorBreak = 0
  · rw [if_neg (by simp [hbroke]), Run.bind_of_ok (hop_log lib port1.base port2 rx1 s₂ b.log)]
    rcases hget' : lib.uartCharGetNonBlocking port2.base (offered lib port2.base rx1 s₂)
      with ⟨rx2, s₄⟩
    have hsecond : ∀ log, charGet lib port2.base ⟨offered lib port2.base rx1 s₂, log⟩ =
        (.ok rx2, ⟨s₄, if 0 ≤ rx2 then log ++ [.got port2.base (rxchar rx2)] else log⟩) := by
      intro log
      unfold charGet
      rw [hget']
    rw [Run.bind_of_ok (hsecond _), Run.bind_of_ok (hop_log lib port2.base port1 rx2 s₄ _)]
    refine .goes (hop port1.base port2.base rx1
        (lib.uartCharPutNonBlocking port2.base (rxchar rx1) s₂).1 ++
      hop port2.base port1.base rx2
        (lib.uartCharPutNonBlocking port1.base (rxchar rx2) s₄).1) ?_ ?_ ?_
    · intro m hm
      rcases List.mem_append.mp hm with h | h
      · exact hop_between (.inl ⟨rfl, rfl⟩) m h
      · exact hop_between (.inr ⟨rfl, rfl⟩) m h
    · unfold RoomInPass
      simp only [hget, herrors, hget', hbroke, true_imp_iff, List.forall_mem_append]
      rw [roomFor_iff, roomFor_iff]
    · simp [traffic]
  · rw [if_pos (by simp [hbroke])]
    have hroom : RoomInPass lib port1 port2 b.hardware := by
      unfold RoomInPass
      simp only [hget, herrors]
      exact fun h => absurd h hbroke
    by_cases h : 0 ≤ rx1
    · rw [if_pos h]
      refine .broke [.got port1.base (rxchar rx1), .broke] (.inr ⟨_, _, rfl⟩) hroom ?_
      exact List.append_assoc ..
    · rw [if_neg h]
      exact .broke [.broke] (.inl rfl) hroom rfl

/-! ## Runs -/

/-- How the loop stands after some passes: still going, or ended by a break. -/
inductive LoopEnds (b : Board σ) (moved : List Moved) : Except Halt Unit → Board σ → Prop
  | waiting {b' : Board σ} (log : b'.log = b.log ++ traffic moved) :
      LoopEnds b moved (.error .pending) b'
  | broke {b' : Board σ} (last : List UartEvent)
      (hlast : last = [.broke] ∨ ∃ base c, last = [.got base c, .broke])
      (log : b'.log = b.log ++ traffic moved ++ last) : LoopEnds b moved (.ok ()) b'

/-- **The run lemma.** -/
theorem passthrough_moves (lib : TivaWare σ) (port1 port2 : UartPort) (passes : Nat) (b : Board σ) :
    ∃ moved : List Moved, (∀ m ∈ moved, m.Between port1.base port2.base) ∧
      (RoomInPasses lib port1 port2 passes b ↔ ∀ m ∈ moved, m.accepted = true) ∧
      (Run.iterate .pending (fun _ => passthroughPass lib port1 port2) passes ()).Ends b
        (LoopEnds b moved) := by
  induction passes generalizing b with
  | zero =>
    refine ⟨[], List.forall_mem_nil _, ?_, .waiting (List.append_nil _).symm⟩
    · exact ⟨fun _ => List.forall_mem_nil _, fun _ => trivial⟩
  | succ passes ih =>
    have hpass := passthroughPass_ends lib port1 port2 b
    rcases hstep : passthroughPass lib port1 port2 b with ⟨r, b₁⟩
    have hends := hpass.elim hstep
    unfold RoomInPasses Run.Ends
    cases hends with
    | goes moved between room log =>
      obtain ⟨later, hbetween, hroom, hloop⟩ := ih b₁
      refine ⟨moved ++ later, ?_, ?_, ?_⟩
      · exact fun m hm => (List.mem_append.mp hm).elim (between m) (hbetween m)
      · rw [List.forall_mem_append, ← room, ← hroom]
        refine and_congr_right fun _ => ⟨fun h => h b₁ hstep, ?_⟩
        rintro h b' heq
        obtain ⟨-, rfl⟩ := Prod.mk.inj (hstep.symm.trans heq)
        exact h
      · rw [Run.iterate_of_inl hstep]
        have htraffic : b₁.log ++ traffic later = b.log ++ traffic (moved ++ later) := by
          rw [log, List.append_assoc]
          simp [traffic]
        unfold Run.Ends at hloop
        generalize Run.iterate .pending (fun _ => passthroughPass lib port1 port2) passes () b₁ =
          res at hloop ⊢
        rcases res with ⟨r, b₂⟩
        cases hloop with
        | waiting hlog => exact .waiting (hlog.trans htraffic)
        | broke last hlast hlog => exact .broke last hlast (by rw [hlog, htraffic])
    | broke last hlast room log =>
      refine ⟨[], List.forall_mem_nil _, ?_, ?_⟩
      · refine ⟨fun _ => List.forall_mem_nil _, fun _ => ⟨room, ?_⟩⟩
        rintro b' heq
        cases (Prod.mk.inj (hstep.symm.trans heq)).1
      · rw [Run.iterate_of_inr hstep]
        exact .broke last hlast (by rw [log, traffic_nil, List.append_nil])

/-- Waiting for the break to end moves nothing. -/
theorem breakPass_keeps (lib : TivaWare σ) (port1 : UartPort) (timeout : UInt32)
    (stamp : TimeElapsed) (log : List UartEvent) :
    (breakPass lib port1 timeout stamp).Keeps fun b => b.log = log := by
  refine Run.Keeps.bind (fun _ h => h) fun broke => ?_
  cases broke with
  | false => exact Run.Keeps.pure _
  | true =>
    refine Run.Keeps.bind (fun _ h => h) fun _ => Run.Keeps.bind (fun _ h => h) fun now => ?_
    dsimp only
    split
    · exact Run.Keeps.bind (Run.Keeps.stop _) fun _ => Run.Keeps.pure _
    · exact Run.Keeps.pure _

/-- **When a pass-through loses nothing**: exactly when every character finds room. -/
theorem passthrough_exact_iff (lib : TivaWare σ) (port1 port2 : UartPort) (timeout : UInt32)
    (s : σ) (passes : Nat) :
    LosesNothing port1.base port2.base
        (uartPassthrough lib (some port1) (some port2) timeout passes ⟨s, []⟩).2.log ↔
      RoomInPasses lib port1 port2 passes ⟨s, []⟩ := by
  obtain ⟨moved, hbetween, hroom, hloop⟩ := passthrough_moves lib port1 port2 passes ⟨s, []⟩
  suffices hlog : ∃ last, (last = [] ∨ last = [.broke] ∨ ∃ base c, last = [.got base c, .broke]) ∧
      (uartPassthrough lib (some port1) (some port2) timeout passes ⟨s, []⟩).2.log =
        traffic moved ++ last by
    obtain ⟨last, hlast, hlog⟩ := hlog
    unfold LosesNothing
    rw [hlog, beforeBreak_traffic moved hlast, balanced_traffic_iff hbetween, hroom]
  unfold uartPassthrough
  dsimp only
  rcases hrun : Run.iterate .pending (fun _ => passthroughPass lib port1 port2) passes () ⟨s, []⟩
    with ⟨r, b₁⟩
  have hends := hloop.elim hrun
  cases hends with
  | waiting log =>
    rw [Run.bind_of_error hrun]
    exact ⟨[], .inl rfl, log.trans (List.append_nil _).symm⟩
  | broke last hlast log =>
    refine ⟨last, .inr hlast, ?_⟩
    rw [Run.bind_of_ok hrun]
    have hkeeps : Run.Keeps (currentMs lib >>= fun now => Run.iterate .pending
        (breakPass lib port1 timeout) passes (timeElapsedInit now)) fun b => b.log = b₁.log :=
      Run.Keeps.bind (fun _ h => h) fun now =>
        Run.Keeps.iterate (fun stamp => breakPass_keeps lib port1 timeout stamp _) _ _
    exact (hkeeps b₁ rfl).trans log

/-! ## A full FIFO -/

/-- Port 1 receives the characters of the state, and the transmit FIFOs are full. -/
def fullFifos : TivaWare (List UInt8) where
  uartCharGetNonBlocking base waiting := match base, waiting with
    | 1, c :: rest => (c.toUInt32.toInt32, rest)
    | _, _ => (-1, waiting)
  uartCharPutNonBlocking _ _ waiting := (false, waiting)
  uartRxErrorGet _ waiting := (0, waiting)
  uartRxErrorClear _ waiting := waiting
  timeCurrentMs waiting := (0, waiting)
  period := 0

/-- The character 41 is taken from port 1 and nothing is put on port 2. -/
theorem passthrough_drops :
    let log := (uartPassthrough fullFifos (some ⟨1⟩) (some ⟨2⟩) 0 1 ⟨[0x41], []⟩).2.log
    gotOn 1 log = [0x41] ∧ putOn 2 log = [] ∧ ¬ LosesNothing 1 2 log := by
  intro log
  have hlog : log = [.got 1 0x41, .put 2 0x41 false] := rfl
  rw [hlog]
  refine ⟨rfl, rfl, ?_⟩
  rintro ⟨h, -⟩
  cases h

end Nuhal.Ports
