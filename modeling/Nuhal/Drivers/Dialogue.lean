import Nuhal.Drivers.Exchange
import Nuhal.Link.Printf
import Nuhal.Link.Scanf

/-!
# Lines of text between two platforms (`nuhal_all/src/uart.c:103-155`)

Two programs take turns. One prints a line and scans the answer; the other one scans the line and
prints an answer to it. Each runs on a driver of its own, with a wire in each direction.

`uart_scanf` looks for a line end only behind what one `uart_read_nonblock` has handed over, so it
would take more than a line if there was more. There is not: nobody prints before it has scanned the
answer. While nothing has come it looks in front of its buffer, so that a line end there would end
the line. And `uart_printf` prints what its second call of `vsnprintf` makes of the `va_list` that
the first one has used, so the lines are ones for which that is the same.

* `uartReadBlockError_tx`: a read leaves the transmitter alone.
* `uartPrintf_sends`, `uartScanfLine_reads`: a line that was printed, and one that was scanned, on
  worlds.
* **`dialogue_heard`**: whatever the two platforms do, as long as the calls return, `vsscanf` gets
  every line as it was printed.
-/

namespace Nuhal.Drivers

open Nuhal.Lib Nuhal.All Nuhal.Link
open Nuhal.Linux (Traffic hostDriver)
open Nuhal.Tiva (tivaDriver)

variable {n port : Nat} {front : UInt8} {text : List UInt8} {w w' : World}

/-! ## Reads and the transmitter -/

section Transmitter

variable {tx : Nat → List UInt8}

theorem deadlineOpen_tx (timeout : UInt32) (stamp : TimeElapsed) :
    (deadlineOpen timeout stamp).Keeps fun w => w.tx = tx := by
  intro w htx
  obtain ⟨stamp', ticks, h | ⟨-, h⟩⟩ := deadlineOpen_cases timeout stamp w
  · rw [h]
    exact htx
  · rw [h]
    exact htx

theorem uartReadNonblock_tx (port : Nat) (mem : Vector UInt8 n) (off len : Nat) :
    (uartReadNonblock port mem off len).Keeps fun w => w.tx = tx := by
  intro w htx
  unfold uartReadNonblock
  split
  · exact htx
  · exact htx
  · dsimp only
    split <;> exact htx

theorem lastRead_tx (mem : Vector UInt8 n) (off read : Nat) :
    (lastRead mem off read).Keeps fun w => w.tx = tx := by
  intro w htx
  unfold lastRead
  split <;> exact htx

theorem terminated_tx (term : UartTerm) (mem : Vector UInt8 n) (off read : Nat) :
    (terminated term mem off read).Keeps fun w => w.tx = tx := by
  cases term with
  | none => exact Run.Keeps.pure _
  | lf | cr | null | crOrLf => exact (lastRead_tx mem off read).bind fun _ => Run.Keeps.pure _

theorem readPass_tx (port off len : Nat) (timeout : UInt32) (term : UartTerm)
    (timeoutError : Bool) (st : Reading n) :
    (readPass port off len timeout term timeoutError st).Keeps fun w => w.tx = tx := by
  refine (deadlineOpen_tx timeout st.stamp).bind fun (isOpen, stamp) => ?_
  cases isOpen with
  | true =>
    refine (uartReadNonblock_tx port st.mem _ _).bind fun (k, mem) => ?_
    dsimp only
    by_cases hfull : st.read + k = len
    · rw [if_pos hfull]
      exact Run.Keeps.pure _
    · rw [if_neg hfull]
      refine (terminated_tx term mem off _).bind fun ends => ?_
      cases ends <;> exact Run.Keeps.pure _
  | false =>
    cases timeoutError with
    | true => exact Run.Keeps.bind (Run.Keeps.stop _) fun _ => Run.Keeps.pure _
    | false => exact Run.Keeps.pure _

/-- **A read leaves the transmitter alone.** -/
theorem uartReadBlockError_tx (port : Nat) (mem : Vector UInt8 n) (off len : Nat)
    (timeout : UInt32) (term : UartTerm) (timeoutError : Bool) :
    (uartReadBlockError port mem off len timeout term timeoutError).Keeps fun w => w.tx = tx := by
  have hwait : uartWaitForData.Keeps fun w => w.tx = tx := by
    intro w htx
    unfold uartWaitForData
    split <;> exact htx
  refine Run.Keeps.bind (fun w htx => htx) fun _ => ?_
  by_cases hlen : len = 0
  · rw [if_pos hlen]
    exact Run.Keeps.pure _
  · rw [if_neg hlen]
    refine Run.Keeps.bind (fun w htx => htx) fun stamp => hwait.bind fun _ w htx => ?_
    exact Run.Keeps.iterate (readPass_tx port off len timeout term timeoutError) _ _ w htx

end Transmitter

/-! ## Lines -/

/-- A line that fits the buffers, with one line end, behind it. -/
structure IsLine (text : List UInt8) : Prop where
  short : text.length < 1024
  ends : text.getLast?.any endsLine = true
  quiet : ∀ b ∈ text.dropLast, endsLine b = false

/-- What `uart_printf` gets for a text that both calls of `vsnprintf` give: one without conversions,
or any where a `va_list` is passed by value. -/
def formatted (text : List UInt8) : Formatting := (plain text).formatting ()

/-- The buffer of `uart_scanf` with a text in it. -/
def scanned (text : List UInt8) : Vector UInt8 1024 := storedText text

theorem scanned_of_store {mem : Vector UInt8 1025}
    (hstore : store (scanfBuffer front) 1 text = some mem) (hshort : text.length < 1024) :
    mem.drop 1 = scanned text := by
  apply Vector.toList_inj.mp
  rw [toList_scanned hstore, scanned, toList_storedText,
    List.take_of_length_le (Nat.le_of_lt_succ hshort)]

/-- A text that was printed. -/
theorem uartPrintf_sends {count : Nat} (hshort : text.length < 1024)
    (h : uartPrintf port (formatted text) w = (.ok count, w')) : Sent port text w w' := by
  have hlen : (formatted text).len = text.length := rfl
  rw [uartPrintf_of_fits port hlen hshort rfl (List.prefix_refl text)] at h
  obtain ⟨sent, hwrites⟩ := (uartWriteBlock_writes port text _ w).elim h
  obtain ⟨-, rfl⟩ := hwrites.ends
  exact hwrites.given

/-- The first part of a line that ends one is the whole line. -/
theorem IsLine.whole (h : IsLine text) {k : Nat} (h0 : 0 < k)
    (hends : text[k - 1]?.any endsLine = true) : k = text.length := by
  obtain ⟨b, hb, hb'⟩ := (Option.any_eq_true _ _).mp hends
  obtain ⟨hk, -⟩ := List.getElem?_eq_some_iff.mp hb
  by_contra hne
  have hmem : b ∈ text.dropLast := by
    rw [List.dropLast_eq_take]
    exact List.mem_iff_getElem?.mpr ⟨k - 1, by rw [List.getElem?_take, if_pos (by omega), hb]⟩
  rw [h.quiet b hmem] at hb'
  cases hb'

/-- **A line that was scanned**, where no more than the line is to come. -/
theorem uartScanfLine_reads {k : Nat} {buffer : Vector UInt8 1024} (hline : IsLine text)
    (hfront : endsLine front = false) (hrx : w.rx port = text)
    (h : uartScanfLine front port w = (.ok (k, buffer), w')) :
    buffer = scanned text ∧ w'.rx port = [] ∧ w'.tx = w.tx := by
  cases hwait : w.wait (w.ticks + 1) with
  | error msg =>
    have hstops : uartReadBlockError port (scanfBuffer front) 1 1024 0 .crOrLf false w = _ :=
      uartReadBlockError_wait (show 1024 ≠ 0 by decide) hwait
    unfold uartScanfLine uartReadBlock at h
    rw [Run.bind_of_error hstops] at h
    cases h
  | ok ready =>
    obtain ⟨i, mem, w₁, hread, hends, rfl, rfl, -, hlast, hstore⟩ := scanfLine_ok hwait h
    obtain ⟨-, hrest, -⟩ := hends.ends.of_ok
    have hpos : 0 < k := Nat.pos_of_ne_zero fun h0 => by
      rw [h0, lastByte_zero] at hlast
      exact absurd (hfront.symm.trans hlast) Bool.false_ne_true
    rw [lastByte, if_neg (Nat.ne_of_gt hpos)] at hlast
    rw [hrx] at hlast hstore hrest
    obtain rfl := hline.whole hpos hlast
    rw [List.take_length] at hstore
    rw [List.drop_length] at hrest
    have htx := @uartReadBlockError_tx _ w.tx port (scanfBuffer front) 1 1024 0 .crOrLf false w rfl
    rw [show uartReadBlockError port _ 1 1024 0 .crOrLf false w = _ from hread] at htx
    exact ⟨scanned_of_store hstore hline.short, hrest, htx⟩

/-! ## Turns -/

section Turns

variable {σ τ : Type} {d : Driver σ} {d' : Driver τ} {period period' : UInt32}
  {got put : σ → List UInt8} {got' put' : τ → List UInt8} {passes passes' : Nat}

/-- A line that was said, what `vsscanf` got on the other side, and what it got of the answer. -/
structure Turn where
  said : List UInt8
  heard : Vector UInt8 1024
  back : Vector UInt8 1024

/-- The two programs have taken the turns, from `s` to `s'` and from `t` to `t'`. What a call that
scans has got by its end is in order with what the other side has put by then, since `s` and `t`.
The answer to a line is what `reply` makes of it. -/
inductive Dialogue (d : Driver σ) (d' : Driver τ) (passes passes' : Nat)
    (got put : σ → List UInt8) (got' put' : τ → List UInt8) (reply : Vector UInt8 1024 → List UInt8)
    (s : σ) (t : τ) : List Turn → σ → τ → Prop where
  | start : Dialogue d d' passes passes' got put got' put' reply s t [] s t
  | turn {turns : List Turn} {s₁ s₂ s₃ : σ} {t₁ t₂ t₃ : τ} {said : List UInt8}
      {count count' k k' : Nat} {front front' : UInt8} {heard back : Vector UInt8 1024}
      (before : Dialogue d d' passes passes' got put got' put' reply s t turns s₁ t₁)
      (prints : (Client.uartPrintf (formatted said)).onDriver d passes s₁ = (.ok count, s₂))
      (scans : (Client.uartScanfLine front).onDriver d' passes' t₁ = (.ok (k, heard), t₂))
      (hfront : endsLine front = false)
      (there : InOrder (put s) (put s₂) (got' t) (got' t₂))
      (answers : (Client.uartPrintf (formatted (reply heard))).onDriver d' passes' t₂ =
        (.ok count', t₃))
      (scansBack : (Client.uartScanfLine front').onDriver d passes s₂ = (.ok (k', back), s₃))
      (hfront' : endsLine front' = false)
      (andBack : InOrder (put' t) (put' t₃) (got s) (got s₃)) :
      Dialogue d d' passes passes' got put got' put' reply s t (turns ++ [⟨said, heard, back⟩])
        s₃ t₃

/-- A text that was printed went to the hardware, and nothing was taken off it. -/
theorem printed_put {s s' : σ} {count : Nat} (hd : Accountable d period got put s)
    (hshort : text.length < 1024)
    (h : (Client.uartPrintf (formatted text)).onDriver d passes s = (.ok count, s')) :
    put s' = put s ++ text ∧ got s' = got s := by
  obtain ⟨w, w', taken, lost, hrun, -, -, htx, hput, hgot, -, hok⟩ :=
    client_asOnWorld 0 hd h (fun h => by cases h) []
  obtain ⟨rfl, hrx, hrx'⟩ := hok count rfl
  rw [onPlatform_uartPrintf] at hrun
  have hsent := uartPrintf_sends hshort hrun
  rw [hsent.rx, hrx, List.append_nil] at hrx'
  rw [hsent.tx, Function.update_self, htx, List.nil_append] at hput
  rw [hrx', List.append_nil, List.append_nil] at hgot
  exact ⟨hput, hgot⟩

/-- A line that is on the wire, behind what was taken off it before, is what is scanned. -/
theorem scanned_got {s s' : σ} {k : Nat} {buffer : Vector UInt8 1024} {base old taken : List UInt8}
    (hd : Accountable d period got put s) (hline : IsLine text)
    (hfront : endsLine front = false)
    (h : (Client.uartScanfLine front).onDriver d passes s = (.ok (k, buffer), s'))
    (hold : got s = base ++ old) (hgot : got s' = base ++ taken) (hwire : taken <+: old ++ text) :
    buffer = scanned text ∧ got s' = got s ++ text ∧ put s' = put s := by
  have hworld := client_asOnWorld 0 hd h fun h => by cases h
  obtain ⟨_, _, taken', lost, -, -, -, -, -, hgot', -, hok⟩ := hworld []
  obtain ⟨rfl, -, -⟩ := hok _ rfl
  rw [List.append_nil] at hgot'
  have htaken : taken = old ++ taken' := by
    rw [hgot, hold, List.append_assoc] at hgot'
    exact List.append_cancel_left hgot'
  obtain ⟨rest, rfl⟩ : taken' <+: text := by
    rw [htaken] at hwire
    exact (List.prefix_append_right_inj old).mp hwire
  obtain ⟨w, w', taken₁, lost, hrun, -, -, htx, hput, hgot₁, -, hok⟩ := hworld rest
  obtain ⟨rfl, hrx, hrx'⟩ := hok _ rfl
  obtain rfl : taken₁ = taken' := by
    rw [List.append_nil] at hgot₁
    exact List.append_cancel_left (hgot₁.symm.trans hgot')
  rw [onPlatform_uartScanfLine] at hrun
  obtain ⟨hbuffer, hrest, htx'⟩ := uartScanfLine_reads hline hfront hrx hrun
  rw [htx', htx, List.append_nil] at hput
  obtain rfl : rest = [] := hrx'.symm.trans hrest
  rw [List.append_nil] at hbuffer ⊢
  exact ⟨hbuffer, hgot', hput⟩

variable {reply : Vector UInt8 1024 → List UInt8} {s s' : σ} {t t' : τ} {turns : List Turn}

/-- The line and its answer got to the other side. -/
def Turn.Heard (reply : Vector UInt8 1024 → List UInt8) (turn : Turn) : Prop :=
  turn.heard = scanned turn.said ∧ turn.back = scanned (reply turn.heard)

/-- Between two turns nothing is on the wires. -/
structure AllHeard (got put : σ → List UInt8) (got' put' : τ → List UInt8)
    (reply : Vector UInt8 1024 → List UInt8) (s : σ) (t : τ) (turns : List Turn) (s' : σ) (t' : τ) :
    Prop where
  heard : ∀ turn ∈ turns, turn.Heard reply
  there : ∃ sent, put s' = put s ++ sent ∧ got' t' = got' t ++ sent
  back : ∃ sent, put' t' = put' t ++ sent ∧ got s' = got s ++ sent

/-- **Every line is heard as it was said.** -/
theorem dialogue_heard (hd : ∀ s, Accountable d period got put s)
    (hd' : ∀ t, Accountable d' period' got' put' t) (hreply : ∀ buffer, IsLine (reply buffer))
    (h : Dialogue d d' passes passes' got put got' put' reply s t turns s' t')
    (hlines : ∀ turn ∈ turns, IsLine turn.said) : ∀ turn ∈ turns, turn.Heard reply := by
  suffices hall : AllHeard got put got' put' reply s t turns s' t' from hall.heard
  induction h with
  | start => exact ⟨nofun, ⟨[], by simp⟩, ⟨[], by simp⟩⟩
  | @turn turns s₁ s₂ s₃ t₁ t₂ t₃ said count count' k k' front front' heard back before prints
      scans hfront there answers scansBack hfront' andBack ih =>
    have hbefore := ih fun turn hturn => hlines turn (List.mem_append_left _ hturn)
    have hsaid : IsLine said := hlines _ (List.mem_append_right _ (List.mem_singleton_self _))
    obtain ⟨old, hput, hgot'⟩ := hbefore.there
    obtain ⟨old', hput', hgot⟩ := hbefore.back
    -- the line goes there
    obtain ⟨hput₂, hgot₂⟩ := printed_put (hd s₁) hsaid.short prints
    obtain ⟨sent, taken, hsent, htaken, hwire⟩ := there
    have hsent₂ : sent = old ++ said := by
      rw [hput₂, hput, List.append_assoc] at hsent
      exact (List.append_cancel_left hsent).symm
    obtain ⟨hheard, hgot'₂, hput'₂⟩ :=
      scanned_got (hd' t₁) hsaid hfront scans hgot' htaken (hsent₂ ▸ hwire)
    -- and the answer comes back
    obtain ⟨hput'₃, hgot'₃⟩ := printed_put (hd' t₂) (hreply heard).short answers
    obtain ⟨sent', taken', hsent', htaken', hwire'⟩ := andBack
    have hsent₃ : sent' = old' ++ reply heard := by
      rw [hput'₃, hput'₂, hput', List.append_assoc] at hsent'
      exact (List.append_cancel_left hsent').symm
    obtain ⟨hback, hgot₃, hput₃⟩ := scanned_got (hd s₂) (hreply heard) hfront' scansBack
      (hgot₂.trans hgot) htaken' (hsent₃ ▸ hwire')
    refine ⟨fun turn hturn => ?_, ⟨old ++ said, ?_, ?_⟩, ⟨old' ++ reply heard, ?_, ?_⟩⟩
    · rcases List.mem_append.mp hturn with hturn | hturn
      · exact hbefore.heard turn hturn
      · cases List.mem_singleton.mp hturn
        exact ⟨hheard, hback⟩
    · rw [hput₃, hput₂, hput, List.append_assoc]
    · rw [hgot'₃, hgot'₂, hgot', List.append_assoc]
    · rw [hput'₃, hput'₂, hput', List.append_assoc]
    · rw [hgot₃, hgot₂, hgot, List.append_assoc]

end Turns

/-! ## Linux and a Tiva -/

def greeting : List UInt8 := [0x68, 0x69, 0x0A]

def answer : List UInt8 := [0x6F, 0x6B, 0x0D]

theorem isLine_greeting : IsLine greeting := ⟨by decide, rfl, by simp [greeting, terminates]⟩

theorem isLine_answer : IsLine answer := ⟨by decide, rfl, by simp [answer, terminates]⟩

theorem eq_of_fst {α β : Type} {p : α × β} {a : α} (h : p.1 = a) : p = (a, p.2) := Prod.ext h rfl

/-- Linux greets a Tiva. -/
theorem dialogue_heard_tiva :
    let host := hostDriver buffered 8
    let tiva := tivaDriver receiving (some ⟨0x4000⟩) 8
    ∃ heard back s' t',
      Dialogue host tiva 8 8 Traffic.got Traffic.put (takenOff 0x4000) (putInto 0x4000)
        (fun _ => answer) ⟨answer, [], []⟩ ⟨greeting, []⟩ [⟨greeting, heard, back⟩] s' t' ∧
      Turn.Heard (fun _ => answer) ⟨greeting, heard, back⟩ := by
  intro host tiva
  let printed := (Client.uartPrintf (formatted greeting)).onDriver host 8 ⟨answer, [], []⟩
  let scan := (Client.uartScanfLine 0x00).onDriver tiva 8 ⟨greeting, []⟩
  let answered := (Client.uartPrintf (formatted answer)).onDriver tiva 8 scan.2
  let scanBack := (Client.uartScanfLine 0x00).onDriver host 8 printed.2
  obtain ⟨count, hcount⟩ : ∃ count, printed.1 = .ok count := exists_of_isOk (by decide +kernel)
  obtain ⟨⟨k, heard⟩, hheard⟩ : ∃ heard, scan.1 = .ok heard := exists_of_isOk (by decide +kernel)
  obtain ⟨count', hcount'⟩ : ∃ count', answered.1 = .ok count' :=
    exists_of_isOk (by decide +kernel)
  obtain ⟨⟨k', back⟩, hback⟩ : ∃ back, scanBack.1 = .ok back := exists_of_isOk (by decide +kernel)
  have hput : printed.2.put = [] ++ greeting := by decide +kernel
  have htaken : takenOff 0x4000 scan.2 = [] ++ greeting := by decide +kernel
  have hsent : putInto 0x4000 answered.2 = [] ++ answer := by decide +kernel
  have hgot : scanBack.2.got = [] ++ answer := by decide +kernel
  have hdialogue : Dialogue host tiva 8 8 Traffic.got Traffic.put (takenOff 0x4000)
      (putInto 0x4000) (fun _ => answer) ⟨answer, [], []⟩ ⟨greeting, []⟩
      ([] ++ [⟨greeting, heard, back⟩]) scanBack.2 answered.2 :=
    .turn .start (eq_of_fst hcount) (eq_of_fst hheard) rfl ⟨_, _, hput, htaken, List.prefix_refl _⟩
      (eq_of_fst hcount') (eq_of_fst hback) rfl ⟨_, _, hsent, hgot, List.prefix_refl _⟩
  refine ⟨_, _, _, _, hdialogue, ?_⟩
  exact dialogue_heard (hostDriver_sound buffered_transfers 8)
    (tivaDriver_sound receiving_charOrNone 0x4000 8) (fun _ => isLine_answer) hdialogue
    (by simpa using isLine_greeting) _ (List.mem_singleton_self _)

end Nuhal.Drivers
