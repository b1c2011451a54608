import Nuhal.Drivers.Foresight
import Nuhal.Ports.Passthrough
import Nuhal.Tiva.Driver

/-!
# The Tiva under the common code (`nuhal_tiva/src/uart_tiva.c:181-229, 273-297`)

`tivaDriver` is a sound driver, whatever the hardware does, as long as `UARTCharGetNonBlocking`
returns a character or -1 (`CharOrNone`). So every result about the common code on a `World` is one
about the Tiva. What has been taken and sent are then the characters that left the receive FIFO and
those that the transmit FIFO accepted (`takenOff`, `putInto`).

* `getChars_ends`: the loop of `uart_read_nonblock`.
* `tivaDriver_sound`, and **`tiva_client`** for every program on a port.
-/

namespace Nuhal.Drivers

open Nuhal.Lib Nuhal.All Nuhal.Tiva Nuhal.Ports

variable {n : Nat} {σ α : Type} {lib : UartWare σ} {base : UInt32}

/-- What is documented of `UARTCharGetNonBlocking`: it returns a character, or -1. -/
def CharOrNone (lib : TivaWare σ) : Prop :=
  ∀ base s, (lib.uartCharGetNonBlocking base s).1 = -1 ∨
    0 ≤ (lib.uartCharGetNonBlocking base s).1

/-- The characters that left the receive FIFO. -/
def takenOff (base : UInt32) (b : Board σ) : List UInt8 := gotOn base b.log

/-- The characters that the transmit FIFO accepted. -/
def putInto (base : UInt32) (b : Board σ) : List UInt8 := putOn base b.log

/-- The board's log after characters `got` were taken. -/
structure Took (base : UInt32) (got : List UInt8) (b b' : Board σ) : Prop where
  got : gotOn base b'.log = gotOn base b.log ++ got
  put : putOn base b'.log = putOn base b.log

theorem Took.refl (base : UInt32) (b : Board σ) : Took base [] b b :=
  ⟨(List.append_nil _).symm, rfl⟩

theorem Took.trans {xs ys : List UInt8} {b b₁ b₂ : Board σ} (h₁ : Took base xs b b₁)
    (h₂ : Took base ys b₁ b₂) : Took base (xs ++ ys) b b₂ :=
  ⟨by rw [h₂.got, h₁.got, List.append_assoc], h₂.put.trans h₁.put⟩

/-- Only the log matters. -/
theorem Took.congr {got : List UInt8} {b b₁ b' : Board σ} (h : Took base got b b₁)
    (hlog : b'.log = b₁.log) : Took base got b b' :=
  ⟨hlog ▸ h.got, hlog ▸ h.put⟩

/-- A character is taken, or there is none. -/
theorem charGet_took (hlib : CharOrNone lib.toTivaWare) (base : UInt32) (b : Board σ) :
    ∃ rx b', charGet lib.toTivaWare base b = (.ok rx, b') ∧
      (rx = -1 ∧ Took base [] b b' ∨ rx ≠ -1 ∧ Took base [rxchar rx] b b') := by
  refine ⟨_, _, rfl, ?_⟩
  rcases hlib base b.hardware with hnone | hchar
  · refine .inl ⟨hnone, (Took.refl base b).congr (if_neg ?_)⟩
    rw [hnone]
    decide
  · refine .inr ⟨?_, ?_⟩
    · intro hnone
      rw [hnone] at hchar
      exact absurd hchar (by decide)
    · refine ⟨?_, ?_⟩
      · show gotOn base (ite _ _ _) = _
        rw [if_pos hchar, gotOn_append]
        simp [gotOn]
      · show putOn base (ite _ _ _) = _
        rw [if_pos hchar, putOn_append]
        simp [putOn]

theorem storeChar_some {off index : Nat} {mem mem' : Vector UInt8 n} {rx : Int32}
    (h : store mem (off + index) [rxchar rx] = some mem') (b : Board σ) :
    storeChar mem off index rx b = (.ok mem', b) := by
  simp only [storeChar, h]

theorem storeChar_none {off index : Nat} {mem : Vector UInt8 n} {rx : Int32}
    (h : store mem (off + index) [rxchar rx] = none) (b : Board σ) :
    storeChar mem off index rx b = (.error .undefined, b) := by
  simp only [storeChar, h]

/-- What is seen of the board after a read. -/
theorem Took.after {off k : Nat} {got : List UInt8} {b₀ b b' : Board σ} {seen : Seen}
    (h : Took base got b b') (hb : Accounted (takenOff base) (putInto base) b₀ [] b seen) :
    Accounted (takenOff base) (putInto base) b₀ [] b'
      { seen with taken := seen.taken ++ got, log := seen.log ++ [.store off k] } := by
  have htaken : gotOn base b.log = takenOff base b₀ ++ seen.taken ++ [] := hb.taken
  refine ⟨h.got.trans ?_, h.put.trans hb.sent⟩
  rw [htaken]
  simp only [List.append_nil, List.append_assoc]

/-- And after one that failed. -/
theorem Took.losing {got : List UInt8} {b₀ b b' : Board σ} {seen : Seen} (h : Took base got b b')
    (hb : Accounted (takenOff base) (putInto base) b₀ [] b seen) :
    Accounted (takenOff base) (putInto base) b₀ got b' seen := by
  have htaken : gotOn base b.log = takenOff base b₀ ++ seen.taken ++ [] := hb.taken
  refine ⟨h.got.trans ?_, h.put.trans hb.sent⟩
  rw [htaken, List.append_nil]

/-- How the body of the loop ends. -/
def GetCharEnds (base : UInt32) (off index : Nat) (mem : Vector UInt8 n) (b : Board σ) :
    Except Halt (Option (Vector UInt8 n)) → Board σ → Prop
  | .ok none, b' => Took base [] b b'
  | .ok (some mem'), b' => ∃ c, store mem (off + index) [c] = some mem' ∧ Took base [c] b b'
  | .error .undefined, b' => n < off + (index + 1) ∧ ∃ got, Took base got b b'
  | .error (.error _), b' => ∃ got, Took base got b b'
  | .error .pending, _ => False

theorem getChar_ends (hlib : CharOrNone lib.toTivaWare) (off index : Nat) (mem : Vector UInt8 n)
    (b : Board σ) :
    (getChar lib base off index mem).Ends b (GetCharEnds base off index mem b) := by
  obtain ⟨rx, b₁, hget, hrx⟩ := charGet_took hlib base b
  obtain ⟨got, hgot⟩ : ∃ got, Took base got b b₁ := by
    rcases hrx with ⟨-, htook⟩ | ⟨-, htook⟩
    · exact ⟨_, htook⟩
    · exact ⟨_, htook⟩
  have herrors : rxErrors lib.toTivaWare base b₁ = (.ok (lib.uartRxErrorGet base b₁.hardware).1,
      { b₁ with hardware := (lib.uartRxErrorGet base b₁.hardware).2 }) := rfl
  unfold getChar Run.Ends
  rw [Run.bind_of_ok hget, Run.bind_of_ok herrors]
  by_cases hfailed : (lib.uartRxErrorGet base b₁.hardware).1 ≠ 0
  · rw [if_pos hfailed]
    exact ⟨got, hgot.congr rfl⟩
  · rw [if_neg hfailed]
    rcases hrx with ⟨rfl, htook⟩ | ⟨hchar, htook⟩
    · rw [if_pos rfl]
      exact htook.congr rfl
    · rw [if_neg hchar]
      cases hmem : store mem (off + index) [rxchar rx] with
      | some mem' =>
        rw [Run.bind_of_ok (storeChar_some hmem _)]
        exact ⟨_, hmem, htook.congr rfl⟩
      | none =>
        rw [Run.bind_of_error (storeChar_none hmem _)]
        exact ⟨store_eq_none.mp hmem, got, hgot.congr rfl⟩

/-- How the loop ends, with room for `left` characters more at `index`. -/
def GetEnds (base : UInt32) (off left index : Nat) (mem : Vector UInt8 n) (b : Board σ) :
    Except Halt (Nat × Vector UInt8 n) → Board σ → Prop
  | .ok (k, mem'), b' => ∃ got, k = index + got.length ∧ got.length ≤ left ∧
      store mem (off + index) got = some mem' ∧ Took base got b b'
  | .error .undefined, b' => (∃ k ≤ index + left, n < off + k) ∧ ∃ got, Took base got b b'
  | .error (.error _), b' => ∃ got, Took base got b b'
  | .error .pending, _ => False

/-- Returning what has come so far. -/
theorem getEnds_now {off left index : Nat} {mem : Vector UInt8 n} (hoff : off + index ≤ n)
    {b b' : Board σ} (h : Took base [] b b') :
    GetEnds base off left index mem b (.ok (index, mem)) b' :=
  ⟨[], rfl, Nat.zero_le _, store_nil hoff, h⟩

/-- What the rest of the loop does, after a character was stored. -/
theorem GetEnds.cons {off left index : Nat} {mem mem₁ : Vector UInt8 n} {c : UInt8}
    {b b₁ b' : Board σ} {r : Except Halt (Nat × Vector UInt8 n)}
    (h : GetEnds base off left (index + 1) mem₁ b₁ r b')
    (hstore : store mem (off + index) [c] = some mem₁) (htook : Took base [c] b b₁) :
    GetEnds base off (left + 1) index mem b r b' := by
  match r, h with
  | .ok (k, mem'), ⟨got, hk, hle, hmem, htook'⟩ =>
    refine ⟨c :: got, ?_, Nat.succ_le_succ hle, ?_, htook.trans htook'⟩
    · rw [hk, List.length_cons]
      omega
    · rw [show c :: got = [c] ++ got from rfl, ← store_store hstore]
      exact hmem
  | .error .undefined, ⟨⟨k, hk, hout⟩, got, htook'⟩ =>
    exact ⟨⟨k, by omega, hout⟩, _, htook.trans htook'⟩
  | .error (.error msg), ⟨got, htook'⟩ => exact ⟨_, htook.trans htook'⟩

/-- **The loop of `uart_read_nonblock`.** -/
theorem getChars_ends (hlib : CharOrNone lib.toTivaWare) (off : Nat) (left index : Nat)
    (mem : Vector UInt8 n) (hoff : off + index ≤ n) (b : Board σ) :
    (getChars lib base off left index mem).Ends b (GetEnds base off left index mem b) := by
  induction left generalizing index mem b with
  | zero => exact getEnds_now hoff ((Took.refl base b).congr rfl)
  | succ left ih =>
    unfold getChars
    refine Run.Ends.bind (P := fun r b₁ => (∃ avail, r = .ok avail) ∧ Took base [] b b₁)
      ⟨⟨_, rfl⟩, (Took.refl base b).congr rfl⟩ ?_ ?_
    · rintro avail b₁ ⟨-, hsame⟩
      cases avail with
      | true =>
        refine Run.Ends.bind (getChar_ends hlib off index mem b₁) ?_ ?_
        · intro next b₂ h
          cases next with
          | none => exact getEnds_now hoff (hsame.trans h)
          | some mem₂ =>
            obtain ⟨c, hstore, htook⟩ := h
            have hnext : off + (index + 1) ≤ n := store_le hstore
            exact (ih (index + 1) mem₂ hnext b₂).mono fun r b' hrest =>
              hrest.cons hstore (hsame.trans htook)
        · intro e b₂ h
          match e, h with
          | .undefined, ⟨hout, got, htook⟩ =>
            exact ⟨⟨index + 1, by omega, hout⟩, got, hsame.trans htook⟩
          | .error msg, ⟨got, htook⟩ => exact ⟨got, hsame.trans htook⟩
      | false => exact getEnds_now hoff hsame
    · rintro e b₁ ⟨⟨avail, h⟩, -⟩
      cases h

/-! ## Writing and waiting -/

/-- The loop of `uart_write_nonblock`: the FIFO accepts characters from the front. -/
theorem putChars_ends (lib : TivaWare σ) (base : UInt32) (data : List UInt8) (index : Nat)
    (b : Board σ) : ∃ k b', putChars lib base data index b = (.ok (index + k), b') ∧
      k ≤ data.length ∧ putOn base b'.log = putOn base b.log ++ data.take k ∧
      gotOn base b'.log = gotOn base b.log := by
  induction data generalizing index b with
  | nil => exact ⟨0, b, rfl, Nat.le_refl _, (List.append_nil _).symm, rfl⟩
  | cons c data ih =>
    rcases hput : charPut lib base c b with ⟨r, b₁⟩
    unfold putChars
    rw [Run.bind_apply, hput]
    cases hput
    cases haccepted : (lib.uartCharPutNonBlocking base c b.hardware).1 with
    | true =>
      obtain ⟨k, b', hrun, hle, hsent, hgot⟩ := ih (index + 1) ⟨_, _⟩
      refine ⟨k + 1, b', ?_, Nat.succ_le_succ hle, ?_, ?_⟩
      · rw [Nat.add_comm k 1, ← Nat.add_assoc]
        exact hrun
      · rw [hsent, putOn_append, List.take_succ_cons]
        simp [putOn]
      · rw [hgot, gotOn_append]
        simp [gotOn]
    | false =>
      refine ⟨0, _, rfl, Nat.zero_le _, ?_, ?_⟩
      · rw [putOn_append]
        simp [putOn]
      · rw [gotOn_append]
        simp [gotOn]

/-- A poll leaves the log alone. -/
theorem waitPass_quiet (lib : UartWare σ) (base timeout : UInt32) (stamp : TimeElapsed)
    (b : Board σ) :
    ∃ next b', waitPass lib base timeout stamp b = (.ok next, b') ∧ b'.log = b.log := by
  unfold waitPass
  rw [Run.bind_apply]
  simp only [charsAvail]
  split
  · exact ⟨_, _, rfl, rfl⟩
  · rw [Run.bind_apply]
    simp only [currentMs]
    split
    · exact ⟨_, _, rfl, rfl⟩
    · exact ⟨_, _, rfl, rfl⟩

theorem waitPasses_quiet (lib : UartWare σ) (base timeout : UInt32) (passes : Nat)
    (stamp : TimeElapsed) (b : Board σ) :
    (Run.iterate .pending (waitPass lib base timeout) passes stamp).Ends b fun r b' =>
      b'.log = b.log ∧ ((∃ ready, r = .ok ready) ∨ r = .error .pending) := by
  induction passes generalizing stamp b with
  | zero => exact ⟨rfl, .inr rfl⟩
  | succ passes ih =>
    obtain ⟨next, b₁, hpass, hlog⟩ := waitPass_quiet lib base timeout stamp b
    unfold Run.Ends
    cases next with
    | inl stamp' =>
      rw [Run.iterate_of_inl hpass]
      obtain ⟨hrest, hend⟩ := ih stamp' b₁
      exact ⟨hrest.trans hlog, hend⟩
    | inr ready =>
      rw [Run.iterate_of_inr hpass]
      exact ⟨hlog, .inl ⟨ready, rfl⟩⟩

/-! ## The driver -/

/-- **The Tiva's driver is sound**, and accounts for every character. -/
theorem tivaDriver_sound (hlib : CharOrNone lib.toTivaWare) (base : UInt32) (passes : Nat)
    (b₀ : Board σ) : Accountable (tivaDriver lib (some ⟨base⟩) passes) lib.period (takenOff base)
      (putInto base) b₀ where
  weaken b seen h := ⟨[], h⟩
  clock b seen h := ⟨_, _, rfl, h.taken, h.sent⟩
  period b := rfl
  wait timeout b seen h := by
    obtain ⟨now, b₁, hnow, hlog⟩ : ∃ now b₁, currentMs lib.toTivaWare b = (.ok now, b₁) ∧
      b₁.log = b.log := ⟨_, _, rfl, rfl⟩
    have hstart : (tivaDriver lib (some ⟨base⟩) passes).uartWaitForData timeout b =
        Run.iterate .pending (waitPass lib base timeout) passes (timeElapsedInit now) b₁ :=
      Run.bind_of_ok hnow _
    have hquiet := waitPasses_quiet lib base timeout passes (timeElapsedInit now) b₁
    rw [hstart]
    rcases hrun : Run.iterate .pending (waitPass lib base timeout) passes (timeElapsedInit now) b₁
      with ⟨r, b'⟩
    rw [hrun]
    obtain ⟨hsame, ⟨ready, rfl⟩ | rfl⟩ := hquiet.elim hrun
    · have hlog' := hsame.trans hlog
      exact h.congr (congrArg (gotOn base) hlog') (congrArg (putOn base) hlog')
    · trivial
  read {n} mem off len b seen h := by
    have hread : (tivaDriver lib (some ⟨base⟩) passes).uartReadNonblock mem off len =
      if off ≤ n then getChars lib base off len 0 mem else Run.stop .undefined := rfl
    rw [hread]
    by_cases hoff : off ≤ n
    · rw [if_pos hoff]
      have hends : (getChars lib base off len 0 mem).Ends b (GetEnds base off len 0 mem b) :=
        getChars_ends hlib off len 0 mem hoff b
      rcases hrun : getChars lib base off len 0 mem b with ⟨r, b'⟩
      have hget := hends.elim hrun
      match r, hget with
      | .ok (k, mem'), ⟨got, hk, hle, hstore, htook⟩ =>
        rw [Nat.zero_add] at hk
        exact ⟨got, hk.symm, hk ▸ hle, hstore, htook.after h⟩
      | .error .undefined, ⟨⟨k, hk, hout⟩, got, htook⟩ =>
        exact ⟨⟨k, by omega, hout⟩, got, htook.losing h⟩
      | .error (.error msg), ⟨got, htook⟩ => exact ⟨got, htook.losing h⟩
    · rw [if_neg hoff]
      exact ⟨⟨0, Nat.zero_le _, Nat.lt_of_not_le hoff⟩, [], h⟩
  write data b seen h := by
    obtain ⟨k, b', hrun, hle, hsent, hgot⟩ := putChars_ends lib.toTivaWare base data 0 b
    have hwrite : (tivaDriver lib (some ⟨base⟩) passes).uartWriteNonblock data b = (.ok k, b') := by
      rw [Nat.zero_add] at hrun
      exact hrun
    rw [hwrite]
    refine ⟨hle, hgot.trans h.taken, hsent.trans ?_⟩
    rw [show putOn base b.log = putInto base b from rfl, h.sent, List.append_assoc]
  record e b seen h := ⟨b, rfl, h.taken, h.sent⟩

/-- **Every program on a port of the Tiva runs as on a world**, whatever the hardware does, if it
does not wait for ever. What was taken and sent are the characters that left the receive FIFO and
those that the transmit FIFO accepted. -/
theorem tiva_client (hlib : CharOrNone lib.toTivaWare) (base : UInt32) (port : Nat)
    (client : Client α) (passes : Nat) (b b' : Board σ) (result : Except Halt α)
    (hrun : client.onDriver (tivaDriver lib (some ⟨base⟩) passes) passes b = (result, b'))
    (hdone : result ≠ .error .pending) :
    AsOnWorld port lib.period (takenOff base) (putInto base) client b result b' :=
  client_asOnWorld port (tivaDriver_sound hlib base passes b) hrun hdone

/-- A board on which the bytes of a list arrive and everything that is sent is accepted. -/
def receiving : UartWare (List UInt8) where
  uartCharGetNonBlocking _
    | [] => (-1, [])
    | c :: rest => (c.toUInt32.toInt32, rest)
  uartCharPutNonBlocking _ _ s := (true, s)
  uartRxErrorGet _ s := (0, s)
  uartRxErrorClear _ s := s
  timeCurrentMs s := (0, s)
  period := 1000
  uartCharsAvail _ s := (!s.isEmpty, s)

theorem receiving_charOrNone : CharOrNone receiving.toTivaWare := by
  intro base s
  cases s with
  | nil => exact .inl rfl
  | cons c rest =>
    have hall : ∀ i : Fin 256, 0 ≤ (UInt8.ofNat i).toUInt32.toInt32 := by decide +kernel
    have hchar := hall ⟨c.toNat, c.toNat_lt⟩
    rw [UInt8.ofNat_toNat] at hchar
    exact .inr hchar

/-- Read two bytes and send them back. -/
def echo : Client Nat :=
  .read (Vector.replicate 2 0) 0 2 0 .none false fun (_, mem) => .write mem.toList 0 .done

theorem tiva_client_echo :
    let run := echo.onDriver (tivaDriver receiving (some ⟨0x4000⟩) 8) 8 ⟨[1, 2, 3], []⟩
    run.1 = .ok 2 ∧
      AsOnWorld 0 1000 (takenOff 0x4000) (putInto 0x4000) echo ⟨[1, 2, 3], []⟩ run.1 run.2 :=
  ⟨by decide +kernel,
    tiva_client receiving_charOrNone 0x4000 0 echo 8 _ _ _ rfl (by decide +kernel)⟩

end Nuhal.Drivers
