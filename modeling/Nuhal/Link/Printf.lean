import Nuhal.Link.BackPressure

/-!
# Formatted text on the wire (`nuhal_all/src/uart.c:103-138`)

`uart_printf` writes the text from a buffer of 1024 characters, and a warning after it if the text
does not fit. It calls `vsnprintf` twice with one `va_list`: for the length, and to fill the buffer.
Where a `va_list` is passed by value, as on ARM, both calls format the same arguments. On x86-64 it
is an array, and the second call starts behind the arguments that the first one has used up. What
the calls do is a `Vsnprintf`: the first one reports the length of the whole text, the second one
stores at most 1023 characters and a NUL.

* `uartWriteBlock_printed`: a blocking write puts its bytes on the wire, however short the single
  writes are.
* `uartPrintf_short`, `uartPrintf_long`: the writes that `uart_printf` makes.
* `printf_exact_iff`: **it puts exactly the text on the wire, with a deadline, unless the text is
  one character long, or does not fit, or is not what the second call stored**. The halved length of
  one character is 0, which means no deadline. The number of characters that fit leaves out the NUL,
  but the length of the buffer and that of the array of the warning do not, so both NULs are
  transmitted.
-/

namespace Nuhal.Link

open Nuhal.Lib Nuhal.All Nuhal.Clock

variable {V : Type} {port : Nat} {data text : List UInt8} {timeout : UInt32} {w : World}

/-! ## What is to be printed -/

/-- A format, on the arguments that a `va_list` stands before. -/
structure Vsnprintf (V : Type) where
  /-- The text. -/
  format : V → List UInt8
  /-- Where a call leaves its caller's `va_list`. -/
  rest : V → V

/-- The buffer of zeros, with a text stored in it. -/
def storedText (text : List UInt8) : Vector UInt8 1024 :=
  ⟨(text.take 1023 ++ List.replicate (1024 - (text.take 1023).length) 0).toArray, by simp⟩

/-- What the two calls in `uart_printf` give. -/
def Vsnprintf.formatting (v : Vsnprintf V) (args : V) : Formatting where
  len := (v.format args).length
  buffer := storedText (v.format (v.rest args))

/-- What is to be transmitted for a text. -/
def onWire (text : List UInt8) : List UInt8 :=
  if text.length < 1024 then text else text.take 1023 ++ truncationWarning

/-- The driver accepts any number of bytes each time, and never fails. -/
def TakesBytes (w : World) : Prop := ∀ answer ∈ w.writes, ∃ count, answer = .bytes count

/-- The bytes `bytes` were transmitted from `w` to `w'`. -/
def Transmits (port : Nat) (bytes : List UInt8) (w w' : World) : Prop :=
  w'.tx = Function.update w.tx port (w.tx port ++ bytes)

/-- How a call that is to transmit `bytes` ends: it has done so, or the driver has not answered
yet, or a deadline has passed. In any case it transmitted nothing else. -/
def Printed (port : Nat) (bytes : List UInt8) (w : World) : Except Halt Nat → World → Prop
  | .ok _, w' => Transmits port bytes w w'
  | .error .pending, w' => w'.writes = [] ∧ ∃ sent, sent <+: bytes ∧ Transmits port sent w w'
  | .error (.error msg), w' => msg = "Timeout on blocking write." ∧
      ∃ sent, sent <+: bytes ∧ Transmits port sent w w'
  | .error .undefined, _ => False

/-- `uart_printf` transmits just what it is to, of the buffer no NUL that ends what was stored
there, and writes a text with a deadline. -/
structure PrintsExactly (port : Nat) (v : Vsnprintf V) (args : V) : Prop where
  wire : ∀ w, TakesBytes w → (uartPrintf port (v.formatting args)).Ends w
    (Printed port (onWire (v.format args)) w)
  noNul : realLen (v.formatting args).len ≤ ((v.format (v.rest args)).take 1023).length
  deadline : v.format args ≠ [] → printfTimeout (v.formatting args).len ≠ 0

/-! ## Blocking writes -/

/-- **A blocking write puts its bytes on the wire**, for every pattern of short writes. -/
theorem uartWriteBlock_printed (port : Nat) (data : List UInt8) (timeout : UInt32)
    (h : TakesBytes w) : (uartWriteBlock port data timeout).Ends w (Printed port data w) := by
  rcases hrun : uartWriteBlock port data timeout w with ⟨r, w'⟩
  refine Run.ends_of_eq hrun ?_
  obtain ⟨sent, hwrites⟩ := (uartWriteBlock_writes port data timeout w).elim hrun
  obtain ⟨i, -, hstops⟩ := (uartWriteBlock_passes port data timeout w).elim hrun
  have hends := hwrites.ends
  have htx := hwrites.given.tx
  cases hstops with
  | timedOut => exact ⟨rfl, sent, hwrites.pre, htx⟩
  | waiting => exact ⟨hends.2, sent, hwrites.pre, htx⟩
  | failed msg _ hanswer =>
    obtain ⟨count, hbytes⟩ := h _ (List.mem_of_getElem? hanswer)
    cases hbytes
  | complete =>
    rw [hends.2] at htx
    exact htx

/-! ## The writes of `uart_printf` -/

variable {formatting : Formatting}

theorem toList_storedText (text : List UInt8) : (storedText text).toList =
    text.take 1023 ++ List.replicate (1024 - (text.take 1023).length) 0 := rfl

theorem realLen_eq (hlen : formatting.len = text.length) :
    realLen formatting.len = min text.length 1024 := by
  unfold realLen printfFits
  rw [hlen, Int.toNat_natCast]
  split_ifs with hfits
  · rw [Nat.min_eq_left (Nat.le_of_lt (of_decide_eq_true hfits))]
  · rw [Nat.min_eq_right (Nat.le_of_not_lt fun hlt => hfits (decide_eq_true hlt))]

/-- A text that fits is one write of the buffer's front. -/
theorem uartPrintf_short (port : Nat) (hlen : formatting.len = text.length)
    (h : text.length < 1024) : uartPrintf port formatting =
      uartWriteBlock port (formatting.buffer.toList.take text.length)
        (UInt32.ofNat (text.length / 2)) := by
  have hfits : printfFits formatting.len = true := by
    simp [printfFits, hlen, h]
  have hreal : realLen formatting.len = text.length := by
    rw [realLen_eq hlen, Nat.min_eq_left (Nat.le_of_lt h)]
  unfold uartPrintf printfTimeout
  rw [if_neg (by rw [hlen]; omega), hreal, hfits]
  exact Run.bind_pure _

/-- For one that does not, the whole buffer is written and then the warning. -/
theorem uartPrintf_long (port : Nat) (hlen : formatting.len = text.length)
    (h : 1024 ≤ text.length) : uartPrintf port formatting = (do
      let result ← uartWriteBlock port formatting.buffer.toList 512
      let _ ← uartWriteBlock port warningArray 30
      return result) := by
  have hfits : printfFits formatting.len = false := by
    simp [printfFits, hlen, h]
  have hreal : realLen formatting.len = 1024 := by
    rw [realLen_eq hlen, Nat.min_eq_right h]
  have hdata : formatting.buffer.toList.take 1024 = formatting.buffer.toList :=
    List.take_of_length_le (Nat.le_of_eq Vector.length_toList)
  have hwarning : UInt32.ofNat (warningArray.length / 2) = 30 := by decide
  unfold uartPrintf printfTimeout
  rw [if_neg (by rw [hlen]; omega), hreal, hdata, hfits, hwarning]
  rfl

/-- The front of a buffer with a text that goes on with what was stored. -/
theorem take_storedText {stored : List UInt8} {k : Nat} (h : k ≤ (stored.take 1023).length) :
    (storedText stored).toList.take k = stored.take k := by
  rw [toList_storedText, List.take_append_of_le_length h, List.take_take, Nat.min_eq_left]
  rw [List.length_take] at h
  omega

/-- A text that the second call stores as the first one has measured it. -/
theorem uartPrintf_of_fits (port : Nat) (hlen : formatting.len = text.length)
    (h : text.length < 1024) {stored : List UInt8} (hbuffer : formatting.buffer = storedText stored)
    (hsame : text <+: stored) :
    uartPrintf port formatting = uartWriteBlock port text (UInt32.ofNat (text.length / 2)) := by
  have hle := hsame.length_le
  rw [uartPrintf_short port hlen h, hbuffer, take_storedText (by rw [List.length_take]; omega),
    ← List.prefix_iff_eq_take.mp hsame]

/-! ## The deadline -/

theorem printfTimeout_toNat (hlen : formatting.len = text.length) :
    (printfTimeout formatting.len).toNat = min text.length 1024 / 2 := by
  unfold printfTimeout
  rw [realLen_eq hlen]
  have hsmall : min text.length 1024 / 2 ≤ 512 := by omega
  exact UInt32.toNat_ofNat_of_lt' (Nat.lt_of_le_of_lt hsmall (by decide))

/-- Only a text of at most one character is written without a deadline. -/
theorem printfTimeout_eq_zero_iff (hlen : formatting.len = text.length) :
    printfTimeout formatting.len = 0 ↔ text.length ≤ 1 := by
  rw [← UInt32.toNat_inj, printfTimeout_toNat hlen]
  show min text.length 1024 / 2 = 0 ↔ _
  omega

/-! ## What goes wrong -/

/-- A world in which the driver takes all bytes of a text and of a warning, and time stands
still. -/
def ready : World :=
  { scheduled [] [] [] with writes := [.bytes 1024, .bytes 1024], clock := fun _ => 0 }

theorem ready_takesBytes : TakesBytes ready := by
  intro answer hanswer
  refine ⟨1024, ?_⟩
  simpa [ready] using hanswer

theorem ready_writes : ready.writes = [.bytes 1024, .bytes 1024] := rfl

/-- What a text that fits puts on the wire: the front of the buffer. -/
theorem uartPrintf_short_wire (port : Nat) (hlen : formatting.len = text.length)
    (h : text.length < 1024) : ∃ count w', uartPrintf port formatting ready = (.ok count, w') ∧
      w'.tx port = formatting.buffer.toList.take text.length := by
  have hlength : (formatting.buffer.toList.take text.length).length ≤ 1024 :=
    (List.length_take_le _ _).trans (Nat.le_of_lt h)
  obtain ⟨w₁, hrun, htx, -⟩ := uartWriteBlock_at_once port (UInt32.ofNat (text.length / 2))
    ready_writes hlength (lookInTime_of_still (fun _ => rfl) 1)
  refine ⟨_, w₁, (congrFun (uartPrintf_short port hlen h) ready).trans hrun, ?_⟩
  rw [htx, Function.update_self]
  rfl

/-- What a text that does not fit puts on the wire: both NULs. -/
theorem uartPrintf_long_wire (port : Nat) (hlen : formatting.len = text.length)
    (h : 1024 ≤ text.length) : ∃ count w', uartPrintf port formatting ready = (.ok count, w') ∧
      w'.tx port = formatting.buffer.toList ++ warningArray := by
  have hlength : formatting.buffer.toList.length ≤ 1024 := Nat.le_of_eq Vector.length_toList
  have hwarning : warningArray.length ≤ 1024 := by decide
  obtain ⟨w₁, hrun₁, htx₁, hwrites₁, hclock₁, -⟩ :=
    uartWriteBlock_at_once port 512 ready_writes hlength (lookInTime_of_still (fun _ => rfl) 1)
  obtain ⟨w₂, hrun₂, htx₂, -⟩ :=
    uartWriteBlock_at_once port 30 hwrites₁ hwarning
      (lookInTime_of_still (fun i => congrFun hclock₁ i) 1)
  refine ⟨formatting.buffer.toList.length, w₂, ?_, ?_⟩
  · rw [uartPrintf_long port hlen h, Run.bind_of_ok hrun₁, Run.bind_of_ok hrun₂]
    rfl
  · rw [htx₂, Function.update_self, htx₁, Function.update_self]
    rfl

variable {v : Vsnprintf V} {args : V}

theorem len_formatting (v : Vsnprintf V) (args : V) :
    (v.formatting args).len = (v.format args).length := rfl

theorem not_printsExactly_of_long (h : 1024 ≤ (v.format args).length) :
    ¬ PrintsExactly port v args := by
  intro hexact
  obtain ⟨count, w', hrun, htx⟩ := uartPrintf_long_wire port (len_formatting v args) h
  have hwire : w'.tx = _ := (hexact.wire ready ready_takesBytes).elim hrun
  have hempty : ready.tx port = [] := rfl
  rw [hwire, Function.update_self, hempty, List.nil_append, onWire,
    if_neg (Nat.not_lt_of_le h)] at htx
  have hlengths := congrArg List.length htx
  unfold warningArray at hlengths
  simp only [List.length_append, List.length_take, Vector.length_toList,
    List.length_singleton] at hlengths
  omega

/-- A text that was printed is what was stored. -/
theorem stored_of_printsExactly (hexact : PrintsExactly port v args)
    (h : (v.format args).length < 1024) : v.format args <+: v.format (v.rest args) := by
  obtain ⟨count, w', hrun, htx⟩ :=
    uartPrintf_short_wire port (len_formatting v args) h
  have hwire : w'.tx = _ := (hexact.wire ready ready_takesBytes).elim hrun
  have hroom := hexact.noNul
  rw [realLen_eq (len_formatting v args), Nat.min_eq_left (Nat.le_of_lt h)] at hroom
  rw [hwire, Function.update_self, onWire, if_pos h,
    show (v.formatting args).buffer = storedText (v.format (v.rest args)) from rfl,
    take_storedText hroom] at htx
  have htext : v.format args = _ := htx
  rw [htext]
  exact List.take_prefix _ _

/-- **`uart_printf` puts exactly the text on the wire, with a deadline, unless the text is one
character long, or does not fit, or is not what the second call stored.** -/
theorem printf_exact_iff (port : Nat) (v : Vsnprintf V) (args : V) :
    PrintsExactly port v args ↔ (v.format args).length < 1024 ∧ (v.format args).length ≠ 1 ∧
      v.format args <+: v.format (v.rest args) := by
  have hlen : (v.formatting args).len = (v.format args).length := rfl
  constructor
  · intro hexact
    have hfits := Nat.lt_of_not_le fun hlong => not_printsExactly_of_long hlong hexact
    refine ⟨hfits, fun hone => ?_, stored_of_printsExactly hexact hfits⟩
    have htext : v.format args ≠ [] := List.length_pos_iff.mp (by omega)
    exact hexact.deadline htext ((printfTimeout_eq_zero_iff hlen).mpr (Nat.le_of_eq hone))
  · rintro ⟨hfits, hone, hsame⟩
    refine ⟨fun w hw => ?_, ?_, fun htext hzero => ?_⟩
    · unfold onWire
      rw [uartPrintf_of_fits port hlen hfits rfl hsame, if_pos hfits]
      exact uartWriteBlock_printed port _ _ hw
    · have hle := hsame.length_le
      rw [realLen_eq hlen, List.length_take]
      omega
    · have hpos := List.length_pos_iff.mpr htext
      have hle := (printfTimeout_eq_zero_iff hlen).mp hzero
      omega

/-- A text without conversions: the `va_list` makes no difference. -/
def plain (text : List UInt8) : Vsnprintf Unit := ⟨fun _ => text, id⟩

/-- The format `%d` where a call uses up the argument. Behind the last one it finds a zero. -/
def usedUp : Vsnprintf (List (List UInt8)) := ⟨fun args => args.headD [0x30], List.tail⟩

/-- **A text of 1024 characters**, whose last one makes room for a NUL that is transmitted; and
**the number 42**, for which `0` and a NUL are. -/
theorem printf_nul_transmitted :
    ¬ PrintsExactly 0 (plain (List.replicate 1024 0x61)) () ∧
      ¬ PrintsExactly 0 usedUp [[0x34, 0x32]] := by
  refine ⟨not_printsExactly_of_long (Nat.le_of_eq List.length_replicate.symm), fun hexact => ?_⟩
  exact absurd hexact.noNul (by decide)

end Nuhal.Link
