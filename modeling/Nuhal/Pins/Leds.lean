import Nuhal.Linux.Led
import Nuhal.Pins.Driving

/-!
# The LED is the same on both platforms (`led_tiva.c`, `led_host.c`)

`led.h` promises one LED with eight colours, "to write some code that works on both host and tiva".
On the Tiva it is three pins among others, on Linux a variable and a text.

* `LedCall`, `ledRegister`: the LED as a register of three bits.
* `tivaLed_simulates`, `hostLed_simulates`: either platform has such a register.
* `led_platforms_agree`: the same calls are answered in the same way. They differ for a value that
  is no colour: the Tiva takes its lower bits, Linux ends in `error`.
-/

namespace Nuhal.Pins

open Nuhal.Lib Nuhal.All Nuhal.Tiva

variable {σ : Type} {lib : DriverLib σ} {hwreg : UInt32 → σ → UInt32 × σ}
  {view : PinView σ} {known outputs : Place → Prop}

/-! ## One LED -/

/-- A call of `led.h`. -/
inductive LedCall where
  | set (color : UInt32)
  | get
  deriving Repr, DecidableEq

/-- The colour is one that `enum led_color` names. -/
def LedCall.Named : LedCall → Prop
  | .set color => color ≤ 7
  | .get => True

/-- Three bits that a call sets or gives. -/
def ledRegister : LedCall → UInt32 → Option UInt32 × UInt32
  | .set color, _ => (none, color &&& 7)
  | .get, color => (some color, color)

def tivaLed (lib : DriverLib σ) (hwreg : UInt32 → σ → UInt32 × σ) :
    LedCall → OnPins σ (Option UInt32)
  | .set color => do
    ledSet lib color
    return none
  | .get => do return some (← ledGet hwreg)

def hostLed : LedCall → Linux.OnLed (Option UInt32)
  | .set color => do
    Linux.ledSet color
    return none
  | .get => do return some (← Linux.ledGet)

theorem eq_ofNat_of_le {color : UInt32} (h : color ≤ 7) : ∃ i : Fin 8, color = UInt32.ofNat i :=
  ⟨⟨color.toNat, Nat.lt_succ_of_le (UInt32.le_iff_toNat_le.mp h)⟩, UInt32.ofNat_toNat.symm⟩

theorem and_seven_le (color : UInt32) : color &&& 7 ≤ 7 := by
  rw [UInt32.le_iff_toNat_le, UInt32.toNat_and]
  exact Nat.and_le_right

theorem and_seven_of_le {color : UInt32} (h : color ≤ 7) : color &&& 7 = color := by
  obtain ⟨i, rfl⟩ := eq_ofNat_of_le h
  revert i
  decide

/-- A colour that is set makes the one before it irrelevant. -/
theorem specAll_set (first : UInt32) (calls : List LedCall) (color color' : UInt32) :
    (specAll ledRegister (.set first :: calls) color).1 =
      (specAll ledRegister (.set first :: calls) color').1 := rfl

/-! ## The Tiva -/

/-- The pins of the LED are outputs and show a colour. -/
def Shows (view : PinView σ) (known outputs : Place → Prop) (s : PinBoard σ) (color : UInt32) :
    Prop :=
  ∃ lit, Driven view known outputs s lit ∧
    colorOf (lit (pinPlace pinLedRed)) (lit (pinPlace pinLedGreen)) (lit (pinPlace pinLedBlue)) =
      color

/-- The three bits are the lower three of what was set. -/
theorem colorOf_litBy (color : UInt32) (lit : Place → Bool) :
    colorOf (litBy color lit (pinPlace pinLedRed)) (litBy color lit (pinPlace pinLedGreen))
      (litBy color lit (pinPlace pinLedBlue)) = color &&& 7 := by
  have hred : litBy color lit (pinPlace pinLedRed) = (color &&& LedColor.red.code != 0) := rfl
  have hgreen : litBy color lit (pinPlace pinLedGreen) = (color &&& LedColor.green.code != 0) := rfl
  have hblue : litBy color lit (pinPlace pinLedBlue) = (color &&& LedColor.blue.code != 0) := rfl
  have hbit : ∀ bit : UInt32, 7 &&& bit = bit → color &&& bit = (color &&& 7) &&& bit := by
    intro bit h
    rw [UInt32.and_assoc, h]
  rw [hred, hgreen, hblue, hbit _ (by decide), hbit LedColor.green.code (by decide),
    hbit LedColor.blue.code (by decide)]
  obtain ⟨i, hi⟩ := eq_ofNat_of_le (and_seven_le color)
  rw [hi]
  clear hi
  revert i
  decide

theorem tivaLed_simulates (h : Gpio lib hwreg view) (hknown : LedKnown known)
    (hled : LedKnown outputs) :
    Simulates (Shows view known outputs) (fun _ => True) (tivaLed lib hwreg) ledRegister := by
  rintro call s color - ⟨lit, hdriven, rfl⟩
  cases call with
  | set color =>
    obtain ⟨s', hrun, hdriven'⟩ := ledSet_run h hknown hdriven color
    exact ⟨s', Run.bind_of_ok hrun _, _, hdriven', colorOf_litBy color lit⟩
  | get =>
    obtain ⟨red, green, blue, s', hrun, hred, hgreen, hblue, hdriven'⟩ :=
      ledGet_run h hknown hdriven
    cases hred hled.1
    cases hgreen hled.2.1
    cases hblue hled.2.2
    exact ⟨s', Run.bind_of_ok hrun _, lit, hdriven', rfl⟩

/-! ## Linux -/

/-- What a call prints. -/
def LedCall.text : LedCall → List String
  | .set color => (Linux.ledText color).toList
  | .get => []

theorem ledText_of_le {color : UInt32} (h : color ≤ 7) : (Linux.ledText color).isSome := by
  obtain ⟨i, rfl⟩ := eq_ofNat_of_le h
  revert i
  decide

theorem ledText_of_lt {color : UInt32} (h : ¬ color ≤ 7) : Linux.ledText color = none := by
  unfold Linux.ledText
  split_ifs with hc hc hc hc hc hc hc hc
  all_goals first | rfl | exact absurd (hc ▸ by decide) h

theorem hostLed_named {call : LedCall} (h : call.Named) (led : Linux.HostLed) :
    hostLed call led = (.ok (ledRegister call led.color).1,
      { color := (ledRegister call led.color).2, printed := led.printed ++ call.text }) := by
  cases call with
  | set color =>
    obtain ⟨text, htext⟩ := Option.isSome_iff_exists.mp (ledText_of_le h)
    have hset : Linux.ledSet color led =
        (.ok (), { color, printed := led.printed ++ [text] }) := by
      unfold Linux.ledSet
      rw [htext]
      rfl
    rw [ledRegister, and_seven_of_le h, LedCall.text, htext]
    exact Run.bind_of_ok hset _
  | get =>
    rw [LedCall.text, List.append_nil]
    rfl

theorem hostLed_unnamed {call : LedCall} (h : ¬ call.Named) (led : Linux.HostLed) :
    hostLed call led = (.error (.error "Unknown color"), led) := by
  cases call with
  | set color =>
    show (Linux.ledSet color >>= fun _ => pure none) led = _
    unfold Linux.ledSet
    rw [ledText_of_lt h]
    rfl
  | get => exact absurd trivial h

/-- **The host's LED is the register too**, as long as it is given colours. -/
theorem hostLed_simulates :
    Simulates (fun led color => led.color = color) LedCall.Named hostLed ledRegister := by
  rintro call led color hnamed rfl
  exact ⟨_, hostLed_named hnamed led, rfl⟩

/-- What the host prints, and where it ends in `error`. -/
theorem hostLed_run (calls : List LedCall) (led : Linux.HostLed) :
    ((∀ call ∈ calls, call.Named) →
      (callAll hostLed calls led).2.printed = led.printed ++ calls.flatMap LedCall.text) ∧
    ((∃ call ∈ calls, ¬ call.Named) →
      (callAll hostLed calls led).1 = .error (.error "Unknown color")) := by
  induction calls generalizing led with
  | nil => exact ⟨fun _ => (List.append_nil _).symm, fun ⟨_, hmem, _⟩ => nomatch hmem⟩
  | cons call rest ih =>
    by_cases hcall : call.Named
    · obtain ⟨hprinted, hstops⟩ :=
        ih { color := (ledRegister call led.color).2, printed := led.printed ++ call.text }
      rw [callAll_cons (hostLed_named hcall led)]
      refine ⟨fun hall => ?_, ?_⟩
      · rw [List.flatMap_cons, ← List.append_assoc]
        exact hprinted fun other hother => hall other (List.mem_cons_of_mem _ hother)
      · rintro ⟨other, hmem, hother⟩
        rcases List.mem_cons.mp hmem with rfl | hmem
        · exact absurd hcall hother
        · rw [hstops ⟨other, hmem, hother⟩]
          rfl
    · refine ⟨fun hall => absurd (hall _ List.mem_cons_self) hcall, fun _ => ?_⟩
      unfold callAll
      rw [Run.bind_of_error (hostLed_unnamed hcall led)]

/-! ## Both -/

/-- A program for the Tiva: `led_setup` between calls of `pin_setup`, and then calls for the LED. -/
def tivaProgram (lib : DriverLib σ) (hwreg : UInt32 → σ → UInt32 × σ)
    (before after : List (List PinConfiguration)) (calls : List LedCall) :
    OnPins σ (List (Option UInt32)) := do
  setups lib before
  Tiva.ledSetup lib
  setups lib after
  callAll (tivaLed lib hwreg) calls

/-- The same calls on the host, which has no pins. -/
def hostProgram (calls : List LedCall) : Linux.OnLed (List (Option UInt32)) := do
  Linux.ledSetup
  callAll hostLed calls

/-- `led_setup` is `pin_setup` with a table of its own. -/
theorem tivaProgram_eq (before after : List (List PinConfiguration)) (calls : List LedCall) :
    tivaProgram lib hwreg before after calls =
      (setups lib (before ++ ledPinTable :: after) >>= fun _ =>
        callAll (tivaLed lib hwreg) calls) := by
  unfold setups
  rw [Run.forEach_append, Run.bind_assoc]
  show (_ >>= fun _ => _ >>= fun _ => _) = (_ >>= fun _ => (_ >>= fun _ => _) >>= fun _ => _)
  rw [Run.bind_assoc]
  rfl

/-- The entries of `led_setup` make the three pins outputs. -/
theorem ledKnown_of_mem {tables : List (List PinConfiguration)} (hled : ledPinTable ∈ tables) :
    LedKnown (outputsOf tables.flatten) := by
  have hentry : ∀ entry ∈ ledPinTable, entry.type = .output →
      outputsOf tables.flatten (place entry) := fun entry hentry htype =>
    ⟨entry, List.mem_flatten_of_mem hled hentry, htype, rfl⟩
  exact ⟨hentry ⟨pinLedRed, .output⟩ (by simp [ledPinTable]) rfl,
    hentry ⟨pinLedGreen, .output⟩ (by simp [ledPinTable]) rfl,
    hentry ⟨pinLedBlue, .output⟩ (by simp [ledPinTable]) rfl⟩

theorem pinsOf_of_outputsOf {entries : List PinConfiguration} {p : Place}
    (h : outputsOf entries p) : pinsOf entries p := by
  obtain ⟨entry, hentry, -, hplace⟩ := h
  exact ⟨entry, hentry, hplace⟩

/-- **Code for the LED does the same on both platforms.** Once a colour has been set, every sequence
of calls is answered on the Tiva as by a register of the lower three bits, with `led_setup` anywhere
among the calls of `pin_setup`; as long as all values are colours, the host gives the same answers,
and prints the colours in their order. A value that is no colour ends in `error` on the host. -/
theorem led_platforms_agree (h : Gpio lib hwreg view) (hready : BecomesReady lib)
    (before after : List (List PinConfiguration))
    (hgood : Assignable (before ++ ledPinTable :: after).flatten) (first : UInt32)
    (calls : List LedCall) (hardware : σ) :
    ∃ answers s',
      tivaProgram lib hwreg before after (.set first :: calls) (start hardware) =
        (.ok answers, s') ∧
      answers = (specAll ledRegister (.set first :: calls) 0).1 ∧
      ((∀ call ∈ .set first :: calls, call.Named) →
        ∃ led, hostProgram (.set first :: calls) Linux.ledOff = (.ok answers, led) ∧
          led.printed = (.set first :: calls).flatMap LedCall.text) ∧
      ((∃ call ∈ .set first :: calls, ¬ call.Named) →
        (hostProgram (.set first :: calls) Linux.ledOff).1 = .error (.error "Unknown color")) := by
  obtain ⟨s, lit, hsetups, hdriven⟩ := setups_driven h hready hgood hardware
  have hled : ledPinTable ∈ before ++ ledPinTable :: after :=
    List.mem_append_right _ List.mem_cons_self
  have houtputs := ledKnown_of_mem hled
  have hknown : LedKnown (pinsOf (before ++ ledPinTable :: after).flatten) :=
    ⟨pinsOf_of_outputsOf houtputs.1, pinsOf_of_outputsOf houtputs.2.1,
      pinsOf_of_outputsOf houtputs.2.2⟩
  obtain ⟨s', hcalls, -⟩ := (tivaLed_simulates h hknown houtputs).calls
    (show ∀ call ∈ LedCall.set first :: calls, True from fun _ _ => trivial) ⟨lit, hdriven, rfl⟩
  rw [specAll_set first calls _ 0] at hcalls
  obtain ⟨hprinted, hstops⟩ := hostLed_run (.set first :: calls) Linux.ledOff
  rw [tivaProgram_eq]
  refine ⟨_, s', (Run.bind_of_ok hsetups _).trans hcalls, rfl, fun hnamed => ?_, hstops⟩
  obtain ⟨led, hrun, -⟩ := hostLed_simulates.calls hnamed
    (show Linux.ledOff.color = 0 from rfl)
  refine ⟨led, hrun, ?_⟩
  have htexts := hprinted hnamed
  rw [hrun] at htexts
  exact htexts

theorem led_platforms_agree_yellow :
    ∃ answers s',
      tivaProgram wiringLib wiringReg [] [[⟨pin 5 4, .inputPullUp⟩]]
        [.set 6, .get, .set 1, .get] (start Wiring.off) = (.ok answers, s') ∧
      answers = [none, some 6, none, some 1] ∧
      ∃ led, hostProgram [.set 6, .get, .set 1, .get] Linux.ledOff = (.ok answers, led) ∧
        led.printed = ["LED: YELLOW\n", "LED: BLUE \n"] := by
  have hgood : Assignable ([] ++ ledPinTable :: [[⟨pin 5 4, .inputPullUp⟩]]).flatten := by
    refine ⟨fun entry hentry => ?_, by decide⟩
    simp only [ledPinTable, List.flatten_cons, List.flatten_nil, List.cons_append, List.nil_append,
      List.mem_cons, List.not_mem_nil, or_false] at hentry
    rcases hentry with rfl | rfl | rfl | rfl <;> exact
      ⟨by decide, by decide, by decide, fun h => absurd h.1 (by decide)⟩
  obtain ⟨answers, s', hrun, hanswers, hhost, -⟩ := led_platforms_agree wiring_gpio wiring_ready
    [] [[⟨pin 5 4, .inputPullUp⟩]] hgood 6 [.get, .set 1, .get] Wiring.off
  refine ⟨answers, s', hrun, hanswers, hhost fun call hcall => ?_⟩
  simp only [List.mem_cons, List.not_mem_nil, or_false] at hcall
  rcases hcall with rfl | rfl | rfl | rfl
  · exact UInt32.le_iff_toNat_le.mpr (by decide)
  · trivial
  · exact UInt32.le_iff_toNat_le.mpr (by decide)
  · trivial

end Nuhal.Pins
