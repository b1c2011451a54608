import Nuhal.Lib.Simulation
import Nuhal.Pins.Assignment
import Nuhal.Tiva.Led

/-!
# Pins that are driven (`nuhal_tiva/src/pin_tiva.c:97-209`, `led_tiva.c`)

After `pin_setup` the program reads and writes pins through the data registers of their ports. A pin
is one bit of such a register, and the address of an access says which bits it is about.

The hardware asks for more than the calls: the registers of a port answer only while the port has
its clock, and a few pins keep their function until their port is unlocked and they are committed to
a change. So `pin_configure` enables the port first, and unlocks the pins `PD7` and `PF0`.

* `PinView`, `Gpio`: what the hardware and TivaWare's functions do to the pins.
* `setups_ready`: **a pin that was set up as an output is one**, whatever else is set up, and every
  port with a pin that was set up has its clock.
* `pinWrite_run`, `pinRead_run`: one access.
* `pins_driven`: after any set-up and in any sequence of calls for the pins that were set up, every
  output is a variable of its own, and what an LED shows is three of them.
-/

namespace Nuhal.Pins

open Nuhal.Lib Nuhal.All Nuhal.Tiva

variable {σ : Type} {lib : DriverLib σ} {hwreg : UInt32 → σ → UInt32 × σ} {lit : Place → Bool}
  {s : PinBoard σ}

/-! ## The hardware -/

/-- The pin that a word decodes to. -/
def pinPlace (pin : UInt32) : Place := (pinPort pin, pinNumber pin)

/-- The pin is there. -/
def OnBoard (p : Place) : Prop := p.1.toNat < tivaNumPorts ∧ p.2.toNat < tivaPinsPerPort

/-- The pins whose function is protected: the NMI pins `PD7` and `PF0`, and those of JTAG. -/
def Guarded (p : Place) : Prop := (p.1 = 3 ∧ p.2 = 7) ∨ (p.1 = 5 ∧ p.2 = 0) ∨ IsJtag p

/-- What is relevant of the hardware's state. -/
structure PinView (σ : Type) where
  /-- The port has its clock, so that its registers answer. -/
  clocked : σ → UInt8 → Prop
  /-- The commit register of the port can be written. -/
  unlocked : σ → UInt8 → Prop
  /-- The function of the pin can be changed. -/
  committed : σ → Place → Prop
  output : σ → Place → Prop
  level : σ → Place → Bool

variable {view : PinView σ}

/-- No port loses its clock, and no output becomes something else. -/
structure PinView.Keeps (view : PinView σ) (s s' : σ) : Prop where
  clocked : ∀ port, view.clocked s port → view.clocked s' port
  output : ∀ p, view.output s p → view.output s' p

/-- What is relied on. The levels of pins that are no outputs are not the program's, and may change
at any time. -/
structure Gpio (lib : DriverLib σ) (hwreg : UInt32 → σ → UInt32 × σ) (view : PinView σ) :
    Prop where
  looks : ∀ peripheral s, view.Keeps s (lib.sysCtlPeripheralReady peripheral s).2
  enables : ∀ peripheral s, view.Keeps s (lib.sysCtlPeripheralEnable peripheral s)
  /-- A port that is ready has its clock. -/
  ready : ∀ port peripheral s, sysctlPorts[port.toNat]? = some peripheral →
    (lib.sysCtlPeripheralReady peripheral s).1 = true →
      view.clocked (lib.sysCtlPeripheralReady peripheral s).2 port
  /-- The key opens the lock of a port. -/
  unlocks : ∀ base port s, portBases[port.toNat]? = some base → view.clocked s port →
    view.unlocked (lib.perform (.hwregSet (base + gpioOLock) gpioLockKey) s) port
  commits : ∀ base mask s p, Addresses base mask p → view.clocked s p.1 → view.unlocked s p.1 →
    view.committed (lib.perform (.hwregOr (base + gpioOCr) mask) s) p
  /-- Only the guarded pins have to be committed. -/
  free : ∀ s p, OnBoard p → ¬ Guarded p → view.committed s p
  becomes : ∀ base mask s p, Addresses base mask p → view.clocked s p.1 → view.committed s p →
    view.output (lib.perform (.gpioPinTypeGPIOOutput base mask) s) p
  /-- What is done for one pin stops no clock, and leaves the other pins what they are. -/
  configures : ∀ entry call s, Configurable entry → call ∈ configuration entry →
    view.clocked s (place entry).1 →
      (∀ port, view.clocked s port → view.clocked (lib.perform call s) port) ∧
      ∀ p, place entry ≠ p → view.output s p → view.output (lib.perform call s) p
  writes : ∀ base mask value s p, Addresses base mask p → view.clocked s p.1 →
    view.Keeps s (lib.perform (.hwregSet (dataAddress base mask) value) s)
  /-- A write through the address of a pin's mask sets this pin. -/
  set : ∀ base mask value s p, Addresses base mask p → view.clocked s p.1 → view.output s p →
    view.level (lib.perform (.hwregSet (dataAddress base mask) value) s) p = (value &&& mask != 0)
  others : ∀ base mask value s p q, Addresses base mask p → view.clocked s p.1 → q ≠ p →
    view.output s q →
      view.level (lib.perform (.hwregSet (dataAddress base mask) value) s) q = view.level s q
  reads : ∀ base mask s p, Addresses base mask p → view.clocked s p.1 →
    view.Keeps s (hwreg (dataAddress base mask) s).2 ∧
      ∀ q, view.output s q → view.level (hwreg (dataAddress base mask) s).2 q = view.level s q
  /-- A read gives the bit of this pin alone. -/
  get : ∀ base mask s p, Addresses base mask p → view.clocked s p.1 →
    (hwreg (dataAddress base mask) s).1 = if view.level s p then mask else 0

theorem PinView.Keeps.trans {s s₁ s' : σ} (h : view.Keeps s s₁) (h' : view.Keeps s₁ s') :
    view.Keeps s s' :=
  ⟨fun port hport => h'.clocked port (h.clocked port hport),
    fun p hp => h'.output p (h.output p hp)⟩

/-! ## Enabling a port -/

variable {peripheral : UInt32} {port : UInt8}

/-- A loop that does not use up its count has seen that the port is ready. -/
theorem pollReady_view (h : Gpio lib hwreg view)
    (hport : sysctlPorts[port.toNat]? = some peripheral) {count left : Nat} {s' : PinBoard σ}
    (hrun : pollReady lib peripheral count s = (.ok left, s')) :
    view.Keeps s.hardware s'.hardware ∧ (left ≠ 0 → view.clocked s'.hardware port) := by
  induction count generalizing s with
  | zero =>
    cases hrun
    exact ⟨h.looks peripheral s.hardware, fun hleft => absurd rfl hleft⟩
  | succ count ih =>
    obtain ⟨ready, s₁, hlook, hrest⟩ := Run.bind_eq_ok hrun
    rw [peripheralReady_apply] at hlook
    obtain ⟨hready, rfl⟩ := Prod.mk.inj hlook
    have hkeeps := h.looks peripheral s.hardware
    cases ready with
    | true =>
      cases hrest
      exact ⟨hkeeps, fun _ => h.ready port peripheral s.hardware hport (Except.ok.inj hready)⟩
    | false =>
      obtain ⟨hrest, hclocked⟩ := ih hrest
      exact ⟨hkeeps.trans hrest, hclocked⟩

/-- A port that was enabled has its clock. -/
theorem tivaPeripheralEnable_view (h : Gpio lib hwreg view)
    (hport : sysctlPorts[port.toNat]? = some peripheral) {s' : PinBoard σ}
    (hrun : tivaPeripheralEnable lib peripheral s = (.ok (), s')) :
    view.Keeps s.hardware s'.hardware ∧ view.clocked s'.hardware port := by
  obtain ⟨ready, s₁, hlook, hrest⟩ := Run.bind_eq_ok hrun
  rw [peripheralReady_apply] at hlook
  obtain ⟨hready, rfl⟩ := Prod.mk.inj hlook
  have hkeeps := h.looks peripheral s.hardware
  cases ready with
  | true =>
    cases hrest
    exact ⟨hkeeps, h.ready port peripheral s.hardware hport (Except.ok.inj hready)⟩
  | false =>
    obtain ⟨_, s₂, henable, hrest⟩ := Run.bind_eq_ok hrest
    cases henable
    obtain ⟨left, s₃, hpoll, hrest⟩ := Run.bind_eq_ok hrest
    obtain ⟨hpolled, hclocked⟩ := pollReady_view h hport hpoll
    by_cases hzero : left = 0
    · rw [if_pos hzero] at hrest
      cases hrest
    · rw [if_neg hzero] at hrest
      cases hrest
      exact ⟨(hkeeps.trans (h.enables peripheral _)).trans hpolled, hclocked hzero⟩

/-! ## Setting up -/

/-- The hardware after a series of calls. -/
def performed (lib : DriverLib σ) (calls : List GpioCall) (hardware : σ) : σ :=
  calls.foldl (fun hardware call => lib.perform call hardware) hardware

theorem performAll_hardware (calls : List GpioCall) (s : PinBoard σ) :
    Run.forEach (perform lib) calls s =
      (.ok (), { s with hardware := performed lib calls s.hardware, log := s.log ++ calls }) := by
  induction calls generalizing s with
  | nil =>
    rw [List.append_nil]
    rfl
  | cons call rest ih =>
    have hcons : Run.forEach (perform lib) (call :: rest) s = Run.forEach (perform lib) rest
        { s with hardware := lib.perform call s.hardware, log := s.log ++ [call] } := rfl
    rw [hcons, ih, List.append_assoc]
    rfl

variable {entry : PinConfiguration} {hardware : σ}

/-- The calls for an entry stop no clock, and leave the other pins what they are. -/
theorem performed_others (h : Gpio lib hwreg view) (hentry : Configurable entry)
    {calls : List GpioCall} (hcalls : ∀ call ∈ calls, call ∈ configuration entry)
    (hclocked : view.clocked hardware (place entry).1) :
    (∀ port, view.clocked hardware port → view.clocked (performed lib calls hardware) port) ∧
      ∀ p, place entry ≠ p → view.output hardware p →
        view.output (performed lib calls hardware) p := by
  induction calls generalizing hardware with
  | nil => exact ⟨fun _ hport => hport, fun _ _ hp => hp⟩
  | cons call rest ih =>
    obtain ⟨hclocks, houtputs⟩ :=
      h.configures entry call hardware hentry (hcalls call List.mem_cons_self) hclocked
    obtain ⟨hclocks', houtputs'⟩ := ih (fun call' hcall' =>
      hcalls call' (List.mem_cons_of_mem _ hcall')) (hclocks _ hclocked)
    exact ⟨fun port hport => hclocks' port (hclocks port hport),
      fun p hne hp => houtputs' p hne (houtputs p hne hp)⟩

/-- **One entry**: its port has its clock, and then all is done that there is to do for it. -/
theorem pinConfigure_hardware (h : Gpio lib hwreg view) (hready : BecomesReady lib)
    {taken : List Place} (hmarks : Marks taken s.assignedPins) (hentry : Configurable entry)
    (hfree : place entry ∉ taken) :
    ∃ s' hardware, pinConfigure lib entry.pin entry.type s = (.ok (), s') ∧
      Marks (taken ++ [place entry]) s'.assignedPins ∧ view.Keeps s.hardware hardware ∧
      view.clocked hardware (place entry).1 ∧
      s'.hardware = performed lib (configuration entry) hardware := by
  obtain ⟨assigned, hassign, hmarks'⟩ :=
    pinAssign_of_free hmarks hentry.port (mask_of_number hentry.number) hfree
  obtain ⟨sysctl, hsysctl⟩ : ∃ sysctl, sysctlPorts[(place entry).1.toNat]? = some sysctl :=
    ⟨_, Vector.getElem?_eq_getElem hentry.port⟩
  obtain ⟨hardware, henable⟩ := tivaPeripheralEnable_of_ready hready sysctl
    { s with assignedPins := assigned }
  obtain ⟨hkeeps, hclocked⟩ := tivaPeripheralEnable_view h hsysctl henable
  have hjtag : ¬ ((place entry).1 = 2 ∧ (place entry).2 ≤ 3) := hentry.jtag
  have hrun : pinConfigure lib entry.pin entry.type s =
      Run.forEach (perform lib) (configuration entry)
        { s with hardware, assignedPins := assigned } := by
    rw [pinConfigure_of_range hentry.port hentry.number, Run.bind_of_ok hassign,
      Run.bind_of_ok (element_of_some hsysctl _), Run.bind_of_ok henable, if_neg hjtag,
      pinUnlock_eq, pinFunction_eq _ _ _ hentry.type, ← Run.forEach_append]
    rfl
  exact ⟨_, hardware, hrun.trans (performAll_hardware _ _), hmarks', hkeeps, hclocked, rfl⟩

/-- After the calls that unlock a pin its function can be changed. -/
theorem performed_unlock (h : Gpio lib hwreg view) (hentry : Configurable entry)
    (hclocked : view.clocked hardware (place entry).1) :
    view.committed (performed lib (unlockCalls (place entry) (baseAndMask (place entry)).1
      (baseAndMask (place entry)).2) hardware) (place entry) := by
  have haddress := addresses_baseAndMask hentry.port hentry.number
  by_cases hnmi : ((place entry).1 = 3 ∧ (place entry).2 = 7) ∨
      ((place entry).1 = 5 ∧ (place entry).2 = 0)
  · have hcall : .hwregSet ((baseAndMask (place entry)).1 + gpioOLock) gpioLockKey ∈
        configuration entry := by
      unfold configuration unlockCalls
      rw [if_pos hnmi]
      exact List.mem_append_left _ List.mem_cons_self
    have hstill := (h.configures entry _ hardware hentry hcall hclocked).1 _ hclocked
    have hunlocked := h.unlocks _ _ hardware haddress.1 hclocked
    unfold unlockCalls
    rw [if_pos hnmi]
    exact h.commits _ _ _ _ haddress hstill hunlocked
  · unfold unlockCalls
    rw [if_neg hnmi]
    refine h.free _ _ ⟨hentry.port, hentry.number⟩ ?_
    rintro (hport | hport | hjtag)
    · exact hnmi (.inl hport)
    · exact hnmi (.inr hport)
    · exact hentry.jtag hjtag

/-- An entry of type `PIN_OUTPUT` makes its pin an output. -/
theorem performed_becomes (h : Gpio lib hwreg view) (hentry : Configurable entry)
    (htype : entry.type = .output) (hclocked : view.clocked hardware (place entry).1) :
    view.output (performed lib (configuration entry) hardware) (place entry) := by
  have hcommitted := performed_unlock h hentry hclocked
  have hunlock : ∀ call ∈ unlockCalls (place entry) (baseAndMask (place entry)).1
      (baseAndMask (place entry)).2, call ∈ configuration entry := fun _ hcall =>
    List.mem_append_left _ hcall
  have hstill := (performed_others h hentry hunlock hclocked).1 _ hclocked
  unfold configuration performed
  rw [htype, List.foldl_append]
  exact h.becomes _ _ _ _ (addresses_baseAndMask hentry.port hentry.number) hstill hcommitted

/-- What the entries of some tables have made of the hardware. -/
structure SetUp (view : PinView σ) (entries : List PinConfiguration) (hardware : σ) : Prop where
  clocked : ∀ entry ∈ entries, view.clocked hardware (place entry).1
  output : ∀ entry ∈ entries, entry.type = .output → view.output hardware (place entry)

/-- One more entry. -/
theorem SetUp.step (h : Gpio lib hwreg view) {done : List PinConfiguration} {before : σ}
    (hdone : SetUp view done before) (hkeeps : view.Keeps before hardware)
    (hentry : Configurable entry) (hfree : place entry ∉ done.map place)
    (hclocked : view.clocked hardware (place entry).1) :
    SetUp view (done ++ [entry]) (performed lib (configuration entry) hardware) := by
  obtain ⟨hclocks, houtputs⟩ := performed_others h hentry (fun _ hcall => hcall) hclocked
  refine ⟨fun other hother => ?_, fun other hother htype => ?_⟩
  · rcases List.mem_append.mp hother with hbefore | hnow
    · exact hclocks _ (hkeeps.clocked _ (hdone.clocked other hbefore))
    · rw [List.mem_singleton.mp hnow]
      exact hclocks _ hclocked
  · rcases List.mem_append.mp hother with hbefore | hnow
    · have hne : place entry ≠ place other := fun heq =>
        hfree (heq ▸ List.mem_map_of_mem hbefore)
      exact houtputs _ hne (hkeeps.output _ (hdone.output other hbefore htype))
    · rw [List.mem_singleton.mp hnow] at htype ⊢
      exact performed_becomes h hentry htype hclocked

/-- **What was set up as an output is one**, after any number of tables. -/
theorem setups_ready (h : Gpio lib hwreg view) (hready : BecomesReady lib)
    {done : List PinConfiguration} (entries : List PinConfiguration)
    (hgood : Assignable (done ++ entries)) (hmarks : Marks (done.map place) s.assignedPins)
    (hdone : SetUp view done s.hardware) :
    ∃ s', Run.forEach (fun entry => pinConfigure lib entry.pin entry.type) entries s =
        (.ok (), s') ∧ SetUp view (done ++ entries) s'.hardware := by
  induction entries generalizing done s with
  | nil =>
    rw [List.append_nil]
    exact ⟨s, rfl, hdone⟩
  | cons entry rest ih =>
    rw [List.append_cons] at hgood ⊢
    have hnext := hgood.of_append
    obtain ⟨hentry, hfree⟩ := (assignable_append_iff hnext.of_append entry).mp hnext
    obtain ⟨s₁, hardware, hrun, hmarks₁, hkeeps, hclocked, hperformed⟩ :=
      pinConfigure_hardware h hready hmarks hentry hfree
    have hdone₁ : SetUp view (done ++ [entry]) s₁.hardware := by
      rw [hperformed]
      exact hdone.step h hkeeps hentry hfree hclocked
    rw [← List.map_singleton, ← List.map_append] at hmarks₁
    obtain ⟨s', hrest, hsetup⟩ := ih hgood hmarks₁ hdone₁
    exact ⟨s', (Run.bind_of_ok hrun _).trans hrest, hsetup⟩

/-! ## One access -/

/-- The pins `known` can be accessed, and the outputs among them have these levels. -/
structure Driven (view : PinView σ) (known outputs : Place → Prop) (s : PinBoard σ)
    (lit : Place → Bool) : Prop where
  onBoard : ∀ p, known p → OnBoard p
  clocked : ∀ p, known p → view.clocked s.hardware p.1
  levels : ∀ p, outputs p → view.output s.hardware p ∧ view.level s.hardware p = lit p

/-- What a read of a pin may give. -/
def Seen (outputs : Place → Prop) (lit : Place → Bool) (p : Place) (value : Bool) : Prop :=
  outputs p → value = lit p

variable {known outputs : Place → Prop}

theorem addresses_of_onBoard {p : Place} (h : OnBoard p) :
    Addresses (baseAndMask p).1 (baseAndMask p).2 p :=
  addresses_baseAndMask h.1 h.2

theorem pinBase_run {pin : UInt32} (h : OnBoard (pinPlace pin)) :
    pinBase pin s = (.ok (baseAndMask (pinPlace pin)).1, s) :=
  element_of_some (base_of_port h.1) s

theorem pinMask_run {pin : UInt32} (h : OnBoard (pinPlace pin)) :
    pinMask pin s = (.ok (baseAndMask (pinPlace pin)).2, s) :=
  element_of_some (mask_of_number h.2) s

/-- The mask of a pin is one of the bits that a write sets or clears. -/
theorem written_and_mask (value : Bool) : ∀ i : Fin 8,
    (((if value then 0xFF else 0) : UInt32) &&& portPins[i] != 0) = value := by
  cases value <;> decide

theorem mask_ne_zero : ∀ i : Fin 8, portPins[i] ≠ 0 := by
  decide

/-- **A write sets its pin and no other.** -/
theorem pinWrite_run (h : Gpio lib hwreg view) {pin : UInt32} (hpin : known (pinPlace pin))
    (hdriven : Driven view known outputs s lit) (value : Bool) :
    ∃ s', pinWrite lib pin value s = (.ok (), s') ∧
      Driven view known outputs s' (Function.update lit (pinPlace pin) value) := by
  have hboard := hdriven.onBoard _ hpin
  have hclocked := hdriven.clocked _ hpin
  have haddress := addresses_of_onBoard hboard
  have hkeeps := h.writes _ _ (if value then 0xFF else 0) _ _ haddress hclocked
  refine ⟨_, (Run.bind_of_ok (pinBase_run hboard) _).trans
    (Run.bind_of_ok (pinMask_run hboard) _), hdriven.onBoard,
    fun p hp => hkeeps.clocked _ (hdriven.clocked p hp), fun p hp => ?_⟩
  obtain ⟨houtput, hlevel⟩ := hdriven.levels p hp
  refine ⟨hkeeps.output _ houtput, ?_⟩
  by_cases hsame : p = pinPlace pin
  · subst hsame
    obtain ⟨hlt, hmask⟩ := Vector.getElem?_eq_some_iff.mp haddress.2
    have hbit := written_and_mask value ⟨(pinPlace pin).2.toNat, hlt⟩
    rw [Function.update_self]
    refine (h.set _ _ _ _ _ haddress hclocked houtput).trans ?_
    rw [← hmask]
    exact hbit
  · rw [Function.update_of_ne hsame]
    exact (h.others _ _ _ _ _ _ haddress hclocked hsame houtput).trans hlevel

/-- **A read gives the level of its pin**, and changes nothing. -/
theorem pinRead_run (h : Gpio lib hwreg view) {pin : UInt32} (hpin : known (pinPlace pin))
    (hdriven : Driven view known outputs s lit) :
    ∃ value s', pinRead hwreg pin s = (.ok value, s') ∧
      Seen outputs lit (pinPlace pin) value ∧ Driven view known outputs s' lit := by
  have hboard := hdriven.onBoard _ hpin
  have hclocked := hdriven.clocked _ hpin
  have haddress := addresses_of_onBoard hboard
  obtain ⟨hkeeps, hsame⟩ := h.reads _ _ _ _ haddress hclocked
  refine ⟨view.level s.hardware (pinPlace pin), { s with hardware := (hwreg (dataAddress
    (baseAndMask (pinPlace pin)).1 (baseAndMask (pinPlace pin)).2) s.hardware).2 }, ?_,
    fun hp => (hdriven.levels _ hp).2, hdriven.onBoard,
    fun p hp => hkeeps.clocked _ (hdriven.clocked p hp), fun p hp => ?_⟩
  · have hne : (baseAndMask (pinPlace pin)).2 ≠ 0 := by
      obtain ⟨hlt, hmask⟩ := Vector.getElem?_eq_some_iff.mp haddress.2
      rw [← hmask]
      exact mask_ne_zero ⟨_, hlt⟩
    have hvalue : ((hwreg (dataAddress (baseAndMask (pinPlace pin)).1
        (baseAndMask (pinPlace pin)).2) s.hardware).1 != 0) =
        view.level s.hardware (pinPlace pin) := by
      rw [h.get _ _ _ _ haddress hclocked]
      cases view.level s.hardware (pinPlace pin) with
      | true => exact bne_iff_ne.mpr hne
      | false => rfl
    unfold pinRead
    rw [Run.bind_of_ok (pinBase_run hboard), Run.bind_of_ok (pinMask_run hboard), ← hvalue]
    rfl
  · obtain ⟨houtput, hlevel⟩ := hdriven.levels p hp
    exact ⟨hkeeps.output _ houtput, (hsame p houtput).trans hlevel⟩

/-! ## The LED -/

/-- The three pins of the LED are among them. -/
def LedKnown (known : Place → Prop) : Prop :=
  known (pinPlace pinLedRed) ∧ known (pinPlace pinLedGreen) ∧ known (pinPlace pinLedBlue)

/-- The levels after `led_set`. -/
def litBy (color : UInt32) (lit : Place → Bool) : Place → Bool :=
  Function.update
    (Function.update
      (Function.update lit (pinPlace pinLedRed) (color &&& LedColor.red.code != 0))
      (pinPlace pinLedBlue) (color &&& LedColor.blue.code != 0))
    (pinPlace pinLedGreen) (color &&& LedColor.green.code != 0)

/-- The colour of three levels. -/
def colorOf (red green blue : Bool) : UInt32 :=
  (if red then LedColor.red.code else 0) ||| (if green then LedColor.green.code else 0) |||
    (if blue then LedColor.blue.code else 0)

theorem ledSet_run (h : Gpio lib hwreg view) (hled : LedKnown known)
    (hdriven : Driven view known outputs s lit) (color : UInt32) :
    ∃ s', ledSet lib color s = (.ok (), s') ∧
      Driven view known outputs s' (litBy color lit) := by
  obtain ⟨s₁, hred, hdriven₁⟩ := pinWrite_run h hled.1 hdriven _
  obtain ⟨s₂, hblue, hdriven₂⟩ := pinWrite_run h hled.2.2 hdriven₁ _
  obtain ⟨s₃, hgreen, hdriven₃⟩ := pinWrite_run h hled.2.1 hdriven₂ _
  exact ⟨s₃, (Run.bind_of_ok hred _).trans ((Run.bind_of_ok hblue _).trans hgreen), hdriven₃⟩

/-- The bits that `led_get` puts together. -/
theorem colorOf_eq (red green blue : Bool) :
    ((((0 : UInt8) ||| (if red then LedColor.red.code else 0).toUInt8) |||
        (if green then LedColor.green.code else 0).toUInt8) |||
      (if blue then LedColor.blue.code else 0).toUInt8).toUInt32 = colorOf red green blue := by
  cases red <;> cases green <;> cases blue <;> decide

theorem ledGet_run (h : Gpio lib hwreg view) (hled : LedKnown known)
    (hdriven : Driven view known outputs s lit) :
    ∃ red green blue s', ledGet hwreg s = (.ok (colorOf red green blue), s') ∧
      Seen outputs lit (pinPlace pinLedRed) red ∧ Seen outputs lit (pinPlace pinLedGreen) green ∧
      Seen outputs lit (pinPlace pinLedBlue) blue ∧ Driven view known outputs s' lit := by
  obtain ⟨red, s₁, hred, hseenRed, hdriven₁⟩ := pinRead_run h hled.1 hdriven
  obtain ⟨green, s₂, hgreen, hseenGreen, hdriven₂⟩ := pinRead_run h hled.2.1 hdriven₁
  obtain ⟨blue, s₃, hblue, hseenBlue, hdriven₃⟩ := pinRead_run h hled.2.2 hdriven₂
  refine ⟨red, green, blue, s₃, ?_, hseenRed, hseenGreen, hseenBlue, hdriven₃⟩
  unfold ledGet
  rw [Run.bind_of_ok hred, Run.bind_of_ok hgreen, Run.bind_of_ok hblue, ← colorOf_eq]
  rfl

/-! ## Any sequence of calls -/

/-- A call on pins. -/
inductive PinCall where
  | write (pin : UInt32) (value : Bool)
  | read (pin : UInt32)
  | invert (pin : UInt32)
  | ledSet (color : UInt32)
  | ledGet
  deriving Repr, DecidableEq

/-- What it returns. -/
inductive PinAnswer where
  | done
  | value (value : Bool)
  | color (color : UInt32)
  deriving Repr, DecidableEq

def pinCall (lib : DriverLib σ) (hwreg : UInt32 → σ → UInt32 × σ) : PinCall → OnPins σ PinAnswer
  | .write pin value => do
    pinWrite lib pin value
    return .done
  | .read pin => do return .value (← pinRead hwreg pin)
  | .invert pin => do
    pinInvert lib hwreg pin
    return .done
  | .ledSet color => do
    ledSet lib color
    return .done
  | .ledGet => do return .color (← ledGet hwreg)

/-- The call is for pins that are known. -/
def PinCall.Known (known : Place → Prop) : PinCall → Prop
  | .write pin _ | .read pin | .invert pin => known (pinPlace pin)
  | .ledSet _ | .ledGet => LedKnown known

/-- **What the calls are for**: every output is a variable, which only a call for its pin changes
and a read of it gives. What is read of any other pin is left open. -/
def pinSpec (outputs : Place → Prop) :
    PinCall → (Place → Bool) → PinAnswer → (Place → Bool) → Prop
  | .write pin value, lit, answer, lit' =>
    answer = .done ∧ lit' = Function.update lit (pinPlace pin) value
  | .read pin, lit, answer, lit' =>
    ∃ value, Seen outputs lit (pinPlace pin) value ∧ answer = .value value ∧ lit' = lit
  | .invert pin, lit, answer, lit' =>
    ∃ value, Seen outputs lit (pinPlace pin) value ∧ answer = .done ∧
      lit' = Function.update lit (pinPlace pin) (!value)
  | .ledSet color, lit, answer, lit' => answer = .done ∧ lit' = litBy color lit
  | .ledGet, lit, answer, lit' =>
    ∃ red green blue, Seen outputs lit (pinPlace pinLedRed) red ∧
      Seen outputs lit (pinPlace pinLedGreen) green ∧
      Seen outputs lit (pinPlace pinLedBlue) blue ∧
      answer = .color (colorOf red green blue) ∧ lit' = lit

/-- **One call.** -/
theorem pins_implement (h : Gpio lib hwreg view) :
    Implements (Driven view known outputs) (PinCall.Known known) (pinCall lib hwreg)
      (pinSpec outputs) := by
  intro call s lit hfit hdriven
  cases call with
  | write pin value =>
    obtain ⟨s', hrun, hdriven'⟩ := pinWrite_run h hfit hdriven value
    exact ⟨_, s', _, Run.bind_of_ok hrun _, ⟨rfl, rfl⟩, hdriven'⟩
  | read pin =>
    obtain ⟨value, s', hrun, hseen, hdriven'⟩ := pinRead_run h hfit hdriven
    exact ⟨_, s', lit, Run.bind_of_ok hrun _, ⟨value, hseen, rfl, rfl⟩, hdriven'⟩
  | invert pin =>
    obtain ⟨value, s₁, hread, hseen, hdriven₁⟩ := pinRead_run h hfit hdriven
    obtain ⟨s', hwrite, hdriven'⟩ := pinWrite_run h hfit hdriven₁ (!value)
    have hrun : pinInvert lib hwreg pin s = (.ok (), s') := (Run.bind_of_ok hread _).trans hwrite
    exact ⟨_, s', _, Run.bind_of_ok hrun _, ⟨value, hseen, rfl, rfl⟩, hdriven'⟩
  | ledSet color =>
    obtain ⟨s', hrun, hdriven'⟩ := ledSet_run h hfit hdriven color
    exact ⟨_, s', _, Run.bind_of_ok hrun _, ⟨rfl, rfl⟩, hdriven'⟩
  | ledGet =>
    obtain ⟨red, green, blue, s', hrun, hred, hgreen, hblue, hdriven'⟩ := ledGet_run h hfit hdriven
    exact ⟨_, s', lit, Run.bind_of_ok hrun _, ⟨red, green, blue, hred, hgreen, hblue, rfl, rfl⟩,
      hdriven'⟩

/-- The pins that some tables set up. -/
def pinsOf (entries : List PinConfiguration) (p : Place) : Prop :=
  ∃ entry ∈ entries, place entry = p

/-- The pins that they set up as outputs. -/
def outputsOf (entries : List PinConfiguration) (p : Place) : Prop :=
  ∃ entry ∈ entries, entry.type = .output ∧ place entry = p

/-- After any number of calls of `pin_setup`, with tables that can be set up, the pins can be
accessed and the outputs are outputs. -/
theorem setups_driven (h : Gpio lib hwreg view) (hready : BecomesReady lib)
    {tables : List (List PinConfiguration)} (hgood : Assignable tables.flatten) (hardware : σ) :
    ∃ s lit, setups lib tables (start hardware) = (.ok (), s) ∧
      Driven view (pinsOf tables.flatten) (outputsOf tables.flatten) s lit := by
  have hmarks : Marks (([] : List PinConfiguration).map place) (start hardware).assignedPins :=
    marks_start
  obtain ⟨s, hrun, hsetup⟩ :=
    setups_ready h hready tables.flatten hgood hmarks ⟨nofun, nofun⟩
  refine ⟨s, view.level s.hardware, by rw [setups_eq, hrun], ?_, ?_, ?_⟩
  · rintro p ⟨entry, hentry, rfl⟩
    exact ⟨(hgood.configurable entry hentry).port, (hgood.configurable entry hentry).number⟩
  · rintro p ⟨entry, hentry, rfl⟩
    exact hsetup.clocked entry hentry
  · rintro p ⟨entry, hentry, htype, rfl⟩
    exact ⟨hsetup.output entry hentry htype, rfl⟩

/-- **Every output is a variable of its own.** On hardware that does what `Gpio` says, a program
that has set up its pins, each at most once, and then makes any calls for them, finds in every pin
that was set up as an output what it last put there, by whichever call and under whichever word for
this pin; no call for another pin, no LED and nothing that happens to the inputs changes it. -/
theorem pins_driven (h : Gpio lib hwreg view) (hready : BecomesReady lib)
    (tables : List (List PinConfiguration)) (hgood : Assignable tables.flatten)
    (calls : List PinCall) (hfit : ∀ call ∈ calls, call.Known (pinsOf tables.flatten))
    (hardware : σ) :
    ∃ answers s' lit lit',
      (setups lib tables >>= fun _ => callAll (pinCall lib hwreg) calls) (start hardware) =
        (.ok answers, s') ∧
      Permits (pinSpec (outputsOf tables.flatten)) lit calls answers lit' := by
  obtain ⟨s, lit, hsetups, hdriven⟩ := setups_driven h hready hgood hardware
  obtain ⟨answers, s', lit', hcalls, hpermits, -⟩ := (pins_implement h).calls hfit hdriven
  exact ⟨answers, s', lit, lit', (Run.bind_of_ok hsetups _).trans hcalls, hpermits⟩

/-! ## A board -/

/-- A board: the ports that have their clock and those that are unlocked, by their base address, and
the pins that are committed, outputs or high, by the address of their bit. -/
structure Wiring where
  clocks : UInt32 → Bool
  isUnlocked : UInt32 → Bool
  isCommitted : UInt32 → Bool
  isOutput : UInt32 → Bool
  isHigh : UInt32 → Bool

/-- Where no port has its clock, no pin is an output and all levels are high. -/
def Wiring.off : Wiring :=
  ⟨fun _ => false, fun _ => false, fun _ => false, fun _ => false, fun _ => true⟩

/-- The base address of the port that a register belongs to. -/
def registerBase (address : UInt32) : UInt32 := address &&& 0xFFFFF000

/-- The mask in an address of a data register. -/
def addressMask (address : UInt32) : UInt32 := (address &&& 0x3FC) >>> 2

/-- The base address of the port that is a peripheral. -/
def peripheralBase (peripheral : UInt32) : UInt32 :=
  portBases[(peripheral &&& 0xFF).toNat]?.getD 0

/-- The address of the bit of a pin. -/
def pinAddress (p : Place) : UInt32 := dataAddress (baseAndMask p).1 (baseAndMask p).2

def guardedPlaces : List Place := [(3, 7), (5, 0), (2, 0), (2, 1), (2, 2), (2, 3)]

/-- The function of a pin can be changed. -/
def Wiring.mayChange (s : Wiring) (address : UInt32) : Bool :=
  !(guardedPlaces.map pinAddress).contains address || s.isCommitted address

/-- A pin becomes an output or something else, if it may. -/
def Wiring.setOutput (s : Wiring) (base mask : UInt32) (value : Bool) : Wiring :=
  if s.clocks base && s.mayChange (dataAddress base mask) then
    { s with isOutput := Function.update s.isOutput (dataAddress base mask) value }
  else s

def wiringLib : DriverLib Wiring where
  sysCtlPeripheralReady peripheral s := (s.clocks (peripheralBase peripheral), s)
  sysCtlPeripheralEnable peripheral s :=
    { s with clocks := Function.update s.clocks (peripheralBase peripheral) true }
  perform
    | .hwregSet address value, s =>
      if s.clocks (registerBase address) then
        { s with
          isUnlocked := Function.update s.isUnlocked (address - gpioOLock) (value == gpioLockKey)
          isHigh := Function.update s.isHigh address (value &&& addressMask address != 0) }
      else s
    | .hwregOr address mask, s =>
      if s.clocks (registerBase address) && s.isUnlocked (address - gpioOCr) then
        { s with
          isCommitted := Function.update s.isCommitted (dataAddress (address - gpioOCr) mask) true }
      else s
    | .gpioPinTypeGPIOOutput base mask, s => s.setOutput base mask true
    | .gpioPinTypeGPIOInput base mask, s => s.setOutput base mask false
    | _, s => s

def wiringReg (address : UInt32) (s : Wiring) : UInt32 × Wiring :=
  (if s.clocks (registerBase address) && s.isHigh address then addressMask address else 0, s)

def wiringView : PinView Wiring where
  clocked s port := ∃ base, portBases[port.toNat]? = some base ∧ s.clocks base = true
  unlocked s port := ∃ base, portBases[port.toNat]? = some base ∧ s.isUnlocked base = true
  committed s p := s.mayChange (pinAddress p) = true
  output s p := OnBoard p ∧ s.isOutput (pinAddress p) = true
  level s p := s.isHigh (pinAddress p)

theorem dataAddress_inj : ∀ i i' : Fin 6, ∀ j j' : Fin 8,
    dataAddress portBases[i] portPins[j] = dataAddress portBases[i'] portPins[j'] →
      i = i' ∧ j = j' := by
  decide +kernel

theorem dataAddress_parts : ∀ i : Fin 6, ∀ j : Fin 8,
    registerBase (dataAddress portBases[i] portPins[j]) = portBases[i] ∧
      addressMask (dataAddress portBases[i] portPins[j]) = portPins[j] := by
  decide +kernel

theorem registerBase_lock : ∀ i : Fin 6,
    registerBase (portBases[i] + gpioOLock) = portBases[i] ∧
      registerBase (portBases[i] + gpioOCr) = portBases[i] := by
  decide

theorem peripheralBase_port : ∀ i : Fin 6, peripheralBase sysctlPorts[i] = portBases[i] := by
  decide

theorem pinAddress_eq {base mask : UInt32} {p : Place} (h : Addresses base mask p) :
    dataAddress base mask = pinAddress p ∧ OnBoard p := by
  obtain ⟨hport, hbase⟩ := Vector.getElem?_eq_some_iff.mp h.1
  obtain ⟨hnumber, hmask⟩ := Vector.getElem?_eq_some_iff.mp h.2
  refine ⟨?_, hport, hnumber⟩
  unfold pinAddress baseAndMask
  rw [h.1, h.2]
  rfl

theorem pinAddress_index {p : Place} (h : OnBoard p) :
    ∃ (i : Fin 6) (j : Fin 8), i.val = p.1.toNat ∧ j.val = p.2.toNat ∧
      pinAddress p = dataAddress portBases[i] portPins[j] := by
  refine ⟨⟨_, h.1⟩, ⟨_, h.2⟩, rfl, rfl, ?_⟩
  unfold pinAddress baseAndMask
  rw [Vector.getElem?_eq_getElem h.1, Vector.getElem?_eq_getElem h.2]
  rfl

theorem pinAddress_inj {p q : Place} (hp : OnBoard p) (hq : OnBoard q)
    (h : pinAddress p = pinAddress q) : p = q := by
  obtain ⟨i, j, hi, hj, hpq⟩ := pinAddress_index hp
  obtain ⟨i', j', hi', hj', hpq'⟩ := pinAddress_index hq
  obtain ⟨rfl, rfl⟩ := dataAddress_inj i i' j j' (by rw [← hpq, ← hpq', h])
  exact Prod.ext (UInt8.toNat_inj.mp (hi.symm.trans hi')) (UInt8.toNat_inj.mp (hj.symm.trans hj'))

theorem pinAddress_parts {base mask : UInt32} {p : Place} (h : Addresses base mask p) :
    registerBase (pinAddress p) = base ∧ addressMask (pinAddress p) = mask := by
  obtain ⟨i, j, hi, hj, hp⟩ := pinAddress_index (pinAddress_eq h).2
  obtain ⟨_, hbase⟩ := Vector.getElem?_eq_some_iff.mp h.1
  obtain ⟨_, hmask⟩ := Vector.getElem?_eq_some_iff.mp h.2
  obtain ⟨hregister, haddress⟩ := dataAddress_parts i j
  rw [hp, hregister, haddress, ← hbase, ← hmask]
  exact ⟨congrArg portBases.get (Fin.ext hi), congrArg portPins.get (Fin.ext hj)⟩

theorem guarded_of_mem {p : Place} (hp : OnBoard p)
    (h : pinAddress p ∈ guardedPlaces.map pinAddress) : Guarded p := by
  obtain ⟨q, hq, heq⟩ := List.mem_map.mp h
  have hguarded : ∀ q ∈ guardedPlaces, OnBoard q ∧ Guarded q := by
    simp [guardedPlaces, OnBoard, Guarded, IsJtag, tivaNumPorts, tivaPinsPerPort]
  obtain ⟨hboard, hq⟩ := hguarded q hq
  rwa [← pinAddress_inj hboard hp heq]

/-- The port of a register has its clock. -/
theorem clocks_of_clocked {s : Wiring} {base : UInt32} {port : UInt8}
    (hbase : portBases[port.toNat]? = some base) (h : wiringView.clocked s port) :
    s.clocks base = true := by
  obtain ⟨base', hbase', hclocks⟩ := h
  rwa [Option.some.inj (hbase.symm.trans hbase')]

theorem Wiring.setOutput_clocks (s : Wiring) (base mask : UInt32) (value : Bool) :
    (s.setOutput base mask value).clocks = s.clocks := by
  unfold Wiring.setOutput
  split_ifs <;> rfl

theorem Wiring.setOutput_other (s : Wiring) {base mask address : UInt32} (value : Bool)
    (h : address ≠ dataAddress base mask) :
    (s.setOutput base mask value).isOutput address = s.isOutput address := by
  unfold Wiring.setOutput
  split_ifs
  · exact Function.update_of_ne h _ _
  · rfl

/-- No call takes a clock away. -/
theorem wiring_clocks (call : GpioCall) (s : Wiring) :
    (wiringLib.perform call s).clocks = s.clocks := by
  cases call with
  | hwregSet address value =>
    show (ite _ _ _ : Wiring).clocks = _
    split_ifs <;> rfl
  | hwregOr address mask =>
    show (ite _ _ _ : Wiring).clocks = _
    split_ifs <;> rfl
  | gpioPinTypeGPIOOutput base mask => exact s.setOutput_clocks base mask true
  | gpioPinTypeGPIOInput base mask => exact s.setOutput_clocks base mask false
  | _ => rfl

theorem wiring_written {base mask : UInt32} {p : Place} (haddress : Addresses base mask p)
    {s : Wiring} (hclocked : wiringView.clocked s p.1) (value : UInt32) :
    wiringLib.perform (.hwregSet (dataAddress base mask) value) s =
      { s with
        isUnlocked :=
          Function.update s.isUnlocked (pinAddress p - gpioOLock) (value == gpioLockKey)
        isHigh := Function.update s.isHigh (pinAddress p) (value &&& mask != 0) } := by
  obtain ⟨hbase, hmask⟩ := pinAddress_parts haddress
  rw [(pinAddress_eq haddress).1]
  show ite _ _ _ = _
  rw [hbase, hmask, if_pos (clocks_of_clocked haddress.1 hclocked)]

/-- What is done for an entry changes the output of no other pin. -/
theorem wiring_outputs {entry : PinConfiguration} (hentry : Configurable entry) {call : GpioCall}
    (hcall : call ∈ configuration entry) {s : Wiring} {p : Place} (hboard : OnBoard p)
    (hne : place entry ≠ p) :
    (wiringLib.perform call s).isOutput (pinAddress p) = s.isOutput (pinAddress p) := by
  have hother : ∀ base mask, Addresses base mask (place entry) →
      pinAddress p ≠ dataAddress base mask := by
    intro base mask haddress heq
    obtain ⟨hplace, hplaceBoard⟩ := pinAddress_eq haddress
    exact hne (pinAddress_inj hplaceBoard hboard (heq.trans hplace).symm)
  have hown := addresses_baseAndMask hentry.port hentry.number
  cases call with
  | hwregSet address value =>
    show (ite _ _ _ : Wiring).isOutput _ = _
    split_ifs <;> rfl
  | hwregOr address mask =>
    show (ite _ _ _ : Wiring).isOutput _ = _
    split_ifs <;> rfl
  | gpioPinTypeGPIOOutput base mask =>
    refine s.setOutput_other true (hother base mask ?_)
    unfold configuration at hcall
    cases htype : entry.type <;> grind [unlockCalls, functionCalls]
  | gpioPinTypeGPIOInput base mask =>
    refine s.setOutput_other false (hother base mask ?_)
    unfold configuration at hcall
    cases htype : entry.type <;> grind [unlockCalls, functionCalls]
  | _ => rfl

theorem wiring_gpio : Gpio wiringLib wiringReg wiringView where
  looks _ _ := ⟨fun _ hport => hport, fun _ hp => hp⟩
  enables peripheral s := by
    refine ⟨fun port hport => ?_, fun _ hp => hp⟩
    obtain ⟨base, hbase, hclocks⟩ := hport
    refine ⟨base, hbase, ?_⟩
    show Function.update s.clocks (peripheralBase peripheral) true base = true
    by_cases hsame : base = peripheralBase peripheral
    · rw [hsame, Function.update_self]
    · rw [Function.update_of_ne hsame, hclocks]
  ready port peripheral s hport hready := by
    obtain ⟨hlt, rfl⟩ := Vector.getElem?_eq_some_iff.mp hport
    refine ⟨portBases[port.toNat], Vector.getElem?_eq_getElem hlt, ?_⟩
    have hbase : peripheralBase sysctlPorts[port.toNat] = portBases[port.toNat] :=
      peripheralBase_port ⟨_, hlt⟩
    rw [← hbase]
    exact hready
  unlocks base port s hbase hclocked := by
    refine ⟨base, hbase, ?_⟩
    have hclocks := clocks_of_clocked hbase hclocked
    obtain ⟨hlt, rfl⟩ := Vector.getElem?_eq_some_iff.mp hbase
    have hregister : registerBase (portBases[port.toNat] + gpioOLock) = portBases[port.toNat] :=
      (registerBase_lock ⟨_, hlt⟩).1
    show (ite _ _ _ : Wiring).isUnlocked _ = true
    rw [hregister, if_pos hclocks, UInt32.add_sub_cancel]
    exact Function.update_self _ _ _
  commits base mask s p haddress hclocked hunlocked := by
    have hclocks := clocks_of_clocked haddress.1 hclocked
    obtain ⟨base', hbase', hopen⟩ := hunlocked
    obtain rfl := Option.some.inj (haddress.1.symm.trans hbase')
    obtain ⟨hlt, rfl⟩ := Vector.getElem?_eq_some_iff.mp haddress.1
    have hregister : registerBase (portBases[p.1.toNat] + gpioOCr) = portBases[p.1.toNat] :=
      (registerBase_lock ⟨_, hlt⟩).2
    show Wiring.mayChange (ite _ _ _) _ = true
    rw [hregister, hclocks, UInt32.add_sub_cancel, hopen, Bool.and_self, if_pos rfl,
      (pinAddress_eq haddress).1]
    exact Bool.or_eq_true_iff.mpr (.inr (Function.update_self _ _ _))
  free s p hboard hfree := by
    have hnot : pinAddress p ∉ guardedPlaces.map pinAddress := fun h =>
      hfree (guarded_of_mem hboard h)
    show (!(guardedPlaces.map pinAddress).contains (pinAddress p) || _) = true
    rw [List.contains_eq_mem, decide_eq_false hnot]
    rfl
  becomes base mask s p haddress hclocked hcommitted := by
    obtain ⟨heq, hboard⟩ := pinAddress_eq haddress
    have hmay : s.mayChange (pinAddress p) = true := hcommitted
    refine ⟨hboard, ?_⟩
    show (ite _ _ _ : Wiring).isOutput _ = true
    rw [heq, clocks_of_clocked haddress.1 hclocked, hmay, Bool.and_self, if_pos rfl]
    exact Function.update_self _ _ _
  configures entry call s hentry hcall _ := by
    refine ⟨fun port ⟨base, hbase, hclocks⟩ => ⟨base, hbase, ?_⟩,
      fun p hne ⟨hboard, hset⟩ => ⟨hboard, ?_⟩⟩
    · rw [wiring_clocks, hclocks]
    · rw [wiring_outputs hentry hcall hboard hne, hset]
  writes base mask value s p haddress hclocked := by
    rw [wiring_written haddress hclocked]
    exact ⟨fun _ hport => hport, fun _ hp => hp⟩
  set base mask value s p haddress hclocked _ := by
    rw [wiring_written haddress hclocked]
    exact Function.update_self _ _ _
  others base mask value s p q haddress hclocked hne hq := by
    rw [wiring_written haddress hclocked]
    exact Function.update_of_ne
      (fun h => hne (pinAddress_inj hq.1 (pinAddress_eq haddress).2 h)) _ _
  reads _ _ _ _ _ _ := ⟨⟨fun _ hport => hport, fun _ hp => hp⟩, fun _ _ => rfl⟩
  get base mask s p haddress hclocked := by
    obtain ⟨hbase, hmask⟩ := pinAddress_parts haddress
    show (if s.clocks (registerBase _) && s.isHigh _ then addressMask _ else 0) = _
    rw [(pinAddress_eq haddress).1, hbase, hmask, clocks_of_clocked haddress.1 hclocked,
      Bool.true_and]
    rfl

theorem wiring_ready : BecomesReady wiringLib := fun _ _ =>
  .inr ⟨0, by decide, Function.update_self _ _ _⟩

/-- A button at `PF4` besides the LED: its level is read before and after the red pin is
inverted. -/
theorem pins_driven_button :
    ∃ answers s' lit lit',
      (setups wiringLib [ledPinTable, [⟨pin 5 4, .inputPullUp⟩]] >>= fun _ =>
        callAll (pinCall wiringLib wiringReg)
          [.ledSet 6, .read (pin 5 4), .invert pinLedRed, .read (pin 5 4), .ledGet])
        (start Wiring.off) = (.ok answers, s') ∧
      Permits (pinSpec (outputsOf [ledPinTable, [⟨pin 5 4, .inputPullUp⟩]].flatten)) lit
        [.ledSet 6, .read (pin 5 4), .invert pinLedRed, .read (pin 5 4), .ledGet] answers lit' := by
  refine pins_driven wiring_gpio wiring_ready _ ?_ _ ?_ _
  · refine ⟨fun entry hentry => ?_, by decide⟩
    simp only [ledPinTable, List.flatten_cons, List.flatten_nil, List.cons_append, List.nil_append,
      List.mem_cons, List.not_mem_nil, or_false] at hentry
    rcases hentry with rfl | rfl | rfl | rfl <;> exact
      ⟨by decide, by decide, by decide, fun h => absurd h.1 (by decide)⟩
  · have hset : ∀ entry ∈ [ledPinTable, [⟨pin 5 4, .inputPullUp⟩]].flatten,
        pinsOf [ledPinTable, [⟨pin 5 4, .inputPullUp⟩]].flatten (place entry) :=
      fun entry hentry => ⟨entry, hentry, rfl⟩
    have hled : LedKnown (pinsOf [ledPinTable, [⟨pin 5 4, .inputPullUp⟩]].flatten) :=
      ⟨hset ⟨pinLedRed, .output⟩ (by decide), hset ⟨pinLedGreen, .output⟩ (by decide),
        hset ⟨pinLedBlue, .output⟩ (by decide)⟩
    have hbutton := hset ⟨pin 5 4, .inputPullUp⟩ (by decide)
    intro call hcall
    simp only [List.mem_cons, List.not_mem_nil, or_false] at hcall
    rcases hcall with rfl | rfl | rfl | rfl | rfl
    · exact hled
    · exact hbutton
    · exact hled.1
    · exact hbutton
    · exact hled

end Nuhal.Pins
