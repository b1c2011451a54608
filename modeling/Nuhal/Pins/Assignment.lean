import Nuhal.Pins.Bitmap

/-!
# Exclusive assignment of pins (`nuhal_tiva/src/pin_tiva.c:81-191`)

The tables of all calls of `pin_setup` are one list of entries, each of which claims the pin its
word decodes to.

* `Assignable`: every entry names a pin that may be configured, and no two the same.
* `tivaPeripheralEnable_of_ready`, `pinUnlock_eq`, `pinFunction_eq`: what the steps of
  `pin_configure` do.
* `pinConfigure_accepts`, `pinConfigure_rejects`: one entry, after those that came before.
* `pin_setup_exclusive`: **a run completes just if its entries are assignable**, and however it
  ends, the pins that were configured are those of assignable entries.
-/

namespace Nuhal.Pins

open Nuhal.Lib Nuhal.All Nuhal.Tiva

variable {σ : Type} {lib : DriverLib σ}

/-! ## What a run is to do -/

/-- The pin that an entry decodes to. -/
def place (entry : PinConfiguration) : Place := (pinPort entry.pin, pinNumber entry.pin)

/-- The JTAG pins `PC0` to `PC3`. -/
def IsJtag (p : Place) : Prop := p.1 = 2 ∧ p.2 ≤ 3

/-- An entry for a pin there is and may be configured, of a type there is. -/
structure Configurable (entry : PinConfiguration) : Prop where
  port : (place entry).1.toNat < tivaNumPorts
  number : (place entry).2.toNat < tivaPinsPerPort
  type : entry.type ≠ .unknown
  jtag : ¬ IsJtag (place entry)

/-- Entries that can all be configured. -/
structure Assignable (entries : List PinConfiguration) : Prop where
  configurable : ∀ entry ∈ entries, Configurable entry
  exclusive : (entries.map place).Nodup

/-- What unlocks a pin. -/
def unlockCalls (p : Place) (base mask : UInt32) : List GpioCall :=
  if (p.1 = 3 ∧ p.2 = 7) ∨ (p.1 = 5 ∧ p.2 = 0) then
    [.hwregSet (base + gpioOLock) gpioLockKey, .hwregOr (base + gpioOCr) mask]
  else []

/-- What gives a pin its function. -/
def functionCalls (pin base mask : UInt32) : PinType → List GpioCall
  | .uart => [.gpioPinConfigure pin, .gpioPinTypeUART base mask]
  | .output => [.gpioPinTypeGPIOOutput base mask]
  | .input => [.gpioPinTypeGPIOInput base mask, .gpioDirModeSet base mask gpioDirModeIn]
  | .inputPullUp =>
    [.gpioPinTypeGPIOInput base mask, .gpioDirModeSet base mask gpioDirModeIn,
      .gpioPadConfigSet base mask gpioStrength2ma gpioPinTypeStdWpu]
  | .can => [.gpioPinConfigure pin, .gpioPinTypeCAN base mask]
  | .ssi => [.gpioPinConfigure pin, .gpioPinTypeSSI base mask]
  | .qei => [.gpioPinConfigure pin, .gpioPinTypeQEI base mask]
  | .pwm => [.gpioPinConfigure pin, .gpioPinTypePWM base mask]
  | .unknown => []

/-- The base address of a pin's port and the mask of its number. -/
def baseAndMask (p : Place) : UInt32 × UInt32 :=
  (portBases[p.1.toNat]?.getD 0, portPins[p.2.toNat]?.getD 0)

/-- All that is to be done for an entry. -/
def configuration (entry : PinConfiguration) : List GpioCall :=
  unlockCalls (place entry) (baseAndMask (place entry)).1 (baseAndMask (place entry)).2 ++
    functionCalls entry.pin (baseAndMask (place entry)).1 (baseAndMask (place entry)).2 entry.type

/-- `GPIOPinConfigure` or one of the `GPIOPinType` functions. -/
def isPinCall : GpioCall → Bool
  | .gpioPinConfigure _ | .gpioPinTypeUART _ _ | .gpioPinTypeGPIOOutput _ _
  | .gpioPinTypeGPIOInput _ _ | .gpioPinTypeCAN _ _ | .gpioPinTypeSSI _ _
  | .gpioPinTypeQEI _ _ | .gpioPinTypePWM _ _ => true
  | _ => false

/-- `base` and `mask` are those of the pin `p`. -/
def Addresses (base mask : UInt32) (p : Place) : Prop :=
  portBases[p.1.toNat]? = some base ∧ portPins[p.2.toNat]? = some mask

/-- The call configures the pin `p`. -/
def Configures : GpioCall → Place → Prop
  | .gpioPinConfigure pin, p => (pinPort pin, pinNumber pin) = p
  | .gpioPinTypeUART base mask, p | .gpioPinTypeGPIOOutput base mask, p
  | .gpioPinTypeGPIOInput base mask, p | .gpioPinTypeCAN base mask, p
  | .gpioPinTypeSSI base mask, p | .gpioPinTypeQEI base mask, p
  | .gpioPinTypePWM base mask, p => Addresses base mask p
  | _, _ => False

/-! ## Enabling a peripheral -/

/-- The hardware after `k` more looks at a peripheral. -/
def looked (lib : DriverLib σ) (peripheral : UInt32) : Nat → σ → σ
  | 0, s => s
  | k + 1, s => looked lib peripheral k (lib.sysCtlPeripheralReady peripheral s).2

/-- Every peripheral is ready, or becomes ready within the looks that the code takes. -/
def BecomesReady (lib : DriverLib σ) : Prop :=
  ∀ peripheral s, (lib.sysCtlPeripheralReady peripheral s).1 = true ∨
    ∃ k < 100, (lib.sysCtlPeripheralReady peripheral (looked lib peripheral k
      (lib.sysCtlPeripheralEnable peripheral
        (lib.sysCtlPeripheralReady peripheral s).2))).1 = true

theorem peripheralReady_apply (peripheral : UInt32) (s : PinBoard σ) :
    peripheralReady lib peripheral s =
      (.ok (lib.sysCtlPeripheralReady peripheral s.hardware).1,
        { s with hardware := (lib.sysCtlPeripheralReady peripheral s.hardware).2 }) := rfl

/-- A peripheral that is ready at one of the looks leaves some of the count. -/
theorem pollReady_pos {peripheral : UInt32} :
    ∀ (count k : Nat) (s : PinBoard σ), k < count →
      (lib.sysCtlPeripheralReady peripheral (looked lib peripheral k s.hardware)).1 = true →
      ∃ left hardware, pollReady lib peripheral count s = (.ok left, { s with hardware }) ∧
        left ≠ 0
  | 0, _, _, hk, _ => absurd hk (Nat.not_lt_zero _)
  | count + 1, k, s, hk, hready => by
    unfold pollReady
    rw [Run.bind_of_ok (peripheralReady_apply peripheral s)]
    cases hnow : (lib.sysCtlPeripheralReady peripheral s.hardware).1 with
    | true => exact ⟨count + 1, _, rfl, Nat.succ_ne_zero count⟩
    | false =>
      cases k with
      | zero =>
        have hlooked := hready
        unfold looked at hlooked
        rw [hnow] at hlooked
        exact absurd hlooked Bool.false_ne_true
      | succ k =>
        exact pollReady_pos count k
          { s with hardware := (lib.sysCtlPeripheralReady peripheral s.hardware).2 }
          (Nat.lt_of_succ_lt_succ hk) hready

/-- A peripheral that becomes ready is enabled, and nothing but the hardware changes. -/
theorem tivaPeripheralEnable_of_ready (hready : BecomesReady lib) (peripheral : UInt32)
    (s : PinBoard σ) :
    ∃ hardware, tivaPeripheralEnable lib peripheral s = (.ok (), { s with hardware }) := by
  unfold tivaPeripheralEnable
  rw [Run.bind_of_ok (peripheralReady_apply peripheral s)]
  cases hnow : (lib.sysCtlPeripheralReady peripheral s.hardware).1 with
  | true => exact ⟨_, rfl⟩
  | false =>
    obtain ⟨k, hk, hthen⟩ := (hready peripheral s.hardware).resolve_left (by simp [hnow])
    let enabled : PinBoard σ := { s with
      hardware := lib.sysCtlPeripheralEnable peripheral
        (lib.sysCtlPeripheralReady peripheral s.hardware).2 }
    obtain ⟨left, hardware, hpoll, hleft⟩ := pollReady_pos 100 k enabled hk hthen
    refine ⟨hardware, ?_⟩
    have henable : peripheralEnable lib peripheral
        { s with hardware := (lib.sysCtlPeripheralReady peripheral s.hardware).2 } =
        (.ok (), enabled) := rfl
    rw [if_neg Bool.false_ne_true, Run.bind_of_ok henable, Run.bind_of_ok hpoll, if_neg hleft]
    rfl

/-! ## The steps of `pin_configure` -/

/-- A series of calls is in the log afterwards. -/
theorem performAll (lib : DriverLib σ) (calls : List GpioCall) (s : PinBoard σ) :
    ∃ hardware, Run.forEach (perform lib) calls s =
      (.ok (), { s with hardware, log := s.log ++ calls }) := by
  induction calls generalizing s with
  | nil => exact ⟨s.hardware, by rw [List.append_nil]; rfl⟩
  | cons call rest ih =>
    obtain ⟨hardware, hrest⟩ := ih
      { s with hardware := lib.perform call s.hardware, log := s.log ++ [call] }
    refine ⟨hardware, ?_⟩
    have hcons : Run.forEach (perform lib) (call :: rest) s = Run.forEach (perform lib) rest
        { s with hardware := lib.perform call s.hardware, log := s.log ++ [call] } := rfl
    rw [hcons, hrest]
    simp

theorem pinUnlock_eq (port number : UInt8) (base mask : UInt32) :
    pinUnlock lib port number base mask =
      Run.forEach (perform lib) (unlockCalls (port, number) base mask) := by
  unfold pinUnlock unlockCalls
  split_ifs <;> simp [Run.forEach]

theorem pinFunction_eq (pin base mask : UInt32) {type : PinType} (h : type ≠ .unknown) :
    pinFunction lib pin base mask type =
      Run.forEach (perform lib) (functionCalls pin base mask type) := by
  cases type with
  | unknown => exact absurd rfl h
  | _ => simp [pinFunction, functionCalls, Run.forEach]

/-- Calls that unlock a pin do not configure one. -/
theorem filter_unlockCalls (p : Place) (base mask : UInt32) :
    (unlockCalls p base mask).filter isPinCall = [] := by
  unfold unlockCalls
  split_ifs <;> rfl

theorem portBases_inj : ∀ i j : Fin 6, portBases[i] = portBases[j] → i = j := by
  decide

theorem portPins_inj : ∀ i j : Fin 8, portPins[i] = portPins[j] → i = j := by
  decide

/-- A base address and a mask belong to one pin. -/
theorem Addresses.unique {base mask : UInt32} {p q : Place} (hp : Addresses base mask p)
    (hq : Addresses base mask q) : p = q := by
  obtain ⟨hport, hbase⟩ := Vector.getElem?_eq_some_iff.mp hp.1
  obtain ⟨hport', hbase'⟩ := Vector.getElem?_eq_some_iff.mp hq.1
  obtain ⟨hnumber, hmask⟩ := Vector.getElem?_eq_some_iff.mp hp.2
  obtain ⟨hnumber', hmask'⟩ := Vector.getElem?_eq_some_iff.mp hq.2
  have hfirst := portBases_inj ⟨_, hport⟩ ⟨_, hport'⟩ (hbase.trans hbase'.symm)
  have hsecond := portPins_inj ⟨_, hnumber⟩ ⟨_, hnumber'⟩ (hmask.trans hmask'.symm)
  exact Prod.ext (UInt8.toNat_inj.mp (Fin.mk.inj hfirst))
    (UInt8.toNat_inj.mp (Fin.mk.inj hsecond))

/-! ## One entry -/

theorem base_of_port {p : Place} (h : p.1.toNat < tivaNumPorts) :
    portBases[p.1.toNat]? = some (baseAndMask p).1 := by
  simp [baseAndMask, h]

theorem mask_of_number {p : Place} (h : p.2.toNat < tivaPinsPerPort) :
    portPins[p.2.toNat]? = some (baseAndMask p).2 := by
  simp [baseAndMask, h]

theorem addresses_baseAndMask {p : Place} (hport : p.1.toNat < tivaNumPorts)
    (hnumber : p.2.toNat < tivaPinsPerPort) :
    Addresses (baseAndMask p).1 (baseAndMask p).2 p :=
  ⟨base_of_port hport, mask_of_number hnumber⟩

theorem isPinCall_of_configures {call : GpioCall} {p : Place} (h : Configures call p) :
    isPinCall call = true := by
  cases call <;> first | rfl | exact h.elim

theorem configures_functionCalls {pin base mask : UInt32} {type : PinType} {call : GpioCall}
    (hcall : call ∈ functionCalls pin base mask type) {p : Place} (h : Configures call p) :
    (pinPort pin, pinNumber pin) = p ∨ Addresses base mask p := by
  cases type <;> grind [functionCalls, Configures]

/-- What is done for an entry configures the entry's pin and no other. -/
theorem configures_place {entry : PinConfiguration} (hentry : Configurable entry) {call : GpioCall}
    (hcall : call ∈ configuration entry) {p : Place} (h : Configures call p) : place entry = p := by
  have hown := addresses_baseAndMask hentry.port hentry.number
  have hpin := isPinCall_of_configures h
  unfold configuration at hcall
  rcases List.mem_append.mp hcall with hunlock | hfunction
  · have hnone := List.mem_filter.mpr ⟨hunlock, hpin⟩
    rw [filter_unlockCalls] at hnone
    exact absurd hnone List.not_mem_nil
  · rcases configures_functionCalls hfunction h with hdecoded | haddresses
    · exact hdecoded
    · exact hown.unique haddresses

variable {taken : List Place} {entry : PinConfiguration} {s : PinBoard σ}

/-- What is left to do once the port and the number are in range. -/
theorem pinConfigure_of_range (hport : (place entry).1.toNat < tivaNumPorts)
    (hnumber : (place entry).2.toNat < tivaPinsPerPort) :
    pinConfigure lib entry.pin entry.type s = (do
      pinAssign (place entry).1 (baseAndMask (place entry)).2
      let sysctl ← element sysctlPorts (place entry).1
      tivaPeripheralEnable lib sysctl
      if (place entry).1 = 2 ∧ (place entry).2 ≤ 3 then error "Will not change JTAG pins"
      else do
        pinUnlock lib (place entry).1 (place entry).2 (baseAndMask (place entry)).1
          (baseAndMask (place entry)).2
        pinFunction lib entry.pin (baseAndMask (place entry)).1 (baseAndMask (place entry)).2
          entry.type) s := by
  have hlow : ¬ (pinPort entry.pin).toNat ≥ tivaNumPorts := Nat.not_le_of_lt hport
  have hless : ¬ (pinNumber entry.pin).toNat ≥ tivaPinsPerPort := Nat.not_le_of_lt hnumber
  have hbase : pinBase entry.pin s = (.ok (baseAndMask (place entry)).1, s) :=
    element_of_some (base_of_port hport) s
  have hmask : pinMask entry.pin s = (.ok (baseAndMask (place entry)).2, s) :=
    element_of_some (mask_of_number hnumber) s
  unfold pinConfigure
  rw [if_neg hlow, if_neg hless, Run.bind_of_ok hbase, Run.bind_of_ok hmask]
  rfl

/-- A pin that is there and free is marked, and its port enabled, before anything is done to it. -/
theorem pinConfigure_marks (hready : BecomesReady lib) (hmarks : Marks taken s.assignedPins)
    (hport : (place entry).1.toNat < tivaNumPorts)
    (hnumber : (place entry).2.toNat < tivaPinsPerPort) (hfree : place entry ∉ taken) :
    ∃ s₁, s₁.log = s.log ∧ Marks (taken ++ [place entry]) s₁.assignedPins ∧
      pinConfigure lib entry.pin entry.type s =
        (if (place entry).1 = 2 ∧ (place entry).2 ≤ 3 then error "Will not change JTAG pins"
        else do
          pinUnlock lib (place entry).1 (place entry).2 (baseAndMask (place entry)).1
            (baseAndMask (place entry)).2
          pinFunction lib entry.pin (baseAndMask (place entry)).1 (baseAndMask (place entry)).2
            entry.type) s₁ := by
  obtain ⟨assigned, hassign, hmarks'⟩ :=
    pinAssign_of_free hmarks hport (mask_of_number hnumber) hfree
  have hsysctl : sysctlPorts[(place entry).1.toNat]? = some sysctlPorts[(place entry).1.toNat] :=
    Vector.getElem?_eq_getElem hport
  obtain ⟨hardware, henable⟩ := tivaPeripheralEnable_of_ready hready _
    { s with assignedPins := assigned }
  refine ⟨{ s with assignedPins := assigned, hardware }, rfl, hmarks', ?_⟩
  rw [pinConfigure_of_range hport hnumber, Run.bind_of_ok hassign,
    Run.bind_of_ok (element_of_some hsysctl _), Run.bind_of_ok henable]

/-- **An entry whose pin is free is configured.** -/
theorem pinConfigure_accepts (hready : BecomesReady lib) (hmarks : Marks taken s.assignedPins)
    (hentry : Configurable entry) (hfree : place entry ∉ taken) :
    ∃ s', pinConfigure lib entry.pin entry.type s = (.ok (), s') ∧
      Marks (taken ++ [place entry]) s'.assignedPins ∧
      s'.log = s.log ++ configuration entry := by
  obtain ⟨s₁, hlog, hmarks₁, hrun⟩ :=
    pinConfigure_marks hready hmarks hentry.port hentry.number hfree
  obtain ⟨hardware, hcalls⟩ := performAll lib (configuration entry) s₁
  have hjtag : ¬ ((place entry).1 = 2 ∧ (place entry).2 ≤ 3) := hentry.jtag
  rw [if_neg hjtag, pinUnlock_eq, pinFunction_eq _ _ _ hentry.type, ← Run.forEach_append] at hrun
  refine ⟨_, hrun.trans hcalls, hmarks₁, ?_⟩
  rw [hlog]

/-- **An entry that is not configured** stops the run before any call for its pin. -/
theorem pinConfigure_rejects (hready : BecomesReady lib) (hmarks : Marks taken s.assignedPins)
    (hentry : Configurable entry → place entry ∈ taken) :
    ∃ e s', pinConfigure lib entry.pin entry.type s = (.error e, s') ∧
      s'.log.filter isPinCall = s.log.filter isPinCall := by
  by_cases hport : (place entry).1.toNat < tivaNumPorts
  case neg =>
    have hhigh : (pinPort entry.pin).toNat ≥ tivaNumPorts := Nat.le_of_not_lt hport
    refine ⟨.error "Invalid port", s, ?_, rfl⟩
    unfold pinConfigure
    rw [if_pos hhigh]
    rfl
  by_cases hnumber : (place entry).2.toNat < tivaPinsPerPort
  case neg =>
    have hlow : ¬ (pinPort entry.pin).toNat ≥ tivaNumPorts := Nat.not_le_of_lt hport
    have hhigh : (pinNumber entry.pin).toNat ≥ tivaPinsPerPort := Nat.le_of_not_lt hnumber
    refine ⟨.error "Invalid pin", s, ?_, rfl⟩
    unfold pinConfigure
    rw [if_neg hlow, if_pos hhigh]
    rfl
  by_cases hfree : place entry ∈ taken
  · have htaken := pinAssign_of_taken hmarks hport (mask_of_number hnumber) hfree
    refine ⟨.error "Pin already assigned.", s, ?_, rfl⟩
    rw [pinConfigure_of_range hport hnumber, Run.bind_of_error htaken]
  · obtain ⟨s₁, hlog, -, hrun⟩ := pinConfigure_marks hready hmarks hport hnumber hfree
    by_cases hjtag : (place entry).1 = 2 ∧ (place entry).2 ≤ 3
    · rw [if_pos hjtag] at hrun
      exact ⟨.error "Will not change JTAG pins", s₁, hrun, by rw [hlog]⟩
    · have htype : entry.type = .unknown := by
        by_contra htype
        exact hfree (hentry ⟨hport, hnumber, htype, hjtag⟩)
      obtain ⟨hardware, hcalls⟩ := performAll lib (unlockCalls (place entry)
        (baseAndMask (place entry)).1 (baseAndMask (place entry)).2) s₁
      rw [if_neg hjtag, pinUnlock_eq, Run.bind_of_ok hcalls, htype] at hrun
      rw [htype]
      refine ⟨.error "Invalid peripheral type", _, hrun, ?_⟩
      rw [List.filter_append, filter_unlockCalls, hlog, List.append_nil]

/-! ## All entries -/

theorem Assignable.of_append {front back : List PinConfiguration}
    (h : Assignable (front ++ back)) : Assignable front where
  configurable entry hentry := h.configurable entry (List.mem_append_left back hentry)
  exclusive := by
    have hnodup := h.exclusive
    rw [List.map_append] at hnodup
    exact (List.nodup_append.mp hnodup).1

theorem nodup_append_singleton {places : List Place} {p : Place} :
    (places ++ [p]).Nodup ↔ p ∉ places ∧ places.Nodup :=
  (List.perm_append_singleton p places).nodup_iff.trans List.nodup_cons

/-- One more entry is assignable if it can be configured and its pin is free. -/
theorem assignable_append_iff {done : List PinConfiguration} (hdone : Assignable done)
    (entry : PinConfiguration) :
    Assignable (done ++ [entry]) ↔ Configurable entry ∧ place entry ∉ done.map place := by
  constructor
  · intro h
    have hnodup := h.exclusive
    rw [List.map_append, List.map_singleton, nodup_append_singleton] at hnodup
    exact ⟨h.configurable entry (by simp), hnodup.1⟩
  · rintro ⟨hentry, hfree⟩
    refine ⟨fun other hother => ?_, ?_⟩
    · rcases List.mem_append.mp hother with hmem | hmem
      · exact hdone.configurable other hmem
      · rw [List.mem_singleton.mp hmem]
        exact hentry
    · rw [List.map_append, List.map_singleton, nodup_append_singleton]
      exact ⟨hfree, hdone.exclusive⟩

/-- If the calls that configured pins are those of some entries, they are for the pins of these. -/
theorem configured_entry {entries : List PinConfiguration} (hgood : Assignable entries)
    {log : List GpioCall}
    (hlog : log.filter isPinCall = (entries.flatMap configuration).filter isPinCall)
    {call : GpioCall} (hcall : call ∈ log) {p : Place} (h : Configures call p) :
    ∃ entry ∈ entries, place entry = p := by
  have hmem := List.mem_filter.mpr ⟨hcall, isPinCall_of_configures h⟩
  rw [hlog] at hmem
  obtain ⟨entry, hentry, hof⟩ := List.mem_flatMap.mp (List.mem_filter.mp hmem).1
  exact ⟨entry, hentry, configures_place (hgood.configurable entry hentry) hof h⟩

/-- The calls of `pin_setup` with the given tables, one after the other. -/
def setups (lib : DriverLib σ) (tables : List (List PinConfiguration)) : OnPins σ Unit :=
  Run.forEach (fun table => pinSetup lib (some table)) tables

theorem setups_eq (tables : List (List PinConfiguration)) :
    setups lib tables =
      Run.forEach (fun entry => pinConfigure lib entry.pin entry.type) tables.flatten :=
  Run.forEach_flatten tables

/-- **Pins are assigned exclusively.** A run of calls of `pin_setup` completes just if all entries
of all tables are assignable, and then it has done for each of them what there is to do, in order.
However it ends, the calls that configured pins are those of the entries up to some point, which
are assignable, and are for the pins of these entries: none is for a pin that was taken, and none
for a JTAG pin. -/
theorem pin_setup_exclusive (lib : DriverLib σ) (hready : BecomesReady lib)
    (tables : List (List PinConfiguration)) (hardware : σ) :
    ∃ r s', setups lib tables (start hardware) = (r, s') ∧
      (r = .ok () ↔ Assignable tables.flatten) ∧
      (r = .ok () → s'.log = tables.flatten.flatMap configuration) ∧
      ∃ k, Assignable (tables.flatten.take k) ∧
        s'.log.filter isPinCall =
          ((tables.flatten.take k).flatMap configuration).filter isPinCall ∧
        ∀ call ∈ s'.log, ∀ p, Configures call p →
          ∃ entry ∈ tables.flatten.take k, place entry = p := by
  let Done (done : List PinConfiguration) (s : PinBoard σ) : Prop :=
    Marks (done.map place) s.assignedPins ∧ s.log = done.flatMap configuration
  let Stopped (done : List PinConfiguration) (s : PinBoard σ) : Prop :=
    s.log.filter isPinCall = (done.flatMap configuration).filter isPinCall
  have hnil : Assignable [] := ⟨by simp, by simp⟩
  have hstart : Done [] (start hardware) := ⟨marks_start, rfl⟩
  have haccept : ∀ done entry s, Done done s → Assignable (done ++ [entry]) →
      ∃ s', pinConfigure lib entry.pin entry.type s = (.ok (), s') ∧ Done (done ++ [entry]) s' := by
    rintro done entry s ⟨hmarks, hlog⟩ hgood
    obtain ⟨hentry, hfree⟩ := (assignable_append_iff hgood.of_append entry).mp hgood
    obtain ⟨s', hrun, hmarks', hlog'⟩ := pinConfigure_accepts hready hmarks hentry hfree
    refine ⟨s', hrun, ?_, ?_⟩
    · rw [List.map_append, List.map_singleton]
      exact hmarks'
    · rw [hlog', hlog, List.flatMap_append, List.flatMap_singleton]
  have hreject : ∀ done entry s, Assignable done → Done done s → ¬ Assignable (done ++ [entry]) →
      ∃ e s', pinConfigure lib entry.pin entry.type s = (.error e, s') ∧ Stopped done s' := by
    rintro done entry s hdone ⟨hmarks, hlog⟩ hbad
    rw [assignable_append_iff hdone, not_and_not_right] at hbad
    obtain ⟨e, s', hrun, hlog'⟩ := pinConfigure_rejects hready hmarks hbad
    refine ⟨e, s', hrun, ?_⟩
    rw [hlog] at hlog'
    exact hlog'
  have hall := Run.forEach_accepts (fun _ _ => Assignable.of_append) haccept
    hreject tables.flatten [] (start hardware) hstart hnil
  rw [setups_eq]
  generalize tables.flatten = entries at hall ⊢
  simp only [List.nil_append] at hall
  rcases hall with ⟨hgood, s', hrun, -, hlog⟩ | ⟨hbad, k, e, s', hgood, hrun, hstopped⟩
  · have hsame : s'.log.filter isPinCall = (entries.flatMap configuration).filter isPinCall := by
      rw [hlog]
    refine ⟨_, s', hrun, ⟨fun _ => hgood, fun _ => rfl⟩, fun _ => hlog, entries.length, ?_⟩
    rw [List.take_length]
    exact ⟨hgood, hsame, fun call hcall p => configured_entry hgood hsame hcall⟩
  · refine ⟨_, s', hrun, ⟨?_, fun h => absurd h hbad⟩, ?_, k, hgood, hstopped,
      fun call hcall p => configured_entry hgood hstopped hcall⟩
    · intro h
      cases h
    · intro h
      cases h

/-- Hardware whose peripherals are always ready. -/
def readyLib : DriverLib Unit where
  sysCtlPeripheralReady _ _ := (true, ())
  sysCtlPeripheralEnable _ _ := ()
  perform _ _ := ()

/-- The pin `PA0`, by its function and by its port and number, in two tables. -/
theorem pin_setup_twice :
    ∃ r s', setups readyLib [[{ pin := 0x1, type := .uart }], [{ pin := 0x0, type := .output }]]
      (start ()) = (r, s') ∧ r ≠ .ok () := by
  obtain ⟨r, s', hrun, hcompletes, -⟩ := pin_setup_exclusive readyLib (fun _ _ => Or.inl rfl)
    [[{ pin := 0x1, type := .uart }], [{ pin := 0x0, type := .output }]] ()
  refine ⟨r, s', hrun, fun hok => ?_⟩
  have hnodup := (hcompletes.mp hok).exclusive
  exact absurd hnodup (by decide)

end Nuhal.Pins
