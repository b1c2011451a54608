import Nuhal.All.Bytestream
import Nuhal.Lib.Each

/-!
# Pins on the Tiva (`nuhal_tiva/src/pin_tiva.c`)

`pin_setup` and what it calls, `tiva_peripheral_enable` (`tiva.c:88-103`) among it. The pins are
driven through TivaWare and through hardware registers, which are not part of the repository:
`DriverLib σ` holds what they do, over any type `σ` of hardware states. The constants are the ones
of TivaWare's headers.

* A table and its length are the list of its entries; `none` is a table that is `NULL`.
* `assignedPins` is the static array of `pin_configure`, all zero when the program starts.
* An index outside of an array is `Halt.undefined`.

The `log` is not part of the program. It records the calls that configure a pin and the writes to
the registers of a port, in order. What reading a register gives, and what that does to the
hardware, is a parameter of its own (`hwreg`).
-/

namespace Nuhal.Tiva

open Nuhal.Lib Nuhal.All

/-- `enum pin_type`; `unknown` is any value that it does not name. -/
inductive PinType where
  | uart
  | output
  | input
  | inputPullUp
  | can
  | ssi
  | qei
  | pwm
  | unknown
  deriving Repr, DecidableEq

/-- `struct pin_configuration`. -/
structure PinConfiguration where
  pin : UInt32
  type : PinType
  deriving Repr, DecidableEq

/-- What is done to the hardware of a pin. -/
inductive GpioCall where
  /-- `HWREG(address) = value`. -/
  | hwregSet (address value : UInt32)
  /-- `HWREG(address) |= mask`. -/
  | hwregOr (address mask : UInt32)
  | gpioPinConfigure (pin : UInt32)
  | gpioPinTypeUART (base mask : UInt32)
  | gpioPinTypeGPIOOutput (base mask : UInt32)
  | gpioPinTypeGPIOInput (base mask : UInt32)
  | gpioPinTypeCAN (base mask : UInt32)
  | gpioPinTypeSSI (base mask : UInt32)
  | gpioPinTypeQEI (base mask : UInt32)
  | gpioPinTypePWM (base mask : UInt32)
  | gpioDirModeSet (base mask mode : UInt32)
  | gpioPadConfigSet (base mask strength padType : UInt32)
  deriving Repr, DecidableEq

/-- The functions of TivaWare, and the registers. -/
structure DriverLib (σ : Type) where
  sysCtlPeripheralReady : UInt32 → σ → Bool × σ
  sysCtlPeripheralEnable : UInt32 → σ → σ
  perform : GpioCall → σ → σ

/-- `TIVA_NUM_PORTS`. -/
abbrev tivaNumPorts : Nat := 6

/-- `TIVA_PINS_PER_PORT`. -/
abbrev tivaPinsPerPort : Nat := 8

/-- The hardware, the array of assigned pins and the log. -/
structure PinBoard (σ : Type) where
  hardware : σ
  assignedPins : Vector UInt32 tivaNumPorts
  log : List GpioCall

/-- A program on the pins. -/
abbrev OnPins (σ α : Type) := Run (PinBoard σ) Halt α

variable {σ : Type}

/-! ## Decoding a pin -/

def pinPort (pin : UInt32) : UInt8 := ((pin >>> 16) &&& 0xFF).toUInt8

def pinNumber (pin : UInt32) : UInt8 := (((pin >>> 8) &&& 0xFF) / 4).toUInt8

/-- `GPIO_PORTA_BASE` to `GPIO_PORTF_BASE`. -/
def portBases : Vector UInt32 tivaNumPorts :=
  #v[0x40004000, 0x40005000, 0x40006000, 0x40007000, 0x40024000, 0x40025000]

/-- `GPIO_PIN_0` to `GPIO_PIN_7`. -/
def portPins : Vector UInt32 tivaPinsPerPort := #v[1, 2, 4, 8, 16, 32, 64, 128]

/-- `SYSCTL_PERIPH_GPIOA` to `SYSCTL_PERIPH_GPIOF`. -/
def sysctlPorts : Vector UInt32 tivaNumPorts :=
  #v[0xf0000800, 0xf0000801, 0xf0000802, 0xf0000803, 0xf0000804, 0xf0000805]

/-- The element of an array at an index. -/
def element {k : Nat} (array : Vector UInt32 k) (i : UInt8) : OnPins σ UInt32 :=
  match array[i.toNat]? with
  | some x => pure x
  | none => Run.stop .undefined

def pinBase (pin : UInt32) : OnPins σ UInt32 := element portBases (pinPort pin)

def pinMask (pin : UInt32) : OnPins σ UInt32 := element portPins (pinNumber pin)

/-! ## The hardware -/

def peripheralReady (lib : DriverLib σ) (peripheral : UInt32) : OnPins σ Bool := fun s =>
  let (ready, hardware) := lib.sysCtlPeripheralReady peripheral s.hardware
  (.ok ready, { s with hardware })

def peripheralEnable (lib : DriverLib σ) (peripheral : UInt32) : OnPins σ Unit :=
  Run.modify fun s => { s with hardware := lib.sysCtlPeripheralEnable peripheral s.hardware }

def perform (lib : DriverLib σ) (call : GpioCall) : OnPins σ Unit :=
  Run.modify fun s =>
    { s with hardware := lib.perform call s.hardware, log := s.log ++ [call] }

/-- The loop of `tiva_peripheral_enable`: what is left of `count`. -/
def pollReady (lib : DriverLib σ) (peripheral : UInt32) : Nat → OnPins σ Nat
  | 0 => do
    let _ ← peripheralReady lib peripheral
    return 0
  | count + 1 => do
    if ← peripheralReady lib peripheral then return count + 1
    else pollReady lib peripheral count

def tivaPeripheralEnable (lib : DriverLib σ) (peripheral : UInt32) : OnPins σ Unit := do
  if ← peripheralReady lib peripheral then return ()
  else
    peripheralEnable lib peripheral
    let count ← pollReady lib peripheral 100
    if count = 0 then error "failed to enable peripheral"

/-! ## Configuring a pin -/

/-- `GPIO_O_LOCK`, `GPIO_O_CR` and `GPIO_LOCK_KEY`. -/
abbrev gpioOLock : UInt32 := 0x520

@[inherit_doc gpioOLock]
abbrev gpioOCr : UInt32 := 0x524

@[inherit_doc gpioOLock]
abbrev gpioLockKey : UInt32 := 0x4C4F434B

/-- `GPIO_DIR_MODE_IN`, `GPIO_STRENGTH_2MA` and `GPIO_PIN_TYPE_STD_WPU`. -/
abbrev gpioDirModeIn : UInt32 := 0

@[inherit_doc gpioDirModeIn]
abbrev gpioStrength2ma : UInt32 := 1

@[inherit_doc gpioDirModeIn]
abbrev gpioPinTypeStdWpu : UInt32 := 0xA

/-- The test and mark of `assigned_pins` (`pin_tiva.c:101-110`). -/
def pinAssign (port : UInt8) (mask : UInt32) : OnPins σ Unit := do
  let s ← Run.get
  let assigned ← element s.assignedPins port
  if assigned &&& mask = 0 then
    Run.modify fun s =>
      { s with assignedPins := s.assignedPins.setIfInBounds port.toNat (assigned ||| mask) }
  else error "Pin already assigned."

/-- The `switch` of `pin_configure` (`pin_tiva.c:137-178`). -/
def pinFunction (lib : DriverLib σ) (pin base mask : UInt32) : PinType → OnPins σ Unit
  | .uart => do
    perform lib (.gpioPinConfigure pin)
    perform lib (.gpioPinTypeUART base mask)
  | .output => perform lib (.gpioPinTypeGPIOOutput base mask)
  | .input => do
    perform lib (.gpioPinTypeGPIOInput base mask)
    perform lib (.gpioDirModeSet base mask gpioDirModeIn)
  | .inputPullUp => do
    perform lib (.gpioPinTypeGPIOInput base mask)
    perform lib (.gpioDirModeSet base mask gpioDirModeIn)
    perform lib (.gpioPadConfigSet base mask gpioStrength2ma gpioPinTypeStdWpu)
  | .can => do
    perform lib (.gpioPinConfigure pin)
    perform lib (.gpioPinTypeCAN base mask)
  | .ssi => do
    perform lib (.gpioPinConfigure pin)
    perform lib (.gpioPinTypeSSI base mask)
  | .qei => do
    perform lib (.gpioPinConfigure pin)
    perform lib (.gpioPinTypeQEI base mask)
  | .pwm => do
    perform lib (.gpioPinConfigure pin)
    perform lib (.gpioPinTypePWM base mask)
  | .unknown => error "Invalid peripheral type"

/-- The pins `PD7` and `PF0` are unlocked (`pin_tiva.c:128-135`). -/
def pinUnlock (lib : DriverLib σ) (port number : UInt8) (base mask : UInt32) : OnPins σ Unit :=
  if (port = 3 ∧ number = 7) ∨ (port = 5 ∧ number = 0) then do
    perform lib (.hwregSet (base + gpioOLock) gpioLockKey)
    perform lib (.hwregOr (base + gpioOCr) mask)
  else pure ()

def pinConfigure (lib : DriverLib σ) (pin : UInt32) (type : PinType) : OnPins σ Unit :=
  let port := pinPort pin
  let number := pinNumber pin
  if port.toNat ≥ tivaNumPorts then error "Invalid port"
  else if number.toNat ≥ tivaPinsPerPort then error "Invalid pin"
  else do
    let base ← pinBase pin
    let mask ← pinMask pin
    pinAssign port mask
    let sysctl ← element sysctlPorts port
    tivaPeripheralEnable lib sysctl
    if port = 2 ∧ number ≤ 3 then error "Will not change JTAG pins"
    else do
      pinUnlock lib port number base mask
      pinFunction lib pin base mask type

def pinSetup (lib : DriverLib σ) (table : Option (List PinConfiguration)) : OnPins σ Unit :=
  match table with
  | some table => Run.forEach (fun entry => pinConfigure lib entry.pin entry.type) table
  | none => error "NULL ptr"

/-! ## Driving a pin -/

/-- `GPIO_O_DATA`. -/
abbrev gpioOData : UInt32 := 0

/-- Bits 9 to 2 of the address say which bits of the data register are meant. -/
def dataAddress (base mask : UInt32) : UInt32 := base + (gpioOData + (mask <<< 2))

/-- The value of `HWREG(address)`. -/
def hwregGet (hwreg : UInt32 → σ → UInt32 × σ) (address : UInt32) : OnPins σ UInt32 := fun s =>
  let (value, hardware) := hwreg address s.hardware
  (.ok value, { s with hardware })

def pinWrite (lib : DriverLib σ) (pin : UInt32) (value : Bool) : OnPins σ Unit := do
  let base ← pinBase pin
  let mask ← pinMask pin
  perform lib (.hwregSet (dataAddress base mask) (if value then 0xFF else 0))

def pinRead (hwreg : UInt32 → σ → UInt32 × σ) (pin : UInt32) : OnPins σ Bool := do
  let base ← pinBase pin
  let mask ← pinMask pin
  return (← hwregGet hwreg (dataAddress base mask)) != 0

def pinInvert (lib : DriverLib σ) (hwreg : UInt32 → σ → UInt32 × σ) (pin : UInt32) :
    OnPins σ Unit := do
  pinWrite lib pin (!(← pinRead hwreg pin))

end Nuhal.Tiva
