import Mathlib.Algebra.Order.Ring.Defs
import Nuhal.All.Bytestream

/-!
# The PID controller (`nuhal_all/src/pid.c`)

The records of `pid.h:30-106` over any type `F` of numbers.

* `pidCompute` (`pid.c:6-79`), where `F` is an ordered ring: its arithmetic is exact, so the
  rounding of the floats is left out.
* The functions that put the records into a bytestream and take them out again
  (`pid.c:81-183`), where `F` is the float's bit pattern.
-/

namespace Nuhal.All

variable {n : Nat} {F : Type}

/-! ## The records -/

/-- `enum saturate_type`. -/
inductive SaturateType where
  | output
  | none
  deriving Repr, DecidableEq

/-- `enum antiwindup_type`. -/
inductive AntiwindupType where
  | none
  | backCalculate
  | saturate
  deriving Repr, DecidableEq

/-- `struct pid_gains`. -/
structure PidGains (F : Type) where
  kp : F
  ki : F
  kd : F
  uMax : F
  uMin : F
  iMax : F
  iMin : F
  deriving Repr, DecidableEq

/-- `struct pid_state`. -/
structure PidState (F : Type) where
  pError : F
  iError : F
  dError : F
  deriving Repr, DecidableEq

/-- `struct pid_signals`. -/
structure PidSignals (F : Type) where
  reference : F
  measurement : F
  effort : F
  deriving Repr, DecidableEq

/-- `struct pid_debug_info`. -/
structure PidDebugInfo (F : Type) where
  state : PidState F
  signals : PidSignals F
  sequence : UInt8
  missed : UInt8
  deriving Repr, DecidableEq

/-! ## The controller -/

section Compute

variable [Ring F] [LinearOrder F]

/-- The unbounded control signal, which `pid_compute` forms from the errors in two places. -/
def controlSignal (gains : PidGains F) (pError iError dError : F) : F :=
  gains.kp * pError + gains.ki * iError + gains.kd * dError

/-- The integral error after `ANTIWINDUP_BACK_CALCULATE` (`pid.c:24-43`). -/
def backCalculate (gains : PidGains F) (error iError iErrorProspective uProspective : F) : F :=
  if (gains.uMin < uProspective ∧ uProspective < gains.uMax)
      ∨ (error < 0 ∧ uProspective > gains.uMax)
      ∨ (error > 0 ∧ uProspective < gains.uMin) then
    iErrorProspective
  else
    iError

/-- The integral error after `ANTIWINDUP_SATURATE` (`pid.c:44-56`). -/
def saturateIntegral (gains : PidGains F) (iErrorProspective : F) : F :=
  if iErrorProspective > gains.iMax then
    gains.iMax
  else if iErrorProspective < gains.iMin then
    gains.iMin
  else
    iErrorProspective

/-- The bound on the output of the controller (`pid.c:67-78`). -/
def saturateOutput (gains : PidGains F) (saturate : SaturateType) (uActual : F) : F :=
  match saturate with
  | .output =>
    if uActual > gains.uMax then
      gains.uMax
    else if uActual < gains.uMin then
      gains.uMin
    else
      uActual
  | .none => uActual

/-- `pid_compute`: the control effort, and what it leaves in `*st`. -/
def pidCompute (gains : Option (PidGains F)) (st : Option (PidState F)) (reference measurement : F)
    (saturate : SaturateType) (antiwindup : AntiwindupType) : Except Halt (F × PidState F) :=
  match st, gains with
  | some st, some gains =>
    let error := reference - measurement
    let iErrorProspective := st.iError + error
    let dError := error - st.pError
    let pError := error
    let iError := match antiwindup with
      | .backCalculate =>
        let uProspective := controlSignal gains pError iErrorProspective dError
        backCalculate gains error st.iError iErrorProspective uProspective
      | .saturate => saturateIntegral gains iErrorProspective
      | .none => iErrorProspective
    let uActual := controlSignal gains pError iError dError
    .ok (saturateOutput gains saturate uActual, { pError, iError, dError })
  | _, _ => .error (.error "NULL ptr")

end Compute

/-! ## In a bytestream -/

def pidGainsInject (gains : PidGains UInt32) : OnStream n Unit := do
  bytestreamInjectF gains.kp
  bytestreamInjectF gains.ki
  bytestreamInjectF gains.kd
  bytestreamInjectF gains.uMax
  bytestreamInjectF gains.uMin
  bytestreamInjectF gains.iMax
  bytestreamInjectF gains.iMin

def pidGainsExtract : OnStream n (PidGains UInt32) := do
  let kp ← bytestreamExtractF
  let ki ← bytestreamExtractF
  let kd ← bytestreamExtractF
  let uMax ← bytestreamExtractF
  let uMin ← bytestreamExtractF
  let iMax ← bytestreamExtractF
  let iMin ← bytestreamExtractF
  return { kp, ki, kd, uMax, uMin, iMax, iMin }

def pidStateInject (state : PidState UInt32) : OnStream n Unit := do
  bytestreamInjectF state.pError
  bytestreamInjectF state.iError
  bytestreamInjectF state.dError

def pidStateExtract : OnStream n (PidState UInt32) := do
  let pError ← bytestreamExtractF
  let iError ← bytestreamExtractF
  let dError ← bytestreamExtractF
  return { pError, iError, dError }

def pidSignalsInject (signals : PidSignals UInt32) : OnStream n Unit := do
  bytestreamInjectF signals.reference
  bytestreamInjectF signals.measurement
  bytestreamInjectF signals.effort

def pidSignalsExtract : OnStream n (PidSignals UInt32) := do
  let reference ← bytestreamExtractF
  let measurement ← bytestreamExtractF
  let effort ← bytestreamExtractF
  return { reference, measurement, effort }

def pidDebugInfoInject (debugInfo : PidDebugInfo UInt32) : OnStream n Unit := do
  pidStateInject debugInfo.state
  pidSignalsInject debugInfo.signals
  bytestreamInjectU8 debugInfo.sequence
  bytestreamInjectU8 debugInfo.missed

def pidDebugInfoExtract : OnStream n (PidDebugInfo UInt32) := do
  let state ← pidStateExtract
  let signals ← pidSignalsExtract
  let sequence ← bytestreamExtractU8
  let missed ← bytestreamExtractU8
  return { state, signals, sequence, missed }

end Nuhal.All
