import Nuhal.All.Encoder
import Nuhal.All.Led
import Nuhal.All.Pid
import Nuhal.Serial.Cursor

/-!
# Everything that travels: fields, records and sequences of them

A `Field` is a value of one of the basic types and a `Value` a field or one of the records of the
library. `Value.fields` is the record's field order on the wire and `Value.bytes` its encoding:
the fields one after the other, numbers big-endian.

* `injectAll_eq_injectFields`: the functions of the records put exactly their fields, in order.
* `extracts_value`: each record's extract function undoes its inject function.
* `field_overflow`: a field that does not fit is an error that changes nothing.
* **`values_round_trip`**: any sequence of values that fits is written to the front of the buffer
  and nowhere else, and reading the same types back gives the same values.
-/

namespace Nuhal.Serial

open Nuhal.Lib Nuhal.All

variable {n : Nat}

/-! ## Fields -/

/-- A value of a basic type; a float is its bit pattern. -/
inductive Field where
  | u8 (v : UInt8)
  | u16 (v : UInt16)
  | u32 (v : UInt32)
  | i32 (v : Int32)
  | f (bits : UInt32)
  deriving DecidableEq

/-- The basic types. -/
inductive FieldType where
  | u8
  | u16
  | u32
  | i32
  | f
  deriving Repr, DecidableEq

def Field.type : Field → FieldType
  | .u8 _ => .u8
  | .u16 _ => .u16
  | .u32 _ => .u32
  | .i32 _ => .i32
  | .f _ => .f

/-- A field on the wire. -/
def Field.bytes : Field → List UInt8
  | .u8 v => [v]
  | .u16 v => bigEndian 2 v.toNat
  | .u32 v => bigEndian 4 v.toNat
  | .i32 v => bigEndian 4 v.toUInt32.toNat
  | .f bits => bigEndian 4 bits.toNat

def FieldType.size : FieldType → Nat
  | .u8 => 1
  | .u16 => 2
  | .u32 => 4
  | .i32 => 4
  | .f => 4

/-- `bytestream_inject_<type>`. -/
def Field.inject : Field → OnStream n Unit
  | .u8 v => bytestreamInjectU8 v
  | .u16 v => bytestreamInjectU16 v
  | .u32 v => bytestreamInjectU32 v
  | .i32 v => bytestreamInjectI32 v
  | .f bits => bytestreamInjectF bits

/-- `bytestream_extract_<type>`. -/
def FieldType.extract : FieldType → OnStream n Field
  | .u8 => do return .u8 (← bytestreamExtractU8)
  | .u16 => do return .u16 (← bytestreamExtractU16)
  | .u32 => do return .u32 (← bytestreamExtractU32)
  | .i32 => do return .i32 (← bytestreamExtractI32)
  | .f => do return .f (← bytestreamExtractF)

/-- Inject fields one after the other. -/
def injectFields : List Field → OnStream n Unit
  | [] => pure ()
  | x :: xs => do
    x.inject
    injectFields xs

/-- Extract fields one after the other. -/
def extractFields : List FieldType → OnStream n (List Field)
  | [] => pure []
  | t :: ts => do
    let x ← t.extract
    let xs ← extractFields ts
    return x :: xs

theorem injects_field (x : Field) : Injects (n := n) x.inject x.bytes := by
  cases x with
  | u8 v => exact injects_u8 v
  | u16 v => exact injects_u16 v
  | u32 v => exact injects_u32 v
  | i32 v => exact injects_i32 v
  | f bits => exact injects_f bits

theorem Extracts.map {α β : Type} {m : OnStream n α} {bytes : List UInt8} {a : α}
    (h : Extracts m bytes a) (g : α → β) : Extracts (do return g (← m)) bytes (g a) := by
  have := h.bind (f := fun a => Pure.pure (g a)) (Extracts.pure (g a))
  rwa [List.append_nil] at this

theorem extracts_field (x : Field) : Extracts (n := n) x.type.extract x.bytes x := by
  cases x with
  | u8 v => exact (extracts_u8 v).map _
  | u16 v => exact (extracts_u16 v).map _
  | u32 v => exact (extracts_u32 v).map _
  | i32 v => exact (extracts_i32 v).map _
  | f bits => exact (extracts_f bits).map _

theorem injects_fields : ∀ xs : List Field,
    Injects (n := n) (injectFields xs) (xs.flatMap Field.bytes)
  | [] => Injects.nil
  | x :: xs => (injects_field x).bind (injects_fields xs)

theorem extracts_fields : ∀ xs : List Field,
    Extracts (n := n) (extractFields (xs.map Field.type)) (xs.flatMap Field.bytes) xs
  | [] => Extracts.pure []
  | x :: xs => (extracts_field x).bind ((extracts_fields xs).map _)

/-- **A field that does not fit** is an error, and buffer and position stay as they were. -/
theorem field_overflow {base : Nat} {s : Buffered n} (x : Field) (h : s.stream.data = some base)
    (hover : s.stream.capacity < s.stream.size + x.type.size) :
    x.inject s = (.error (.error "overflow"), s) ∧
      x.type.extract s = (.error (.error "overflow"), s) := by
  have hv := verifyArgs_overflow h hover
  cases x with
  | u8 v => exact ⟨Run.bind_of_error hv _, Run.bind_of_error (Run.bind_of_error hv _) _⟩
  | u16 v => exact ⟨Run.bind_of_error hv _, Run.bind_of_error (Run.bind_of_error hv _) _⟩
  | u32 v => exact ⟨Run.bind_of_error hv _, Run.bind_of_error (Run.bind_of_error hv _) _⟩
  | i32 v =>
    exact ⟨Run.bind_of_error hv _,
      Run.bind_of_error (Run.bind_of_error (Run.bind_of_error hv _) _) _⟩
  | f bits => exact ⟨Run.bind_of_error hv _, Run.bind_of_error (Run.bind_of_error hv _) _⟩

/-! ## Records -/

/-- A field or a record. -/
inductive Value where
  | field (x : Field)
  | pidGains (gains : PidGains UInt32)
  | pidState (state : PidState UInt32)
  | pidSignals (signals : PidSignals UInt32)
  | pidDebugInfo (debugInfo : PidDebugInfo UInt32)
  | encoderJoints (enc : EncoderJoints UInt32)
  | encoderGimbal (enc : EncoderGimbal UInt32)
  | ledColor (color : UInt32)

/-- The types of values. -/
inductive ValueType where
  | field (t : FieldType)
  | pidGains
  | pidState
  | pidSignals
  | pidDebugInfo
  | encoderJoints
  | encoderGimbal
  | ledColor

def Value.type : Value → ValueType
  | .field x => .field x.type
  | .pidGains _ => .pidGains
  | .pidState _ => .pidState
  | .pidSignals _ => .pidSignals
  | .pidDebugInfo _ => .pidDebugInfo
  | .encoderJoints _ => .encoderJoints
  | .encoderGimbal _ => .encoderGimbal
  | .ledColor _ => .ledColor

/-- A colour is one of the named ones, `0 … 7`. -/
def Value.InRange : Value → Prop
  | .ledColor color => color ≤ 7
  | _ => True

def stateFields (state : PidState UInt32) : List Field :=
  [.f state.pError, .f state.iError, .f state.dError]

def signalsFields (signals : PidSignals UInt32) : List Field :=
  [.f signals.reference, .f signals.measurement, .f signals.effort]

/-- The fields of a value in the order they travel. -/
def Value.fields : Value → List Field
  | .field x => [x]
  | .pidGains g => [.f g.kp, .f g.ki, .f g.kd, .f g.uMax, .f g.uMin, .f g.iMax, .f g.iMin]
  | .pidState state => stateFields state
  | .pidSignals signals => signalsFields signals
  | .pidDebugInfo d =>
    stateFields d.state ++ signalsFields d.signals ++ [.u8 d.sequence, .u8 d.missed]
  | .encoderJoints e =>
    [.i32 e.beforeTicks, .f e.beforeRadians, .i32 e.afterTicks, .f e.afterRadians]
  | .encoderGimbal e =>
    [.i32 e.xTicks, .i32 e.yTicks, .i32 e.zTicks, .f e.xRadians, .f e.yRadians, .f e.zRadians]
  | .ledColor color => [.u8 color.toUInt8]

/-- A value on the wire. -/
def Value.bytes (v : Value) : List UInt8 := v.fields.flatMap Field.bytes

/-- The inject function of the value's type. -/
def Value.inject : Value → OnStream n Unit
  | .field x => x.inject
  | .pidGains gains => pidGainsInject gains
  | .pidState state => pidStateInject state
  | .pidSignals signals => pidSignalsInject signals
  | .pidDebugInfo debugInfo => pidDebugInfoInject debugInfo
  | .encoderJoints enc => encoderJointsInject enc
  | .encoderGimbal enc => encoderGimbalInject enc
  | .ledColor color => ledColorInject color

/-- The extract function of the type. -/
def ValueType.extract : ValueType → OnStream n Value
  | .field t => do return .field (← t.extract)
  | .pidGains => do return .pidGains (← pidGainsExtract)
  | .pidState => do return .pidState (← pidStateExtract)
  | .pidSignals => do return .pidSignals (← pidSignalsExtract)
  | .pidDebugInfo => do return .pidDebugInfo (← pidDebugInfoExtract)
  | .encoderJoints => do return .encoderJoints (← encoderJointsExtract)
  | .encoderGimbal => do return .encoderGimbal (← encoderGimbalExtract)
  | .ledColor => do return .ledColor (← ledColorExtract)

/-- Inject values one after the other. -/
def injectAll : List Value → OnStream n Unit
  | [] => pure ()
  | v :: vs => do
    v.inject
    injectAll vs

/-- Extract values one after the other. -/
def extractAll : List ValueType → OnStream n (List Value)
  | [] => pure []
  | t :: ts => do
    let v ← t.extract
    let vs ← extractAll ts
    return v :: vs

/-! ## The records' functions follow their fields -/

theorem injectFields_append (xs ys : List Field) :
    injectFields (n := n) (xs ++ ys) = (injectFields xs >>= fun _ => injectFields ys) := by
  induction xs with
  | nil => rfl
  | cons x xs ih => rw [List.cons_append, injectFields, ih, injectFields, Run.bind_assoc]

theorem inject_eq_injectFields (v : Value) (hv : v.InRange) :
    v.inject (n := n) = injectFields v.fields := by
  cases v with
  | field x => exact (Run.bind_pure_unit _).symm
  | pidDebugInfo d =>
    simp only [Value.inject, pidDebugInfoInject, pidStateInject, pidSignalsInject, Value.fields,
      stateFields, signalsFields, List.cons_append, List.nil_append, injectFields, Field.inject,
      Run.bind_assoc, Run.bind_pure_unit]
  | ledColor color =>
    have hle : ¬ color > 0x7 := UInt32.not_lt.mpr hv
    simp only [Value.inject, ledColorInject, if_neg hle, Value.fields, injectFields, Field.inject,
      Run.bind_pure_unit]
  | pidGains _ | pidState _ | pidSignals _ | encoderJoints _ | encoderGimbal _ =>
    simp only [Value.inject, pidGainsInject, pidStateInject, pidSignalsInject, encoderJointsInject,
      encoderGimbalInject, Value.fields, stateFields, signalsFields, injectFields, Field.inject,
      Run.bind_pure_unit]

/-- Injecting values is injecting their fields. -/
theorem injectAll_eq_injectFields : ∀ vs : List Value, (∀ v ∈ vs, v.InRange) →
    injectAll (n := n) vs = injectFields (vs.flatMap Value.fields)
  | [], _ => rfl
  | v :: vs, h => by
    rw [List.flatMap_cons, injectFields_append, injectAll,
      inject_eq_injectFields v (h v List.mem_cons_self),
      injectAll_eq_injectFields vs fun w hw => h w (List.mem_cons_of_mem v hw)]

theorem extracts_state (state : PidState UInt32) : Extracts (n := n) pidStateExtract
    ((stateFields state).flatMap Field.bytes) state :=
  (extracts_f _).bind <| (extracts_f _).bind <| (extracts_f _).bind <| Extracts.pure state

theorem extracts_signals (signals : PidSignals UInt32) : Extracts (n := n) pidSignalsExtract
    ((signalsFields signals).flatMap Field.bytes) signals :=
  (extracts_f _).bind <| (extracts_f _).bind <| (extracts_f _).bind <| Extracts.pure signals

theorem extracts_debugInfo (d : PidDebugInfo UInt32) : Extracts (n := n) pidDebugInfoExtract
    (Value.pidDebugInfo d).bytes d := by
  rw [Value.bytes, Value.fields, List.flatMap_append, List.flatMap_append, List.append_assoc]
  exact (extracts_state d.state).bind <| (extracts_signals d.signals).bind <|
    (extracts_u8 d.sequence).bind <| (extracts_u8 d.missed).bind <| Extracts.pure d

/-- A colour in range fits its byte, so the byte gives the colour back. -/
theorem extracts_ledColor {color : UInt32} (h : color ≤ 7) :
    Extracts (n := n) ledColorExtract [color.toUInt8] color := by
  have hc : color.toUInt8.toUInt32 = color := by
    have h7 : color.toNat ≤ 7 := UInt32.le_iff_toNat_le.mp h
    apply UInt32.toNat_inj.mp
    rw [UInt8.toNat_toUInt32, UInt32.toNat_toUInt8]
    omega
  have hb : Extracts (n := n)
      (do if color.toUInt8.toUInt32 > 0x7 then error "invalid color"
          return color.toUInt8.toUInt32) [] color := by
    rw [hc, if_neg (UInt32.not_lt.mpr h)]
    exact Extracts.pure color
  exact (extracts_u8 color.toUInt8).bind hb

/-- **Every extract function undoes its inject function.** -/
theorem extracts_value (v : Value) (hv : v.InRange) :
    Extracts (n := n) v.type.extract v.bytes v := by
  cases v with
  | field x =>
    have h := (extracts_field (n := n) x).map Value.field
    rwa [show x.bytes = (Value.field x).bytes from (List.append_nil _).symm] at h
  | pidGains g =>
    exact Extracts.map (m := pidGainsExtract) ((extracts_f _).bind <| (extracts_f _).bind <|
      (extracts_f _).bind <| (extracts_f _).bind <| (extracts_f _).bind <| (extracts_f _).bind <|
      (extracts_f _).bind <| Extracts.pure g) _
  | pidState state => exact (extracts_state state).map _
  | pidSignals signals => exact (extracts_signals signals).map _
  | pidDebugInfo d => exact (extracts_debugInfo d).map _
  | encoderJoints e =>
    exact Extracts.map (m := encoderJointsExtract) ((extracts_i32 _).bind <| (extracts_f _).bind <|
      (extracts_i32 _).bind <| (extracts_f _).bind <| Extracts.pure e) _
  | encoderGimbal e =>
    exact Extracts.map (m := encoderGimbalExtract) ((extracts_i32 _).bind <|
      (extracts_i32 _).bind <| (extracts_i32 _).bind <| (extracts_f _).bind <|
      (extracts_f _).bind <| (extracts_f _).bind <| Extracts.pure e) _
  | ledColor color => exact (extracts_ledColor hv).map _

theorem extracts_all : ∀ vs : List Value, (∀ v ∈ vs, v.InRange) →
    Extracts (n := n) (extractAll (vs.map Value.type)) (vs.flatMap Value.bytes) vs
  | [], _ => Extracts.pure []
  | v :: vs, h => (extracts_value v (h v List.mem_cons_self)).bind
      ((extracts_all vs fun w hw => h w (List.mem_cons_of_mem v hw)).map _)

theorem flatMap_fields_bytes (vs : List Value) :
    (vs.flatMap Value.fields).flatMap Field.bytes = vs.flatMap Value.bytes :=
  List.flatMap_assoc

/-! ## The round trip -/

/-- A stream that `bytestream_init` has just set up. -/
def initialised (base len : Nat) (s : Buffered n) : Buffered n := (bytestreamInit base len s).2

theorem placed_initialised {base len : Nat} (s : Buffered n) (h : base + len ≤ n) :
    Placed base (initialised base len s) := ⟨rfl, Nat.zero_le _, h⟩

/-- **Serialization round trip.** Injecting values that fit into a fresh stream never errors,
keeps `size ≤ capacity` after every field, and writes only the first bytes of the buffer;
extracting the same types from the re-initialised stream gives the same values and ends at the
same position. A field that does not fit is an error and changes neither buffer nor position. -/
theorem values_round_trip (vs : List Value) (base len : Nat) (buf : Buffered n)
    (hv : ∀ v ∈ vs, v.InRange) (hlen : base + len ≤ n)
    (hfit : (vs.flatMap Value.bytes).length ≤ len) :
    (∃ s, injectAll vs (initialised base len buf) = (.ok (), s) ∧
      s.stream.size = (vs.flatMap Value.bytes).length ∧
      s._data.toList.take base = buf._data.toList.take base ∧
      s._data.toList.drop (base + (vs.flatMap Value.bytes).length) =
        buf._data.toList.drop (base + (vs.flatMap Value.bytes).length) ∧
      ∃ s', extractAll (vs.map Value.type) (initialised base len s) = (.ok vs, s') ∧
        s'._data = s._data ∧ s'.stream = s.stream) ∧
    (∀ xs, xs <+: vs.flatMap Value.fields →
      ∃ s, injectFields xs (initialised base len buf) = (.ok (), s) ∧
        s.stream.size ≤ s.stream.capacity) ∧
    ∀ (s : Buffered n) (x : Field) (k : Nat), s.stream.data = some k →
      s.stream.capacity < s.stream.size + x.type.size →
      x.inject s = (.error (.error "overflow"), s) ∧
        x.type.extract s = (.error (.error "overflow"), s) := by
  have hp := placed_initialised buf hlen
  refine ⟨?_, ?_, fun s x _ h hover => field_overflow x h hover⟩
  · have hinj := injects_fields (n := n) (vs.flatMap Value.fields)
    rw [flatMap_fields_bytes, ← injectAll_eq_injectFields vs hv] at hinj
    obtain ⟨s, hs, happ⟩ := hinj base _ hp
      (show 0 + (vs.flatMap Value.bytes).length ≤ len by rw [Nat.zero_add]; exact hfit)
    have hmem : store buf._data base (vs.flatMap Value.bytes) = some s._data := happ.mem
    have hst : s.stream = ⟨some base, len, 0 + (vs.flatMap Value.bytes).length⟩ := happ.stream
    have hu : unread base (initialised base len s) = vs.flatMap Value.bytes ++
        window s._data (base + (vs.flatMap Value.bytes).length)
          (len - (vs.flatMap Value.bytes).length) := by
      have hw := window_append s._data base (vs.flatMap Value.bytes).length
        (len - (vs.flatMap Value.bytes).length)
      rw [Nat.add_sub_cancel' hfit, window_store hmem] at hw
      exact hw
    refine ⟨s, hs, by rw [hst, Nat.zero_add], take_store hmem (le_refl _),
      drop_store hmem (le_refl _), _,
      extracts_all vs hv base _ _ (placed_initialised s hlen) hu, rfl, ?_⟩
    rw [hst]
    rfl
  · intro xs hxs
    have hle : (xs.flatMap Field.bytes).length ≤ len := by
      obtain ⟨ys, hys⟩ := hxs
      rw [← flatMap_fields_bytes, ← hys, List.flatMap_append, List.length_append] at hfit
      omega
    have hroom : (initialised base len buf).stream.size + (xs.flatMap Field.bytes).length ≤
        (initialised base len buf).stream.capacity := by
      show 0 + _ ≤ len
      omega
    obtain ⟨s, hs, happ⟩ := injects_fields xs base _ hp hroom
    exact ⟨s, hs, (happ.placed hp hroom).used⟩

theorem values_round_trip_gains :
    let vs : List Value :=
      [.field (.u16 0x1234), .pidGains ⟨1, 2, 3, 4, 5, 6, 0x7FC00000⟩, .ledColor 5]
    ∃ s, injectAll vs (initialised 0 40 (⟨⟨none, 0, 0⟩, Vector.replicate 40 0⟩ : Buffered 40)) =
        (.ok (), s) ∧
      ∃ s', extractAll (vs.map Value.type) (initialised 0 40 s) = (.ok vs, s') := by
  intro vs
  obtain ⟨⟨s, hs, -, -, -, s', hs', -⟩, -⟩ := values_round_trip vs 0 40
    (⟨⟨none, 0, 0⟩, Vector.replicate 40 0⟩ : Buffered 40)
    (by simp [vs, Value.InRange]) (by decide) (by decide)
  exact ⟨s, hs, s', hs'⟩

end Nuhal.Serial
