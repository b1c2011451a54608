import Nuhal.Serial.Tape

/-!
# Writing back what was read (`nuhal_all/src/bytestream.c`, `pid.c:81-183`, `encoder.c:107-163`)

The other way round from `Serial/Values`: whatever bytes a stream holds, values that can be read
from it are the values with these bytes. A record has one encoding only, and the extract functions
accept no other.

* `Consumes m P`: when `m` returns `a`, it has moved over some bytes of the stream and `P a` holds
  of them. It composes (`Consumes.bind`), so a record's function is read off its field order.
* `consumes_value`: each extract function has read its value's encoding.
* **`inject_extracted`**: injecting extracted values where they were leaves everything as it was.
-/

namespace Nuhal.Serial

open Nuhal.Lib Nuhal.All

variable {n : Nat} {α β : Type}

/-- What `m` returns is in the bytes that it has moved over. -/
def Consumes (m : OnStream n α) (P : α → List UInt8 → Prop) : Prop :=
  ∀ base s a s', Placed base s → m s = (.ok a, s') →
    ∃ bytes rest, unread base s = bytes ++ rest ∧ s' = skip s bytes.length ∧ P a bytes

namespace Consumes

theorem pure (a : α) : Consumes (n := n) (Pure.pure a) fun b bytes => b = a ∧ bytes = [] := by
  intro base s b s' _ h
  cases h
  exact ⟨[], _, rfl, rfl, rfl, rfl⟩

theorem mono {m : OnStream n α} {P Q : α → List UInt8 → Prop} (h : Consumes m P)
    (hPQ : ∀ a bytes, P a bytes → Q a bytes) : Consumes m Q := by
  intro base s a s' hplaced hrun
  obtain ⟨bytes, rest, hunread, hskip, hP⟩ := h base s a s' hplaced hrun
  exact ⟨bytes, rest, hunread, hskip, hPQ a bytes hP⟩

/-- **The rule for sequences.** -/
theorem bind {m : OnStream n α} {f : α → OnStream n β} {P : α → List UInt8 → Prop}
    {Q : β → List UInt8 → Prop} (hm : Consumes m P)
    (hf : ∀ a bytes, P a bytes → Consumes (f a) fun b more => Q b (bytes ++ more)) :
    Consumes (m >>= f) Q := by
  intro base s b s' hplaced hrun
  obtain ⟨a, s₁, hfirst, hrest⟩ := Run.bind_eq_ok hrun
  obtain ⟨bytes, rest, hunread, rfl, hP⟩ := hm base s a s₁ hplaced hfirst
  have hplaced₁ := hplaced.skip (hplaced.fits hunread)
  obtain ⟨more, rest', hunread', rfl, hQ⟩ := hf a bytes hP base _ b s' hplaced₁ hrest
  rw [unread_skip, hunread, List.drop_left] at hunread'
  refine ⟨bytes ++ more, rest', ?_, ?_, hQ⟩
  · rw [hunread, hunread', List.append_assoc]
  · rw [skip_skip, List.length_append]

/-- The last step of a sequence that puts a result together. -/
theorem result {a : α} {Q : α → List UInt8 → Prop} (h : Q a []) :
    Consumes (n := n) (Pure.pure a) Q := by
  refine (Consumes.pure a).mono ?_
  rintro _ _ ⟨rfl, rfl⟩
  exact h

theorem unmap {m : OnStream n α} {g : α → β} {P : β → List UInt8 → Prop}
    (h : Consumes (do return g (← m)) P) : Consumes m fun a => P (g a) := by
  intro base s a s' hplaced hrun
  exact h base s (g a) s' hplaced (Run.bind_of_ok hrun _)

end Consumes

/-! ## Fields -/

theorem consumes_field (t : FieldType) :
    Consumes (n := n) t.extract fun x bytes => x.type = t ∧ bytes = x.bytes := by
  intro base s x s' hplaced hrun
  have hlength := length_unread hplaced
  by_cases hfits : t.size ≤ (unread base s).length
  · have htake : ((unread base s).take t.size).length = t.size := by
      rw [List.length_take, Nat.min_eq_left hfits]
    have hbytes := bytes_decode htake
    have hextract := extracts_field (n := n) (t.decode ((unread base s).take t.size)) base s
      ((unread base s).drop t.size) hplaced (by rw [hbytes, List.take_append_drop])
    rw [type_decode, hrun] at hextract
    cases hextract
    exact ⟨_, _, by rw [hbytes, List.take_append_drop], rfl, type_decode _ _, rfl⟩
  · have hover : s.stream.capacity < s.stream.size + (t.decode []).type.size := by
      have hused := hplaced.used
      rw [type_decode]
      omega
    have herror := (field_overflow (t.decode []) hplaced.data hover).2
    rw [type_decode, hrun] at herror
    cases herror

theorem consumes_u8 : Consumes (n := n) bytestreamExtractU8 fun x bytes =>
    bytes = (Field.u8 x).bytes :=
  (consumes_field .u8).unmap.mono fun _ _ h => h.2

theorem consumes_i32 : Consumes (n := n) bytestreamExtractI32 fun x bytes =>
    bytes = (Field.i32 x).bytes :=
  (consumes_field .i32).unmap.mono fun _ _ h => h.2

theorem consumes_f : Consumes (n := n) bytestreamExtractF fun x bytes =>
    bytes = (Field.f x).bytes :=
  (consumes_field .f).unmap.mono fun _ _ h => h.2

/-! ## Records -/

theorem consumes_gains : Consumes (n := n) pidGainsExtract fun g bytes =>
    bytes = (Value.pidGains g).bytes := by
  refine consumes_f.bind fun kp _ hkp => consumes_f.bind fun ki _ hki =>
    consumes_f.bind fun kd _ hkd => consumes_f.bind fun uMax _ huMax =>
    consumes_f.bind fun uMin _ huMin => consumes_f.bind fun iMax _ hiMax =>
    consumes_f.bind fun iMin _ hiMin => Consumes.result ?_
  rw [hkp, hki, hkd, huMax, huMin, hiMax, hiMin]
  rfl

theorem consumes_state : Consumes (n := n) pidStateExtract fun state bytes =>
    bytes = (stateFields state).flatMap Field.bytes := by
  refine consumes_f.bind fun p _ hp => consumes_f.bind fun i _ hi => consumes_f.bind fun d _ hd =>
    Consumes.result ?_
  rw [hp, hi, hd]
  rfl

theorem consumes_signals : Consumes (n := n) pidSignalsExtract fun signals bytes =>
    bytes = (signalsFields signals).flatMap Field.bytes := by
  refine consumes_f.bind fun r _ hr => consumes_f.bind fun m _ hm => consumes_f.bind fun e _ he =>
    Consumes.result ?_
  rw [hr, hm, he]
  rfl

theorem consumes_debugInfo : Consumes (n := n) pidDebugInfoExtract fun d bytes =>
    bytes = (Value.pidDebugInfo d).bytes := by
  refine consumes_state.bind fun state _ hstate => consumes_signals.bind fun signals _ hsignals =>
    consumes_u8.bind fun sequence _ hsequence => consumes_u8.bind fun missed _ hmissed =>
    Consumes.result ?_
  rw [hstate, hsignals, hsequence, hmissed]
  rfl

theorem consumes_joints : Consumes (n := n) encoderJointsExtract fun e bytes =>
    bytes = (Value.encoderJoints e).bytes := by
  refine consumes_i32.bind fun bt _ hbt => consumes_f.bind fun br _ hbr =>
    consumes_i32.bind fun at' _ hat => consumes_f.bind fun ar _ har => Consumes.result ?_
  rw [hbt, hbr, hat, har]
  rfl

theorem consumes_gimbal : Consumes (n := n) encoderGimbalExtract fun e bytes =>
    bytes = (Value.encoderGimbal e).bytes := by
  refine consumes_i32.bind fun xt _ hxt => consumes_i32.bind fun yt _ hyt =>
    consumes_i32.bind fun zt _ hzt => consumes_f.bind fun xr _ hxr =>
    consumes_f.bind fun yr _ hyr => consumes_f.bind fun zr _ hzr => Consumes.result ?_
  rw [hxt, hyt, hzt, hxr, hyr, hzr]
  rfl

theorem consumes_ledColor : Consumes (n := n) ledColorExtract fun color bytes =>
    color ≤ 7 ∧ bytes = (Value.ledColor color).bytes := by
  refine consumes_u8.bind fun b _ hb => ?_
  by_cases hlarge : b.toUInt32 > 0x7
  · rw [if_pos hlarge]
    intro base s a s' _ hrun
    cases hrun
  · rw [if_neg hlarge]
    refine Consumes.result ⟨UInt32.not_lt.mp hlarge, ?_⟩
    rw [hb, List.append_nil]
    show [b] = [b.toUInt32.toUInt8]
    simp

/-- **What an extract function returns has been read off its encoding.** -/
theorem consumes_value (t : ValueType) : Consumes (n := n) t.extract fun v bytes =>
    v.type = t ∧ v.InRange ∧ bytes = v.bytes := by
  cases t with
  | field t =>
    refine (consumes_field t).bind fun x _ hx => Consumes.result ⟨?_, trivial, ?_⟩
    · exact congrArg ValueType.field hx.1
    · rw [hx.2]
      rfl
  | pidGains =>
    exact consumes_gains.bind fun _ _ h =>
      Consumes.result ⟨rfl, trivial, by rw [h, List.append_nil]⟩
  | pidState =>
    exact consumes_state.bind fun _ _ h => Consumes.result ⟨rfl, trivial, by rw [h]; rfl⟩
  | pidSignals =>
    exact consumes_signals.bind fun _ _ h => Consumes.result ⟨rfl, trivial, by rw [h]; rfl⟩
  | pidDebugInfo =>
    exact consumes_debugInfo.bind fun _ _ h =>
      Consumes.result ⟨rfl, trivial, by rw [h, List.append_nil]⟩
  | encoderJoints =>
    exact consumes_joints.bind fun _ _ h =>
      Consumes.result ⟨rfl, trivial, by rw [h, List.append_nil]⟩
  | encoderGimbal =>
    exact consumes_gimbal.bind fun _ _ h =>
      Consumes.result ⟨rfl, trivial, by rw [h, List.append_nil]⟩
  | ledColor =>
    exact consumes_ledColor.bind fun _ _ h =>
      Consumes.result ⟨rfl, h.1, by rw [h.2, List.append_nil]⟩

theorem consumes_all (types : List ValueType) : Consumes (n := n) (extractAll types)
    fun vs bytes => vs.map Value.type = types ∧ (∀ v ∈ vs, v.InRange) ∧
      bytes = vs.flatMap Value.bytes := by
  induction types with
  | nil => exact Consumes.result ⟨rfl, fun _ h => absurd h List.not_mem_nil, rfl⟩
  | cons t types ih =>
    refine (consumes_value t).bind fun v bytes hv => ih.bind fun vs more hvs => Consumes.result ?_
    obtain ⟨htype, hrange, rfl⟩ := hv
    obtain ⟨htypes, hranges, rfl⟩ := hvs
    refine ⟨by rw [List.map_cons, htype, htypes], ?_, by rw [List.append_nil]; rfl⟩
    rintro w (_ | ⟨_, hw⟩)
    · exact hrange
    · exact hranges w hw

/-! ## Writing back -/

/-- **Values that were read are what is there**: whatever bytes a stream holds, values extracted
from it have the types that were asked for, and injecting them at the same place succeeds and leaves
the block and the position as the extraction did. -/
theorem inject_extracted (types : List ValueType) (base : Nat) (s s' : Buffered n)
    (vs : List Value) (hplaced : Placed base s) (hextract : extractAll types s = (.ok vs, s')) :
    vs.map Value.type = types ∧ injectAll vs s = (.ok (), s') := by
  obtain ⟨bytes, rest, hunread, rfl, htypes, hranges, rfl⟩ :=
    consumes_all types base s vs s' hplaced hextract
  refine ⟨htypes, ?_⟩
  have hfit := hplaced.fits hunread
  have hinject := injects_fields (n := n) (vs.flatMap Value.fields)
  rw [flatMap_fields_bytes, ← injectAll_eq_injectFields vs hranges] at hinject
  obtain ⟨⟨stream, data⟩, hrun, hstream, hmem⟩ := hinject base s hplaced hfit
  have hwindow : vs.flatMap Value.bytes =
      window s._data (base + s.stream.size) (vs.flatMap Value.bytes).length := by
    have hlength := length_unread hplaced
    rw [hunread, List.length_append] at hlength
    have hw := window_append s._data (base + s.stream.size) (vs.flatMap Value.bytes).length
      rest.length
    rw [hlength, show window s._data _ _ = unread base s from rfl, hunread] at hw
    exact (List.append_inj hw (length_window (by have := hplaced.inside; omega)).symm).1
  have hsame : store s._data (base + s.stream.size) (vs.flatMap Value.bytes) = some s._data := by
    rw [hwindow]
    exact store_window (by have := hplaced.inside; omega)
  have hdata : data = s._data := Option.some.inj (hmem.symm.trans hsame)
  rw [hrun]
  subst hdata hstream
  rfl

theorem inject_extracted_gimbal :
    let s : Buffered 26 := ⟨⟨some 0, 26, 0⟩, Vector.replicate 26 0xFF⟩
    ∃ vs s', extractAll [.encoderGimbal, .field .u16] s = (.ok vs, s') ∧
      injectAll vs s = (.ok (), s') := by
  intro s
  have hok : (extractAll [.encoderGimbal, .field .u16] s).1.toOption.isSome = true := by
    decide +kernel
  rcases hextract : extractAll [.encoderGimbal, .field .u16] s with ⟨vs | vs, s'⟩
  · rw [hextract] at hok
    cases hok
  · exact ⟨vs, s', rfl, (inject_extracted _ 0 s s' vs ⟨rfl, by decide, by decide⟩ hextract).2⟩

end Nuhal.Serial
