import Nuhal.All.Strings
import Nuhal.Serial.Cursor

/-!
# Arrays against bytes (`nuhal_all/src/bytestream.c:170-184`)

`bytestream_inject_u8_array` has a capacity test of its own. Every other function of the stream
refuses what does not fit (`size + len > capacity`); this one also refuses what fits exactly
(`capacity - size <= len`), an empty array into a full stream included. It does not look at
`bs->data` either.

* `injectEach`: the bytes of the array, one after the other.
* `Agree`: one of two programs raises an error if the other does, and otherwise they do the same.
* **`injectU8Array_agrees_iff`**: on every stream and for every array the two agree exactly when
  the array does not fill the stream to the last byte.
-/

namespace Nuhal.Serial

open Nuhal.Lib Nuhal.All

variable {n base : Nat} {s s' : Buffered n} {bytes : List UInt8}

/-- `bytestream_inject_u8` for one byte after the other. -/
def injectEach : List UInt8 → OnStream n Unit
  | [] => pure ()
  | b :: rest => do
    bytestreamInjectU8 b
    injectEach rest

/-- The call ends in `error`. -/
def Raises {α : Type} (r : Except Halt α) : Prop := ∃ msg, r = .error (.error msg)

/-- Either both programs raise an error, or neither does and they leave the same behind. -/
def Agree (m m' : OnStream n Unit) (s : Buffered n) : Prop :=
  (Raises (m s).1 ↔ Raises (m' s).1) ∧ (¬ Raises (m' s).1 → m s = m' s)

/-- No more of the stream is used than it has, and what it has lies inside the block. -/
structure Valid (s : Buffered n) : Prop where
  used : s.stream.size ≤ s.stream.capacity
  inside : ∀ base, s.stream.data = some base → base + s.stream.capacity ≤ n

/-- An array of `len` bytes does not fill the stream exactly. A stream over `NULL`, which
`bytestream_init` does not make, has room for nothing: there the array must not be empty, and too
long. -/
def OffBoundary (s : Buffered n) (len : Nat) : Prop :=
  match s.stream.data with
  | some _ => len ≠ s.stream.capacity - s.stream.size
  | none => len ≠ 0 ∧ s.stream.capacity - s.stream.size ≤ len

/-! ## One byte after the other -/

theorem injects_each : ∀ bytes : List UInt8, Injects (n := n) (injectEach bytes) bytes
  | [] => Injects.nil
  | b :: rest => Injects.bind (injects_u8 b) (injects_each rest)

/-- What does not fit is an error, after the bytes that do. -/
theorem injectEach_overflow (hs : Placed base s)
    (hover : s.stream.capacity < s.stream.size + bytes.length) :
    Raises (injectEach bytes s).1 := by
  induction bytes generalizing s with
  | nil =>
    have hused := hs.used
    simp at hover
    omega
  | cons b rest ih =>
    rw [List.length_cons] at hover
    by_cases hroom : s.stream.size + 1 ≤ s.stream.capacity
    · obtain ⟨s', hone, happ⟩ := injects_u8 b base s hs hroom
      have hrest := ih (happ.placed hs hroom) (by rw [happ.stream]; simp; omega)
      unfold injectEach
      rw [Run.bind_of_ok hone]
      exact hrest
    · refine ⟨"overflow", ?_⟩
      have hfull : verifyArgs 1 s = _ := verifyArgs_overflow hs.data (by omega)
      have hone : bytestreamInjectU8 b s = (.error (.error "overflow"), s) :=
        Run.bind_of_error hfull _
      unfold injectEach
      rw [Run.bind_of_error hone]

theorem injectEach_null (h : s.stream.data = none) (hne : bytes ≠ []) :
    Raises (injectEach bytes s).1 := by
  cases bytes with
  | nil => exact absurd rfl hne
  | cons b rest =>
    refine ⟨"NULL ptr", ?_⟩
    have hnull : verifyArgs 1 s = (.error (.error "NULL ptr"), s) := if_pos h
    have hone : bytestreamInjectU8 b s = (.error (.error "NULL ptr"), s) :=
      Run.bind_of_error hnull _
    unfold injectEach
    rw [Run.bind_of_error hone]

/-! ## The array at once -/

theorem sizeSub_of_le {sizeMax a b : Nat} (h : b ≤ a) : sizeSub sizeMax a b = a - b := if_pos h

/-- The test of the array function. -/
theorem injectU8Array_refuses (sizeMax : Nat) (hused : s.stream.size ≤ s.stream.capacity)
    (h : s.stream.capacity - s.stream.size ≤ bytes.length) :
    bytestreamInjectU8Array sizeMax (some bytes) bytes.length s =
      (.error (.error "buffer overrun"), s) := by
  unfold bytestreamInjectU8Array
  rw [if_neg (by simp)]
  simp only [Run.bind_get, sizeSub_of_le hused, if_pos h]
  rfl

theorem injectU8Array_goes_on (sizeMax : Nat) (hused : s.stream.size ≤ s.stream.capacity)
    (h : ¬ s.stream.capacity - s.stream.size ≤ bytes.length) :
    bytestreamInjectU8Array sizeMax (some bytes) bytes.length s =
      (copyFrom (some bytes) bytes.length >>= fun _ => advance bytes.length) s := by
  unfold bytestreamInjectU8Array
  rw [if_neg (by simp)]
  simp only [Run.bind_get, sizeSub_of_le hused, if_neg h]

/-- `bs->data` is used as it is. -/
theorem injectU8Array_null (sizeMax : Nat) (hused : s.stream.size ≤ s.stream.capacity)
    (h : ¬ s.stream.capacity - s.stream.size ≤ bytes.length) (hnull : s.stream.data = none) :
    bytestreamInjectU8Array sizeMax (some bytes) bytes.length s = (.error .undefined, s) := by
  rw [injectU8Array_goes_on sizeMax hused h]
  refine Run.bind_of_error ?_ _
  unfold copyFrom
  simp [hnull]

/-- What fits with room to spare is written as the bytes one after the other would be. -/
theorem injectU8Array_fits (sizeMax : Nat) (hs : Placed base s)
    (h : ¬ s.stream.capacity - s.stream.size ≤ bytes.length) :
    ∃ s', bytestreamInjectU8Array sizeMax (some bytes) bytes.length s = (.ok (), s') ∧
      Appended base bytes s s' := by
  have hin := hs.inside
  obtain ⟨v, hv⟩ := exists_store s._data (show base + s.stream.size + bytes.length ≤ n by omega)
  have hcopy : copyFrom (some bytes) bytes.length s = (.ok (), { s with _data := v }) := by
    unfold copyFrom
    simp [hs.data, hv]
  rw [injectU8Array_goes_on sizeMax hs.used h, Run.bind_of_ok hcopy]
  exact ⟨_, rfl, rfl, hv⟩

theorem Appended.unique {s₁ s₂ : Buffered n} (h₁ : Appended base bytes s s₁)
    (h₂ : Appended base bytes s s₂) : s₁ = s₂ := by
  have hstream := h₁.stream.trans h₂.stream.symm
  have hmem := Option.some.inj (h₁.mem.symm.trans h₂.mem)
  cases s₁
  cases s₂
  simp_all

/-! ## Agreement -/

theorem not_raises_ok {α : Type} (a : α) : ¬ Raises (Except.ok a) := by
  rintro ⟨msg, h⟩
  cases h

theorem not_raises_undefined {α : Type} : ¬ Raises (Except.error (α := α) .undefined) := by
  rintro ⟨msg, h⟩
  cases h

theorem agree_placed (sizeMax : Nat) (hs : Placed base s) :
    Agree (bytestreamInjectU8Array sizeMax (some bytes) bytes.length) (injectEach bytes) s ↔
      bytes.length ≠ s.stream.capacity - s.stream.size := by
  have hused := hs.used
  rcases Nat.lt_trichotomy bytes.length (s.stream.capacity - s.stream.size) with h | h | h
  · obtain ⟨s₁, hone, happ⟩ := injects_each bytes base s hs (by omega)
    obtain ⟨s₂, hall, happ₂⟩ := injectU8Array_fits sizeMax hs (Nat.not_le.mpr h)
    obtain rfl := happ.unique happ₂
    refine iff_of_true ⟨?_, fun _ => hall.trans hone.symm⟩ (Nat.ne_of_lt h)
    rw [hone, hall]
  · -- the array fits exactly
    obtain ⟨s₁, hone, -⟩ := injects_each bytes base s hs (by omega)
    have hall := injectU8Array_refuses sizeMax hused (Nat.le_of_eq h.symm)
    refine iff_of_false (fun hagree => ?_) (fun hne => hne h)
    have hraises := hagree.1
    rw [hone, hall] at hraises
    exact not_raises_ok () (hraises.mp ⟨_, rfl⟩)
  · have hone : Raises (injectEach bytes s).1 := injectEach_overflow hs (by omega)
    have hall := injectU8Array_refuses sizeMax hused (Nat.le_of_lt h)
    refine iff_of_true ⟨iff_of_true ?_ hone, fun hno => absurd hone hno⟩ (Nat.ne_of_gt h)
    rw [hall]
    exact ⟨_, rfl⟩

theorem agree_null (sizeMax : Nat) (hused : s.stream.size ≤ s.stream.capacity)
    (hnull : s.stream.data = none) :
    Agree (bytestreamInjectU8Array sizeMax (some bytes) bytes.length) (injectEach bytes) s ↔
      bytes.length ≠ 0 ∧ s.stream.capacity - s.stream.size ≤ bytes.length := by
  by_cases hroom : s.stream.capacity - s.stream.size ≤ bytes.length
  · have hall := injectU8Array_refuses sizeMax hused hroom
    rw [and_iff_left hroom]
    by_cases hempty : bytes = []
    · subst hempty
      refine iff_of_false (fun hagree => ?_) (fun hne => hne rfl)
      have hraises := hagree.1
      rw [hall] at hraises
      exact not_raises_ok () (hraises.mp ⟨_, rfl⟩)
    · have hone := injectEach_null hnull hempty
      refine iff_of_true ⟨iff_of_true ?_ hone, fun hno => absurd hone hno⟩ ?_
      · rw [hall]
        exact ⟨_, rfl⟩
      · exact fun hlen => hempty (List.length_eq_zero_iff.mp hlen)
  · -- the copy to a null pointer
    have hall := injectU8Array_null sizeMax hused hroom hnull
    refine iff_of_false (fun hagree => ?_) (fun hboth => hroom hboth.2)
    have hno : ¬ Raises (injectEach bytes s).1 := fun hone => by
      have hraises := hagree.1.mpr hone
      rw [hall] at hraises
      exact not_raises_undefined hraises
    have hsame := hagree.2 hno
    rw [hall] at hsame
    cases bytes with
    | nil => cases hsame
    | cons b rest => exact hno (injectEach_null hnull (by simp))

/-- **Array injection agrees with bytewise injection exactly when the array does not fill the
stream to the last byte.** The stream has at most its capacity used and may be anything else. -/
theorem injectU8Array_agrees_iff (sizeMax : Nat) (s : Buffered n) (bytes : List UInt8)
    (h : Valid s) :
    Agree (bytestreamInjectU8Array sizeMax (some bytes) bytes.length) (injectEach bytes) s ↔
      OffBoundary s bytes.length := by
  cases hdata : s.stream.data with
  | none =>
    rw [agree_null sizeMax h.used hdata]
    unfold OffBoundary
    rw [hdata]
  | some base =>
    rw [agree_placed sizeMax ⟨hdata, h.used, h.inside base hdata⟩]
    unfold OffBoundary
    rw [hdata]

/-- One byte into a stream of two. -/
theorem injectU8Array_agrees_iff_one :
    Agree (bytestreamInjectU8Array 0xFFFFFFFF (some [7]) 1) (injectEach [7])
      ⟨⟨some 0, 2, 0⟩, #v[0, 0]⟩ :=
  (injectU8Array_agrees_iff 0xFFFFFFFF ⟨⟨some 0, 2, 0⟩, #v[0, 0]⟩ [7]
    ⟨by decide, fun _ h => by cases h; decide⟩).mpr (show 1 ≠ 2 by decide)

/-- Two bytes into a stream of two: the array is refused, the bytes are not. -/
theorem injectU8Array_exact_fit :
    Valid (n := 2) ⟨⟨some 0, 2, 0⟩, #v[0, 0]⟩ ∧
      ¬ Agree (bytestreamInjectU8Array 0xFFFFFFFF (some [7, 8]) 2) (injectEach [7, 8])
        ⟨⟨some 0, 2, 0⟩, #v[0, 0]⟩ := by
  refine ⟨⟨by decide, fun _ h => by cases h; decide⟩, fun hagree => ?_⟩
  obtain ⟨msg, hmsg⟩ := hagree.1.mp ⟨"buffer overrun", rfl⟩
  cases hmsg

end Nuhal.Serial
