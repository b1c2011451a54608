import Nuhal.All.Bytestream
import Nuhal.Lib.Codec

/-!
# What the bytestream functions do to their block

The functions of `Nuhal.All.Bytestream` move a cursor through a block. Here that is said once and
for all, as two relations between a function and a list of bytes:

* `Injects m bytes`: with room for them, `m` writes `bytes` at the cursor, moves it past them and
  changes nothing else (`Appended`).
* `Extracts m bytes a`: where the unread bytes begin with `bytes`, `m` returns `a`, moves the
  cursor past them and changes nothing else.

Both compose (`Injects.bind`, `Extracts.bind`), so a record's functions are read off their field
order. `injects_u8 … injects_f` and `extracts_u8 … extracts_f` are the basic types: a number is
its big-endian form, most significant byte first.
-/

namespace Nuhal.Serial

open Nuhal.Lib Nuhal.All

variable {n : Nat} {α β : Type}

/-- The stream's bytes lie inside its block from `base` on, and its position inside its bytes. -/
structure Placed (base : Nat) (s : Buffered n) : Prop where
  data : s.stream.data = some base
  used : s.stream.size ≤ s.stream.capacity
  inside : base + s.stream.capacity ≤ n

/-- The bytes between the position and the end of the stream. -/
def unread (base : Nat) (s : Buffered n) : List UInt8 :=
  window s._data (base + s.stream.size) (s.stream.capacity - s.stream.size)

/-- The same block with the position moved on by `k`. -/
def skip (s : Buffered n) (k : Nat) : Buffered n :=
  { s with stream := { s.stream with size := s.stream.size + k } }

/-- `s'` is `s` with `bytes` written at the position and the position moved past them. -/
structure Appended (base : Nat) (bytes : List UInt8) (s s' : Buffered n) : Prop where
  stream : s'.stream = { s.stream with size := s.stream.size + bytes.length }
  mem : store s._data (base + s.stream.size) bytes = some s'._data

/-- `m` writes `bytes` wherever they fit. -/
def Injects (m : OnStream n Unit) (bytes : List UInt8) : Prop :=
  ∀ base s, Placed base s → s.stream.size + bytes.length ≤ s.stream.capacity →
    ∃ s', m s = (.ok (), s') ∧ Appended base bytes s s'

/-- `m` reads `a` wherever `bytes` come next. -/
def Extracts (m : OnStream n α) (bytes : List UInt8) (a : α) : Prop :=
  ∀ base s rest, Placed base s → unread base s = bytes ++ rest →
    m s = (.ok a, skip s bytes.length)

/-! ## Moving the cursor -/

theorem length_unread {base : Nat} {s : Buffered n} (h : Placed base s) :
    (unread base s).length = s.stream.capacity - s.stream.size := by
  have h1 := h.used
  have h2 := h.inside
  exact length_window (by omega)

theorem skip_skip (s : Buffered n) (j k : Nat) : skip (skip s j) k = skip s (j + k) := by
  simp [skip, Nat.add_assoc]

theorem Placed.skip {base k : Nat} {s : Buffered n} (h : Placed base s)
    (hk : s.stream.size + k ≤ s.stream.capacity) : Placed base (skip s k) :=
  ⟨h.data, hk, h.inside⟩

theorem unread_skip {base : Nat} (s : Buffered n) (k : Nat) :
    unread base (skip s k) = (unread base s).drop k := by
  unfold unread window
  rw [List.drop_take, List.drop_drop]
  show ((s._data.toList.drop (base + (s.stream.size + k))).take _) = _
  rw [Nat.add_assoc, Nat.sub_sub]
  rfl

theorem Placed.fits {base : Nat} {s : Buffered n} {bytes rest : List UInt8} (h : Placed base s)
    (hu : unread base s = bytes ++ rest) : s.stream.size + bytes.length ≤ s.stream.capacity := by
  have hl := length_unread h
  have hs := h.used
  rw [hu, List.length_append] at hl
  omega

theorem Appended.placed {base : Nat} {bytes : List UInt8} {s s' : Buffered n}
    (h : Appended base bytes s s') (hs : Placed base s)
    (hfit : s.stream.size + bytes.length ≤ s.stream.capacity) : Placed base s' := by
  refine ⟨?_, ?_, ?_⟩
  · rw [h.stream]; exact hs.data
  · rw [h.stream]; exact hfit
  · rw [h.stream]; exact hs.inside

theorem Appended.trans {base : Nat} {xs ys : List UInt8} {s s₁ s₂ : Buffered n}
    (h₁ : Appended base xs s s₁) (h₂ : Appended base ys s₁ s₂) :
    Appended base (xs ++ ys) s s₂ := by
  refine ⟨?_, ?_⟩
  · rw [h₂.stream, h₁.stream, List.length_append, Nat.add_assoc]
  · have hm := h₂.mem
    rw [h₁.stream] at hm
    rw [← store_store h₁.mem, Nat.add_assoc]
    exact hm

/-! ## Composition -/

theorem Injects.nil : Injects (n := n) (pure ()) [] := by
  intro base s hs _
  have h2 := hs.inside
  exact ⟨s, rfl, rfl, store_nil (by omega)⟩

theorem Injects.bind {m : OnStream n Unit} {f : Unit → OnStream n Unit} {xs ys : List UInt8}
    (hm : Injects m xs) (hf : Injects (f ()) ys) : Injects (m >>= f) (xs ++ ys) := by
  intro base s hs hfit
  rw [List.length_append] at hfit
  obtain ⟨s₁, e₁, a₁⟩ := hm base s hs (by omega)
  obtain ⟨s₂, e₂, a₂⟩ := hf base s₁ (a₁.placed hs (by omega)) (by rw [a₁.stream]; simp; omega)
  exact ⟨s₂, by rw [Run.bind_of_ok e₁, e₂], a₁.trans a₂⟩

theorem Extracts.pure (a : α) : Extracts (n := n) (pure a) [] a := fun _ _ _ _ _ => rfl

theorem Extracts.bind {m : OnStream n α} {f : α → OnStream n β} {xs ys : List UInt8} {a : α}
    {b : β} (hm : Extracts m xs a) (hf : Extracts (f a) ys b) :
    Extracts (m >>= f) (xs ++ ys) b := by
  intro base s rest hs hu
  rw [List.append_assoc] at hu
  have e₁ := hm base s (ys ++ rest) hs hu
  have e₂ := hf base (skip s xs.length) rest (hs.skip (hs.fits hu))
    (by rw [unread_skip, hu, List.drop_left])
  rw [Run.bind_of_ok e₁, e₂, skip_skip, List.length_append]

/-! ## The parts of the primitives -/

theorem streamSize_ok (s : Buffered n) : streamSize s = (.ok s.stream.size, s) := rfl

theorem advance_ok (k : Nat) (s : Buffered n) : advance k s = (.ok (), skip s k) := rfl

theorem verifyArgs_ok {base len : Nat} {s : Buffered n} (h : Placed base s)
    (hfit : s.stream.size + len ≤ s.stream.capacity) : verifyArgs len s = (.ok (), s) := by
  unfold verifyArgs
  rw [if_neg (by rw [h.data]; exact Option.some_ne_none _), if_neg (by omega)]

/-- An access that does not fit is an error that changes nothing. -/
theorem verifyArgs_overflow {base len : Nat} {s : Buffered n} (h : s.stream.data = some base)
    (hover : s.stream.capacity < s.stream.size + len) :
    verifyArgs len s = (.error (.error "overflow"), s) := by
  unfold verifyArgs
  rw [if_neg (by rw [h]; exact Option.some_ne_none _), if_pos hover]
  rfl

theorem setData_ok {base i : Nat} {b : UInt8} {s : Buffered n} {v : Vector UInt8 n}
    (h : s.stream.data = some base) (hv : store s._data (base + i) [b] = some v) :
    setData i b s = (.ok (), { s with _data := v }) := by
  unfold setData
  rw [h, Option.bind_some, hv]

theorem getData_ok {base i : Nat} {b : UInt8} {s : Buffered n} (h : s.stream.data = some base)
    (hb : s._data[base + i]? = some b) : getData i s = (.ok b, s) := by
  unfold getData
  rw [h, Option.bind_some, hb]

theorem getElem?_of_unread {base i : Nat} {b : UInt8} {s : Buffered n}
    (h : (unread base s)[i]? = some b) : s._data[base + (s.stream.size + i)]? = some b := by
  unfold unread window at h
  rw [List.getElem?_take] at h
  split at h
  · rw [List.getElem?_drop, Vector.getElem?_toList, Nat.add_assoc] at h
    exact h
  · cases h

/-- `getData` at an unread byte. -/
theorem getData_unread {base i k : Nat} {b : UInt8} {s : Buffered n} {bytes rest : List UInt8}
    (hs : Placed base s) (hu : unread base s = bytes ++ rest) (hk : k = s.stream.size + i)
    (hb : bytes[i]? = some b) : getData k s = (.ok b, s) := by
  subst hk
  refine getData_ok hs.data (getElem?_of_unread ?_)
  rw [hu, List.getElem?_append_left, hb]
  exact (List.getElem?_eq_some_iff.mp hb).1

/-- There is a byte to store to at any index below the capacity. -/
theorem Placed.exists_byte {base i : Nat} {s : Buffered n} (h : Placed base s)
    (hi : i < s.stream.capacity) (mem : Vector UInt8 n) (b : UInt8) :
    ∃ v, store mem (base + i) [b] = some v := by
  have hin := h.inside
  refine exists_store mem ?_
  rw [List.length_singleton]
  omega

/-! ## The basic types -/

theorem injects_u8 (u8 : UInt8) : Injects (n := n) (bytestreamInjectU8 u8) [u8] := by
  intro base s hs hfit
  simp only [List.length_singleton] at hfit
  obtain ⟨v, hv⟩ := hs.exists_byte (i := s.stream.size) (by omega) s._data u8
  refine ⟨skip { s with _data := v } 1, ?_, rfl, hv⟩
  unfold bytestreamInjectU8
  rw [Run.bind_of_ok (verifyArgs_ok hs hfit), Run.bind_of_ok (streamSize_ok s),
    Run.bind_of_ok (setData_ok hs.data hv)]
  rfl

theorem extracts_u8 (u8 : UInt8) : Extracts (n := n) bytestreamExtractU8 [u8] u8 := by
  intro base s rest hs hu
  have hb : s._data[base + (s.stream.size + 0)]? = some u8 :=
    getElem?_of_unread (by rw [hu, List.singleton_append, List.getElem?_cons_zero])
  have hfit := hs.fits hu
  simp only [List.length_singleton] at hfit
  unfold bytestreamExtractU8
  rw [Run.bind_of_ok (verifyArgs_ok hs hfit),
    Run.bind_of_ok (streamSize_ok s),
    Run.bind_of_ok (advance_ok 1 s)]
  exact getData_ok (s := skip s 1) hs.data hb

/-- The two bytes `bytestream_inject_u16` writes are the big-endian form. -/
theorem u16_bytes (u : UInt16) :
    [((u &&& 0xFF00) >>> 8).toUInt8, (u &&& 0x00FF).toUInt8] = bigEndian 2 u.toNat := by
  have h1 := and_shiftRight_mod (m := 0xFF00) (k := 1) u.toNat (by decide)
  have h0 := and_shiftRight_mod (m := 0x00FF) (k := 0) u.toNat (by decide)
  have e1 : ((u &&& 0xFF00) >>> 8).toUInt8 = UInt8.ofNat (u.toNat / 256) :=
    UInt8.toNat_inj.mp (by simpa using h1)
  have e0 : (u &&& 0x00FF).toUInt8 = UInt8.ofNat u.toNat :=
    UInt8.toNat_inj.mp (by
      rw [UInt16.toNat_toUInt8, UInt16.toNat_and, UInt8.toNat_ofNat']
      simpa using h0)
  rw [e1, e0]
  rfl

theorem injects_u16 (u16 : UInt16) :
    Injects (n := n) (bytestreamInjectU16 u16) (bigEndian 2 u16.toNat) := by
  rw [← u16_bytes]
  intro base s hs hfit
  simp only [List.length_cons, List.length_nil] at hfit
  obtain ⟨v₁, h₁⟩ := hs.exists_byte (i := s.stream.size + 1) (by omega) s._data
    (u16 &&& 0x00FF).toUInt8
  obtain ⟨v₂, h₂⟩ := hs.exists_byte (i := s.stream.size) (by omega) v₁
    ((u16 &&& 0xFF00) >>> 8).toUInt8
  refine ⟨skip { s with _data := v₂ } 2, ?_, rfl, ?_⟩
  · unfold bytestreamInjectU16
    rw [Run.bind_of_ok (verifyArgs_ok hs hfit), Run.bind_of_ok (streamSize_ok s),
      Run.bind_of_ok (setData_ok hs.data h₁), Run.bind_of_ok (setData_ok (by exact hs.data) h₂)]
    rfl
  · exact (store_store_rev h₁).symm.trans h₂

/-- The shifts and the or of `bytestream_extract_u16` read the big-endian number. -/
theorem u16_of_bytes (hi lo : UInt8) :
    lo.toUInt16 ||| (hi.toUInt16 <<< 8) = UInt16.ofNat (ofBigEndian [hi, lo]) := by
  have h0 := lo.toNat_lt
  have h1 := hi.toNat_lt
  have hv : ofBigEndian [hi, lo] = 256 * hi.toNat + lo.toNat := by simp [ofBigEndian]
  apply UInt16.toNat_inj.mp
  rw [hv, UInt16.toNat_ofNat', Nat.mod_eq_of_lt (by omega)]
  simp only [UInt16.toNat_or, UInt16.toNat_shiftLeft, UInt8.toNat_toUInt16, UInt16.reduceToNat,
    Nat.reduceMod]
  rw [shiftLeft_mod (by omega), or_shiftLeft h0]
  omega

/-- `bytestream_extract_u16` returns the big-endian number of the next two bytes. -/
theorem extracts_bytes2 (hi lo : UInt8) :
    Extracts (n := n) bytestreamExtractU16 [hi, lo] (UInt16.ofNat (ofBigEndian [hi, lo])) := by
  intro base s rest hs hu
  have hfit := hs.fits hu
  simp only [List.length_cons, List.length_nil] at hfit
  unfold bytestreamExtractU16
  rw [Run.bind_of_ok (verifyArgs_ok hs hfit), Run.bind_of_ok (streamSize_ok s),
    Run.bind_of_ok (getData_unread (k := s.stream.size + 1) hs hu (i := 1) rfl rfl),
    Run.bind_of_ok (getData_unread (k := s.stream.size) hs hu (i := 0) rfl rfl),
    Run.bind_of_ok (advance_ok 2 s), u16_of_bytes]
  rfl

theorem extracts_u16 (u16 : UInt16) :
    Extracts (n := n) bytestreamExtractU16 (bigEndian 2 u16.toNat) u16 := by
  have h := extracts_bytes2 (n := n) (UInt8.ofNat (u16.toNat / 256)) (UInt8.ofNat u16.toNat)
  have hv : ofBigEndian (bigEndian 2 u16.toNat) = u16.toNat := by
    rw [ofBigEndian_bigEndian, Nat.mod_eq_of_lt (show u16.toNat < 256 ^ 2 from u16.toNat_lt)]
  change Extracts _ (bigEndian 2 u16.toNat)
    (UInt16.ofNat (ofBigEndian (bigEndian 2 u16.toNat))) at h
  rw [hv, UInt16.ofNat_toNat] at h
  exact h

/-- The four bytes `bytestream_inject_u32` writes are the big-endian form. -/
theorem u32_bytes (u : UInt32) :
    [((u &&& 0xFF000000) >>> 24).toUInt8, ((u &&& 0x00FF0000) >>> 16).toUInt8,
      ((u &&& 0x0000FF00) >>> 8).toUInt8, (u &&& 0x000000FF).toUInt8] = bigEndian 4 u.toNat := by
  have h3 := and_shiftRight_mod (m := 0xFF000000) (k := 3) u.toNat (by decide)
  have h2 := and_shiftRight_mod (m := 0x00FF0000) (k := 2) u.toNat (by decide)
  have h1 := and_shiftRight_mod (m := 0x0000FF00) (k := 1) u.toNat (by decide)
  have h0 := and_shiftRight_mod (m := 0x000000FF) (k := 0) u.toNat (by decide)
  have e3 : ((u &&& 0xFF000000) >>> 24).toUInt8 = UInt8.ofNat (u.toNat / 256 / 256 / 256) :=
    UInt8.toNat_inj.mp (by simpa [Nat.div_div_eq_div_mul] using h3)
  have e2 : ((u &&& 0x00FF0000) >>> 16).toUInt8 = UInt8.ofNat (u.toNat / 256 / 256) :=
    UInt8.toNat_inj.mp (by simpa [Nat.div_div_eq_div_mul] using h2)
  have e1 : ((u &&& 0x0000FF00) >>> 8).toUInt8 = UInt8.ofNat (u.toNat / 256) :=
    UInt8.toNat_inj.mp (by simpa using h1)
  have e0 : (u &&& 0x000000FF).toUInt8 = UInt8.ofNat u.toNat :=
    UInt8.toNat_inj.mp (by
      rw [UInt32.toNat_toUInt8, UInt32.toNat_and, UInt8.toNat_ofNat']
      simpa using h0)
  rw [e3, e2, e1, e0]
  rfl

theorem injects_u32 (u32 : UInt32) :
    Injects (n := n) (bytestreamInjectU32 u32) (bigEndian 4 u32.toNat) := by
  rw [← u32_bytes]
  intro base s hs hfit
  simp only [List.length_cons, List.length_nil] at hfit
  obtain ⟨v₁, h₁⟩ := hs.exists_byte (i := s.stream.size + 3) (by omega) s._data
    (u32 &&& 0x000000FF).toUInt8
  obtain ⟨v₂, h₂⟩ := hs.exists_byte (i := s.stream.size + 2) (by omega) v₁
    ((u32 &&& 0x0000FF00) >>> 8).toUInt8
  obtain ⟨v₃, h₃⟩ := hs.exists_byte (i := s.stream.size + 1) (by omega) v₂
    ((u32 &&& 0x00FF0000) >>> 16).toUInt8
  obtain ⟨v₄, h₄⟩ := hs.exists_byte (i := s.stream.size) (by omega) v₃
    ((u32 &&& 0xFF000000) >>> 24).toUInt8
  refine ⟨skip { s with _data := v₄ } 4, ?_, rfl, ?_⟩
  · unfold bytestreamInjectU32
    rw [Run.bind_of_ok (verifyArgs_ok hs hfit), Run.bind_of_ok (streamSize_ok s),
      Run.bind_of_ok (setData_ok hs.data h₁), Run.bind_of_ok (setData_ok (by exact hs.data) h₂),
      Run.bind_of_ok (setData_ok (by exact hs.data) h₃),
      Run.bind_of_ok (setData_ok (by exact hs.data) h₄)]
    rfl
  · -- the four stores, last byte first, are one store of the four bytes
    have h₂' :=
      (@store_store_rev _ _ s._data v₁ (base + (s.stream.size + 2))
        [((u32 &&& 0x0000FF00) >>> 8).toUInt8] _ h₁).symm.trans h₂
    have h₃' :=
      (@store_store_rev _ _ s._data v₂ (base + (s.stream.size + 1))
        [((u32 &&& 0x00FF0000) >>> 16).toUInt8] _ h₂').symm.trans h₃
    exact (store_store_rev h₃').symm.trans h₄

/-- The shifts and the ors of `bytestream_extract_u32` read the big-endian number. -/
theorem u32_of_bytes (b0 b1 b2 b3 : UInt8) :
    b3.toUInt32 ||| (b2.toUInt32 <<< 8) ||| (b1.toUInt32 <<< 16) ||| (b0.toUInt32 <<< 24) =
      UInt32.ofNat (ofBigEndian [b0, b1, b2, b3]) := by
  have h0 := b0.toNat_lt
  have h1 := b1.toNat_lt
  have h2 := b2.toNat_lt
  have h3 := b3.toNat_lt
  have hv : ofBigEndian [b0, b1, b2, b3] =
      256 * (256 * (256 * b0.toNat + b1.toNat) + b2.toNat) + b3.toNat := by simp [ofBigEndian]
  apply UInt32.toNat_inj.mp
  rw [hv, UInt32.toNat_ofNat', Nat.mod_eq_of_lt (by omega)]
  simp only [UInt32.toNat_or, UInt32.toNat_shiftLeft, UInt8.toNat_toUInt32, UInt32.reduceToNat,
    Nat.reduceMod]
  rw [shiftLeft_mod (by omega), shiftLeft_mod (by omega), shiftLeft_mod (by omega),
    or_shiftLeft h3, or_shiftLeft (show b3.toNat + 2 ^ 8 * b2.toNat < 2 ^ 16 by omega),
    or_shiftLeft (show b3.toNat + 2 ^ 8 * b2.toNat + 2 ^ 16 * b1.toNat < 2 ^ 24 by omega)]
  omega

/-- `bytestream_extract_u32` returns the big-endian number of the next four bytes. -/
theorem extracts_bytes4 (b0 b1 b2 b3 : UInt8) :
    Extracts (n := n) bytestreamExtractU32 [b0, b1, b2, b3]
      (UInt32.ofNat (ofBigEndian [b0, b1, b2, b3])) := by
  intro base s rest hs hu
  have hfit := hs.fits hu
  simp only [List.length_cons, List.length_nil] at hfit
  unfold bytestreamExtractU32
  rw [Run.bind_of_ok (verifyArgs_ok hs hfit), Run.bind_of_ok (streamSize_ok s),
    Run.bind_of_ok (getData_unread (k := s.stream.size + 3) hs hu (i := 3) rfl rfl),
    Run.bind_of_ok (getData_unread (k := s.stream.size + 2) hs hu (i := 2) rfl rfl),
    Run.bind_of_ok (getData_unread (k := s.stream.size + 1) hs hu (i := 1) rfl rfl),
    Run.bind_of_ok (getData_unread (k := s.stream.size) hs hu (i := 0) rfl rfl),
    Run.bind_of_ok (advance_ok 4 s), u32_of_bytes]
  rfl

theorem extracts_u32 (u32 : UInt32) :
    Extracts (n := n) bytestreamExtractU32 (bigEndian 4 u32.toNat) u32 := by
  have h := extracts_bytes4 (n := n) (UInt8.ofNat (u32.toNat / 256 / 256 / 256))
    (UInt8.ofNat (u32.toNat / 256 / 256)) (UInt8.ofNat (u32.toNat / 256)) (UInt8.ofNat u32.toNat)
  have hv : ofBigEndian (bigEndian 4 u32.toNat) = u32.toNat := by
    rw [ofBigEndian_bigEndian, Nat.mod_eq_of_lt (show u32.toNat < 256 ^ 4 from u32.toNat_lt)]
  change Extracts _ (bigEndian 4 u32.toNat)
    (UInt32.ofNat (ofBigEndian (bigEndian 4 u32.toNat))) at h
  rw [hv, UInt32.ofNat_toNat] at h
  exact h

theorem injects_i32 (i32 : Int32) :
    Injects (n := n) (bytestreamInjectI32 i32) (bigEndian 4 i32.toUInt32.toNat) :=
  injects_u32 i32.toUInt32

theorem extracts_i32 (i32 : Int32) :
    Extracts (n := n) bytestreamExtractI32 (bigEndian 4 i32.toUInt32.toNat) i32 := by
  intro base s rest hs hu
  unfold bytestreamExtractI32
  rw [Run.bind_of_ok (extracts_u32 i32.toUInt32 base s rest hs hu), Int32.toInt32_toUInt32]
  rfl

theorem injects_f (f : UInt32) : Injects (n := n) (bytestreamInjectF f) (bigEndian 4 f.toNat) :=
  injects_u32 f

theorem extracts_f (f : UInt32) : Extracts (n := n) bytestreamExtractF (bigEndian 4 f.toNat) f := by
  intro base s rest hs hu
  have hfit := hs.fits hu
  rw [length_bigEndian] at hfit
  unfold bytestreamExtractF
  rw [Run.bind_of_ok (verifyArgs_ok hs hfit)]
  exact extracts_u32 f base s rest hs hu

end Nuhal.Serial
