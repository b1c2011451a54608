import Nuhal.All.Strings
import Nuhal.Serial.Cursor

/-!
# Strings in a bytestream (`nuhal_all/src/bytestream.c:131-168`)

* `strlen_passes`: the loop of `utilities_strlen` over characters that are not NUL; `strlen_run`
  where it ends.
* `injects_string`: a string that fits is written with its NUL. `injectString_full`: into a full
  stream it is an error. `injectString_cut`: in between it is cut off without an error, since the
  length is measured with the room less one as its limit, and so always passes the check.
* **`injectString_iff`**: exactly when an injection is all or nothing.
-/

namespace Nuhal.Serial

open Nuhal.Lib Nuhal.All

variable {n base sizeMax : Nat} {σ : Type}

/-! ## The length of a string -/

section Strlen

variable {load : Nat → Run σ Halt UInt8} {maxlen k : Nat} {st : Nat → σ} {c : Nat → UInt8}

variable (load st c) in
/-- The passes over the first `k` characters, none of which is NUL. -/
theorem strlen_passes (hload : ∀ i, i < k → load i (st i) = (.ok (c i), st (i + 1)))
    (hc : ∀ i, i < k → c i ≠ 0) (hk : k ≤ maxlen) :
    utilitiesStrlen load maxlen (st 0) =
      Run.iterate .undefined (strlenPass load maxlen) (maxlen + 1 - k) k (st k) := by
  induction k with
  | zero => rfl
  | succ k ih =>
    have hpass : strlenPass load maxlen k (st k) = (.ok (.inl (k + 1)), st (k + 1)) := by
      unfold strlenPass
      rw [Run.bind_of_ok (hload k (Nat.lt_succ_self k)),
        if_pos ⟨hc k (Nat.lt_succ_self k), hk⟩]
      rfl
    rw [ih (fun i hi => hload i (Nat.lt_succ_of_lt hi)) (fun i hi => hc i (Nat.lt_succ_of_lt hi))
      (Nat.le_of_succ_le hk), show maxlen + 1 - k = maxlen + 1 - (k + 1) + 1 by omega,
      Run.iterate_of_inl hpass]

variable (load st c) in
/-- The loop ends at a NUL or at `maxlen`. -/
theorem strlen_run (hload : ∀ i, i ≤ k → load i (st i) = (.ok (c i), st (i + 1)))
    (hc : ∀ i, i < k → c i ≠ 0) (hk : k ≤ maxlen) (hend : c k = 0 ∨ k = maxlen) :
    utilitiesStrlen load maxlen (st 0) = (.ok k, st (k + 1)) := by
  have hdone : ¬ (c k ≠ 0 ∧ k < maxlen) := by
    rintro ⟨hne, hlt⟩
    exact hend.elim hne (Nat.ne_of_lt hlt)
  have hpass : strlenPass load maxlen k (st k) = (.ok (.inr k), st (k + 1)) := by
    unfold strlenPass
    rw [Run.bind_of_ok (hload k (Nat.le_refl k)), if_neg hdone]
    rfl
  rw [strlen_passes load st c (fun i hi => hload i (Nat.le_of_lt hi)) hc hk,
    show maxlen + 1 - k = maxlen - k + 1 by omega, Run.iterate_of_inr hpass]

end Strlen

/-! ## Strings in memory -/

theorem length_memory (str : CString) : str.memory.length = str.chars.length + 1 :=
  List.length_append

theorem memory_end (str : CString) : str.memory[str.chars.length]? = some 0 := by
  unfold CString.memory
  rw [List.getElem?_append_right (Nat.le_refl _), Nat.sub_self]
  rfl

theorem memory_char (str : CString) {i : Nat} (hi : i < str.chars.length) :
    ∃ c, str.memory[i]? = some c ∧ c ≠ 0 := by
  refine ⟨str.chars[i], ?_, ?_⟩
  · unfold CString.memory
    rw [List.getElem?_append_left hi, List.getElem?_eq_getElem hi]
  · intro hzero
    exact str.noNul (hzero ▸ List.getElem_mem hi)

theorem charAt_inside {mem : List UInt8} {i : Nat} (hi : i < mem.length) (s : σ) :
    charAt (some mem) i s = (.ok (mem.getD i 0), s) := by
  unfold charAt
  rw [Option.bind_some, List.getD_eq_getElem?_getD, List.getElem?_eq_getElem hi]
  rfl

/-- `utilities_strlen` of a string: its length, or the limit. -/
theorem strlen_memory (str : CString) (maxlen : Nat) (s : σ) :
    utilitiesStrlen (charAt (some str.memory)) maxlen s =
      (.ok (min str.chars.length maxlen), s) := by
  refine strlen_run _ (fun _ => s) (fun i => str.memory.getD i 0) ?_ ?_ (Nat.min_le_right _ _) ?_
  · intro i hi
    have hlt : i < str.memory.length := by
      rw [length_memory]
      omega
    exact charAt_inside hlt s
  · intro i hi
    obtain ⟨c, hget, hc⟩ := memory_char str (show i < str.chars.length by omega)
    rw [List.getD_eq_getElem?_getD, hget]
    exact hc
  · rcases Nat.le_total str.chars.length maxlen with hle | hle
    · refine .inl ?_
      rw [Nat.min_eq_left hle, List.getD_eq_getElem?_getD, memory_end]
      rfl
    · exact .inr (Nat.min_eq_right hle)

/-! ## Injection -/

/-- The limit for the length, in a stream that is not full. -/
theorem maxlen_room {capacity size : Nat} (h : size < capacity) :
    sizeSub sizeMax (sizeSub sizeMax capacity size) 1 = capacity - size - 1 := by
  unfold sizeSub
  rw [if_pos (Nat.le_of_lt h), if_pos (by omega)]

/-- What is written when the length was measured as `len - 1` and fits. -/
theorem injectString_writes {str : CString} {len : Nat} {s : Buffered n} (hs : Placed base s)
    (hlen : min str.chars.length
      (sizeSub sizeMax (sizeSub sizeMax s.stream.capacity s.stream.size) 1) + 1 = len)
    (hfit : s.stream.size + len ≤ s.stream.capacity) :
    ∃ s', bytestreamInjectString sizeMax (some str.memory) s = (.ok (), s') ∧
      Appended base (str.memory.take len) s s' := by
  have hin := hs.inside
  have hshort : len ≤ str.memory.length := by
    rw [length_memory]
    omega
  have htake : (str.memory.take len).length = len := List.length_take_of_le hshort
  obtain ⟨v, hv⟩ := exists_store s._data
    (show base + s.stream.size + (str.memory.take len).length ≤ n by omega)
  have hcopy : copyFrom (some str.memory) len s = (.ok (), { s with _data := v }) := by
    have hnot : ¬ str.memory.length < len := by omega
    unfold copyFrom
    simp [hs.data, hnot, hv]
  refine ⟨skip { s with _data := v } len, ?_, ?_, hv⟩
  · unfold bytestreamInjectString
    rw [Run.bind_get, Run.bind_of_ok (strlen_memory str _ s)]
    dsimp only
    rw [hlen, Run.bind_of_ok (verifyArgs_ok hs hfit), if_neg (Option.some_ne_none _)]
    exact Run.bind_of_ok hcopy _
  · rw [htake]
    rfl

/-- A string that fits, with its NUL, is written. -/
theorem injects_string (str : CString) :
    Injects (n := n) (bytestreamInjectString sizeMax (some str.memory)) str.memory := by
  intro base s hs hfit
  rw [length_memory] at hfit
  have hwhole : str.memory.take (str.chars.length + 1) = str.memory :=
    List.take_of_length_le (Nat.le_of_eq (length_memory str))
  have hlen : min str.chars.length
      (sizeSub sizeMax (sizeSub sizeMax s.stream.capacity s.stream.size) 1) + 1 =
      str.chars.length + 1 := by
    rw [maxlen_room (by omega)]
    omega
  obtain ⟨s', hrun, happended⟩ := injectString_writes hs hlen hfit
  rw [hwhole] at happended
  exact ⟨s', hrun, happended⟩

/-- In a full stream the subtraction wraps around, and the string is measured without a limit. -/
theorem injectString_full {str : CString} {s : Buffered n} (hs : Placed base s)
    (hfull : s.stream.size = s.stream.capacity) :
    bytestreamInjectString sizeMax (some str.memory) s = (.error (.error "overflow"), s) := by
  unfold bytestreamInjectString
  rw [Run.bind_get, Run.bind_of_ok (strlen_memory str _ s)]
  exact Run.bind_of_error (verifyArgs_overflow hs.data (by omega)) _

/-- A string that is too long for the room left is cut off, and its NUL with it. -/
theorem injectString_cut {str : CString} {s : Buffered n} (hs : Placed base s)
    (hroom : s.stream.size < s.stream.capacity)
    (hlong : s.stream.capacity - s.stream.size < str.memory.length) :
    ∃ s', bytestreamInjectString sizeMax (some str.memory) s = (.ok (), s') ∧
      Appended base (str.memory.take (s.stream.capacity - s.stream.size)) s s' := by
  rw [length_memory] at hlong
  refine injectString_writes hs ?_ (by omega)
  rw [maxlen_room hroom]
  omega

/-- An injection does what it should: with too little room it is an error that changes nothing,
and otherwise `bytes` are written. -/
def AllOrNothing (base : Nat) (bytes : List UInt8) (s : Buffered n)
    (r : Except Halt Unit × Buffered n) : Prop :=
  (s.stream.capacity - s.stream.size < bytes.length → ∃ msg, r = (.error (.error msg), s)) ∧
    (bytes.length ≤ s.stream.capacity - s.stream.size →
      r.1 = .ok () ∧ Appended base bytes s r.2)

/-- **When an injection is all or nothing**: if the string fits, or nothing at all does. -/
theorem injectString_iff (sizeMax : Nat) (str : CString) {s : Buffered n} (hs : Placed base s) :
    AllOrNothing base str.memory s (bytestreamInjectString sizeMax (some str.memory) s) ↔
      s.stream.size = s.stream.capacity ∨
        str.memory.length ≤ s.stream.capacity - s.stream.size := by
  have hused := hs.used
  have hpos : 0 < str.memory.length := by
    rw [length_memory]
    exact Nat.succ_pos _
  constructor
  · rintro ⟨herror, -⟩
    by_contra hcut
    rw [not_or] at hcut
    obtain ⟨s', hrun, -⟩ := injectString_cut hs (by omega)
      (Nat.lt_of_not_le hcut.2)
    obtain ⟨msg, hmsg⟩ := herror (Nat.lt_of_not_le hcut.2)
    rw [hrun] at hmsg
    cases hmsg
  · intro h
    refine ⟨fun hlong => ?_, fun hfit => ?_⟩
    · rcases h with hfull | hfit
      · exact ⟨_, injectString_full hs hfull⟩
      · exact absurd hlong (Nat.not_lt.mpr hfit)
    · obtain ⟨s', hrun, happended⟩ := injects_string str base s hs (by omega)
      rw [hrun]
      exact ⟨rfl, happended⟩

end Nuhal.Serial
