import Nuhal.Serial.Strings

/-!
# The length of a string in a buffer (`nuhal_all/src/utilities.c:6-14`)

`utilities_strlen` on a buffer, with the indices that are read written down. The loop looks at
`str[index]` before it compares `index` with `maxlen`. So the character at the index that it
returns is read as well, and without a NUL that is the one at `maxlen`, where the buffer may have
ended.

* `exists_isLength`: every buffer has a length up to `maxlen`.
* `strlen_reads`: what is read for it, and where that fails.
* **`strlen_bounded_iff`**: nothing is read from `maxlen` on exactly if there is a NUL before.
* `strlen_past_end`: a full buffer without a NUL.
-/

namespace Nuhal.Serial

open Nuhal.Lib Nuhal.All

variable {str : List UInt8} {maxlen len : Nat}

/-- `str[i]`, with the index written down. -/
def readAt (str : List UInt8) (i : Nat) : Run (List Nat) Halt UInt8 := do
  Run.modify fun reads => reads ++ [i]
  charAt (some str) i

/-- `len` is the index of the first NUL if there is one below `maxlen`, and `maxlen` otherwise. -/
structure IsLength (str : List UInt8) (maxlen len : Nat) : Prop where
  before : ∀ i < len, str[i]? ≠ some 0
  ends : (len < maxlen ∧ str[len]? = some 0) ∨ len = maxlen

/-- `utilities_strlen` returns the length, and reads below `maxlen` only. -/
def MeasuresBelow (str : List UInt8) (maxlen : Nat) : Prop :=
  ∃ len reads, utilitiesStrlen (readAt str) maxlen [] = (.ok len, reads) ∧
    IsLength str maxlen len ∧ ∀ i ∈ reads, i < maxlen

/-! ## The length -/

theorem exists_isLength (str : List UInt8) (maxlen : Nat) : ∃ len, IsLength str maxlen len := by
  induction maxlen with
  | zero => exact ⟨0, fun i hi => absurd hi (Nat.not_lt_zero i), .inr rfl⟩
  | succ maxlen ih =>
    obtain ⟨len, hbefore, ⟨hlt, hnul⟩ | rfl⟩ := ih
    · exact ⟨len, hbefore, .inl ⟨Nat.lt_succ_of_lt hlt, hnul⟩⟩
    · by_cases hnul : str[len]? = some 0
      · exact ⟨len, hbefore, .inl ⟨Nat.lt_succ_self len, hnul⟩⟩
      · refine ⟨len + 1, fun i hi => ?_, .inr rfl⟩
        rcases Nat.lt_succ_iff_lt_or_eq.mp hi with hlt | rfl
        · exact hbefore i hlt
        · exact hnul

theorem IsLength.le (h : IsLength str maxlen len) : len ≤ maxlen := by
  rcases h.ends with ⟨hlt, -⟩ | rfl
  · exact Nat.le_of_lt hlt
  · exact Nat.le_refl len

/-- The length is below `maxlen` if there is a NUL. -/
theorem IsLength.lt_iff (h : IsLength str maxlen len) :
    len < maxlen ↔ ∃ i < maxlen, str[i]? = some 0 := by
  constructor
  · intro hlt
    rcases h.ends with ⟨-, hnul⟩ | rfl
    · exact ⟨len, hlt, hnul⟩
    · exact absurd hlt (Nat.lt_irrefl len)
  · rintro ⟨i, hi, hnul⟩
    have hle : len ≤ i := Nat.le_of_not_lt fun hlt => h.before i hlt hnul
    exact Nat.lt_of_le_of_lt hle hi

/-! ## What is read -/

theorem readAt_inside {i : Nat} (hi : i < str.length) (reads : List Nat) :
    readAt str i reads = (.ok (str.getD i 0), reads ++ [i]) := charAt_inside hi _

theorem readAt_outside {i : Nat} (hi : str.length ≤ i) (reads : List Nat) :
    readAt str i reads = (.error .undefined, reads ++ [i]) := by
  show charAt (some str) i (reads ++ [i]) = _
  unfold charAt
  rw [Option.bind_some, List.getElem?_eq_none hi]

/-- **What `utilities_strlen` reads**: the buffer up to and with the index that it returns. If that
is where the buffer ends, it does not return. -/
theorem strlen_reads (h : IsLength str maxlen len) (hbuf : maxlen ≤ str.length) :
    utilitiesStrlen (readAt str) maxlen [] =
      (if len < str.length then .ok len else .error .undefined, List.range (len + 1)) := by
  have hle := h.le
  have hread : ∀ i, i < str.length →
      readAt str i (List.range i) = (.ok (str.getD i 0), List.range (i + 1)) := by
    intro i hi
    rw [readAt_inside hi, List.range_succ]
  have hchar : ∀ i, i < len → str.getD i 0 ≠ 0 := by
    intro i hi hzero
    have hlt : i < str.length := by omega
    rw [List.getD_eq_getElem _ _ hlt] at hzero
    exact h.before i hi (by rw [List.getElem?_eq_getElem hlt, hzero])
  by_cases hin : len < str.length
  · rw [if_pos hin]
    refine strlen_run (readAt str) List.range (fun i => str.getD i 0)
      (fun i hi => hread i (Nat.lt_of_le_of_lt hi hin)) hchar hle ?_
    rcases h.ends with ⟨-, hnul⟩ | hmax
    · refine .inl ?_
      rw [List.getD_eq_getElem?_getD, hnul]
      rfl
    · exact .inr hmax
  · -- the length is that of the whole buffer, and the next pass reads behind it
    have hend : str.length ≤ len := Nat.le_of_not_lt hin
    have hpass : strlenPass (readAt str) maxlen len (List.range len) =
        (.error .undefined, List.range (len + 1)) := by
      unfold strlenPass
      rw [Run.bind_of_error (readAt_outside hend _), List.range_succ]
    have hpasses := strlen_passes (readAt str) List.range (fun i => str.getD i 0)
      (fun i hi => hread i (by omega)) hchar hle
    rw [if_neg hin]
    refine hpasses.trans ?_
    rw [show maxlen + 1 - len = maxlen - len + 1 by omega, Run.iterate_of_error hpass]

/-- **The length of a string is measured inside its bound exactly if there is a NUL below it.** -/
theorem strlen_bounded_iff (str : List UInt8) (maxlen : Nat) (hbuf : maxlen ≤ str.length) :
    MeasuresBelow str maxlen ↔ ∃ i < maxlen, str[i]? = some 0 := by
  obtain ⟨len, hlen⟩ := exists_isLength str maxlen
  have hrun := strlen_reads hlen hbuf
  rw [← hlen.lt_iff]
  constructor
  · rintro ⟨len', reads, hrun', -, hbelow⟩
    rw [hrun] at hrun'
    obtain ⟨-, rfl⟩ := Prod.mk.inj hrun'
    exact hbelow len (List.mem_range.mpr (Nat.lt_succ_self len))
  · intro hlt
    rw [if_pos (Nat.lt_of_lt_of_le hlt hbuf)] at hrun
    refine ⟨len, List.range (len + 1), hrun, hlen, fun i hi => ?_⟩
    exact Nat.lt_of_lt_of_le (List.mem_range.mp hi) hlt

/-- Two characters and their NUL, in a buffer of three bytes. -/
theorem strlen_bounded_two : MeasuresBelow [0x68, 0x69, 0] 3 :=
  (strlen_bounded_iff [0x68, 0x69, 0] 3 (Nat.le_refl 3)).mpr ⟨2, by decide, rfl⟩

/-- **A buffer that is read past its end**: two characters without a NUL. -/
theorem strlen_past_end :
    utilitiesStrlen (readAt [0x68, 0x69]) 2 [] = (.error .undefined, [0, 1, 2]) ∧
      ¬ MeasuresBelow [0x68, 0x69] 2 := by
  refine ⟨rfl, ?_⟩
  rintro ⟨len, reads, hrun, -⟩
  cases hrun

end Nuhal.Serial
