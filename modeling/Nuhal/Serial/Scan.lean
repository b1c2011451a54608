import Mathlib.Tactic.Push
import Nuhal.Serial.Strings

/-!
# Where the extraction of a string stops (`nuhal_all/src/bytestream.c:145-168`)

The scan for the NUL begins at the position of the stream and is limited to `bs->capacity`
characters, not to those that are left. With a NUL among the bytes that are left it stops there;
without one it goes on behind the end of the stream.

* `extractString_run`, `extractString_long`: with a NUL, for a buffer that is large enough and one
  that is not. `extractString_leaves`: without one.
* **`extractString_iff`**: the extraction is what it should be exactly when there is a NUL.
-/

namespace Nuhal.Serial

open Nuhal.Lib Nuhal.All

variable {n base len : Nat} {s : Scanned n} {str : CString} {buf rest : List UInt8}

/-! ## Looking at bytes -/

/-- The same stream with more indices looked at. -/
def saw (s : Scanned n) (indices : List Nat) : Scanned n := { s with seen := s.seen ++ indices }

theorem saw_nil (s : Scanned n) : saw s [] = s := by
  unfold saw
  rw [List.append_nil]

theorem saw_saw (s : Scanned n) (is js : List Nat) : saw (saw s is) js = saw s (is ++ js) := by
  unfold saw
  rw [List.append_assoc]

theorem look_ok {i : Nat} {b : UInt8} (hdata : s.block.stream.data = some base)
    (hb : s.block._data[base + i]? = some b) : look i s = (.ok b, saw s [i]) := by
  have hget : getData i s.block = (.ok b, s.block) := getData_ok hdata hb
  show (((getData i s.block).1, _) : Except Halt UInt8 × Scanned n) = _
  rw [hget]
  rfl

/-- The loops look at one index after the other. -/
theorem look_next {first i : Nat} {b : UInt8} (hdata : s.block.stream.data = some base)
    (hb : s.block._data[base + (first + i)]? = some b) :
    look (first + i) (saw s (List.range' first i)) =
      (.ok b, saw s (List.range' first (i + 1))) := by
  rw [look_ok (s := saw s (List.range' first i)) hdata hb, saw_saw, List.range'_1_concat]

theorem lookAll_run (first count : Nat) (hdata : s.block.stream.data = some base)
    (hin : base + first + count ≤ n) :
    lookAll first count s =
      (.ok (window s.block._data (base + first) count), saw s (List.range' first count)) := by
  induction count with
  | zero =>
    rw [List.range'_zero, saw_nil]
    rfl
  | succ count ih =>
    obtain ⟨b, hb⟩ : ∃ b, s.block._data[base + (first + count)]? = some b :=
      ⟨_, Vector.getElem?_eq_getElem (show base + (first + count) < n by omega)⟩
    have hone : window s.block._data (base + first + count) 1 = [b] := by
      unfold window
      rw [Nat.add_assoc, List.take_one, List.head?_drop, Vector.getElem?_toList, hb]
      rfl
    unfold lookAll
    rw [Run.bind_of_ok (ih (by omega)), Run.bind_of_ok (look_next hdata hb), window_append, hone]
    rfl

theorem extractString_checked (hs : Placed base s.block) :
    bytestreamExtractString (some buf) len s = extractInto buf len s := by
  have hverify : onBlock (verifyArgs 0) s = (.ok (), s) := by
    unfold onBlock
    rw [verifyArgs_ok hs hs.used]
  unfold bytestreamExtractString
  rw [Run.bind_of_ok hverify]

/-! ## With a NUL -/

/-- A byte of the string that comes next. -/
theorem next_char (hu : unread base s.block = str.memory ++ rest) {i : Nat} {b : UInt8}
    (hb : str.memory[i]? = some b) :
    s.block._data[base + (s.block.stream.size + i)]? = some b := by
  refine getElem?_of_unread ?_
  rw [hu, List.getElem?_append_left (List.getElem?_eq_some_iff.mp hb).1]
  exact hb

/-- The string and its NUL lie between the position and the end. -/
theorem next_fits (hs : Placed base s.block) (hu : unread base s.block = str.memory ++ rest) :
    s.block.stream.size + (str.chars.length + 1) ≤ s.block.stream.capacity :=
  length_memory str ▸ hs.fits hu

/-- The characters before the NUL. -/
theorem next_chars (hs : Placed base s.block) (hu : unread base s.block = str.memory ++ rest) :
    window s.block._data (base + s.block.stream.size) str.chars.length = str.chars := by
  have hfit := next_fits hs hu
  have hwhole := congrArg (List.take str.chars.length) hu
  rw [unread, window, List.take_take, Nat.min_eq_left (by omega), CString.memory,
    List.append_assoc, List.take_left' rfl] at hwhole
  exact hwhole

/-- The scan stops at the NUL. -/
theorem scan_run (hs : Placed base s.block) (hu : unread base s.block = str.memory ++ rest) :
    utilitiesStrlen (fun i => look (s.block.stream.size + i)) s.block.stream.capacity s =
      (.ok str.chars.length,
        saw s (List.range' s.block.stream.size (str.chars.length + 1))) := by
  have hfit := next_fits hs hu
  have hscan := strlen_run (k := str.chars.length) (fun i => look (s.block.stream.size + i))
    (fun i => saw s (List.range' s.block.stream.size i)) (fun i => str.memory.getD i 0) ?_ ?_
    (show str.chars.length ≤ s.block.stream.capacity by omega) ?_
  · rw [List.range'_zero, saw_nil] at hscan
    exact hscan
  · intro i hi
    have hlt : i < str.memory.length := length_memory str ▸ Nat.lt_succ_of_le hi
    refine look_next hs.data (next_char hu ?_)
    rw [List.getD_eq_getElem?_getD, List.getElem?_eq_getElem hlt]
    rfl
  · intro i hi
    obtain ⟨c, hget, hc⟩ := memory_char str hi
    rw [List.getD_eq_getElem?_getD, hget]
    exact hc
  · refine .inl ?_
    rw [List.getD_eq_getElem?_getD, memory_end]
    rfl

/-- **A string that fits the caller's buffer** is copied with its NUL, and nothing behind it is
looked at. -/
theorem extractString_run (hs : Placed base s.block)
    (hu : unread base s.block = str.memory ++ rest) (hlen : str.chars.length < len)
    (hbuf : len ≤ buf.length) :
    bytestreamExtractString (some buf) len s =
      (.ok (str.memory ++ buf.drop str.memory.length),
        { block := skip s.block str.memory.length
          seen := s.seen ++ (List.range' s.block.stream.size (str.chars.length + 1) ++
            List.range' s.block.stream.size str.chars.length) }) := by
  have hfit := next_fits hs hu
  have hin := hs.inside
  have hall := lookAll_run s.block.stream.size str.chars.length
    (s := saw s (List.range' s.block.stream.size (str.chars.length + 1))) hs.data (by omega)
  rw [saw_saw] at hall
  have hfront : ∀ s' : Scanned n, writeFront buf (str.chars ++ [0]) s' =
      (.ok (str.memory ++ buf.drop str.memory.length), s') := by
    intro s'
    unfold writeFront
    rw [if_pos (by rw [List.length_append, List.length_singleton]; omega)]
    rfl
  rw [extractString_checked hs, extractInto, Run.bind_get, Run.bind_of_ok (scan_run hs hu),
    if_neg (by omega), if_neg (by omega)]
  refine (Run.bind_of_ok hall _).trans ?_
  rw [show window (saw s _).block._data (base + s.block.stream.size) str.chars.length =
    str.chars from next_chars hs hu, Run.bind_of_ok (hfront _), length_memory]
  rfl

/-- A string that does not. -/
theorem extractString_long (hs : Placed base s.block)
    (hu : unread base s.block = str.memory ++ rest) (hlen : len ≤ str.chars.length) :
    bytestreamExtractString (some buf) len s =
      (.error (.error "string too long"),
        saw s (List.range' s.block.stream.size (str.chars.length + 1))) := by
  have hfit := next_fits hs hu
  rw [extractString_checked hs, extractInto, Run.bind_get, Run.bind_of_ok (scan_run hs hu),
    if_neg (by omega), if_pos hlen]
  rfl

/-! ## Without a NUL -/

/-- What was looked at stays looked at. -/
def Seen (i : Nat) (s : Scanned n) : Prop := i ∈ s.seen

theorem onBlock_keeps {α : Type} {i : Nat} (m : OnStream n α) : (onBlock m).Keeps (Seen i) :=
  fun _ h => h

theorem look_keeps {i j : Nat} : (look (n := n) j).Keeps (Seen i) :=
  Run.Keeps.bind (fun _ h => List.mem_append_left _ h) fun _ => onBlock_keeps _

theorem look_sees (i : Nat) (s : Scanned n) : Seen i (look i s).2 :=
  Run.Keeps.after (List.mem_append_right _ (List.mem_singleton_self i)) fun _ => onBlock_keeps _

theorem strlenPass_keeps {i size maxlen index : Nat} :
    (strlenPass (fun j => look (n := n) (size + j)) maxlen index).Keeps (Seen i) :=
  Run.Keeps.bind look_keeps fun _ => Run.Keeps.pure _

theorem lookAll_keeps {i first : Nat} :
    ∀ count, (lookAll (n := n) first count).Keeps (Seen i)
  | 0 => Run.Keeps.pure _
  | count + 1 => Run.Keeps.bind (lookAll_keeps count) fun _ =>
      Run.Keeps.bind look_keeps fun _ => Run.Keeps.pure _

theorem writeFront_keeps {i : Nat} {str chars : List UInt8} :
    (writeFront (σ := Scanned n) str chars).Keeps (Seen i) := by
  intro s h
  unfold writeFront
  split
  · exact h
  · exact h

/-- Without a NUL the scan reaches the end of the stream, and looks at what lies there. -/
theorem scan_leaves (hs : Placed base s.block)
    (hnone : ∀ j, s.block.stream.size ≤ j → j < s.block.stream.capacity →
      s.block._data[base + j]? ≠ some 0) :
    Seen s.block.stream.capacity
      (utilitiesStrlen (fun i => look (s.block.stream.size + i)) s.block.stream.capacity s).2 := by
  have hused := hs.used
  have hin := hs.inside
  have hscan := strlen_passes (k := s.block.stream.capacity - s.block.stream.size)
    (fun i => look (s.block.stream.size + i))
    (fun i => saw s (List.range' s.block.stream.size i))
    (fun i => s.block._data.toList.getD (base + (s.block.stream.size + i)) 0)
    ?_ ?_ (Nat.sub_le s.block.stream.capacity _)
  · rw [List.range'_zero, saw_nil] at hscan
    rw [hscan, show s.block.stream.capacity + 1 - (s.block.stream.capacity - s.block.stream.size) =
      s.block.stream.size + 1 by omega]
    refine Run.Keeps.after (Run.Keeps.after ?_ fun _ => Run.Keeps.pure _) ?_
    · dsimp only
      rw [Nat.add_sub_cancel' hused]
      exact look_sees _ _
    · rintro (index | index)
      · exact Run.Keeps.iterate (fun _ => strlenPass_keeps) _ _
      · exact Run.Keeps.pure _
  · intro i hi
    have hlt : base + (s.block.stream.size + i) < n := by omega
    refine look_next hs.data ?_
    rw [List.getD_eq_getElem?_getD, Vector.getElem?_toList, Vector.getElem?_eq_getElem hlt]
    rfl
  · intro i hi hzero
    have hlt : base + (s.block.stream.size + i) < n := by omega
    refine hnone (s.block.stream.size + i) (Nat.le_add_right _ _) (by omega) ?_
    rw [List.getD_eq_getElem?_getD, Vector.getElem?_toList, Vector.getElem?_eq_getElem hlt] at hzero
    rw [Vector.getElem?_eq_getElem hlt]
    exact congrArg some hzero

/-- **A stream without a NUL is left.** -/
theorem extractString_leaves (buf : List UInt8) (len : Nat) (hs : Placed base s.block)
    (hnone : ∀ j, s.block.stream.size ≤ j → j < s.block.stream.capacity →
      s.block._data[base + j]? ≠ some 0) :
    Seen s.block.stream.capacity (bytestreamExtractString (some buf) len s).2 := by
  rw [extractString_checked hs, extractInto, Run.bind_get]
  refine Run.Keeps.after (scan_leaves hs hnone) fun inLen => ?_
  split
  · exact Run.Keeps.stop _
  · split
    · exact Run.Keeps.stop _
    · exact Run.Keeps.bind (lookAll_keeps _) fun _ => Run.Keeps.bind writeFront_keeps fun _ =>
        Run.Keeps.bind (onBlock_keeps _) fun _ => Run.Keeps.pure _

/-! ## Inside the stream -/

/-- The first NUL of what is left of the stream is at `j`. -/
def FirstNul (base : Nat) (s : Buffered n) (j : Nat) : Prop :=
  s.stream.size ≤ j ∧ j < s.stream.capacity ∧ s._data[base + j]? = some 0 ∧
    ∀ i, s.stream.size ≤ i → i < j → s._data[base + i]? ≠ some 0

/-- An extraction does what it should: it succeeds exactly where the string ends inside the stream
and fits the caller's buffer, and it stays inside the stream in any case. -/
structure ExtractsInside (base len : Nat) (s : Scanned n) (buf : List UInt8)
    (r : Except Halt (List UInt8) × Scanned n) : Prop where
  succeeds : (∃ out, r.1 = .ok out) ↔
    ∃ j, FirstNul base s.block j ∧ j - s.block.stream.size < len
  copies : ∀ j, FirstNul base s.block j → j - s.block.stream.size < len →
    r.1 = .ok (window s.block._data (base + s.block.stream.size) (j - s.block.stream.size) ++ [0] ++
      buf.drop (j - s.block.stream.size + 1)) ∧
    r.2.block = { s.block with stream := { s.block.stream with size := j + 1 } }
  errors : (¬ ∃ j, FirstNul base s.block j ∧ j - s.block.stream.size < len) →
    ∃ msg, r.1 = .error (.error msg)
  inside : ∀ i ∈ r.2.seen, i < s.block.stream.capacity
  position : r.2.block.stream.size ≤ r.2.block.stream.capacity

/-- With a NUL left, what comes next is a string. -/
theorem exists_string (hs : Placed base s.block) {j : Nat} (hle : s.block.stream.size ≤ j)
    (hlt : j < s.block.stream.capacity) (hnul : s.block._data[base + j]? = some 0) :
    ∃ (str : CString) (rest : List UInt8), unread base s.block = str.memory ++ rest := by
  have hin := hs.inside
  have hget : (unread base s.block)[j - s.block.stream.size]? = some 0 := by
    unfold unread window
    rw [List.getElem?_take_of_lt (by omega), List.getElem?_drop, Vector.getElem?_toList,
      show base + s.block.stream.size + (j - s.block.stream.size) = base + j by omega]
    exact hnul
  obtain ⟨chars, rest, hsplit, hno⟩ := List.eq_append_cons_of_mem (List.mem_of_getElem? hget)
  exact ⟨⟨chars, hno⟩, rest, hsplit.trans (List.append_cons chars 0 rest)⟩

/-- Where the string ends. -/
theorem firstNul_iff (hs : Placed base s.block) (hu : unread base s.block = str.memory ++ rest)
    {j : Nat} : FirstNul base s.block j ↔ j = s.block.stream.size + str.chars.length := by
  have hfit := next_fits hs hu
  have hend := next_char hu (memory_end str)
  have hbefore : ∀ i, s.block.stream.size ≤ i → i < s.block.stream.size + str.chars.length →
      s.block._data[base + i]? ≠ some 0 := by
    intro i hle hlt hzero
    obtain ⟨c, hget, hc⟩ := memory_char str
      (show i - s.block.stream.size < str.chars.length by omega)
    have hi := next_char hu hget
    rw [Nat.add_sub_cancel' hle, hzero] at hi
    exact hc (Option.some_inj.mp hi).symm
  constructor
  · rintro ⟨hle, -, hzero, hfirst⟩
    rcases Nat.lt_trichotomy j (s.block.stream.size + str.chars.length) with hlt | heq | hgt
    · exact absurd hzero (hbefore j hle hlt)
    · exact heq
    · exact absurd hend (hfirst _ (Nat.le_add_right _ _) hgt)
  · rintro rfl
    exact ⟨Nat.le_add_right _ _, by omega, hend, hbefore⟩

/-- **When an extraction stays inside the stream**: if what is left of the stream has a NUL. -/
theorem extractString_iff (hs : Placed base s.block) (hseen : s.seen = [])
    (hbuf : len ≤ buf.length) :
    ExtractsInside base len s buf (bytestreamExtractString (some buf) len s) ↔
      ∃ j, s.block.stream.size ≤ j ∧ j < s.block.stream.capacity ∧
        s.block._data[base + j]? = some 0 := by
  constructor
  · intro h
    by_contra hnone
    have hleft := extractString_leaves buf len hs
      fun j hle hlt hzero => hnone ⟨j, hle, hlt, hzero⟩
    exact Nat.lt_irrefl _ (h.inside _ hleft)
  · rintro ⟨j, hle, hlt, hzero⟩
    obtain ⟨str, rest, hu⟩ := exists_string hs hle hlt hzero
    have hfit := next_fits hs hu
    have hused := hs.used
    have hfirst : ∀ k, FirstNul base s.block k ↔ k = s.block.stream.size + str.chars.length :=
      fun k => firstNul_iff hs hu
    have hsplit : (∃ k, FirstNul base s.block k ∧ k - s.block.stream.size < len) ↔
        str.chars.length < len := by
      constructor
      · rintro ⟨k, hk, hshort⟩
        rw [(hfirst k).mp hk, Nat.add_sub_cancel_left] at hshort
        exact hshort
      · intro hshort
        exact ⟨_, (hfirst _).mpr rfl, by rwa [Nat.add_sub_cancel_left]⟩
    by_cases hshort : str.chars.length < len
    · rw [extractString_run hs hu hshort hbuf]
      refine ⟨⟨fun _ => hsplit.mpr hshort, fun _ => ⟨_, rfl⟩⟩, ?_,
        fun hno => absurd (hsplit.mpr hshort) hno, ?_, ?_⟩
      · intro k hk _
        rw [(hfirst k).mp hk, Nat.add_sub_cancel_left, next_chars hs hu, length_memory]
        exact ⟨rfl, rfl⟩
      · intro i hi
        rw [hseen, List.nil_append, List.mem_append, List.mem_range'_1, List.mem_range'_1] at hi
        omega
      · show s.block.stream.size + str.memory.length ≤ s.block.stream.capacity
        rw [length_memory]
        exact hfit
    · rw [extractString_long hs hu (Nat.le_of_not_lt hshort)]
      refine ⟨⟨?_, fun hyes => absurd (hsplit.mp hyes) hshort⟩,
        fun k hk hlen => absurd (hsplit.mp ⟨k, hk, hlen⟩) hshort, fun _ => ⟨_, rfl⟩, ?_, hused⟩
      · rintro ⟨out, hout⟩
        cases hout
      · intro i hi
        rw [saw, hseen, List.nil_append, List.mem_range'_1] at hi
        omega

/-- A string of one byte and its NUL at the front of the stream. -/
theorem extractString_iff_front :
    ExtractsInside 0 2 ⟨⟨⟨some 0, 3, 0⟩, #v[7, 0, 5]⟩, []⟩ [9, 9]
      (bytestreamExtractString (some [9, 9]) 2 ⟨⟨⟨some 0, 3, 0⟩, #v[7, 0, 5]⟩, []⟩) :=
  (extractString_iff ⟨rfl, Nat.zero_le 3, Nat.le_refl 3⟩ rfl (Nat.le_refl 2)).mpr
    ⟨1, Nat.zero_le 1, by decide, rfl⟩

/-- The last of the three bytes of the stream is no NUL: two bytes that lie behind the stream are
taken as well, and the position is then behind its end. -/
theorem extractString_stale :
    ∃ s : Scanned 6, Placed 0 s.block ∧ s.block = ⟨⟨some 0, 3, 2⟩, #v[1, 2, 3, 4, 0, 6]⟩ ∧
      (bytestreamExtractString (some [9, 9, 9]) 3 s).1 = .ok [3, 4, 0] ∧
      (bytestreamExtractString (some [9, 9, 9]) 3 s).2.block.stream = ⟨some 0, 3, 5⟩ ∧
      ¬ ExtractsInside 0 3 s [9, 9, 9] (bytestreamExtractString (some [9, 9, 9]) 3 s) := by
  refine ⟨⟨⟨⟨some 0, 3, 2⟩, #v[1, 2, 3, 4, 0, 6]⟩, []⟩, ⟨rfl, by decide, by decide⟩, rfl, rfl, rfl,
    fun h => ?_⟩
  have hbehind : 5 ≤ 3 := h.position
  omega

end Nuhal.Serial
