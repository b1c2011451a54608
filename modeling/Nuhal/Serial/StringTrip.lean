import Nuhal.Serial.Scan

/-!
# Strings in and out again

A sequence of strings is injected into an empty stream, the stream is reset, and the strings are
extracted, each into a buffer that is large enough.

* `eachAllOrNothing_iff`: when all the injections that are made are all or nothing.
* `injectStrings_run`: what they write, in that case.
* `extractStrings_run`: what comes back.
* **`strings_round_trip_iff`**: both together.
-/

namespace Nuhal.Serial

open Nuhal.Lib Nuhal.All

variable {n base sizeMax : Nat} {strs : List CString} {bufs : List (List UInt8)}

def injectStrings (sizeMax : Nat) : List CString → OnStream n Unit
  | [] => pure ()
  | str :: rest => do
    bytestreamInjectString sizeMax (some str.memory)
    injectStrings sizeMax rest

/-- Extract a string into each of the caller's buffers, the whole of which may be used. -/
def extractStrings : List (List UInt8) → Run (Scanned n) Halt (List (List UInt8))
  | [] => pure []
  | buf :: rest => do
    let out ← bytestreamExtractString (some buf) buf.length
    let outs ← extractStrings rest
    return out :: outs

/-- The string in a buffer. -/
def stringIn (buf : List UInt8) : List UInt8 := buf.takeWhile (· ≠ 0)

theorem stringIn_memory (str : CString) (rest : List UInt8) :
    stringIn (str.memory ++ rest) = str.chars := by
  have hall : ∀ c ∈ str.chars, decide (c ≠ 0) = true := by
    intro c hc
    exact decide_eq_true (fun hzero => str.noNul (hzero ▸ hc))
  unfold stringIn CString.memory
  rw [List.append_assoc, List.takeWhile_append_of_pos hall]
  simp

/-! ## Injecting them -/

/-- Every injection that is made is all or nothing. -/
def EachAllOrNothing (base sizeMax : Nat) : List CString → Buffered n → Prop
  | [], _ => True
  | str :: rest, s =>
    AllOrNothing base str.memory s (bytestreamInjectString sizeMax (some str.memory) s) ∧
      ∀ s', bytestreamInjectString sizeMax (some str.memory) s = (.ok (), s') →
        EachAllOrNothing base sizeMax rest s'

/-- With `room` bytes left, every string whose turn comes fits, or nothing at all does. -/
def EachFits (room : Nat) : List CString → Prop
  | [] => True
  | str :: rest => room = 0 ∨ str.memory.length ≤ room ∧ EachFits (room - str.memory.length) rest

/-- The strings one after the other. -/
def written (strs : List CString) : List UInt8 := strs.flatMap CString.memory

theorem eachAllOrNothing_iff {s : Buffered n} (hs : Placed base s) :
    EachAllOrNothing base sizeMax strs s ↔ EachFits (s.stream.capacity - s.stream.size) strs := by
  induction strs generalizing s with
  | nil => exact Iff.rfl
  | cons str rest ih =>
    have hused := hs.used
    have hone := injectString_iff sizeMax str hs
    unfold EachAllOrNothing EachFits
    rw [hone]
    constructor
    · rintro ⟨hfull | hfit, hrest⟩
      · exact .inl (by omega)
      · obtain ⟨s', hrun, happended⟩ := injects_string str base s hs (by omega)
        have hmore := (ih (happended.placed hs (by omega))).mp (hrest s' hrun)
        rw [happended.stream] at hmore
        exact .inr ⟨hfit, Nat.sub_sub _ _ _ ▸ hmore⟩
    · rintro (hfull | ⟨hfit, hmore⟩)
      · have hsize : s.stream.size = s.stream.capacity := by omega
        refine ⟨.inl hsize, fun s' hrun => ?_⟩
        rw [injectString_full hs hsize] at hrun
        cases hrun
      · refine ⟨.inr hfit, fun s' hrun => ?_⟩
        obtain ⟨s₁, hrun₁, happended⟩ :=
          injects_string str base s hs (by omega)
        cases hrun₁.symm.trans hrun
        refine (ih (happended.placed hs (by omega))).mpr ?_
        rw [happended.stream]
        exact Nat.sub_sub _ _ _ ▸ hmore

/-- **What is written**, when the injections all succeed. -/
theorem injectStrings_run {s s' : Buffered n} (hs : Placed base s)
    (hfits : EachFits (s.stream.capacity - s.stream.size) strs)
    (hrun : injectStrings sizeMax strs s = (.ok (), s')) :
    s.stream.size + (written strs).length ≤ s.stream.capacity ∧
      Appended base (written strs) s s' := by
  induction strs generalizing s with
  | nil =>
    cases hrun
    have hin := hs.inside
    have hused := hs.used
    exact ⟨hused, rfl, store_nil (by omega)⟩
  | cons str rest ih =>
    have hused := hs.used
    obtain ⟨⟨⟩, s₁, hrun₁, hrest⟩ := Run.bind_eq_ok hrun
    rcases hfits with hfull | ⟨hfit, hmore⟩
    · rw [injectString_full hs (by omega)] at hrun₁
      cases hrun₁
    · obtain ⟨s₂, hrun₂, happended⟩ := injects_string str base s hs (by omega)
      cases hrun₂.symm.trans hrun₁
      rw [Nat.sub_sub] at hmore
      have hroom : s₁.stream.capacity - s₁.stream.size =
          s.stream.capacity - (s.stream.size + str.memory.length) := by
        rw [happended.stream]
      obtain ⟨hle, hall⟩ := ih (happended.placed hs (by omega)) (hroom ▸ hmore) hrest
      rw [happended.stream] at hle
      refine ⟨?_, happended.trans hall⟩
      unfold written
      rw [List.flatMap_cons, List.length_append, ← Nat.add_assoc]
      exact hle

/-! ## Extracting them -/

/-- **What comes back.** -/
theorem extractStrings_run {s : Scanned n} {rest : List UInt8} (hs : Placed base s.block)
    (hu : unread base s.block = written strs ++ rest)
    (hbufs : List.Forall₂ (fun str buf => str.memory.length ≤ buf.length) strs bufs) :
    ∃ outs s', extractStrings bufs s = (.ok outs, s') ∧
      outs.map stringIn = strs.map CString.chars := by
  induction hbufs generalizing s with
  | nil => exact ⟨[], s, rfl, rfl⟩
  | @cons str buf strs bufs hbuf _ ih =>
    have hnext : unread base s.block = str.memory ++ (written strs ++ rest) := by
      rw [← List.append_assoc]
      exact hu
    have hfit := hs.fits hnext
    have hlength := length_memory str
    obtain ⟨seen, hone⟩ : ∃ seen, bytestreamExtractString (some buf) buf.length s =
        (.ok (str.memory ++ buf.drop str.memory.length), ⟨skip s.block str.memory.length, seen⟩) :=
      ⟨_, extractString_run hs hnext (by omega) (Nat.le_refl _)⟩
    have hthen : unread base (skip s.block str.memory.length) = written strs ++ rest := by
      rw [unread_skip, hnext, List.drop_left]
    obtain ⟨outs, s', hrest, hmap⟩ := ih (s := ⟨_, seen⟩) (hs.skip hfit) hthen
    refine ⟨(str.memory ++ buf.drop str.memory.length) :: outs, s', ?_, ?_⟩
    · unfold extractStrings
      rw [Run.bind_of_ok hone]
      exact Run.bind_of_ok hrest _
    · rw [List.map_cons, List.map_cons, hmap, stringIn_memory]

/-- The stream is reset, and the strings are extracted. -/
def readBack (base capacity : Nat) (bufs : List (List UInt8)) :
    Run (Scanned n) Halt (List (List UInt8)) := do
  onBlock (bytestreamInit base capacity)
  extractStrings bufs

/-- Strings that were all injected come back, into any buffers that are large enough. -/
def ComeBack (base sizeMax : Nat) (strs : List CString) (s : Buffered n) : Prop :=
  ∀ s', injectStrings sizeMax strs s = (.ok (), s') → ∀ bufs,
    List.Forall₂ (fun str buf => str.memory.length ≤ buf.length) strs bufs →
    ∃ outs s'', readBack base s.stream.capacity bufs ⟨s', []⟩ = (.ok outs, s'') ∧
      outs.map stringIn = strs.map CString.chars

theorem eachFits_comeBack {s : Buffered n} (hs : Placed base s) (hsize : s.stream.size = 0)
    (hfits : EachFits s.stream.capacity strs) : ComeBack base sizeMax strs s := by
  intro s' hrun bufs hbufs
  rw [← Nat.sub_zero s.stream.capacity, ← hsize] at hfits
  obtain ⟨hle, happended⟩ := injectStrings_run hs hfits hrun
  have hin := hs.inside
  have hreset : onBlock (bytestreamInit base s.stream.capacity) (⟨s', []⟩ : Scanned n) =
      (.ok (), ⟨{ s' with stream := ⟨some base, s.stream.capacity, 0⟩ }, []⟩) := rfl
  have hmem := happended.mem
  rw [hsize] at hmem hle
  have hu : unread base { s' with stream := ⟨some base, s.stream.capacity, 0⟩ } =
      written strs ++ window s'._data (base + (written strs).length)
        (s.stream.capacity - (written strs).length) := by
    have hwritten : window s'._data base (written strs).length = written strs := window_store hmem
    have hsplit := window_append s'._data base (written strs).length
      (s.stream.capacity - (written strs).length)
    rw [Nat.add_sub_cancel' (by omega), hwritten] at hsplit
    exact hsplit
  obtain ⟨outs, s'', hback, hmap⟩ := extractStrings_run
    (s := ⟨{ s' with stream := ⟨some base, s.stream.capacity, 0⟩ }, []⟩)
    ⟨rfl, Nat.zero_le _, hin⟩ hu hbufs
  refine ⟨outs, s'', ?_, hmap⟩
  unfold readBack
  rw [Run.bind_of_ok hreset]
  exact hback

/-- **When the injection of strings is all or nothing**: the first part for one string at any
position, the second for a sequence of them into an empty stream, which then come back. -/
theorem strings_round_trip_iff (sizeMax : Nat) {s : Buffered n} (hs : Placed base s) :
    (∀ str : CString,
      AllOrNothing base str.memory s (bytestreamInjectString sizeMax (some str.memory) s) ↔
        s.stream.size = s.stream.capacity ∨
          str.chars.length + 1 ≤ s.stream.capacity - s.stream.size) ∧
    (s.stream.size = 0 → ∀ strs : List CString,
      EachAllOrNothing base sizeMax strs s ∧ ComeBack base sizeMax strs s ↔
        EachFits s.stream.capacity strs) := by
  refine ⟨fun str => ?_, fun hsize strs => ?_⟩
  · rw [← length_memory]
    exact injectString_iff sizeMax str hs
  · have hroom : s.stream.capacity - s.stream.size = s.stream.capacity := by
      rw [hsize, Nat.sub_zero]
    rw [eachAllOrNothing_iff hs, hroom]
    exact ⟨And.left, fun hfits => ⟨hfits, eachFits_comeBack hs hsize hfits⟩⟩

/-- Two strings that fill a stream of five bytes. -/
theorem strings_round_trip_iff_five :
    ComeBack 0 (2 ^ 64 - 1) [⟨[7, 8], by decide⟩, ⟨[9], by decide⟩]
      (⟨⟨some 0, 5, 0⟩, Vector.replicate 5 0⟩ : Buffered 5) :=
  (((strings_round_trip_iff (2 ^ 64 - 1) ⟨rfl, Nat.zero_le 5, Nat.le_refl 5⟩).2 rfl _).mpr
    (by simp [EachFits, CString.memory])).2

/-- Three bytes and a NUL, with room for three bytes: the NUL is cut off, without an error. -/
theorem injectString_cuts :
    ∃ (s : Buffered 4) (str : CString), Placed 0 s ∧ s.stream = ⟨some 0, 4, 1⟩ ∧
      str.chars = [1, 2, 3] ∧
      bytestreamInjectString (2 ^ 64 - 1) (some str.memory) s =
        (.ok (), ⟨⟨some 0, 4, 4⟩, #v[0, 1, 2, 3]⟩) ∧
      ¬ AllOrNothing 0 str.memory s (bytestreamInjectString (2 ^ 64 - 1) (some str.memory) s) := by
  refine ⟨⟨⟨some 0, 4, 1⟩, #v[0, 0, 0, 0]⟩, ⟨[1, 2, 3], by decide⟩,
    ⟨rfl, by decide, by decide⟩, rfl,
    rfl, rfl, fun h => ?_⟩
  obtain ⟨msg, hmsg⟩ := h.1 (by decide)
  cases hmsg

end Nuhal.Serial
