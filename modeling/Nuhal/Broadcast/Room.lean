import Nuhal.Broadcast.Rounds
import Nuhal.Link.Schedule

/-!
# Where the polling loop of a broadcast touches memory

`in_packet[port]._data[index[port]]` is written in every round for every port, also when the port's
packet is complete, and nothing compares `index[port]` with the 255 bytes of the packet. While one
port keeps the loop going, another can send more than fits: `Contained` is what then fails.

* **`receive_contained_iff`**: the reads of the loop stay inside the packets, and its counters do
  not wrap, exactly when no port's total is past 255 after a round that the loop gets to.
-/

namespace Nuhal.Broadcast

open Nuhal.Lib Nuhal.All Nuhal.Link

/-- The loop gets to the last of the rounds `done`: no earlier one ends it by its deadline or with
all packets complete. -/
def GetsTo (ports : List Nat) (w : World) (timeout : UInt32) (done : List (Nat → Nat)) : Prop :=
  ∀ pre, pre <+: done → pre ≠ [] → pre ≠ done →
    ¬ Late w timeout pre.length ∧ ¬ Complete ports w pre

/-- Every port has room for what comes in the rounds that the loop gets to. -/
def HasRoom (ports : List Nat) (w : World) (timeout : UInt32) (rounds : List (Nat → Nat)) : Prop :=
  ∀ done, done <+: rounds → GetsTo ports w timeout done → Within ports w done

variable {ports : List Nat} {timeout : UInt32} {w : World} {done rest : List (Nat → Nat)}
  {c : Nat → Nat}

theorem concat_prefix_cons {α : Type} (l : List α) (a : α) (rest : List α) :
    l ++ [a] <+: l ++ a :: rest := ⟨rest, by simp⟩

theorem within_nil (ports : List Nat) (w : World) : Within ports w [] := by
  intro p _
  rw [total_nil]
  exact Nat.zero_le _

/-- There is room in rounds that all leave the loop going. -/
theorem GoingOn.within (h : GoingOn ports w timeout done) {pre : List (Nat → Nat)}
    (hpre : pre <+: done) : Within ports w pre := by
  by_cases hne : pre = []
  · rw [hne]
    exact within_nil ports w
  · exact (h pre hpre hne).within

/-- The loop gets to the round after rounds that left it going. -/
theorem GoingOn.getsTo (h : GoingOn ports w timeout done) :
    GetsTo ports w timeout (done ++ [c]) := by
  intro pre hpre hne hlast
  rcases List.prefix_concat_iff.mp hpre with heq | hpre
  · exact absurd heq hlast
  · exact ⟨(h pre hpre hne).inTime, (h pre hpre hne).incomplete⟩

/-- Rounds after one that ends the loop do not matter. -/
theorem GoingOn.hasRoom (h : GoingOn ports w timeout done)
    (hfits : Within ports w (done ++ [c]))
    (hends : Late w timeout (done.length + 1) ∨ Complete ports w (done ++ [c])) :
    HasRoom ports w timeout (done ++ c :: rest) := by
  intro d hd hgets
  rcases List.prefix_or_prefix_of_prefix hd (concat_prefix_cons done c rest) with hle | hge
  · rcases List.prefix_concat_iff.mp hle with rfl | hle
    · exact hfits
    · exact h.within hle
  · by_cases heq : done ++ [c] = d
    · rw [← heq]
      exact hfits
    · obtain ⟨hlate, hincomplete⟩ := hgets (done ++ [c]) hge (by simp) heq
      rw [List.length_append, List.length_singleton] at hlate
      rcases hends with hends | hends
      · exact absurd hends hlate
      · exact absurd hends hincomplete

/-- **The polling loop stays inside its packets exactly when every port has room** for what comes
in the rounds that the loop gets to. -/
theorem receive_contained_iff (numPorts : Nat) (hports : 0 < numPorts) (response : Packets)
    (timeout : UInt32) (w : World) (rounds : List (Nat → Nat))
    (hreads : w.reads = answers (List.range numPorts) rounds) :
    Grown Contained w (receive (List.range numPorts) response timeout w).2 ↔
      HasRoom (List.range numPorts) w timeout rounds := by
  have hlength : 0 < (List.range numPorts).length := by
    rw [List.length_range]
    exact hports
  have hnodup : (List.range numPorts).Nodup := List.nodup_range
  rcases exists_first (Going (List.range numPorts) w timeout) rounds with
    hgoing | ⟨done, c, rest, rfl, hgoing, hfirst⟩
  · obtain ⟨w', hrun, hlog⟩ := receive_waiting response hlength hnodup hreads hgoing
    rw [hrun]
    constructor
    · intro _ done hdone _
      exact GoingOn.within hgoing hdone
    · intro _
      exact hlog
  · by_cases hfits : Within (List.range numPorts) w (done ++ [c])
    · obtain ⟨st', w', hpolled, hlate, hcomplete⟩ :=
        receive_ends response hlength hnodup hreads hgoing hfits
      -- this round ends the loop, one way or the other
      by_cases hl : Late w timeout (done.length + 1)
      · rw [hlate hl]
        constructor
        · intro _
          exact GoingOn.hasRoom hgoing hfits (.inl hl)
        · intro _
          exact hpolled.log.trans (Grown.one rfl trivial)
      · have hc : Complete (List.range numPorts) w (done ++ [c]) := by
          by_contra hc
          refine hfirst ⟨hfits, ?_, hc⟩
          rw [List.length_append]
          exact hl
        rw [hcomplete hl hc]
        constructor
        · intro _
          exact GoingOn.hasRoom hgoing hfits (.inr hc)
        · intro _
          exact hpolled.log
    · obtain ⟨w', hrun, hstrayed⟩ :=
        receive_overrun response hlength hnodup hreads hgoing hfits
      rw [hrun]
      constructor
      · intro hlog
        exact absurd hlog hstrayed.not_grown
      · intro hroom
        exact absurd (hroom (done ++ [c]) (concat_prefix_cons done c rest)
          (GoingOn.getsTo hgoing)) hfits

/-- Two ports whose packets come in one round. -/
theorem receive_contained_pair :
    let w := scheduled [0x03, 0x05, 0x05] (answers (List.range 2) [fun _ => 12]) []
    Grown Contained w (receive (List.range 2) (fun _ => zeroPacket) 200 w).2 := by
  intro w
  refine (receive_contained_iff 2 (by decide) _ 200 w [fun _ => 12] rfl).mpr ?_
  intro done hdone _
  have hprefix : done <+: [] ++ [fun _ => 12] := hdone
  rcases List.prefix_concat_iff.mp hprefix with rfl | hnil
  · show Within (List.range 2) w [fun _ => 12]
    decide
  · rw [List.prefix_nil.mp hnil]
    exact within_nil _ w

/-- One port stays silent while the other goes on after its packet of 3 bytes: the reads of round
22 go past the packet's end. -/
theorem broadcast_overrun :
    let w := { scheduled [] (answers (List.range 2) (List.replicate 22 fun _ => 12)) [] with
      rx := fun p => if p = 0 then 0x03 :: List.replicate 263 0x00 else []
      writes := List.replicate 6 (.bytes 1) }
    let request : ProtocolPacket := { zeroPacket with
      stream := { data := some 2, capacity := 253, size := 1 } }
    let w' := (protocolBroadcast 2 (fun _ => request) (fun _ => zeroPacket) .broadcast w).2
    .store 252 12 ∈ w'.log ∧ ¬ Grown Contained w w' := by
  intro w request w'
  have hstore : .store 252 12 ∈ w'.log := by decide +kernel
  refine ⟨hstore, ?_⟩
  intro hlog
  exact absurd (contained_store.mp (hlog.all rfl _ hstore)) (by decide)

end Nuhal.Broadcast
