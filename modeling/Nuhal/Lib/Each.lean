import Nuhal.Lib.Run

/-!
# One run for each input

`each m is` runs `m` on the inputs `is` in order and collects what it returns. It stops at the
first input on which `m` stops.

* `each_cons`, `each_append`: how such a run is put together.
* `each_of_states`: if the states and the results in between are known, so is the whole run.
* `each_counts`: what holds after as many inputs as there were.

`forEach m is` does the same for an `m` that returns nothing.

* `forEach_flatten`: a loop over lists, each of them looped over, is one loop.
* `forEach_accepts`: if each input is accepted or rejected by what came before, the loop returns
  just if all inputs are acceptable, and else it stops after an acceptable prefix.
-/

namespace Nuhal.Lib.Run

variable {σ ε α ι : Type} {m : ι → Run σ ε α}

/-- Run `m` on each of the inputs in turn. -/
def each (m : ι → Run σ ε α) : List ι → Run σ ε (List α)
  | [] => pure []
  | i :: rest => do
    let a ← m i
    let later ← each m rest
    return a :: later

theorem each_cons {i : ι} {rest : List ι} {s s₁ s' : σ} {a : α} {later : List α}
    (hm : m i s = (.ok a, s₁)) (hrest : each m rest s₁ = (.ok later, s')) :
    each m (i :: rest) s = (.ok (a :: later), s') := by
  unfold each
  rw [bind_of_ok hm, bind_of_ok hrest]
  rfl

theorem each_append {front back : List ι} {s s₁ s' : σ} {early later : List α}
    (hfront : each m front s = (.ok early, s₁)) (hback : each m back s₁ = (.ok later, s')) :
    each m (front ++ back) s = (.ok (early ++ later), s') := by
  induction front generalizing s early with
  | nil =>
    cases hfront
    exact hback
  | cons i rest ih =>
    unfold each at hfront
    obtain ⟨a, s₂, hm, hrest⟩ := bind_eq_ok hfront
    obtain ⟨as, s₃, hrest, hpure⟩ := bind_eq_ok hrest
    cases hpure
    exact each_cons hm (ih hrest)

/-- **A run whose states are known.** If the input at `k` takes `s k` to `s (k + 1)` and returns
`u k`, the run over all inputs returns all the `u k`. -/
theorem each_of_states {is : List ι} {s : Nat → σ} {u : Nat → α}
    (step : ∀ k (hk : k < is.length), m is[k] (s k) = (.ok (u k), s (k + 1))) :
    each m is (s 0) = (.ok ((List.range is.length).map u), s is.length) := by
  induction is generalizing s u with
  | nil => rfl
  | cons i rest ih =>
    have hhead : m i (s 0) = (.ok (u 0), s 1) := step 0 (Nat.zero_lt_succ _)
    have hlater : each m rest (s 1) = (.ok ((List.range rest.length).map fun k => u (k + 1)),
        s (rest.length + 1)) :=
      ih (s := fun k => s (k + 1)) fun k hk => step (k + 1) (Nat.succ_lt_succ hk)
    rw [each_cons hhead hlater, List.length_cons,
      List.range_succ_eq_map, List.map_cons, List.map_map]
    rfl

/-- **A run that is counted.** If every input takes `B k` to `B (k + 1)`, the run over all inputs
returns, and adds their number. -/
theorem each_counts {B : Nat → σ → Prop} {is : List ι}
    (step : ∀ i ∈ is, ∀ k s, B k s → ∃ a s', m i s = (.ok a, s') ∧ B (k + 1) s') {k : Nat} {s : σ}
    (hB : B k s) : ∃ as s', each m is s = (.ok as, s') ∧ B (k + is.length) s' := by
  induction is generalizing k s with
  | nil => exact ⟨[], s, rfl, hB⟩
  | cons i rest ih =>
    obtain ⟨a, s₁, hm, hB₁⟩ := step i List.mem_cons_self k s hB
    obtain ⟨later, s', hrest, hB'⟩ := ih (fun j hj => step j (List.mem_cons_of_mem _ hj)) hB₁
    refine ⟨a :: later, s', each_cons hm hrest, ?_⟩
    rw [List.length_cons, Nat.add_comm rest.length 1, ← Nat.add_assoc]
    exact hB'

/-! ## Loops that return nothing -/

/-- Run `m` on each of the inputs in turn. -/
def forEach (m : ι → Run σ ε Unit) : List ι → Run σ ε Unit
  | [] => pure ()
  | i :: rest => do
    m i
    forEach m rest

variable {m : ι → Run σ ε Unit}

theorem forEach_append (front back : List ι) :
    forEach m (front ++ back) = (forEach m front >>= fun _ => forEach m back) := by
  induction front with
  | nil => rfl
  | cons i rest ih =>
    show (m i >>= fun _ => forEach m (rest ++ back)) =
      (m i >>= fun _ => forEach m rest) >>= fun _ => forEach m back
    rw [bind_assoc, ih]

/-- **A loop of loops is one loop.** -/
theorem forEach_flatten (lists : List (List ι)) :
    forEach (forEach m) lists = forEach m lists.flatten := by
  induction lists with
  | nil => rfl
  | cons front rest ih =>
    rw [List.flatten_cons, forEach_append, ← ih]
    rfl

/-- **Accepting and rejecting.** `Good` says which lists of inputs are acceptable, `R` what holds
once such a list was accepted, and `Stop` what holds when the input after it was rejected. -/
theorem forEach_accepts {Good : List ι → Prop} {R Stop : List ι → σ → Prop}
    (hfront : ∀ front back, Good (front ++ back) → Good front)
    (accept : ∀ done i s, R done s → Good (done ++ [i]) →
      ∃ s', m i s = (.ok (), s') ∧ R (done ++ [i]) s')
    (reject : ∀ done i s, Good done → R done s → ¬ Good (done ++ [i]) →
      ∃ e s', m i s = (.error e, s') ∧ Stop done s')
    (is done : List ι) (s : σ) (hR : R done s) (hgood : Good done) :
    (Good (done ++ is) ∧ ∃ s', forEach m is s = (.ok (), s') ∧ R (done ++ is) s') ∨
      (¬ Good (done ++ is) ∧ ∃ k e s', Good (done ++ is.take k) ∧
        forEach m is s = (.error e, s') ∧ Stop (done ++ is.take k) s') := by
  induction is generalizing done s with
  | nil =>
    rw [List.append_nil]
    exact Or.inl ⟨hgood, s, rfl, hR⟩
  | cons i rest ih =>
    have hsplit : done ++ i :: rest = done ++ [i] ++ rest := by simp
    by_cases hnext : Good (done ++ [i])
    · obtain ⟨s₁, hm, hR₁⟩ := accept done i s hR hnext
      have hcons : forEach m (i :: rest) s = forEach m rest s₁ := bind_of_ok hm _
      rw [hsplit, hcons]
      rcases ih (done ++ [i]) s₁ hR₁ hnext with hall | ⟨hbad, k, e, s', hk, hrun, hstop⟩
      · exact Or.inl hall
      · refine Or.inr ⟨hbad, k + 1, e, s', ?_, hrun, ?_⟩
        · simpa using hk
        · simpa using hstop
    · obtain ⟨e, s₁, hm, hstop⟩ := reject done i s hgood hR hnext
      refine Or.inr ⟨?_, 0, e, s₁, ?_, bind_of_error hm _, ?_⟩
      · rw [hsplit]
        exact fun hall => hnext (hfront _ _ hall)
      · simpa using hgood
      · simpa using hstop

end Nuhal.Lib.Run
