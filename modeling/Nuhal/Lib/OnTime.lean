import Nuhal.Lib.Run

/-!
# Runs that take time

`now` says what time it is in a state. A run is on time if it ends between two times, and not
because it was stuck (`OnTime`); a program is in time if that is so from every state, with a fixed
time to spend (`InTime`).

* `InTime.bind`: the times of two parts add up.
* **`iterate_onTime`**: a loop each of whose passes takes some time, and which goes on only up to a
  deadline, is not stuck.
-/

namespace Nuhal.Lib.Run

variable {σ ε α β : Type} {now : σ → Nat} {stuck : ε} {early late k l : Nat}

/-- The run was not stuck, and it ended between the times `early` and `late`. -/
structure OnTime (now : σ → Nat) (stuck : ε) (early late : Nat) (r : Except ε α) (s' : σ) :
    Prop where
  done : r ≠ .error stuck
  after : early ≤ now s'
  before : now s' ≤ late

/-- The program takes at most the time `k`, and is never stuck. -/
def InTime (m : Run σ ε α) (now : σ → Nat) (stuck : ε) (k : Nat) : Prop :=
  ∀ s, m.Ends s (OnTime now stuck (now s) (now s + k))

/-- A result of another type. -/
theorem OnTime.error {e : ε} {s' : σ}
    (h : OnTime now stuck early late (.error e : Except ε α) s') :
    OnTime now stuck early late (.error e : Except ε β) s' :=
  ⟨fun he => h.done (congrArg Except.error (Except.error.inj he)), h.after, h.before⟩

theorem OnTime.widen {r : Except ε α} {s' : σ} {early' late' : Nat}
    (h : OnTime now stuck early late r s') (hearly : early' ≤ early) (hlate : late ≤ late') :
    OnTime now stuck early' late' r s' :=
  ⟨h.done, Nat.le_trans hearly h.after, Nat.le_trans h.before hlate⟩

theorem InTime.mono {m : Run σ ε α} (h : m.InTime now stuck k) (hkl : k ≤ l) :
    m.InTime now stuck l := fun s =>
  (h s).mono fun _ _ hr => hr.widen (Nat.le_refl _) (Nat.add_le_add_left hkl _)

theorem InTime.pure (a : α) : (pure a : Run σ ε α).InTime now stuck 0 := fun _ =>
  ⟨nofun, Nat.le_refl _, Nat.le_refl _⟩

theorem InTime.stop {e : ε} (he : e ≠ stuck) : (stop e : Run σ ε α).InTime now stuck 0 := fun _ =>
  ⟨fun h => he (Except.error.inj h), Nat.le_refl _, Nat.le_refl _⟩

/-- What comes after a part that was on time. -/
theorem onTime_bind {m : Run σ ε α} {f : α → Run σ ε β} {s : σ} {P : Except ε α → σ → Prop}
    (hm : m.Ends s P) (hok : ∀ a s', P (.ok a) s' → (f a).Ends s' (OnTime now stuck early late))
    (herr : ∀ e s', P (.error e) s' →
      OnTime now stuck early late (.error e : Except ε α) s') :
    (m >>= f).Ends s (OnTime now stuck early late) :=
  hm.bind hok fun e s' h => (herr e s' h).error

theorem InTime.bind {m : Run σ ε α} {f : α → Run σ ε β} (hm : m.InTime now stuck k)
    (hf : ∀ a, (f a).InTime now stuck l) : (m >>= f).InTime now stuck (k + l) := by
  intro s
  refine onTime_bind (hm s) (fun a s' h => ?_) fun e s' h => ?_
  · refine (hf a s').mono fun r s'' hr => hr.widen h.after ?_
    have hbefore := h.before
    omega
  · exact h.widen (Nat.le_refl _) (by omega)

/-- What one pass of a loop has to establish: if it goes on, it took some time, and it is not later
than the deadline; otherwise the loop was on time. -/
def TimedPass (now : σ → Nat) (stuck : ε) (I : β → σ → Prop) (deadline late t : Nat) :
    Except ε (β ⊕ α) → σ → Prop
  | .ok (.inl b'), s' => I b' s' ∧ t < now s' ∧ now s' ≤ deadline
  | .ok (.inr _), s' => t ≤ now s' ∧ now s' ≤ late
  | .error e, s' => e ≠ stuck ∧ t ≤ now s' ∧ now s' ≤ late

/-- **A loop with a deadline is not stuck**, with more passes than there is time up to the
deadline. -/
theorem iterate_onTime {body : β → Run σ ε (β ⊕ α)} {I : β → σ → Prop} (deadline late : Nat)
    {fuel : Nat} {b : β} {s : σ}
    (pass : ∀ b s, I b s → (body b).Ends s (TimedPass now stuck I deadline late (now s)))
    (hfuel : deadline + 1 - now s < fuel) (hI : I b s) :
    (iterate stuck body fuel b).Ends s (OnTime now stuck (now s) late) := by
  refine iterate_ends (I := fun b s' => I b s' ∧ now s ≤ now s')
    (μ := fun s' => deadline + 1 - now s') ?_ fuel b s hfuel ⟨hI, Nat.le_refl _⟩
  rintro b s₁ ⟨hI, hafter⟩
  refine (pass b s₁ hI).mono fun r s₂ hr => ?_
  match r, hr with
  | .ok (.inl b'), ⟨hI', hlt, hle⟩ =>
    have hless : deadline + 1 - now s₂ < deadline + 1 - now s₁ := by omega
    exact ⟨⟨hI', by omega⟩, hless⟩
  | .ok (.inr a), ⟨hle, hlate⟩ => exact ⟨nofun, Nat.le_trans hafter hle, hlate⟩
  | .error e, ⟨hne, hle, hlate⟩ =>
    exact ⟨fun h => hne (Except.error.inj h), Nat.le_trans hafter hle, hlate⟩

end Nuhal.Lib.Run
