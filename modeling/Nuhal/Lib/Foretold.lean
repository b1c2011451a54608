import Nuhal.Lib.Run

/-!
# Programs whose surroundings are foretold

Two machines run the same program. One (state `σ`) does what its surroundings make it do at every
step; the other (state `τ`) has it all written down in its state before it begins: what will arrive,
how long everything will take. That every run of the first is a run of the second, for the right
state to begin in, is shown from the end to the beginning: whatever state the second machine is in
after a step, there is one to be in before it.

* `Foresight` is what relates the two: `keeps` is an invariant of the first machine, `along g`
  relates the states as long as the program goes on, and `stops g` once it has stopped for a reason.
  `g` is what does not change along a run.
* `Foretold stuck S m p`: every run of `m` that does not end in `stuck` is one of `p`, which may end
  well wherever the first machine's state allows it to. `Foretold.bind` is the rule for sequences.
* `Erases m p`: `p` is `m` with a state of its own beside it, which does not change what it does.
* `InStep R m p`: the forward direction, for two machines that both act as they go.
* `Congruence` is what these have in common: a relation between programs of two machines that
  sequences and loops respect. Whatever is built from related programs in the same way is related.
* `Approximates` is for the fuel of loops: as long as a run is not `stuck`, it is the one with more
  fuel, or with all the fuel it can need (`iterate_approximates`).
-/

namespace Nuhal.Lib

variable {σ τ γ ε α β : Type}

/-- How the states of two machines are related. -/
structure Foresight (σ τ γ : Type) where
  keeps : σ → Prop
  along : γ → σ → τ → Prop
  stops : γ → σ → τ → Prop
  /-- The second machine can always be where the first one is. -/
  possible : ∀ s, keeps s → ∃ g t, along g s t ∧ stops g s t

/-- Every run of `m` that is not `stuck` is a run of `p`. -/
def Foretold (stuck : ε) (S : Foresight σ τ γ) (m : Run σ ε α) (p : Run τ ε α) : Prop :=
  ∀ s, S.keeps s →
    (∀ a s', m s = (.ok a, s') → S.keeps s' ∧
      ∀ g t', S.along g s' t' → ∃ t, S.along g s t ∧ p t = (.ok a, t')) ∧
    ∀ e s', m s = (.error e, s') → e ≠ stuck →
      ∃ g t t', S.along g s t ∧ p t = (.error e, t') ∧ S.stops g s' t'

namespace Foretold

open Run

variable {stuck : ε} {S : Foresight σ τ γ}

theorem pure (a : α) : Foretold stuck S (Pure.pure a : Run σ ε α) (Pure.pure a : Run τ ε α) := by
  intro s hs
  refine ⟨?_, ?_⟩
  · intro a' s' h
    cases h
    exact ⟨hs, fun g t' hg => ⟨t', hg, rfl⟩⟩
  · intro e s' h
    cases h

theorem stop (e : ε) : Foretold stuck S (Run.stop e : Run σ ε α) (Run.stop e : Run τ ε α) := by
  intro s hs
  refine ⟨?_, ?_⟩
  · intro a s' h
    cases h
  · intro e' s' h _
    cases h
    obtain ⟨g, t, halong, hstops⟩ := S.possible s hs
    exact ⟨g, t, t, halong, rfl, hstops⟩

/-- **The rule for sequences.** -/
theorem bind {m : Run σ ε α} {p : Run τ ε α} {f : α → Run σ ε β} {q : α → Run τ ε β}
    (hm : Foretold stuck S m p) (hf : ∀ a, Foretold stuck S (f a) (q a)) :
    Foretold stuck S (m >>= f) (p >>= q) := by
  intro s hs
  obtain ⟨hok, herror⟩ := hm s hs
  rcases hrun : m s with ⟨r, s₁⟩
  cases r with
  | ok a =>
    obtain ⟨hkeeps, hback⟩ := hok a s₁ hrun
    obtain ⟨hok', herror'⟩ := hf a s₁ hkeeps
    rw [bind_of_ok hrun]
    refine ⟨?_, ?_⟩
    · intro b s' h
      obtain ⟨hkeeps', hback'⟩ := hok' b s' h
      refine ⟨hkeeps', fun g t' hg => ?_⟩
      obtain ⟨t₁, hg₁, hq⟩ := hback' g t' hg
      obtain ⟨t, hg₀, hp⟩ := hback g t₁ hg₁
      exact ⟨t, hg₀, (bind_of_ok hp q).trans hq⟩
    · intro e s' h hstuck
      obtain ⟨g, t₁, t', hg₁, hq, hstops⟩ := herror' e s' h hstuck
      obtain ⟨t, hg₀, hp⟩ := hback g t₁ hg₁
      exact ⟨g, t, t', hg₀, (bind_of_ok hp q).trans hq, hstops⟩
  | error e =>
    rw [bind_of_error hrun]
    refine ⟨?_, ?_⟩
    · intro b s' h
      cases h
    · intro e' s' h hstuck
      cases h
      obtain ⟨g, t, t', hg, hp, hstops⟩ := herror e s₁ hrun hstuck
      exact ⟨g, t, t', hg, bind_of_error hp q, hstops⟩

end Foretold

/-! ## Ghosts -/

/-- What `p` does to the first half of its state, and how it ends, is what `m` does. -/
def Erases (m : Run σ ε α) (p : Run (σ × τ) ε α) : Prop :=
  ∀ s t, (p (s, t)).1 = (m s).1 ∧ (p (s, t)).2.1 = (m s).2

namespace Erases

open Run

theorem pure (a : α) : Erases (Pure.pure a : Run σ ε α) (Pure.pure a : Run (σ × τ) ε α) :=
  fun _ _ => ⟨rfl, rfl⟩

theorem stop (e : ε) : Erases (Run.stop e : Run σ ε α) (Run.stop e : Run (σ × τ) ε α) :=
  fun _ _ => ⟨rfl, rfl⟩

theorem bind {m : Run σ ε α} {p : Run (σ × τ) ε α} {f : α → Run σ ε β}
    {q : α → Run (σ × τ) ε β} (hm : Erases m p) (hf : ∀ a, Erases (f a) (q a)) :
    Erases (m >>= f) (p >>= q) := by
  intro s t
  obtain ⟨hresult, hstate⟩ := hm s t
  rcases hrun : m s with ⟨r, s₁⟩
  rcases hghost : p (s, t) with ⟨r', s₁', t₁⟩
  rw [hrun, hghost] at hresult hstate
  cases hresult
  cases hstate
  cases r with
  | ok a =>
    rw [bind_of_ok hrun, bind_of_ok hghost]
    exact hf a s₁ t₁
  | error e =>
    rw [bind_of_error hrun, bind_of_error hghost]
    exact ⟨rfl, rfl⟩

end Erases

/-- A relation between the programs of two machines that sequences respect. -/
structure Congruence (σ τ ε : Type) where
  related : ∀ {α : Type}, Run σ ε α → Run τ ε α → Prop
  pure : ∀ {α : Type} (a : α), related (Pure.pure a) (Pure.pure a)
  stop : ∀ {α : Type} (e : ε), related (Run.stop e : Run σ ε α) (Run.stop e)
  bind : ∀ {α β : Type} {m : Run σ ε α} {p : Run τ ε α} {f : α → Run σ ε β} {q : α → Run τ ε β},
    related m p → (∀ a, related (f a) (q a)) → related (m >>= f) (p >>= q)

/-- **The rule for loops.** -/
theorem Congruence.iterate (C : Congruence σ τ ε) {stuck : ε} {body : β → Run σ ε (β ⊕ α)}
    {body' : β → Run τ ε (β ⊕ α)} (hbody : ∀ b, C.related (body b) (body' b)) :
    ∀ fuel b, C.related (Run.iterate stuck body fuel b) (Run.iterate stuck body' fuel b)
  | 0, _ => C.stop stuck
  | fuel + 1, b => by
    refine C.bind (hbody b) ?_
    rintro (b' | a)
    · exact C.iterate hbody fuel b'
    · exact C.pure a

def foretelling (stuck : ε) (S : Foresight σ τ γ) : Congruence σ τ ε where
  related := Foretold stuck S
  pure := Foretold.pure
  stop := Foretold.stop
  bind := Foretold.bind

def erasure (σ τ ε : Type) : Congruence σ (σ × τ) ε where
  related := Erases
  pure := Erases.pure
  stop := Erases.stop
  bind := Erases.bind

/-- From related states the two programs end in the same way, in related states. -/
def InStep (R : σ → τ → Prop) (m : Run σ ε α) (p : Run τ ε α) : Prop :=
  ∀ s t, R s t → (m s).1 = (p t).1 ∧ R (m s).2 (p t).2

namespace InStep

open Run

variable {R : σ → τ → Prop}

theorem bind {m : Run σ ε α} {p : Run τ ε α} {f : α → Run σ ε β} {q : α → Run τ ε β}
    (hm : InStep R m p) (hf : ∀ a, InStep R (f a) (q a)) : InStep R (m >>= f) (p >>= q) := by
  intro s t hR
  obtain ⟨hresult, hstate⟩ := hm s t hR
  rcases hrun : m s with ⟨r, s₁⟩
  rcases hrun' : p t with ⟨r', t₁⟩
  rw [hrun, hrun'] at hresult hstate
  cases hresult
  cases r with
  | ok a =>
    rw [bind_of_ok hrun, bind_of_ok hrun']
    exact hf a s₁ t₁ hstate
  | error e =>
    rw [bind_of_error hrun, bind_of_error hrun']
    exact ⟨rfl, hstate⟩

end InStep

/-! ## Fuel -/

namespace Run

/-- As long as `m` is not `stuck`, it does what `p` does. -/
def Approximates (stuck : ε) (m p : Run σ ε α) : Prop :=
  ∀ s r s', m s = (r, s') → r ≠ .error stuck → p s = (r, s')

variable {stuck : ε}

theorem Approximates.refl (m : Run σ ε α) : Approximates stuck m m := fun _ _ _ h _ => h

theorem Approximates.bind {m p : Run σ ε α} {f q : α → Run σ ε β} (hm : Approximates stuck m p)
    (hf : ∀ a, Approximates stuck (f a) (q a)) : Approximates stuck (m >>= f) (p >>= q) := by
  intro s r s' h hstuck
  rcases hrun : m s with ⟨r₁, s₁⟩
  cases r₁ with
  | ok a =>
    rw [bind_of_ok hrun] at h
    rw [bind_of_ok (hm s _ s₁ hrun (fun he => by cases he))]
    exact hf a s₁ r s' h hstuck
  | error e =>
    rw [bind_of_error hrun] at h
    cases h
    have he : (Except.error e : Except ε α) ≠ .error stuck := fun he => hstuck (by cases he; rfl)
    exact bind_of_error (hm s _ _ hrun he) q

variable {body : β → Run σ ε (β ⊕ α)}

/-- More fuel than enough is enough. -/
theorem iterate_more {fuel : Nat} {b : β} {s s' : σ} {r : Except ε α}
    (h : iterate stuck body fuel b s = (r, s')) (hstuck : r ≠ .error stuck) (k : Nat) :
    iterate stuck body (fuel + k) b s = (r, s') := by
  induction fuel generalizing b s with
  | zero =>
    cases h
    exact absurd rfl hstuck
  | succ fuel ih =>
    rw [Nat.succ_add]
    rcases hbody : body b s with ⟨r₁, s₁⟩
    match r₁, hbody with
    | .ok (.inl b'), hbody =>
      rw [iterate_of_inl hbody] at h ⊢
      exact ih h
    | .ok (.inr a), hbody =>
      rw [iterate_of_inr hbody] at h ⊢
      exact h
    | .error e, hbody =>
      rw [iterate_of_error hbody] at h ⊢
      exact h

/-- A loop whose passes make `μ` smaller needs no more fuel than that. -/
theorem iterate_approximates (μ : σ → Nat)
    (hless : ∀ b s b' s', body b s = (.ok (.inl b'), s') → μ s' < μ s) (fuel : Nat) (b : β) :
    Approximates stuck (iterate stuck body fuel b)
      (fun s => iterate stuck body (μ s + 1) b s) := by
  induction fuel generalizing b with
  | zero =>
    intro s r s' h hstuck
    cases h
    exact absurd rfl hstuck
  | succ fuel ih =>
    intro s r s' h hstuck
    rcases hbody : body b s with ⟨r₁, s₁⟩
    match r₁, hbody with
    | .ok (.inl b'), hbody =>
      rw [iterate_of_inl hbody] at h
      have hrest := ih b' s₁ r s' h hstuck
      obtain ⟨k, hk⟩ := Nat.le.dest (hless b s b' s₁ hbody)
      have hmore := iterate_more hrest hstuck k
      show iterate stuck body (μ s + 1) b s = _
      rw [iterate_of_inl hbody, ← hk]
      exact hmore
    | .ok (.inr a), hbody =>
      rw [iterate_of_inr hbody] at h
      show iterate stuck body (μ s + 1) b s = _
      rw [iterate_of_inr hbody]
      exact h
    | .error e, hbody =>
      rw [iterate_of_error hbody] at h
      show iterate stuck body (μ s + 1) b s = _
      rw [iterate_of_error hbody]
      exact h

end Run

end Nuhal.Lib
