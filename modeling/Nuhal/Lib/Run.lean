import Mathlib.Logic.Function.Basic

/-!
# Runs: computations that return or stop, over a state

`Run σ ε α` is a sequential program over a state `σ`. It either returns a value of `α` or stops
for a reason in `ε`, and in both cases the state it leaves is known. This is what a program whose
error handler never returns looks like from outside: the state at the moment of the error is still
observable, but nothing after the error runs.

* `iterate` is a loop whose body says, on every pass, whether to go on (`Sum.inl`) or to leave
  (`Sum.inr`). It is bounded by a fuel; `iterate_ends` shows the fuel never matters when the body
  makes a measure of the state smaller on every pass.
* `Ends` is the postcondition predicate, `Ends.bind` and `iterate_ends` its rules for sequencing
  and for loops.
* `Keeps` is for what holds of the state from some moment on, also if the program then stops, and
  `Never` for an error that a program does not stop with.
-/

namespace Nuhal.Lib

/-- A program over the state `σ` that returns an `α` or stops for a reason in `ε`. -/
def Run (σ ε α : Type) : Type := σ → Except ε α × σ

namespace Run

variable {σ ε α β γ : Type}

/-- Sequencing: the second program runs only if the first one returned. -/
protected def bind (m : Run σ ε α) (f : α → Run σ ε β) : Run σ ε β := fun s =>
  match m s with
  | (.ok a, s') => f a s'
  | (.error e, s') => (.error e, s')

instance : Monad (Run σ ε) where
  pure a := fun s => (.ok a, s)
  bind := Run.bind

/-- Stop for the reason `e`. -/
def stop (e : ε) : Run σ ε α := fun s => (.error e, s)

/-- Look at the state. -/
def get : Run σ ε σ := fun s => (.ok s, s)

/-- Change the state. -/
def modify (f : σ → σ) : Run σ ε Unit := fun s => (.ok (), f s)

@[simp] theorem pure_apply (a : α) (s : σ) : (pure a : Run σ ε α) s = (.ok a, s) := rfl

theorem bind_apply (m : Run σ ε α) (f : α → Run σ ε β) (s : σ) :
    (m >>= f) s = match m s with
      | (.ok a, s') => f a s'
      | (.error e, s') => (.error e, s') := rfl

theorem bind_of_ok {m : Run σ ε α} {s s' : σ} {a : α} (h : m s = (.ok a, s'))
    (f : α → Run σ ε β) : (m >>= f) s = f a s' := by
  rw [bind_apply, h]

@[simp] theorem bind_get (f : σ → Run σ ε α) (s : σ) : (get >>= f) s = f s s := rfl

theorem bind_of_error {m : Run σ ε α} {s s' : σ} {e : ε} (h : m s = (.error e, s'))
    (f : α → Run σ ε β) : (m >>= f) s = (.error e, s') := by
  rw [bind_apply, h]

theorem bind_assoc (m : Run σ ε α) (f : α → Run σ ε β) (g : β → Run σ ε γ) :
    (m >>= f) >>= g = m >>= fun a => f a >>= g := by
  funext s
  rw [bind_apply, bind_apply, bind_apply]
  rcases m s with ⟨r, s'⟩
  cases r <;> rfl

theorem bind_pure (m : Run σ ε α) : (m >>= fun a => pure a) = m := by
  funext s
  rw [bind_apply]
  rcases m s with ⟨r, s'⟩
  cases r <;> rfl

@[simp] theorem bind_pure_unit (m : Run σ ε Unit) : (m >>= fun _ => pure ()) = m := bind_pure m

/-- A sequence that returned went through both of its parts. -/
theorem bind_eq_ok {m : Run σ ε α} {f : α → Run σ ε β} {s s'' : σ} {b : β}
    (h : (m >>= f) s = (.ok b, s'')) : ∃ a s', m s = (.ok a, s') ∧ f a s' = (.ok b, s'') := by
  rw [bind_apply] at h
  rcases hm : m s with ⟨r, s'⟩
  rw [hm] at h
  cases r with
  | ok a => exact ⟨a, s', rfl, h⟩
  | error e => exact absurd (congrArg Prod.fst h) (by simp)

/-- A sequence that stopped did so in one of its parts. -/
theorem bind_eq_error {m : Run σ ε α} {f : α → Run σ ε β} {s s'' : σ} {e : ε}
    (h : (m >>= f) s = (.error e, s'')) :
    m s = (.error e, s'') ∨ ∃ a s', m s = (.ok a, s') ∧ f a s' = (.error e, s'') := by
  rw [bind_apply] at h
  rcases hm : m s with ⟨r, s'⟩
  rw [hm] at h
  cases r with
  | ok a => exact .inr ⟨a, s', rfl, h⟩
  | error e' =>
    cases h
    exact .inl rfl

/-! ## Postconditions -/

/-- Started in `s`, the program ends, by returning or by stopping, in a way that satisfies `Q`. -/
def Ends (m : Run σ ε α) (s : σ) (Q : Except ε α → σ → Prop) : Prop := Q (m s).1 (m s).2

theorem ends_of_eq {m : Run σ ε α} {s s' : σ} {r : Except ε α} {Q : Except ε α → σ → Prop}
    (h : m s = (r, s')) (hQ : Q r s') : m.Ends s Q := by
  unfold Ends
  rw [h]
  exact hQ

theorem Ends.elim {m : Run σ ε α} {s s' : σ} {r : Except ε α} {Q : Except ε α → σ → Prop}
    (h : m.Ends s Q) (he : m s = (r, s')) : Q r s' := by
  unfold Ends at h
  rw [he] at h
  exact h

theorem Ends.mono {m : Run σ ε α} {s : σ} {Q Q' : Except ε α → σ → Prop} (h : m.Ends s Q)
    (hQ : ∀ r s', Q r s' → Q' r s') : m.Ends s Q' := hQ _ _ h

/-- The rule for sequencing. -/
theorem Ends.bind {m : Run σ ε α} {f : α → Run σ ε β} {s : σ} {Q : Except ε β → σ → Prop}
    {P : Except ε α → σ → Prop} (hm : m.Ends s P) (hok : ∀ a s', P (.ok a) s' → (f a).Ends s' Q)
    (herr : ∀ e s', P (.error e) s' → Q (.error e) s') : (m >>= f).Ends s Q := by
  rcases h : m s with ⟨r, s'⟩
  have hP := hm.elim h
  cases r with
  | ok a =>
    unfold Ends
    rw [bind_of_ok h]
    exact hok a s' hP
  | error e => exact ends_of_eq (bind_of_error h f) (herr e s' hP)

/-! ## Loops -/

/-- `while`: run `body` from `b`, going on with `b'` after `inl b'` and leaving with `a` after
`inr a`; after `fuel` passes the run stops with `stuck`. -/
def iterate (stuck : ε) (body : β → Run σ ε (β ⊕ α)) : Nat → β → Run σ ε α
  | 0, _ => stop stuck
  | fuel + 1, b => do
    match ← body b with
    | .inl b' => iterate stuck body fuel b'
    | .inr a => pure a

variable {stuck : ε} {body : β → Run σ ε (β ⊕ α)}

theorem iterate_of_inl {fuel : Nat} {b b' : β} {s s' : σ} (h : body b s = (.ok (.inl b'), s')) :
    iterate stuck body (fuel + 1) b s = iterate stuck body fuel b' s' := by
  show (body b >>= _) s = _
  rw [bind_of_ok h]

theorem iterate_of_inr {fuel : Nat} {b : β} {a : α} {s s' : σ}
    (h : body b s = (.ok (.inr a), s')) : iterate stuck body (fuel + 1) b s = (.ok a, s') := by
  show (body b >>= _) s = _
  rw [bind_of_ok h]
  rfl

theorem iterate_of_error {fuel : Nat} {b : β} {e : ε} {s s' : σ}
    (h : body b s = (.error e, s')) : iterate stuck body (fuel + 1) b s = (.error e, s') := by
  show (body b >>= _) s = _
  rw [bind_of_error h]

/-- What one pass of a loop has to establish: the invariant and a measure below `bound` if it goes
on, the postcondition if it leaves or stops. -/
def Pass (I : β → σ → Prop) (μ : σ → Nat) (Q : Except ε α → σ → Prop) (bound : Nat) :
    Except ε (β ⊕ α) → σ → Prop
  | .ok (.inl b'), s' => I b' s' ∧ μ s' < bound
  | .ok (.inr a), s' => Q (.ok a) s'
  | .error e, s' => Q (.error e) s'

/-- **The loop rule.** A loop whose passes keep `I` and make `μ` smaller ends in `Q`, and with
fuel above `μ` it never runs out of fuel. -/
theorem iterate_ends {I : β → σ → Prop} {μ : σ → Nat} {Q : Except ε α → σ → Prop}
    (pass : ∀ b s, I b s → (body b).Ends s (Pass I μ Q (μ s))) :
    ∀ (fuel : Nat) (b : β) (s : σ), μ s < fuel → I b s → (iterate stuck body fuel b).Ends s Q
  | 0, _, _, hμ, _ => absurd hμ (Nat.not_lt_zero _)
  | fuel + 1, b, s, hμ, hI => by
    rcases h : body b s with ⟨r, s'⟩
    have hp := (pass b s hI).elim h
    match r, hp with
    | .ok (.inl b'), ⟨hI', hlt⟩ =>
      unfold Ends
      rw [iterate_of_inl h]
      exact iterate_ends pass fuel b' s' (by omega) hI'
    | .ok (.inr a), hp => exact ends_of_eq (iterate_of_inr h) hp
    | .error e, hp => exact ends_of_eq (iterate_of_error h) hp

/-- What one pass has to establish of a loop that may run out of fuel. -/
def PartialPass (I : β → σ → Prop) (Q : Except ε α → σ → Prop) : Except ε (β ⊕ α) → σ → Prop
  | .ok (.inl b'), s' => I b' s'
  | .ok (.inr a), s' => Q (.ok a) s'
  | .error e, s' => Q (.error e) s'

/-- **The loop rule without a measure.** The loop ends in `Q` if that also allows it to be stuck. -/
theorem iterate_partial {I : β → σ → Prop} {Q : Except ε α → σ → Prop}
    (pass : ∀ b s, I b s → (body b).Ends s (PartialPass I Q))
    (hstuck : ∀ b s, I b s → Q (.error stuck) s) :
    ∀ (fuel : Nat) (b : β) (s : σ), I b s → (iterate stuck body fuel b).Ends s Q
  | 0, b, s, hI => hstuck b s hI
  | fuel + 1, b, s, hI => by
    rcases h : body b s with ⟨r, s'⟩
    have hp := (pass b s hI).elim h
    match r, hp with
    | .ok (.inl b'), hI' =>
      unfold Ends
      rw [iterate_of_inl h]
      exact iterate_partial pass hstuck fuel b' s' hI'
    | .ok (.inr a), hp => exact ends_of_eq (iterate_of_inr h) hp
    | .error e, hp => exact ends_of_eq (iterate_of_error h) hp

/-- There is only one pass that ends a loop: the first that does not go on. -/
theorem first_stop_unique {goesOn : Nat → Prop} {i k : Nat} (hi : ∀ j < i, goesOn j)
    (hstop : ¬ goesOn i) (hk : ∀ j < k, goesOn j) (hstop' : ¬ goesOn k) : k = i := by
  rcases Nat.lt_trichotomy k i with hlt | heq | hgt
  · exact absurd (hi k hlt) hstop'
  · exact heq
  · exact absurd (hk i hgt) hstop

/-! ## What is never lost -/

/-- However `m` ends, `I` still holds. -/
def Keeps (m : Run σ ε α) (I : σ → Prop) : Prop := ∀ s, I s → I (m s).2

theorem Keeps.pure {I : σ → Prop} (a : α) : Keeps (pure a : Run σ ε α) I := fun _ hI => hI

theorem Keeps.stop {I : σ → Prop} (e : ε) : Keeps (stop e : Run σ ε α) I := fun _ hI => hI

/-- Once `I` holds after the first part, the second one keeps it. -/
theorem Keeps.after {I : σ → Prop} {m : Run σ ε α} {f : α → Run σ ε β} {s : σ} (hm : I (m s).2)
    (hf : ∀ a, (f a).Keeps I) : I ((m >>= f) s).2 := by
  rw [bind_apply]
  rcases h : m s with ⟨r, s'⟩
  rw [h] at hm
  cases r with
  | ok a => exact hf a s' hm
  | error e => exact hm

theorem Keeps.bind {I : σ → Prop} {m : Run σ ε α} {f : α → Run σ ε β} (hm : m.Keeps I)
    (hf : ∀ a, (f a).Keeps I) : (m >>= f).Keeps I := fun s hI => Keeps.after (hm s hI) hf

theorem Keeps.iterate {I : σ → Prop} (hbody : ∀ b, (body b).Keeps I) :
    ∀ fuel b, (iterate stuck body fuel b).Keeps I
  | 0, _ => Keeps.stop stuck
  | fuel + 1, b => by
    refine Keeps.bind (hbody b) ?_
    rintro (b' | a)
    · exact Keeps.iterate hbody fuel b'
    · exact Keeps.pure a

/-! ## How a program does not end -/

/-- No run of `m` ends with the error `e`. -/
def Never (m : Run σ ε α) (e : ε) : Prop := ∀ s, (m s).1 ≠ .error e

theorem Never.pure (e : ε) (a : α) : (pure a : Run σ ε α).Never e := fun _ => nofun

theorem Never.stop {e e' : ε} (h : e' ≠ e) : (stop e' : Run σ ε α).Never e := fun _ he =>
  h (Except.error.inj he)

theorem Never.bind {e : ε} {m : Run σ ε α} {f : α → Run σ ε β} (hm : m.Never e)
    (hf : ∀ a, (f a).Never e) : (m >>= f).Never e := by
  intro s
  have hfirst := hm s
  rw [bind_apply]
  rcases h : m s with ⟨r, s'⟩
  rw [h] at hfirst
  cases r with
  | ok a => exact hf a s'
  | error e' => exact fun he => hfirst (congrArg Except.error (Except.error.inj he))

theorem Never.iterate {e : ε} (hstuck : stuck ≠ e) (hbody : ∀ b, (body b).Never e) (fuel : Nat)
    (b : β) : (iterate stuck body fuel b).Never e := fun s =>
  iterate_partial (I := fun _ _ => True) (Q := fun r _ => r ≠ .error e)
    (fun b s _ => by
      have hpass := hbody b s
      unfold Ends
      rcases h : body b s with ⟨r, s'⟩
      rw [h] at hpass
      match r, hpass with
      | .ok (.inl _), _ => exact trivial
      | .ok (.inr _), _ => exact nofun
      | .error e', hpass => exact fun he => hpass (congrArg Except.error (Except.error.inj he)))
    (fun _ _ _ he => hstuck (Except.error.inj he)) fuel b s trivial

end Run

end Nuhal.Lib
