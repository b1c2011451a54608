import Nuhal.Lib.Run

/-!
# Simulation of a specification

A component offers a set of calls `κ`. Its program makes a call on a state `σ` and answers with an
`α`; its specification says what the answer should be, on an abstract state `τ`. When one call of
the program is a step of the specification along a relation between the states (`Simulates`), so is
every sequence of calls: same answers, and related states at the end (`Simulates.calls`).

Where the specification leaves some answers open it is a relation, and `Permits` says that it allows
a series of calls and answers. `Implements.calls` is the same step from one call to every sequence.
-/

namespace Nuhal.Lib

variable {σ τ ε κ α : Type}

/-- Make the calls one after the other, and collect the answers. -/
def callAll (call : κ → Run σ ε α) : List κ → Run σ ε (List α)
  | [] => pure []
  | k :: rest => do
    let a ← call k
    let answers ← callAll call rest
    return a :: answers

theorem callAll_cons {call : κ → Run σ ε α} {k : κ} {s s' : σ} {a : α}
    (h : call k s = (.ok a, s')) (rest : List κ) :
    callAll call (k :: rest) s =
      ((callAll call rest s').1.map (a :: ·), (callAll call rest s').2) := by
  show (call k >>= fun a => callAll call rest >>= fun answers => pure (a :: answers)) s = _
  rw [Run.bind_of_ok h, Run.bind_apply]
  rcases callAll call rest s' with ⟨e | answers, s''⟩ <;> rfl

/-- The answers that the specification asks for, and the abstract state after them. -/
def specAll (spec : κ → τ → α × τ) : List κ → τ → List α × τ
  | [], t => ([], t)
  | k :: rest, t =>
    ((spec k t).1 :: (specAll spec rest (spec k t).2).1, (specAll spec rest (spec k t).2).2)

/-- A call that is `Fit` answers as specified, and related states stay related. -/
def Simulates (R : σ → τ → Prop) (Fit : κ → Prop) (call : κ → Run σ ε α)
    (spec : κ → τ → α × τ) : Prop :=
  ∀ k s t, Fit k → R s t → ∃ s', call k s = (.ok (spec k t).1, s') ∧ R s' (spec k t).2

/-- **From one call to every sequence of calls.** -/
theorem Simulates.calls {R : σ → τ → Prop} {Fit : κ → Prop} {call : κ → Run σ ε α}
    {spec : κ → τ → α × τ} (h : Simulates R Fit call spec) {calls : List κ} {s : σ} {t : τ}
    (hfit : ∀ k ∈ calls, Fit k) (hR : R s t) :
    ∃ s', callAll call calls s = (.ok (specAll spec calls t).1, s') ∧
      R s' (specAll spec calls t).2 := by
  induction calls generalizing s t with
  | nil => exact ⟨s, rfl, hR⟩
  | cons k rest ih =>
    obtain ⟨s₁, hcall, hR₁⟩ := h k s t (hfit k List.mem_cons_self) hR
    obtain ⟨s₂, hrest, hR₂⟩ := ih (fun k' hk' => hfit k' (List.mem_cons_of_mem k hk')) hR₁
    refine ⟨s₂, ?_, hR₂⟩
    unfold callAll
    rw [Run.bind_of_ok hcall, Run.bind_of_ok hrest]
    rfl

/-! ## Specifications that leave answers open -/

/-- The calls may be answered so, one after the other, and leave that state. -/
inductive Permits (spec : κ → τ → α → τ → Prop) : τ → List κ → List α → τ → Prop where
  | nil (t : τ) : Permits spec t [] [] t
  | cons {k : κ} {a : α} {calls : List κ} {answers : List α} {t t' t'' : τ} :
    spec k t a t' → Permits spec t' calls answers t'' →
      Permits spec t (k :: calls) (a :: answers) t''

/-- A call that is `Fit` is answered as the specification allows, and related states stay
related. -/
def Implements (R : σ → τ → Prop) (Fit : κ → Prop) (call : κ → Run σ ε α)
    (spec : κ → τ → α → τ → Prop) : Prop :=
  ∀ k s t, Fit k → R s t → ∃ a s' t', call k s = (.ok a, s') ∧ spec k t a t' ∧ R s' t'

/-- **From one call to every sequence of calls.** -/
theorem Implements.calls {R : σ → τ → Prop} {Fit : κ → Prop} {call : κ → Run σ ε α}
    {spec : κ → τ → α → τ → Prop} (h : Implements R Fit call spec) {calls : List κ} {s : σ} {t : τ}
    (hfit : ∀ k ∈ calls, Fit k) (hR : R s t) :
    ∃ answers s' t', callAll call calls s = (.ok answers, s') ∧
      Permits spec t calls answers t' ∧ R s' t' := by
  induction calls generalizing s t with
  | nil => exact ⟨[], s, t, rfl, .nil t, hR⟩
  | cons k rest ih =>
    obtain ⟨a, s₁, t₁, hcall, hspec, hR₁⟩ := h k s t (hfit k List.mem_cons_self) hR
    obtain ⟨answers, s₂, t₂, hrest, hpermits, hR₂⟩ :=
      ih (fun k' hk' => hfit k' (List.mem_cons_of_mem k hk')) hR₁
    refine ⟨a :: answers, s₂, t₂, ?_, .cons hspec hpermits, hR₂⟩
    unfold callAll
    rw [Run.bind_of_ok hcall, Run.bind_of_ok hrest]
    rfl

end Nuhal.Lib
