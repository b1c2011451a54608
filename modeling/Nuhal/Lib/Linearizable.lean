import Mathlib.Data.List.Infix
import Mathlib.Logic.Function.Basic

/-!
# Linearizability

Threads call an object. What can be seen of their calls is a history: when each call begins
(`invoke`) and when it ends, and with which answer (`respond`). The history is `Linearizable` with
respect to a specification of the object when the calls can be put in one order, one after the
other, in which the specification allows every answer that was given, and which agrees with the
history:

* a thread's calls are in the order in which the thread made them, and got the answers that they
  get in that order;
* a call that ended before another one began comes before it. This is said of every beginning of the
  history: the calls that have ended in it are among the first of the order, and these are all calls
  that have begun in it.

A program shows that its histories are linearizable by naming, while it runs, the moment at which a
call takes effect. `Linearized` is what it keeps, with the `Phase` of each thread: `invoke`, `act`
(the effect) and `respond` are the three ways on.
-/

namespace Nuhal.Lib

variable {ι κ α τ : Type}

/-- What can be seen of a call. -/
inductive Event (κ α : Type) where
  | invoke (call : κ)
  | respond (answer : α)
  deriving Repr, DecidableEq

/-- The calls that a specification allows one after the other, each with its thread and answer, and
the object's values before and after them. -/
inductive Legal (spec : κ → τ → α → τ → Prop) (t : τ) : List (ι × κ × α) → τ → Prop where
  | nil : Legal spec t [] t
  | snoc {order : List (ι × κ × α)} {t₁ t₂ : τ} {i : ι} {call : κ} {answer : α} :
    Legal spec t order t₁ → spec call t₁ answer t₂ →
      Legal spec t (order ++ [(i, call, answer)]) t₂

section Histories

variable [DecidableEq ι]

/-- The calls that thread `i` has begun. -/
def invoked (i : ι) (history : List (ι × Event κ α)) : List κ :=
  history.filterMap fun
    | (j, .invoke call) => if j = i then some call else none
    | (_, .respond _) => none

/-- The answers that thread `i` has got. -/
def responded (i : ι) (history : List (ι × Event κ α)) : List α :=
  history.filterMap fun
    | (_, .invoke _) => none
    | (j, .respond answer) => if j = i then some answer else none

/-- The calls of thread `i` in an order of all calls. -/
def callsOf (i : ι) (order : List (ι × κ × α)) : List (κ × α) :=
  order.filterMap fun (j, call) => if j = i then some call else none

/-- Of each thread, what has ended in the history is in the order, and what is in the order has
begun. -/
def Between (history : List (ι × Event κ α)) (order : List (ι × κ × α)) : Prop :=
  ∀ i, responded i history <+: (callsOf i order).map Prod.snd ∧
    (callsOf i order).map Prod.fst <+: invoked i history

/-- Where a thread is: between two calls, in a call that has not taken effect, or in one that
has. -/
inductive Phase (κ α : Type) where
  | idle
  | called (call : κ)
  | answered (answer : α)
  deriving Repr, DecidableEq

/-- What a thread at a phase has begun and got, and which of it is in the order. -/
def Phase.At (begun : List κ) (got : List α) (calls : List (κ × α)) : Phase κ α → Prop
  | .idle => calls.map Prod.fst = begun ∧ calls.map Prod.snd = got
  | .called call => calls.map Prod.fst ++ [call] = begun ∧ calls.map Prod.snd = got
  | .answered answer => calls.map Prod.fst = begun ∧ calls.map Prod.snd = got ++ [answer]

theorem Phase.At.between {begun : List κ} {got : List α} {calls : List (κ × α)} {phase : Phase κ α}
    (h : phase.At begun got calls) :
    got <+: calls.map Prod.snd ∧ calls.map Prod.fst <+: begun := by
  cases phase with
  | idle => exact ⟨h.2 ▸ List.prefix_rfl, h.1 ▸ List.prefix_rfl⟩
  | called call => exact ⟨h.2 ▸ List.prefix_rfl, h.1 ▸ List.prefix_append _ _⟩
  | answered answer => exact ⟨h.2 ▸ List.prefix_append _ _, h.1 ▸ List.prefix_rfl⟩

/-- The order so far, with a place in it for every beginning of the history. -/
def Linearized (spec : κ → τ → α → τ → Prop) (t : τ) (phase : ι → Phase κ α)
    (history : List (ι × Event κ α)) (t' : τ) : Prop :=
  ∃ order : List (ι × κ × α), Legal spec t order t' ∧
    (∀ before, before <+: history → ∃ first, first <+: order ∧ Between before first) ∧
    ∀ i, (phase i).At (invoked i history) (responded i history) (callsOf i order)

variable {spec : κ → τ → α → τ → Prop} {t t' : τ} {phase : ι → Phase κ α}
  {history : List (ι × Event κ α)} {i : ι} {call : κ} {answer : α}

/-- Nobody has called. -/
theorem Linearized.start : Linearized spec t (fun _ : ι => .idle) [] t := by
  refine ⟨[], .nil, ?_, fun i => ⟨rfl, rfl⟩⟩
  intro before hbefore
  obtain rfl := List.prefix_nil.mp hbefore
  exact ⟨[], List.prefix_rfl, fun i => ⟨List.prefix_rfl, List.prefix_rfl⟩⟩

theorem invoked_append (history more : List (ι × Event κ α)) :
    invoked i (history ++ more) = invoked i history ++ invoked i more :=
  List.filterMap_append

theorem responded_append (history more : List (ι × Event κ α)) :
    responded i (history ++ more) = responded i history ++ responded i more :=
  List.filterMap_append

theorem callsOf_append (order more : List (ι × κ × α)) :
    callsOf i (order ++ more) = callsOf i order ++ callsOf i more :=
  List.filterMap_append

/-- The history goes on, the order does not. -/
theorem places_snoc {order : List (ι × κ × α)} {e : ι × Event κ α}
    (h : ∀ before, before <+: history → ∃ first, first <+: order ∧ Between before first)
    (hat : Between (history ++ [e]) order) :
    ∀ before, before <+: history ++ [e] → ∃ first, first <+: order ∧ Between before first := by
  intro before hbefore
  rcases List.prefix_concat_iff.mp hbefore with rfl | hbefore
  · exact ⟨order, List.prefix_rfl, hat⟩
  · exact h before hbefore

/-- **A call begins.** -/
theorem Linearized.invoke (h : Linearized spec t phase history t') (hphase : phase i = .idle)
    (call : κ) :
    Linearized spec t (Function.update phase i (.called call))
      (history ++ [(i, .invoke call)]) t' := by
  obtain ⟨order, hlegal, hplaces, hat⟩ := h
  have hat' : ∀ j, (Function.update phase i (.called call) j).At
      (invoked j (history ++ [(i, .invoke call)]))
      (responded j (history ++ [(i, .invoke call)])) (callsOf j order) := by
    intro j
    rw [invoked_append, responded_append]
    by_cases hj : j = i
    · subst hj
      have hidle := hat j
      rw [hphase] at hidle
      rw [Function.update_self]
      simp [Phase.At, invoked, responded, hidle.1, hidle.2]
    · rw [Function.update_of_ne hj]
      simpa [invoked, responded, Ne.symm hj] using hat j
  exact ⟨order, hlegal, places_snoc hplaces fun j => (hat' j).between, hat'⟩

/-- **A call takes effect.** -/
theorem Linearized.act {t'' : τ} (h : Linearized spec t phase history t')
    (hphase : phase i = .called call) (hspec : spec call t' answer t'') :
    Linearized spec t (Function.update phase i (.answered answer)) history t'' := by
  obtain ⟨order, hlegal, hplaces, hat⟩ := h
  refine ⟨order ++ [(i, call, answer)], hlegal.snoc hspec, ?_, ?_⟩
  · intro before hbefore
    obtain ⟨first, hfirst, hbetween⟩ := hplaces before hbefore
    exact ⟨first, hfirst.trans (List.prefix_append _ _), hbetween⟩
  · intro j
    rw [callsOf_append]
    by_cases hj : j = i
    · subst hj
      have hcalled := hat j
      rw [hphase] at hcalled
      rw [Function.update_self]
      simp [Phase.At, callsOf, ← hcalled.1, ← hcalled.2]
    · rw [Function.update_of_ne hj]
      simpa [callsOf, Ne.symm hj] using hat j

/-- **A call ends.** -/
theorem Linearized.respond (h : Linearized spec t phase history t')
    (hphase : phase i = .answered answer) :
    Linearized spec t (Function.update phase i .idle)
      (history ++ [(i, .respond answer)]) t' := by
  obtain ⟨order, hlegal, hplaces, hat⟩ := h
  have hat' : ∀ j, (Function.update phase i .idle j).At
      (invoked j (history ++ [(i, .respond answer)]))
      (responded j (history ++ [(i, .respond answer)])) (callsOf j order) := by
    intro j
    rw [invoked_append, responded_append]
    by_cases hj : j = i
    · subst hj
      have hanswered := hat j
      rw [hphase] at hanswered
      rw [Function.update_self]
      simp [Phase.At, invoked, responded, hanswered.1, hanswered.2]
    · rw [Function.update_of_ne hj]
      simpa [invoked, responded, Ne.symm hj] using hat j
  exact ⟨order, hlegal, places_snoc hplaces fun j => (hat' j).between, hat'⟩

end Histories

end Nuhal.Lib
