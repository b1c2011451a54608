import Nuhal.All.ErrorCalls

/-!
# Errors within errors (`nuhal_all/src/error.c:12-42`)

Calls of `error` nest, in a handler or by interrupts. As none of them returns, a call that was
interrupted between its test of `error_called` and the assignment does not go on, so the test and
the assignment need no lock.

* `errorStep_next`, `errorStep_error`: what a step can be.
* `Once`: the invariant. What the innermost call has tested still holds.
* `next_exits`: left alone, the innermost call exits, and in between it enters the handler that its
  place says.
* **`error_handled_once`**: in whatever order the calls come, `error_handler` is entered at most
  once, then `error_handler_fatal` at most once, and the process cannot but fail.
-/

namespace Nuhal.Faults

open Nuhal.Lib Nuhal.All

variable {s s' : ErrorState} {action : ErrorAction} {call : ErrorCall} {outer : List ErrorCall}

/-! ## Steps -/

theorem errorStep_running (h : errorStep action s = some s') : s.exitStatus = none := by
  cases hexit : s.exitStatus with
  | none => rfl
  | some status =>
    unfold errorStep at h
    rw [hexit] at h
    cases h

theorem errorStep_error {fileline msg : String} (hexit : s.exitStatus = none) :
    errorStep (.error fileline msg) s =
      some { s with calls := ⟨fileline, msg, .testCalled⟩ :: s.calls } := by
  unfold errorStep
  rw [hexit]

theorem errorStep_next (hexit : s.exitStatus = none) (hcalls : s.calls = call :: outer) :
    errorStep .next s = some (errorNext s call outer) := by
  unfold errorStep
  rw [hexit, hcalls]

/-- A step is a new call, or one of the innermost call. -/
theorem errorStep_cases (h : errorStep action s = some s') :
    (∃ fileline msg, s' = { s with calls := ⟨fileline, msg, .testCalled⟩ :: s.calls }) ∨
      ∃ call outer, s.calls = call :: outer ∧ s' = errorNext s call outer := by
  have hexit := errorStep_running h
  cases action with
  | error fileline msg =>
    rw [errorStep_error hexit] at h
    exact .inl ⟨fileline, msg, (Option.some.inj h).symm⟩
  | next =>
    cases hcalls : s.calls with
    | nil =>
      unfold errorStep at h
      rw [hexit, hcalls] at h
      cases h
    | cons call outer =>
      rw [errorStep_next hexit hcalls] at h
      exact .inr ⟨call, outer, rfl, (Option.some.inj h).symm⟩

/-- Of the calls, a step changes at most where the innermost one is. -/
theorem errorNext_calls (s : ErrorState) (call : ErrorCall) (outer : List ErrorCall)
    (hcalls : s.calls = call :: outer) :
    (errorNext s call outer).calls.map ErrorCall.told = s.calls.map ErrorCall.told := by
  rw [hcalls]
  unfold errorNext
  split <;> first | rfl | rw [hcalls]

/-! ## The invariant -/

/-- The handlers that were entered. -/
def entered (s : ErrorState) : List ErrorHandler := s.handled.map Prod.fst

/-- What the flags say when a call is about to do what it does next, and what was handled. -/
def Tested (s : ErrorState) : ErrorPlace → Prop
  | .testCalled => True
  | .setCalled => s.handled = []
  | .enterHandler => s.errorCalled = true ∧ s.handled = []
  | .inHandler => s.errorCalled = true
  | .testFatalCalled => s.errorCalled = true
  | .setFatalCalled => s.errorCalled = true ∧ (entered s).Sublist [.errorHandler]
  | .enterHandlerFatal =>
    s.errorCalled = true ∧ s.fatalErrorCalled = true ∧ (entered s).Sublist [.errorHandler]
  | .inHandlerFatal => s.errorCalled = true
  | .exit => s.errorCalled = true

/-- **The invariant**: each handler was entered at most once, the flags are set before, the handlers
were told of calls that were made, and what the innermost call has tested still holds. -/
structure Once (s : ErrorState) : Prop where
  order : (entered s).Sublist [.errorHandler, .errorHandlerFatal]
  called : s.errorCalled = false → s.handled = []
  fatal : s.fatalErrorCalled = false → (entered s).Sublist [.errorHandler]
  told : ∀ entry ∈ s.handled, entry.2 ∈ s.calls.map ErrorCall.told
  status : s.exitStatus = none ∨ s.exitStatus = some exitFailure
  tested : ∀ call outer, s.calls = call :: outer → Tested s call.place

theorem noError_once : Once noError where
  order := List.nil_sublist _
  called _ := rfl
  fatal _ := List.nil_sublist _
  told := nofun
  status := .inl rfl
  tested := nofun

theorem Once.error (h : Once s) (fileline msg : String) :
    Once { s with calls := ⟨fileline, msg, .testCalled⟩ :: s.calls } where
  order := h.order
  called := h.called
  fatal := h.fatal
  told entry hentry := List.mem_cons_of_mem _ (h.told entry hentry)
  status := h.status
  tested := by
    rintro call outer hcalls
    cases hcalls
    trivial

theorem Once.told_inner (h : Once s) (hcalls : s.calls = call :: outer) {place : ErrorPlace} :
    ∀ entry ∈ s.handled, entry.2 ∈ ({ call with place } :: outer).map ErrorCall.told := by
  intro entry hentry
  have hmem := h.told entry hentry
  rw [hcalls] at hmem
  exact hmem

theorem Once.told_entered (h : Once s) (hcalls : s.calls = call :: outer) {place : ErrorPlace}
    (handler : ErrorHandler) : ∀ entry ∈ s.handled ++ [(handler, call.told)],
      entry.2 ∈ ({ call with place } :: outer).map ErrorCall.told := by
  intro entry hentry
  rcases List.mem_append.mp hentry with hbefore | hnow
  · exact h.told_inner hcalls entry hbefore
  · cases List.mem_singleton.mp hnow
    exact List.mem_cons_self

/-- The innermost call goes on to where it has tested what it needs. -/
theorem Once.goTo (h : Once s) (hcalls : s.calls = call :: outer) {place : ErrorPlace}
    (htested : Tested s place) : Once (s.goTo call outer place) where
  order := h.order
  called := h.called
  fatal := h.fatal
  told := h.told_inner hcalls
  status := h.status
  tested := by
    rintro call' outer' heq
    cases heq
    cases place <;> exact htested

theorem Once.setCalled (h : Once s) (hcalls : s.calls = call :: outer) (hnone : s.handled = []) :
    Once { s.goTo call outer .enterHandler with errorCalled := true } where
  order := h.order
  called := nofun
  fatal := h.fatal
  told := h.told_inner hcalls
  status := h.status
  tested := by
    rintro call' outer' heq
    cases heq
    exact ⟨rfl, hnone⟩

theorem Once.setFatalCalled (h : Once s) (hcalls : s.calls = call :: outer)
    (hcalled : s.errorCalled = true) (honly : (entered s).Sublist [.errorHandler]) :
    Once { s.goTo call outer .enterHandlerFatal with fatalErrorCalled := true } where
  order := h.order
  called := h.called
  fatal := nofun
  told := h.told_inner hcalls
  status := h.status
  tested := by
    rintro call' outer' heq
    cases heq
    exact ⟨hcalled, rfl, honly⟩

theorem entered_append (handler : ErrorHandler) (told : String × String) :
    (s.handled ++ [(handler, told)]).map Prod.fst = entered s ++ [handler] :=
  List.map_append

theorem Once.enterHandler (h : Once s) (hcalls : s.calls = call :: outer)
    (hcalled : s.errorCalled = true) (hnone : s.handled = []) :
    Once { s.goTo call outer .inHandler with
      handled := s.handled ++ [(.errorHandler, call.told)] } where
  order := by
    show ((s.handled ++ [(ErrorHandler.errorHandler, call.told)]).map Prod.fst).Sublist _
    rw [hnone]
    exact List.singleton_sublist.mpr List.mem_cons_self
  called hno := absurd (hno.symm.trans hcalled) nofun
  fatal _ := by
    show ((s.handled ++ [(ErrorHandler.errorHandler, call.told)]).map Prod.fst).Sublist _
    rw [hnone]
    exact List.Sublist.refl _
  told := h.told_entered hcalls .errorHandler
  status := h.status
  tested := by
    rintro call' outer' heq
    cases heq
    exact hcalled

theorem Once.enterHandlerFatal (h : Once s) (hcalls : s.calls = call :: outer)
    (hcalled : s.errorCalled = true) (hfatal : s.fatalErrorCalled = true)
    (honly : (entered s).Sublist [.errorHandler]) :
    Once { s.goTo call outer .inHandlerFatal with
      handled := s.handled ++ [(.errorHandlerFatal, call.told)] } where
  order := by
    show ((s.handled ++ [(ErrorHandler.errorHandlerFatal, call.told)]).map Prod.fst).Sublist _
    rw [entered_append]
    exact honly.append (List.Sublist.refl [ErrorHandler.errorHandlerFatal])
  called hno := absurd (hno.symm.trans hcalled) nofun
  fatal hno := absurd (hno.symm.trans hfatal) nofun
  told := h.told_entered hcalls .errorHandlerFatal
  status := h.status
  tested := by
    rintro call' outer' heq
    cases heq
    exact hcalled

theorem Once.exit (h : Once s) : Once { s with exitStatus := some exitFailure } where
  order := h.order
  called := h.called
  fatal := h.fatal
  told := h.told
  status := .inr rfl
  tested call outer hcalls := by
    have htested := h.tested call outer hcalls
    generalize call.place = place at htested ⊢
    cases place <;> exact htested

theorem Once.next (h : Once s) (hcalls : s.calls = call :: outer) :
    Once (errorNext s call outer) := by
  have htested := h.tested call outer hcalls
  unfold errorNext
  cases hplace : call.place <;> rw [hplace] at htested
  case testCalled =>
    refine h.goTo hcalls ?_
    cases hcalled : s.errorCalled with
    | true => exact hcalled
    | false => exact h.called hcalled
  case setCalled => exact h.setCalled hcalls htested
  case enterHandler => exact h.enterHandler hcalls htested.1 htested.2
  case inHandler => exact h.goTo hcalls htested
  case testFatalCalled =>
    refine h.goTo hcalls ?_
    cases hfatal : s.fatalErrorCalled with
    | true => exact htested
    | false => exact ⟨htested, h.fatal hfatal⟩
  case setFatalCalled => exact h.setFatalCalled hcalls htested.1 htested.2
  case enterHandlerFatal =>
    exact h.enterHandlerFatal hcalls htested.1 htested.2.1 htested.2.2
  case inHandlerFatal => exact h.goTo hcalls htested
  case exit => exact h.exit

theorem Once.step (hstep : errorStep action s = some s') (h : Once s) : Once s' := by
  rcases errorStep_cases hstep with ⟨fileline, msg, rfl⟩ | ⟨call, outer, hcalls, rfl⟩
  · exact h.error fileline msg
  · exact h.next hcalls

/-! ## What does not come back -/

/-- From `s` to `s'` no call returned, no handler's entry was undone, and an error stays pending. -/
structure Onwards (s s' : ErrorState) : Prop where
  calls : s.calls.map ErrorCall.told <:+ s'.calls.map ErrorCall.told
  handled : s.handled <+: s'.handled
  pending : errorPending s = true → errorPending s' = true

theorem Onwards.refl (s : ErrorState) : Onwards s s :=
  ⟨List.suffix_refl _, List.prefix_refl _, id⟩

theorem Onwards.trans {s₁ s₂ s₃ : ErrorState} (h₁ : Onwards s₁ s₂) (h₂ : Onwards s₂ s₃) :
    Onwards s₁ s₃ :=
  ⟨h₁.calls.trans h₂.calls, h₁.handled.trans h₂.handled, fun h => h₂.pending (h₁.pending h)⟩

theorem Onwards.step (h : errorStep action s = some s') : Onwards s s' := by
  rcases errorStep_cases h with ⟨fileline, msg, rfl⟩ | ⟨call, outer, hcalls, rfl⟩
  · exact ⟨List.suffix_cons _ _, List.prefix_refl _, id⟩
  · have hsame := errorNext_calls s call outer hcalls
    refine ⟨hsame ▸ List.suffix_refl _, ?_, ?_⟩
    all_goals unfold errorNext
    · split <;> first | exact List.prefix_refl _ | exact List.prefix_append _ _
    · split <;> first | exact id | exact fun _ => rfl

/-! ## A call that is left alone -/

/-- The handlers that a call will still enter. -/
def stillEnters (s : ErrorState) : ErrorPlace → List ErrorHandler
  | .testCalled =>
    if s.errorCalled then
      if s.fatalErrorCalled then [] else [.errorHandlerFatal]
    else [.errorHandler]
  | .setCalled | .enterHandler => [.errorHandler]
  | .testFatalCalled => if s.fatalErrorCalled then [] else [.errorHandlerFatal]
  | .setFatalCalled | .enterHandlerFatal => [.errorHandlerFatal]
  | .inHandler | .inHandlerFatal | .exit => []

/-- The number of its steps. -/
def stepsLeft : ErrorPlace → Nat
  | .testCalled => 6
  | .testFatalCalled => 5
  | .setCalled | .setFatalCalled => 4
  | .enterHandler | .enterHandlerFatal => 3
  | .inHandler | .inHandlerFatal => 2
  | .exit => 1

/-- A step of the call brings it nearer to the exit, and what it handles is what it was to. -/
theorem errorNext_nearer (s : ErrorState) (call : ErrorCall) (outer : List ErrorCall)
    (hplace : call.place ≠ .exit) :
    ∃ place, (errorNext s call outer).calls = { call with place } :: outer ∧
      (errorNext s call outer).exitStatus = s.exitStatus ∧ stepsLeft place < stepsLeft call.place ∧
      (errorNext s call outer).handled ++
          (stillEnters (errorNext s call outer) place).map (·, call.told) =
        s.handled ++ (stillEnters s call.place).map (·, call.told) := by
  unfold errorNext
  cases hat : call.place
  case exit => exact absurd hat hplace
  case testCalled =>
    refine ⟨_, rfl, rfl, ?_, ?_⟩ <;> cases hcalled : s.errorCalled <;>
      simp [stepsLeft, stillEnters, ErrorState.goTo, hcalled]
  case testFatalCalled =>
    refine ⟨_, rfl, rfl, ?_, ?_⟩ <;> cases hfatal : s.fatalErrorCalled <;>
      simp [stepsLeft, stillEnters, ErrorState.goTo, hfatal]
  all_goals exact ⟨_, rfl, rfl, by simp [stepsLeft], by simp [stillEnters, ErrorState.goTo]⟩

/-- **Left alone, the innermost call exits.** -/
theorem next_exits (hexit : s.exitStatus = none) (hcalls : s.calls = call :: outer) :
    ∃ steps ≤ stepsLeft call.place, ∃ s',
      run errorStep (List.replicate steps .next) s = some s' ∧
      s'.exitStatus = some exitFailure ∧
      s'.handled = s.handled ++ (stillEnters s call.place).map (·, call.told) := by
  induction hleft : stepsLeft call.place using Nat.strongRecOn generalizing s call with
  | ind left ih =>
    subst hleft
    have hstep := errorStep_next hexit hcalls
    by_cases hplace : call.place = .exit
    · refine ⟨1, Nat.le_of_eq (by rw [hplace]; rfl), _, run_cons.mpr ⟨_, hstep, rfl⟩, ?_, ?_⟩ <;>
        simp [errorNext, hplace, stillEnters]
    · obtain ⟨place, hcalls', hexit', hless, hhandled⟩ := errorNext_nearer s call outer hplace
      obtain ⟨steps, hle, s', hrun, hstatus, hdone⟩ :=
        ih _ hless (hexit'.trans hexit) hcalls' rfl
      refine ⟨steps + 1, by omega, s', run_cons.mpr ⟨_, hstep, hrun⟩, hstatus, ?_⟩
      exact hdone.trans hhandled

/-! ## Every order of calls -/

theorem stepsLeft_le (place : ErrorPlace) : stepsLeft place ≤ 6 := by
  cases place <;> decide

/-- **Errors are handled once.** Whenever `error` is called, by the program, by its handlers or by
interrupts in between: each handler is entered at most once, `error_handler` before
`error_handler_fatal`, it is told of a call that was made, and the error is pending by then. No call
returns, and the process exits with nothing but a failure; it does so in six steps of the innermost
call, if no other call comes and the handler returns. -/
theorem error_handled_once (actions : List ErrorAction) (s : ErrorState)
    (hrun : run errorStep actions noError = some s) :
    (entered s).Sublist [.errorHandler, .errorHandlerFatal] ∧
      (∀ entry ∈ s.handled, entry.2 ∈ s.calls.map ErrorCall.told ∧ errorPending s = true) ∧
      (s.exitStatus = none ∨ s.exitStatus = some exitFailure) ∧
      (∀ later s', run errorStep later s = some s' → Onwards s s') ∧
      ∀ call outer, s.calls = call :: outer → s.exitStatus = none → ∃ steps ≤ 6, ∃ s',
        run errorStep (List.replicate steps .next) s = some s' ∧
        s'.exitStatus = some exitFailure ∧
        s'.handled = s.handled ++ (stillEnters s call.place).map (·, call.told) := by
  have honce : Once s := run_invariant (fun _ _ _ => Once.step) hrun noError_once
  refine ⟨honce.order, fun entry hentry => ⟨honce.told entry hentry, ?_⟩, honce.status, ?_, ?_⟩
  · cases hcalled : s.errorCalled with
    | true => exact hcalled
    | false =>
      rw [honce.called hcalled] at hentry
      cases hentry
  · intro later s' hlater
    exact run_invariant (fun _ _ _ hstep h => Onwards.trans h (Onwards.step hstep)) hlater
      (Onwards.refl s)
  · intro call outer hcalls hexit
    obtain ⟨steps, hle, hexits⟩ := next_exits hexit hcalls
    exact ⟨steps, Nat.le_trans hle (stepsLeft_le _), hexits⟩

/-- A call is interrupted between its test and the assignment, by a call whose handler makes one
more. -/
def interrupted : List ErrorAction :=
  [.error "uart.c:30" "Timeout", .next, .error "queue.c:83" "Queue full", .next, .next, .next,
    .error "led.c:40" "NULL ptr", .next, .next, .next, .next]

theorem error_handled_once_interrupted :
    ∃ s, run errorStep interrupted noError = some s ∧
      s.handled = [(.errorHandler, "queue.c:83", "Queue full"),
        (.errorHandlerFatal, "led.c:40", "NULL ptr")] ∧
      ∃ steps ≤ 6, ∃ s', run errorStep (List.replicate steps .next) s = some s' ∧
        s'.exitStatus = some exitFailure ∧ s'.handled = s.handled ++ [] :=
  ⟨_, rfl, rfl, (error_handled_once interrupted _ rfl).2.2.2.2 _ _ rfl rfl⟩

end Nuhal.Faults
