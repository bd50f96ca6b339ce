import Hinoko.Waiting
import Hinoko.Lib.Monitor

/-!
# The threads of a waiting call

`Waiting.lean` takes the end of `fw_iso_resource_waiter_wait` for one step.  In the source it is a
loop on a condition variable, and the handler of the signal, which runs in the thread that
dispatches the events, takes the mutex of the waiter, writes to it, and signals the condition
variable; both `handled` and `error` are read when the mutex is free again.

* `atomic_of_run`: the call reports what the single step reports, behind some of the answers.
* `returns_of_run`: an answer that has been written, or the time-out, lets the call return; it is
  gone without waiting only where the request has set `*error`.
* `quiet_of_run`: which calls leave no handler behind on their stack, and which do.
-/

namespace Hinoko

open Transition Monitor

namespace Waiter

/-- A waiter as data that its thread and the handlers share; `asked` is what the request has left in
`*error`, and `expiration` is in microseconds. -/
def shared (w : Waiter) (asked : Option ResourceGError) (expiration : Nat) :
    Shared Waiter (Option ResourceGError) where
  start := w
  ready := handled
  update error w := w.handleEventSignal error
  deadline := expiration
  waits := asked = none

def expiration (now : Nat) (timeoutMs : UInt32) : Nat := now + timeoutMs.toNat * 1000

/-- The end of `fw_iso_resource_waiter_wait`, from what it finds when it has let go of the mutex. -/
def result (found : Option Waiter) (error : ErrorLocation) : Bool × ErrorLocation :=
  match found with
  | none => (false, error.set (.coded .timeout))
  | some w =>
    match w.error with
    | some e => (false, .at (some e))
    | none => (true, error)

theorem result_answer (w w' : Waiter) (asked : Option ResourceGError) (expiration : Nat)
    (error : ErrorLocation) :
    result ((w.shared asked expiration).answer w') error = w'.finish error := by
  cases hhandled : w'.handled with
  | true =>
    cases herror : w'.error <;> simp [Shared.answer, shared, hhandled, result, finish, herror]
  | false => simp [Shared.answer, shared, hhandled, result, finish]

theorem stable_shared (w : Waiter) (asked : Option ResourceGError) (expiration : Nat) :
    (w.shared asked expiration).Stable :=
  fun _ _ _ => rfl

theorem ready_after (w : Waiter) (asked : Option ResourceGError) (expiration : Nat) :
    ∀ errors : List (Option ResourceGError), errors ≠ [] →
      (w.shared asked expiration).ready ((w.shared asked expiration).after errors) = true := by
  intro errors
  induction errors using List.reverseRecOn with
  | nil => exact fun h => absurd rfl h
  | append_singleton errors error _ =>
    intro _
    rw [Shared.after, List.foldl_append]
    rfl

end Waiter

/-- The threads of a call, from `fw_iso_resource_waiter_init` on. -/
def waitRun (signal : ResourceSignal) (asked : Option ResourceGError) (now : Nat)
    (timeoutMs : UInt32) (ms : List (Monitor.Move (Option ResourceGError))) :
    State Waiter (Option ResourceGError) :=
  run (step (Waiter.shared { signal := signal } asked (Waiter.expiration now timeoutMs)))
    { now := now, data := { signal := signal } } ms

theorem inv_waitRun (signal : ResourceSignal) (asked : Option ResourceGError) (now : Nat)
    (timeoutMs : UInt32) (ms : List (Monitor.Move (Option ResourceGError))) :
    Inv (Waiter.shared { signal := signal } asked (Waiter.expiration now timeoutMs))
      (waitRun signal asked now timeoutMs ms) :=
  inv_of_run (Waiter.stable_shared _ _ _) now ms

/-! ### What the handler hears -/

/-- What an event tells a handler of the signal. -/
def ResourceEvent.tells (signal : ResourceSignal) : ResourceEvent → Option (Option ResourceGError)
  | .isoResource ev =>
    if (parseIsoResourceEvent ev).signal = signal then some (parseIsoResourceEvent ev).error
    else none
  | _ => none

variable {π : Type} [WaitCalls π]

theorem hear_handleEvent (w : Waiter) (ev : ResourceEvent) (p : π) :
    w.hear (FwIsoResource.handleEvent ev p).2 =
      ((ev.tells w.signal).toList).foldl Waiter.handleEventSignal w := by
  cases ev with
  | isoResource ev =>
    rw [FwIsoResource.handleEvent, FwIsoResource.effects_handleIsoResourceEvent, Waiter.hear,
      ResourceEvent.tells]
    split
    · rfl
    · rfl
  | busReset generation =>
    rw [FwIsoResource.handleEvent, FwIsoResource.handleBusResetEvent]
    simp only
    split <;> rfl
  | other => rfl

theorem call_run_hear : ∀ (evs : List ResourceEvent) {c : Client π}
    {call : WaitCall (WaitCalls.Op π)}, c.call = some call →
      (run Client.step c (evs.map .hear)).call = some { call with
        waiter := (evs.filterMap (·.tells call.waiter.signal)).foldl Waiter.handleEventSignal
          call.waiter } := by
  intro evs
  induction evs with
  | nil => exact fun h => h
  | cons ev evs ih =>
    intro c call hcall
    have hnext : (Client.step c (.hear ev)).call = some { call with
        waiter := call.waiter.hear (FwIsoResource.handleEvent ev c.object).2 } := by
      rw [Client.step, Client.hear, hcall]
      rfl
    rw [List.map_cons, run_cons, ih hnext, List.filterMap_cons]
    simp only [hear_handleEvent]
    cases ev.tells call.waiter.signal <;> rfl

/-! ### The call and its threads -/

/-- **The threads report what the single step reports**, behind some of the answers that have been
written; and they report the time-out only behind the end of the wait, when none had been. -/
theorem atomic_of_run (op : WaitCalls.Op π) (error : ErrorLocation)
    (asked : Option ResourceGError) (now : Nat) (timeoutMs : UInt32)
    (ms : List (Monitor.Move (Option ResourceGError))) {found : Option Waiter}
    (hreturned : (waitRun (WaitCalls.signal op) asked now timeoutMs ms).pc = .returned found) :
    ∃ told, told <+: (waitRun (WaitCalls.signal op) asked now timeoutMs ms).heard ∧
      (found = none ↔ told = []) ∧
      (found = none → Waiter.expiration now timeoutMs ≤
        (waitRun (WaitCalls.signal op) asked now timeoutMs ms).now) ∧
      ∀ (c : Client π) (evs : List ResourceEvent),
        c.call = some ⟨op, error, { signal := WaitCalls.signal op }, true⟩ →
        evs.filterMap (·.tells (WaitCalls.signal op)) = told →
        (run Client.step c (evs.map .hear ++ [.wake])).last =
          some ⟨.returned (Waiter.result found error).1,
            (Waiter.result found error).2.content⟩ := by
  have hinv := inv_waitRun (WaitCalls.signal op) asked now timeoutMs ms
  obtain ⟨told, hprefix, hfound⟩ := hinv.answer found hreturned
  refine ⟨told, hprefix, ⟨fun hnone => ?_, fun hnone => ?_⟩, fun hnone => ?_,
    fun c evs hcall hevs => ?_⟩
  · by_contra htold
    rw [hnone, Shared.answer, if_pos (Waiter.ready_after _ _ _ told htold)] at hfound
    cases hfound
  · rw [hfound, hnone]
    rfl
  · exact hinv.missed (hnone ▸ hreturned)
  · have hwaiter := call_run_hear evs hcall
    rw [hevs] at hwaiter
    rw [run_append, run_cons, run_nil, Client.step, Client.wake, hwaiter, hfound,
      Waiter.result_answer]
    rfl

def answered : List (Monitor.Move (Option ResourceGError)) :=
  [.enter, .test, .call none, .lock 0, .write, .signal, .unlock, .relock, .test, .detach, .leave,
    .look, .take]

def deallocating : Client FwIsoResourceAuto where
  object := .new
  call := some ⟨.deallocateWait none, .at none, { signal := .deallocated }, true⟩

/-- The theorem at a call that is told of a deallocation. -/
theorem atomic_answered : (run Client.step deallocating
    ([.isoResource ⟨.deallocated, 0, 0, 0⟩].map .hear ++ [.wake])).last =
      some ⟨.returned true, none⟩ := by
  obtain ⟨told, hprefix, hnone, _, hcall⟩ :=
    atomic_of_run (π := FwIsoResourceAuto) (FwIsoResourceAuto.WaitOp.deallocateWait none)
      (.at none) none 0 1 answered
      (rfl : (waitRun .deallocated none 0 1 answered).pc =
        .returned (some ⟨.deallocated, none, true⟩))
  have htold : told = [none] := by
    have hprefix' : told <+: [none] := hprefix
    rcases List.prefix_cons_iff.mp hprefix' with hnil | ⟨rest, hrest, hprefix''⟩
    · cases hnone.mpr hnil
    · rw [hrest, List.prefix_nil.mp hprefix'']
  exact hcall deallocating [.isoResource ⟨.deallocated, 0, 0, 0⟩] rfl htold.symm

/-- **The call returns**: from everywhere it is a few steps of its own, and of the handler that
holds the mutex, from its return, when an answer has been written or the time is over.  It has waited
then, unless the request has set `*error`. -/
theorem returns_of_run (signal : ResourceSignal) (asked : Option ResourceGError) (now : Nat)
    (timeoutMs : UInt32) (ms : List (Monitor.Move (Option ResourceGError)))
    (htold : (waitRun signal asked now timeoutMs ms).heard ≠ [] ∨
      Waiter.expiration now timeoutMs < (waitRun signal asked now timeoutMs ms).now) :
    ∃ ns : List (Monitor.Move (Option ResourceGError)), ns.length ≤ 10 ∧
      (∀ m ∈ ns, m.isInner = true) ∧
      (asked = none →
        ∃ found, (waitRun signal asked now timeoutMs (ms ++ ns)).pc = .returned found) ∧
      (asked ≠ none → (waitRun signal asked now timeoutMs (ms ++ ns)).pc = .abandoned) := by
  have hinv := inv_waitRun signal asked now timeoutMs ms
  obtain ⟨ns, hlen, hinner, hgone⟩ := Leaves.of_inv (Waiter.stable_shared _ _ _) hinv
    (htold.imp_left fun hne => hinv.data ▸ Waiter.ready_after _ _ _ _ hne)
  refine ⟨ns, hlen, hinner, ?_⟩
  rw [waitRun, ← run_append] at hgone
  obtain ⟨hreturns, habandons⟩ := (decided_of_run _ now (ms ++ ns)).of_gone hgone
  exact ⟨fun hasked => hreturns (decide_eq_true hasked),
    fun hasked => habandons (decide_eq_false hasked)⟩

/-- The theorem when the handler has written, and has not signalled yet. -/
theorem returns_written : ∃ ns : List (Monitor.Move (Option ResourceGError)), ns.length ≤ 10 ∧
    (∀ m ∈ ns, m.isInner = true) ∧ ∃ found, (waitRun .allocated none 0 1000
      ([.enter, .test, .call none, .lock 0, .write] ++ ns)).pc = .returned found := by
  obtain ⟨ns, hlen, hinner, hreturns, _⟩ := returns_of_run .allocated none 0 1000
    [.enter, .test, .call none, .lock 0, .write] (.inl (List.cons_ne_nil none []))
  exact ⟨ns, hlen, hinner, hreturns rfl⟩

/-- A handler has been called, but finds the time-out over. -/
def lateHandler : List (Monitor.Move (Option ResourceGError)) :=
  [.enter, .test, .tick 1000, .expire, .call none, .relock, .detach, .leave, .look, .lock 0]

/-- **A call that returns in time leaves no handler behind**, if no more than one has been called,
and no handler touches its waiter later.  One that returns with the time-out may leave a handler
behind, which then takes the mutex of a waiter that is gone. -/
theorem quiet_of_call (signal : ResourceSignal) (now : Nat) :
    (∀ (asked : Option ResourceGError) (timeoutMs : UInt32)
      (ms ns : List (Monitor.Move (Option ResourceGError))) (found : Option Waiter),
      (waitRun signal asked now timeoutMs ms).pc = .returned found →
      (waitRun signal asked now timeoutMs ms).now < Waiter.expiration now timeoutMs →
      (waitRun signal asked now timeoutMs ms).called ≤ 1 →
      (waitRun signal asked now timeoutMs (ms ++ ns)).Quiet) ∧
    ((waitRun signal none now 1 lateHandler).pc = .returned none ∧
      (waitRun signal none now 1 lateHandler).called = 1 ∧
      (waitRun signal none now 1 lateHandler).inside = some (none, .locked)) := by
  refine ⟨fun asked timeoutMs ms ns found hreturned htime hcalled => ?_, ?_⟩
  · exact quiet_of_run (Waiter.stable_shared _ _ _) rfl now hreturned htime hcalled ns
  · simp [waitRun, lateHandler, step, State.go, State.test, State.free, State.lock, State.relock,
      State.look, Waiter.shared, Waiter.expiration, Pc.holds, Pc.attached, State.called,
      State.unheard]

/-- The theorem at a call that has been answered at once. -/
theorem quiet_answered :
    (waitRun .deallocated none 0 1 (answered ++ [.tick 5000, .call none, .lock 0])).Quiet :=
  (quiet_of_call .deallocated 0).1 none 1 answered [.tick 5000, .call none, .lock 0]
    (some ⟨.deallocated, none, true⟩) rfl (by decide) (by decide)

end Hinoko
