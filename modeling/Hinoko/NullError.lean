import Hinoko.Waiting

/-!
# Calls without a place for the error

Every public function of a resource admits `error == NULL`.  Below, what comes of the same
call with `NULL` and with a location: the functions further in do not all admit it, and
the waiter reads `*error`.

* `sameSource_iff`: creating a source without a location fails where it would not have to.
* `sameWait_iff`: a call that waits crashes once it has got past its own checks.
* `sameWithNull_iff`: both, for the functions of the two kinds.
-/

namespace Hinoko

open Transition

/-! ### Creating a source -/

/-- A source is created with and without a location for the error, to the same end. -/
def SameSource {π : Type} [FwIsoResource π] (p : π) (source : Bool) (getInfo : Except Nat UInt32) :
    Prop :=
  let o := FwIsoResource.createSource p source getInfo .null
  let o' := FwIsoResource.createSource p source getInfo (.at none)
  o.state = o'.state ∧ ∃ result, o.ret = .returned result ∧ o'.ret = .returned result

theorem createSource_null {π : Type} [FwIsoResource π] (p : π) (getInfo : Except Nat UInt32) :
    FwIsoResource.createSource p true getInfo .null =
      ⟨FwIsoResource.setState p (FwIsoResource.state p), .returned false, .null, []⟩ := by
  simp [FwIsoResource.createSource, FwIsoResource.createSourceOf, FwIsoResourceState.createSource,
    ErrorLocation.admits]

theorem sameSource_iff {π : Type} [FwIsoResource π] (p : π) (source : Bool)
    (getInfo : Except Nat UInt32) : SameSource p source getInfo ↔
      source = false ∨ (FwIsoResource.state p).fd < 0 ∨ ∃ errno, getInfo = .error errno := by
  cases source with
  | false =>
    refine iff_of_true ⟨rfl, false, rfl, rfl⟩ (.inl rfl)
  | true =>
    rw [SameSource, createSource_null]
    by_cases hfd : (FwIsoResource.state p).fd < 0
    · refine iff_of_true ⟨?_, false, rfl, ?_⟩ (.inr (.inl hfd)) <;>
        simp [FwIsoResource.createSource, FwIsoResource.createSourceOf,
          FwIsoResourceState.createSource, ErrorLocation.admits, hfd]
    · cases getInfo with
      | error errno =>
        refine iff_of_true ⟨?_, false, rfl, ?_⟩ (.inr (.inr ⟨errno, rfl⟩)) <;>
          simp [FwIsoResource.createSource, FwIsoResource.createSourceOf,
            FwIsoResourceState.createSource, FwIsoResourceState.cacheBusState, ErrorLocation.admits,
            hfd]
      | ok generation =>
        have hret : (FwIsoResource.createSource p true (.ok generation) (.at none)).ret =
            .returned true := by
          simp [FwIsoResource.createSource, FwIsoResource.createSourceOf,
            FwIsoResourceState.createSource, FwIsoResourceState.cacheBusState, ErrorLocation.admits,
            hfd]
        refine iff_of_false ?_ ?_
        · rintro ⟨_, result, hnull, hlocation⟩
          rw [hret] at hlocation
          cases hnull
          cases hlocation
        · rintro (h | h | ⟨errno, h⟩)
          · cases h
          · exact hfd h
          · cases h

/-! ### Waiting -/

section

variable {π : Type} [WaitCalls π]

/-- A waiting call from its beginning to its end, with the events that are handled before and after
its request. -/
def waitingCall (op : WaitCalls.Op π) (error : ErrorLocation) (before after : List ResourceEvent) :
    List (ClientMove (WaitCalls.Op π)) :=
  .begin op error :: (before.map .hear ++ .ask :: (after.map .hear ++ [.wake]))

/-- A waiting call comes to the same end with and without a location for the error. -/
def SameWait (p : π) (op : WaitCalls.Op π) (before after : List ResourceEvent) : Prop :=
  let c := run Client.step ⟨p, none, none⟩ (waitingCall op .null before after)
  let c' := run Client.step ⟨p, none, none⟩ (waitingCall op (.at none) before after)
  c.object = c'.object ∧ ∃ result, c.last.map Returned.ret = some (.returned result) ∧
    c'.last.map Returned.ret = some (.returned result)

/-- While events are handled, a call goes on, and what the last one came back with stays. -/
theorem run_hear : ∀ (evs : List ResourceEvent) (c : Client π),
    let c' := run Client.step c (evs.map .hear)
    c'.last = c.last ∧ (c.call = none → c'.call = none) ∧
      ∀ call, c.call = some call → ∃ w, c'.call = some { call with waiter := w } := by
  intro evs
  induction evs with
  | nil => exact fun c => ⟨rfl, id, fun call hcall => ⟨call.waiter, hcall⟩⟩
  | cons ev evs ih =>
    intro c
    obtain ⟨hlast, hnone, hsome⟩ := ih (c.hear ev)
    refine ⟨hlast, fun hcall => hnone ?_, fun call hcall => ?_⟩
    · simp only [Client.hear, hcall, Option.map_none]
    · obtain ⟨w, hw⟩ := hsome { call with
        waiter := call.waiter.hear (FwIsoResource.handleEvent ev c.object).2 } (by
          simp only [Client.hear, hcall, Option.map_some])
      exact ⟨w, hw⟩

theorem last_refused (p : π) {op : WaitCalls.Op π} (hop : WaitCalls.accepts op = false)
    (error : ErrorLocation) (before after : List ResourceEvent) :
    run Client.step ⟨p, none, none⟩ (waitingCall op error before after) =
      run Client.step ⟨p, none, some ⟨.returned false, none⟩⟩
        (before.map .hear ++ .ask :: (after.map .hear ++ [.wake])) := by
  have hbegin : Client.step ⟨p, none, none⟩ (.begin op error) =
      ⟨p, none, some ⟨.returned false, none⟩⟩ := by
    simp [Client.step, Client.begin, hop]
  rw [waitingCall, run_cons, hbegin]

theorem last_of_none (c : Client π) (hcall : c.call = none) (before after : List ResourceEvent) :
    (run Client.step c (before.map .hear ++ .ask :: (after.map .hear ++ [.wake]))).last =
      c.last := by
  obtain ⟨hlast, hnone, _⟩ := run_hear before c
  rw [run_append, run_cons]
  have hask : Client.step (run Client.step c (before.map .hear)) .ask =
      run Client.step c (before.map .hear) := by
    simp only [Client.step, Client.ask, hnone hcall]
  obtain ⟨hlast', hnone', _⟩ := run_hear after (run Client.step c (before.map .hear))
  rw [hask, run_append, run_cons, run_nil]
  simp only [Client.step, Client.wake, hnone' (hnone hcall)]
  exact hlast'.trans hlast

/-- A call without a location that has not been refused reads `*error`. -/
theorem last_null (p : π) {op : WaitCalls.Op π} (hop : WaitCalls.accepts op = true)
    (before after : List ResourceEvent) :
    (run Client.step ⟨p, none, none⟩ (waitingCall op .null before after)).last =
      some ⟨.crashed, none⟩ := by
  have hbegin : Client.step ⟨p, none, none⟩ (.begin op .null) =
      ⟨p, some ⟨op, .null, { signal := WaitCalls.signal op }, false⟩, none⟩ := by
    simp [Client.step, Client.begin, hop, ErrorLocation.admits]
  obtain ⟨_, _, hsome⟩ := run_hear before
    (⟨p, some ⟨op, .null, { signal := WaitCalls.signal op }, false⟩, none⟩ : Client π)
  obtain ⟨w, hw⟩ := hsome _ rfl
  rw [waitingCall, run_cons, hbegin, run_append, run_cons]
  generalize run Client.step (⟨p, some
      ⟨op, .null, { signal := WaitCalls.signal op }, false⟩, none⟩ :
    Client π) (before.map .hear) = c at hw ⊢
  have hask : ∃ object, c.step .ask = ⟨object, none, some ⟨.crashed, none⟩⟩ := by
    refine ⟨(WaitCalls.request op c.object .null).state, ?_⟩
    simp [Client.step, Client.ask, hw, WaitCalls.request_null]
  obtain ⟨object, hask⟩ := hask
  obtain ⟨hlast, hnone, _⟩ := run_hear after (⟨object, none, some ⟨.crashed, none⟩⟩ : Client π)
  rw [hask, run_append, run_cons, run_nil]
  simp only [Client.step, Client.wake, hnone rfl]
  exact hlast

theorem sameWait_iff (p : π) (op : WaitCalls.Op π) (before after : List ResourceEvent) :
    SameWait p op before after ↔ WaitCalls.accepts op = false := by
  cases hop : WaitCalls.accepts op with
  | false =>
    refine iff_of_true ?_ rfl
    rw [SameWait, last_refused p hop, last_refused p hop, last_of_none _ rfl]
    exact ⟨rfl, false, rfl, rfl⟩
  | true =>
    refine iff_of_false ?_ nofun
    rintro ⟨_, result, hnull, _⟩
    rw [last_null p hop] at hnull
    cases hnull

end

/-! ### The functions of both kinds -/

/-- **The same with `NULL`**: just where a source would not be created anyway, and where a call that
waits does not get past its own checks. -/
theorem sameWithNull_iff (once : FwIsoResourceOnce) (auto : FwIsoResourceAuto)
    (before after : List ResourceEvent) :
    (∀ source getInfo, SameSource once source getInfo ↔
      source = false ∨ once.state.fd < 0 ∨ ∃ errno, getInfo = .error errno) ∧
    (∀ source getInfo, SameSource auto source getInfo ↔
      source = false ∨ auto.state.fd < 0 ∨ ∃ errno, getInfo = .error errno) ∧
    (∀ candidates bandwidth answer,
      SameWait once (FwIsoResourceOnce.WaitOp.allocateWait candidates bandwidth answer) before
        after ↔ ¬ acceptsCandidates candidates bandwidth) ∧
    (∀ candidates bandwidth answer,
      SameWait auto (FwIsoResourceAuto.WaitOp.allocateWait candidates bandwidth answer) before
        after ↔ ¬ acceptsCandidates candidates bandwidth) ∧
    (∀ channel bandwidth answer,
      ¬ SameWait once (FwIsoResourceOnce.WaitOp.deallocateWait channel bandwidth answer) before
        after) ∧
    (∀ answer, ¬ SameWait auto (FwIsoResourceAuto.WaitOp.deallocateWait answer) before after) := by
  refine ⟨sameSource_iff once, sameSource_iff auto, ?_, ?_, ?_, ?_⟩
  · intro candidates bandwidth answer
    exact (sameWait_iff once _ before after).trans Bool.eq_false_iff
  · intro candidates bandwidth answer
    exact (sameWait_iff auto _ before after).trans Bool.eq_false_iff
  · intro channel bandwidth answer h
    cases (sameWait_iff once _ before after).mp h
  · intro answer h
    cases (sameWait_iff auto _ before after).mp h

/-- **A call with `NULL`** fails, or crashes, where the same call with a location succeeds. -/
theorem sameWithNull_fails :
    (FwIsoResource.createSource onceDesk.client.object true (.ok 1) .null).ret = .returned false ∧
      (FwIsoResource.createSource onceDesk.client.object true (.ok 1) (.at none)).ret =
        .returned true ∧
      (run Client.step onceDesk.client (waitingCall onceFive .null []
        [.isoResource ⟨.allocated, 1, 5, 100⟩])).last = some ⟨.crashed, none⟩ ∧
      (run Client.step onceDesk.client (waitingCall onceFive (.at none) []
        [.isoResource ⟨.allocated, 1, 5, 100⟩])).last = some ⟨.returned true, none⟩ := by
  decide

end Hinoko
