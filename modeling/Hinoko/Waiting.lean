import Hinoko.ResourceAuto
import Hinoko.ResourceOnce

/-!
# Calls that wait for an answer

`hinoko_fw_iso_resource_allocate_wait`, `hinoko_fw_iso_resource_once_deallocate_wait` and
`hinoko_fw_iso_resource_auto_deallocate_wait` do the same thing around different requests:
they connect a waiter to a signal, make the request, and sleep until the signal has been
emitted or the time is over.  Events may be handled at every point between.

* `Client.step`: such a call in its steps.
* `Desk`: the kernel answers the requests one by one, in order, at any time.
* `own_of_run`: a call reports the answer to its own request, if no request for the same
  signal was waiting for its answer when the call began.
-/

namespace Hinoko

open Transition

/-! ### The calls -/

class WaitCalls (π : Type) extends FwIsoResource π where
  /-- a call with its arguments, and what the kernel answers to the request at once -/
  Op : Type
  /-- the signal that the waiter is connected to -/
  signal : Op → ResourceSignal
  /-- what the waiting function itself checks of its arguments -/
  accepts : Op → Bool
  /-- the request -/
  request : Op → π → ErrorLocation → ResourceOut π
  request_null : ∀ op p, (request op p .null).error = .null
  request_error : ∀ op p errno, (request op p (.at none)).error ≠ .at (some (.event errno))

theorem WaitCalls.request_not_event {π : Type} [WaitCalls π] (op : WaitCalls.Op π) (p : π)
    {error : ErrorLocation} (hlocation : error = .null ∨ error = .at none) (errno : Int32) :
    (WaitCalls.request op p error).error ≠ .at (some (.event errno)) := by
  rcases hlocation with rfl | rfl
  · rw [WaitCalls.request_null]
    nofun
  · exact WaitCalls.request_error op p errno

namespace FwIsoResourceAuto

/-- The two waiting calls of a resource that the kernel maintains. -/
inductive WaitOp where
  | allocateWait (candidates : Option (List UInt8)) (bandwidth : UInt32)
      (answer : Except Nat UInt32)
  | deallocateWait (answer : Option Nat)

def request : WaitOp → FwIsoResourceAuto → ErrorLocation → ResourceOut FwIsoResourceAuto
  | .allocateWait candidates bandwidth answer, self, error =>
    FwIsoResource.allocateResource self candidates bandwidth answer error
  | .deallocateWait answer, self, error => self.deallocate answer error

instance : WaitCalls FwIsoResourceAuto where
  Op := WaitOp
  signal
    | .allocateWait _ _ _ => .allocated
    | .deallocateWait _ => .deallocated
  accepts
    | .allocateWait candidates bandwidth _ => acceptsCandidates candidates bandwidth
    | .deallocateWait _ => true
  request := request
  request_null op self := by
    cases op <;>
    · simp only [request, FwIsoResource.allocateResource, FwIsoResource.allocate, allocate,
          deallocate]
      repeat' split
      all_goals rfl
  request_error op self errno := by
    cases op <;>
    · simp only [request, FwIsoResource.allocateResource, FwIsoResource.allocate, allocate,
          deallocate]
      repeat' split
      all_goals nofun

end FwIsoResourceAuto

namespace FwIsoResourceOnce

/-- The two waiting calls of a resource for one generation. -/
inductive WaitOp where
  | allocateWait (candidates : Option (List UInt8)) (bandwidth : UInt32)
      (answer : Except Nat UInt32)
  | deallocateWait (channel bandwidth : UInt32) (answer : Option Nat)

def request : WaitOp → FwIsoResourceOnce → ErrorLocation → ResourceOut FwIsoResourceOnce
  | .allocateWait candidates bandwidth answer, self, error =>
    FwIsoResource.allocateResource self candidates bandwidth answer error
  | .deallocateWait channel bandwidth answer, self, error =>
    self.deallocate channel bandwidth answer error

instance : WaitCalls FwIsoResourceOnce where
  Op := WaitOp
  signal
    | .allocateWait _ _ _ => .allocated
    | .deallocateWait _ _ _ => .deallocated
  accepts
    | .allocateWait candidates bandwidth _ => acceptsCandidates candidates bandwidth
    | .deallocateWait _ _ _ => true
  request := request
  request_null op self := by
    cases op <;>
    · simp only [request, FwIsoResource.allocateResource, FwIsoResource.allocate, allocate,
          deallocate]
      repeat' split
      all_goals rfl
  request_error op self errno := by
    cases op <;>
    · simp only [request, FwIsoResource.allocateResource, FwIsoResource.allocate, allocate,
          deallocate]
      repeat' split
      all_goals nofun

end FwIsoResourceOnce

/-! ### A call in its steps -/

/-- A waiting call in execution: its waiter, its `error`, and whether the request has been made. -/
structure WaitCall (Op : Type) where
  op : Op
  error : ErrorLocation
  waiter : Waiter
  asked : Bool

structure Returned where
  ret : ResourceRet
  error : Option ResourceGError
deriving DecidableEq, Repr

structure Client (π : Type) [WaitCalls π] where
  object : π
  call : Option (WaitCall (WaitCalls.Op π)) := none
  last : Option Returned := none

/-- The steps: a call begins and connects its waiter, makes the request, and wakes up with the
answer or the time-out; at any time an event is handled. -/
inductive ClientMove (Op : Type) where
  | begin (op : Op) (error : ErrorLocation)
  | ask
  | hear (ev : ResourceEvent)
  | wake

namespace Client

variable {π : Type} [WaitCalls π]

/-- The checks of a waiting function, and `fw_iso_resource_waiter_init`. -/
def begin (c : Client π) (op : WaitCalls.Op π) (error : ErrorLocation) : Client π :=
  match c.call with
  | some _ => c
  | none =>
    if ¬ WaitCalls.accepts op then { c with last := some ⟨.returned false, none⟩ }
    else if ¬ error.admits then { c with last := some ⟨.returned false, none⟩ }
    else { c with call := some ⟨op, error, { signal := WaitCalls.signal op }, false⟩, last := none }

/-- The request, and the start of `fw_iso_resource_waiter_wait`, which looks at `*error`. -/
def ask (c : Client π) : Client π :=
  match c.call with
  | none => c
  | some call =>
    if call.asked then c
    else
      let o := WaitCalls.request call.op c.object call.error
      match o.error with
      | .null => ⟨o.state, none, some ⟨.crashed, none⟩⟩
      | .at (some e) => ⟨o.state, none, some ⟨.returned false, some e⟩⟩
      | .at none => ⟨o.state, some { call with asked := true, error := .at none }, none⟩

def hear (c : Client π) (ev : ResourceEvent) : Client π :=
  let h := FwIsoResource.handleEvent ev c.object
  { c with
    object := h.1
    call := c.call.map fun call => { call with waiter := call.waiter.hear h.2 } }

/-- The end of `fw_iso_resource_waiter_wait`. -/
def wake (c : Client π) : Client π :=
  match c.call with
  | none => c
  | some call =>
    if ¬ call.asked then c
    else
      let f := call.waiter.finish call.error
      ⟨c.object, none, some ⟨.returned f.1, f.2.content⟩⟩

def step (c : Client π) : ClientMove (WaitCalls.Op π) → Client π
  | .begin op error => c.begin op error
  | .ask => c.ask
  | .hear ev => c.hear ev
  | .wake => c.wake

theorem ask_eq {c : Client π} {call : WaitCall (WaitCalls.Op π)} (hcall : c.call = some call)
    (hasked : call.asked = false) :
    c.ask = (let o := WaitCalls.request call.op c.object call.error
      match o.error with
      | .null => ⟨o.state, none, some ⟨.crashed, none⟩⟩
      | .at (some e) => ⟨o.state, none, some ⟨.returned false, some e⟩⟩
      | .at none => ⟨o.state, some { call with asked := true, error := .at none }, none⟩) := by
  simp [ask, hcall, hasked]

end Client

/-! ### The kernel answers -/

/-- The client, the requests that wait for their answers, with their numbers and signals, the
answers that have been handled, and the request of the last call. -/
structure Desk (π : Type) [WaitCalls π] where
  client : Client π
  requests : List (Nat × ResourceSignal) := []
  next : Nat := 0
  answers : List (Nat × Option ResourceGError) := []
  own : Option Nat := none

/-- The steps of the client, with the events that the kernel has ready: the answer to the oldest
request, or the news of a bus reset. -/
inductive DeskMove (Op : Type) where
  | begin (op : Op) (error : ErrorLocation)
  | ask
  | deliver (handle : UInt32) (channel bandwidth : Int32)
  | busReset (generation : UInt32)
  | wake

/-- What the kernel has been asked for, if it has taken a request. -/
def Client.taken {π : Type} [WaitCalls π] (c : Client π) : Option ResourceSignal :=
  match c.call with
  | none => none
  | some call =>
    if call.asked then none
    else if (WaitCalls.request call.op c.object call.error).ret = .returned true then
      some (WaitCalls.signal call.op)
    else none

namespace Desk

variable {π : Type} [WaitCalls π]

def step (d : Desk π) : DeskMove (WaitCalls.Op π) → Desk π
  | .begin op error =>
    { d with
      client := d.client.begin op error
      own := if d.client.call.isNone then none else d.own }
  | .ask =>
    match d.client.taken with
    | none => { d with client := d.client.ask }
    | some signal =>
      { d with
        client := d.client.ask
        requests := d.requests ++ [(d.next, signal)]
        next := d.next + 1
        own := some d.next }
  | .deliver handle channel bandwidth =>
    match d.requests with
    | [] => d
    | (id, signal) :: requests =>
      let ev : IsoResourceEvent := ⟨signal, handle, channel, bandwidth⟩
      { d with
        client := d.client.hear (.isoResource ev)
        requests := requests
        answers := d.answers ++ [(id, (parseIsoResourceEvent ev).error)] }
  | .busReset generation => { d with client := d.client.hear (.busReset generation) }
  | .wake => { d with client := d.client.wake }

/-- When a call begins, no request for the signal of its waiter waits for its answer. -/
def Quiet (m : DeskMove (WaitCalls.Op π)) (d : Desk π) : Prop :=
  match m with
  | .begin op _ => ∀ q ∈ d.requests, q.2 ≠ WaitCalls.signal op
  | _ => True

end Desk

/-! ### Whose answer a call reports -/

/-- A call that comes back with an answer has it from its own request. -/
def Returned.Own (r : Returned) (own : Option Nat) (answers : List (Nat × Option ResourceGError)) :
    Prop :=
  (r.ret = .returned true → ∃ id, own = some id ∧ (id, none) ∈ answers) ∧
    ∀ errno, r.ret = .returned false → r.error = some (.event errno) →
      ∃ id, own = some id ∧ (id, some (.event errno)) ∈ answers

theorem Returned.own_of_ne {r : Returned} {own : Option Nat}
    {answers : List (Nat × Option ResourceGError)} (hret : r.ret ≠ .returned true)
    (herror : ∀ errno, r.error ≠ some (.event errno)) : r.Own own answers :=
  ⟨fun h => absurd h hret, fun errno _ h => absurd h (herror errno)⟩

theorem Returned.Own.mono {r : Returned} {own : Option Nat}
    {answers answers' : List (Nat × Option ResourceGError)} (h : r.Own own answers)
    (hsub : answers ⊆ answers') : r.Own own answers' := by
  refine ⟨fun hret => ?_, fun errno hret herror => ?_⟩
  · obtain ⟨id, hown, hmem⟩ := h.1 hret
    exact ⟨id, hown, hsub hmem⟩
  · obtain ⟨id, hown, hmem⟩ := h.2 errno hret herror
    exact ⟨id, hown, hsub hmem⟩

/-- What a waiter has heard, and the requests for its signal that wait for their answers: there is
at most the one of its own call. -/
inductive Awaits (w : Waiter) (own : Option Nat) (mine : List (Nat × ResourceSignal))
    (answers : List (Nat × Option ResourceGError)) : Prop where
  | nothing (hown : own = none) (hmine : mine = []) (hhandled : w.handled = false)
      (herror : w.error = none)
  | pending (id : Nat) (hown : own = some id) (hmine : mine = [(id, w.signal)])
      (hhandled : w.handled = false) (herror : w.error = none)
  | answered (id : Nat) (hown : own = some id) (hmine : mine = []) (hhandled : w.handled = true)
      (hanswer : (id, w.error) ∈ answers)

namespace Awaits

variable {w : Waiter} {own : Option Nat} {requests : List (Nat × ResourceSignal)}
  {answers : List (Nat × Option ResourceGError)}

theorem hear {id : Nat} {signal : ResourceSignal} {channel bandwidth : UInt32}
    {error : Option ResourceGError}
    (h : Awaits w own (((id, signal) :: requests).filter fun q => q.2 = w.signal) answers) :
    Awaits (w.hear [.emit signal channel bandwidth error]) own
      (requests.filter fun q => q.2 = w.signal) (answers ++ [(id, error)]) := by
  by_cases hsignal : signal = w.signal
  · have hfilter : (((id, signal) :: requests).filter fun q => q.2 = w.signal) =
        (id, signal) :: requests.filter fun q => q.2 = w.signal :=
      List.filter_cons_of_pos (by simpa using hsignal)
    rw [hfilter] at h
    cases h with
    | nothing _ hmine => cases hmine
    | answered _ _ hmine => cases hmine
    | pending own' hown hmine hhandled herror =>
      obtain ⟨hhead, htail⟩ := List.cons_eq_cons.mp hmine
      obtain ⟨rfl, _⟩ := Prod.mk.inj hhead
      simp only [Waiter.hear, if_pos hsignal]
      refine .answered id hown htail rfl ?_
      simp only [Waiter.handleEventSignal, herror]
      cases error <;> simp
  · have hfilter : (((id, signal) :: requests).filter fun q => q.2 = w.signal) =
        requests.filter fun q => q.2 = w.signal :=
      List.filter_cons_of_neg (by simpa using hsignal)
    rw [hfilter] at h
    simp only [Waiter.hear, if_neg hsignal]
    cases h with
    | nothing hown hmine hhandled herror => exact .nothing hown hmine hhandled herror
    | pending id' hown hmine hhandled herror => exact .pending id' hown hmine hhandled herror
    | answered id' hown hmine hhandled hanswer =>
      exact .answered id' hown hmine hhandled (List.mem_append_left _ hanswer)

theorem finish (h : Awaits w own requests answers) :
    let f := w.finish (.at none)
    (⟨.returned f.1, f.2.content⟩ : Returned).Own own answers := by
  intro f
  cases h with
  | nothing hown hmine hhandled herror =>
    have hf : f = (false, .at (some (.coded .timeout))) := by
      simp [f, Waiter.finish, hhandled, ErrorLocation.set]
    rw [hf]
    exact Returned.own_of_ne nofun nofun
  | pending id hown hmine hhandled herror =>
    have hf : f = (false, .at (some (.coded .timeout))) := by
      simp [f, Waiter.finish, hhandled, ErrorLocation.set]
    rw [hf]
    exact Returned.own_of_ne nofun nofun
  | answered id hown hmine hhandled hanswer =>
    cases herror : w.error with
    | none =>
      have hf : f = (true, .at none) := by simp [f, Waiter.finish, hhandled, herror]
      rw [herror] at hanswer
      rw [hf]
      exact ⟨fun _ => ⟨id, hown, hanswer⟩, nofun⟩
    | some e =>
      have hf : f = (false, .at (some e)) := by simp [f, Waiter.finish, hhandled, herror]
      rw [herror] at hanswer
      rw [hf]
      refine ⟨nofun, fun errno _ he => ?_⟩
      cases he
      exact ⟨id, hown, hanswer⟩

end Awaits

/-- Where the desk stands: the call in execution waits for the answer to its own request, or the
last call has come back with it. -/
structure Attended {π : Type} [WaitCalls π] (d : Desk π) : Prop where
  signal : ∀ call, d.client.call = some call → call.waiter.signal = WaitCalls.signal call.op
  begun : ∀ call, d.client.call = some call → call.asked = false →
    d.own = none ∧ (call.error = .null ∨ call.error = .at none)
  asked : ∀ call, d.client.call = some call → call.asked = true → call.error = .at none
  awaits : ∀ call, d.client.call = some call → Awaits call.waiter d.own
    (d.requests.filter fun q => q.2 = call.waiter.signal) d.answers
  last : d.client.call = none → ∀ r, d.client.last = some r → r.Own d.own d.answers

namespace Attended

variable {π : Type} [WaitCalls π] {d : Desk π}

theorem idle {d' : Desk π} (hcall : d'.client.call = none)
    (hlast : ∀ r, d'.client.last = some r → r.Own d'.own d'.answers) : Attended d' := by
  have hnone : ∀ call, d'.client.call ≠ some call := fun call h => by
    rw [hcall] at h
    cases h
  exact ⟨fun call h => absurd h (hnone call), fun call h => absurd h (hnone call),
    fun call h => absurd h (hnone call), fun call h => absurd h (hnone call), fun _ => hlast⟩

theorem begin (h : Attended d) {op : WaitCalls.Op π} (error : ErrorLocation)
    (hquiet : ∀ q ∈ d.requests, q.2 ≠ WaitCalls.signal op) :
    Attended (d.step (.begin op error)) := by
  cases hcall : d.client.call with
  | some call =>
    have hstep : d.step (.begin op error) = d := by
      simp only [Desk.step, Client.begin, hcall, Option.isNone_some]
      rfl
    rw [hstep]
    exact h
  | none =>
    by_cases hchecks : WaitCalls.accepts op = true ∧ error.admits = true
    · have hstep : d.step (.begin op error) = { d with
          client := { d.client with
            call := some ⟨op, error, { signal := WaitCalls.signal op }, false⟩, last := none }
          own := none } := by
        simp [Desk.step, Client.begin, hcall, hchecks.1, hchecks.2]
      have hlocation : error = .null ∨ error = .at none := by
        cases error with
        | null => exact .inl rfl
        | «at» content =>
          cases content with
          | none => exact .inr rfl
          | some e => exact absurd hchecks.2 (by simp [ErrorLocation.admits])
      have hmine : (d.requests.filter fun q => q.2 = WaitCalls.signal op) = [] :=
        List.filter_eq_nil_iff.mpr fun q hq => by simpa using hquiet q hq
      rw [hstep]
      refine ⟨?_, ?_, ?_, ?_, nofun⟩
      · rintro call ⟨rfl⟩
        rfl
      · rintro call ⟨rfl⟩ _
        exact ⟨rfl, hlocation⟩
      · rintro call ⟨rfl⟩ hasked
        cases hasked
      · rintro call ⟨rfl⟩
        exact .nothing rfl hmine rfl rfl
    · have hstep : d.step (.begin op error) = { d with
          client := { d.client with last := some ⟨.returned false, none⟩ }, own := none } := by
        simp only [Desk.step, Client.begin, hcall, Option.isNone_none, if_true]
        split
        · rfl
        split
        · rfl
        next haccepts hadmits => exact absurd ⟨not_not.mp haccepts, not_not.mp hadmits⟩ hchecks
      rw [hstep]
      refine idle hcall ?_
      rintro r ⟨rfl⟩
      exact Returned.own_of_ne nofun nofun

theorem wake (h : Attended d) : Attended (d.step .wake) := by
  cases hcall : d.client.call with
  | none =>
    have hstep : d.step .wake = d := by simp only [Desk.step, Client.wake, hcall]
    rw [hstep]
    exact h
  | some call =>
    cases hasked : call.asked with
    | false =>
      have hstep : d.step .wake = d := by simp [Desk.step, Client.wake, hcall, hasked]
      rw [hstep]
      exact h
    | true =>
      have hstep : d.step .wake = { d with client := ⟨d.client.object, none,
          some ⟨.returned (call.waiter.finish (.at none)).1,
            (call.waiter.finish (.at none)).2.content⟩⟩ } := by
        simp [Desk.step, Client.wake, hcall, hasked, h.asked call hcall hasked]
      rw [hstep]
      refine idle rfl ?_
      rintro r ⟨rfl⟩
      exact (h.awaits call hcall).finish

theorem busReset (h : Attended d) (generation : UInt32) :
    Attended (d.step (.busReset generation)) := by
  have hhear : ∀ call : WaitCall (WaitCalls.Op π), call.waiter.hear
      (FwIsoResource.handleEvent (.busReset generation) d.client.object).2 = call.waiter := by
    intro call
    simp only [FwIsoResource.handleEvent, FwIsoResource.handleBusResetEvent]
    split <;> rfl
  have hmap : (d.client.call.map fun call => { call with
      waiter := call.waiter.hear
        (FwIsoResource.handleEvent (.busReset generation) d.client.object).2 }) =
            d.client.call := by
    cases d.client.call with
    | none => rfl
    | some call => simp only [Option.map_some, hhear call]
  obtain ⟨hsignal, hbegun, hasked, hawaits, hlast⟩ := h
  refine ⟨?_, ?_, ?_, ?_, ?_⟩ <;> simp only [Desk.step, Client.hear, hmap]
  · exact hsignal
  · exact hbegun
  · exact hasked
  · exact hawaits
  · exact hlast

theorem deliver (h : Attended d) (handle : UInt32) (channel bandwidth : Int32) :
    Attended (d.step (.deliver handle channel bandwidth)) := by
  cases hrequests : d.requests with
  | nil =>
    have hstep : d.step (.deliver handle channel bandwidth) = d := by
      simp only [Desk.step, hrequests]
    rw [hstep]
    exact h
  | cons request requests =>
    obtain ⟨id, signal⟩ := request
    obtain ⟨ev, hev⟩ : ∃ ev : IsoResourceEvent, ev = ⟨signal, handle, channel, bandwidth⟩ :=
        ⟨_, rfl⟩
    have hparsed : (parseIsoResourceEvent ev).signal = signal := by
      rw [hev, parseIsoResourceEvent]
      split <;> rfl
    have hstep : d.step (.deliver handle channel bandwidth) = { d with
        client := d.client.hear (.isoResource ev)
        requests := requests
        answers := d.answers ++ [(id, (parseIsoResourceEvent ev).error)] } := by
      simp only [Desk.step, hrequests, hev]
    have heffects : (FwIsoResource.handleEvent (.isoResource ev) d.client.object).2 =
        [.emit signal (parseIsoResourceEvent ev).channel (parseIsoResourceEvent ev).bandwidth
          (parseIsoResourceEvent ev).error] := by
      rw [← hparsed]
      exact FwIsoResource.effects_handleIsoResourceEvent ev d.client.object
    have hcalls : ∀ call, (d.client.hear (.isoResource ev)).call = some call →
        ∃ call', d.client.call = some call' ∧ call = { call' with
          waiter := call'.waiter.hear [.emit signal (parseIsoResourceEvent ev).channel
            (parseIsoResourceEvent ev).bandwidth (parseIsoResourceEvent ev).error] } := by
      intro call hcall
      simp only [Client.hear, heffects] at hcall
      obtain ⟨call', hcall', rfl⟩ := Option.map_eq_some_iff.mp hcall
      exact ⟨call', hcall', rfl⟩
    rw [hstep]
    refine ⟨?_, ?_, ?_, ?_, ?_⟩
    · intro call hcall
      obtain ⟨call', hcall', rfl⟩ := hcalls call hcall
      exact (Waiter.signal_hear _ _).trans (h.signal call' hcall')
    · intro call hcall hasked
      obtain ⟨call', hcall', rfl⟩ := hcalls call hcall
      exact h.begun call' hcall' hasked
    · intro call hcall hasked
      obtain ⟨call', hcall', rfl⟩ := hcalls call hcall
      exact h.asked call' hcall' hasked
    · intro call hcall
      obtain ⟨call', hcall', rfl⟩ := hcalls call hcall
      have hawaits := h.awaits call' hcall'
      rw [hrequests] at hawaits
      simp only [Waiter.signal_hear]
      exact hawaits.hear
    · intro hnone r hr
      have hcall : d.client.call = none := Option.map_eq_none_iff.mp hnone
      exact (h.last hcall r hr).mono (List.subset_append_left _ _)

theorem awaits_ask (h : Attended d) {call : WaitCall (WaitCalls.Op π)}
    (hcall : d.client.call = some call) (hasked : call.asked = false) :
    Awaits call.waiter (d.step .ask).own
      ((d.step .ask).requests.filter fun q => q.2 = call.waiter.signal) (d.step .ask).answers := by
  obtain ⟨hown, _⟩ := h.begun call hcall hasked
  have hsignal := h.signal call hcall
  have hawaits := h.awaits call hcall
  rw [hown] at hawaits
  cases hawaits with
  | pending _ hown' => cases hown'
  | answered _ hown' => cases hown'
  | nothing _ hmine hhandled herror =>
    simp only [Desk.step]
    split
    · exact .nothing hown hmine hhandled herror
    next signal htaken =>
      have hsignal' : signal = call.waiter.signal := by
        rw [hsignal]
        simp only [Client.taken, hcall, hasked, Bool.false_eq_true, if_false] at htaken
        split at htaken
        · exact (Option.some.inj htaken).symm
        · cases htaken
      refine .pending d.next rfl ?_ hhandled herror
      rw [List.filter_append, hmine, hsignal']
      simp

theorem ask (h : Attended d) : Attended (d.step .ask) := by
  cases hcall : d.client.call with
  | none =>
    have hstep : d.step .ask = d := by simp only [Desk.step, Client.taken, Client.ask, hcall]
    rw [hstep]
    exact h
  | some call =>
    cases hasked : call.asked with
    | true =>
      have hstep : d.step .ask = d := by simp [Desk.step, Client.taken, Client.ask, hcall, hasked]
      rw [hstep]
      exact h
    | false =>
      have hwaits := h.awaits_ask hcall hasked
      have hevent := WaitCalls.request_not_event call.op d.client.object
        (h.begun call hcall hasked).2
      have hclient : (d.step .ask).client = d.client.ask := by
        simp only [Desk.step]
        split <;> rfl
      rw [Client.ask_eq hcall hasked] at hclient
      generalize d.step .ask = d' at hwaits hclient
      generalize WaitCalls.request call.op d.client.object call.error = o at hevent hclient
      obtain ⟨object, ret, error, effects⟩ := o
      cases error with
      | null =>
        refine idle (by rw [hclient]) fun r hr => ?_
        rw [hclient] at hr
        cases hr
        exact Returned.own_of_ne nofun nofun
      | «at» content =>
        cases content with
        | some e =>
          refine idle (by rw [hclient]) fun r hr => ?_
          rw [hclient] at hr
          cases hr
          exact Returned.own_of_ne nofun fun errno he => hevent errno (congrArg _ he)
        | none =>
          refine ⟨?_, ?_, ?_, ?_, ?_⟩ <;> rw [hclient]
          · rintro call' ⟨rfl⟩
            exact h.signal call hcall
          · rintro call' ⟨rfl⟩ hfalse
            cases hfalse
          · rintro call' ⟨rfl⟩ _
            rfl
          · rintro call' ⟨rfl⟩
            exact hwaits
          · nofun

/-- **A step** keeps the desk attended, if a call begins in quiet. -/
theorem step (h : Attended d) {m : DeskMove (WaitCalls.Op π)} (hm : d.Quiet m) :
    Attended (d.step m) := by
  cases m with
  | begin op error => exact h.begin error hm
  | ask => exact h.ask
  | deliver handle channel bandwidth => exact h.deliver handle channel bandwidth
  | busReset generation => exact h.busReset generation
  | wake => exact h.wake

theorem run {object : π} {ms : List (DeskMove (WaitCalls.Op π))}
    (hms : Allowed Desk.step (fun m d => d.Quiet m) ⟨⟨object, none, none⟩, [], 0, [], none⟩ ms) :
    Attended (Transition.run Desk.step ⟨⟨object, none, none⟩, [], 0, [], none⟩ ms) :=
  run_keeps (fun _ _ hm h => h.step hm) hms (idle rfl nofun)

end Attended

/-- **A waiting call reports the answer to its own request**, for both kinds of resource, if each
call begins when no request for the same signal waits for its answer. -/
theorem own_of_run (once : FwIsoResourceOnce) (onceMoves : List (DeskMove FwIsoResourceOnce.WaitOp))
    (auto : FwIsoResourceAuto) (autoMoves : List (DeskMove FwIsoResourceAuto.WaitOp)) :
    (Allowed Desk.step (fun m d => d.Quiet m) ⟨⟨once, none, none⟩, [], 0, [], none⟩ onceMoves →
      let d := run Desk.step ⟨⟨once, none, none⟩, [], 0, [], none⟩ onceMoves
      d.client.call = none → ∀ r, d.client.last = some r → r.Own d.own d.answers) ∧
    (Allowed Desk.step (fun m d => d.Quiet m) ⟨⟨auto, none, none⟩, [], 0, [], none⟩ autoMoves →
      let d := run Desk.step ⟨⟨auto, none, none⟩, [], 0, [], none⟩ autoMoves
      d.client.call = none → ∀ r, d.client.last = some r → r.Own d.own d.answers) :=
  ⟨fun hms => (Attended.run hms).last, fun hms => (Attended.run hms).last⟩

/-! ### A late answer -/

def onceFive : FwIsoResourceOnce.WaitOp := .allocateWait (some [5]) 100 (.ok 1)
def autoFive : FwIsoResourceAuto.WaitOp := .allocateWait (some [5]) 100 (.ok 1)

def onceDesk : Desk FwIsoResourceOnce := ⟨⟨⟨⟨3, 1⟩⟩, none, none⟩, [], 0, [], none⟩
def autoDesk : Desk FwIsoResourceAuto := ⟨⟨{ state := ⟨3, 1⟩ }, none, none⟩, [], 0, [], none⟩

/-- The request of a call is not answered in time; the answer comes when the next call waits. -/
def late {Op : Type} (op : Op) : List (DeskMove Op) :=
  [.begin op (.at none), .ask, .wake, .begin op (.at none), .ask, .deliver 1 5 100, .wake]

/-- **A late answer is taken for the answer to the next request.** -/
theorem own_fails :
    ((run Desk.step onceDesk (late onceFive)).client.last = some ⟨.returned true, none⟩ ∧
      (run Desk.step onceDesk (late onceFive)).own = some 1 ∧
      (run Desk.step onceDesk (late onceFive)).answers = [(0, none)]) ∧
    ((run Desk.step autoDesk (late autoFive)).client.last = some ⟨.returned true, none⟩ ∧
      (run Desk.step autoDesk (late autoFive)).own = some 1 ∧
      (run Desk.step autoDesk (late autoFive)).answers = [(0, none)]) := by
  decide

/-- A call is answered in time, with an error, and then another without. -/
def timely {Op : Type} (op : Op) : List (DeskMove Op) :=
  [.begin op (.at none), .ask, .deliver 1 (-11) 0, .wake, .begin op (.at none), .ask,
    .deliver 1 5 100, .wake]

theorem own_timely :
    (∃ id, (run Desk.step onceDesk (timely onceFive)).own = some id ∧
      (id, none) ∈ (run Desk.step onceDesk (timely onceFive)).answers) ∧
    (∃ id, (run Desk.step autoDesk (timely autoFive)).own = some id ∧
      (id, none) ∈ (run Desk.step autoDesk (timely autoFive)).answers) := by
  have hquiet : ∀ {π : Type} [WaitCalls π] {d : Desk π} {m : DeskMove (WaitCalls.Op π)},
      d.requests = [] → d.Quiet m := by
    intro π _ d m hnone
    cases m with
    | begin op error =>
      intro q hq
      rw [hnone] at hq
      exact absurd hq List.not_mem_nil
    | _ => trivial
  have honce : Allowed Desk.step (fun m d => d.Quiet m) onceDesk (timely onceFive) :=
    ⟨hquiet rfl, trivial, trivial, trivial, hquiet rfl, trivial, trivial, trivial, trivial⟩
  have hauto : Allowed Desk.step (fun m d => d.Quiet m) autoDesk (timely autoFive) :=
    ⟨hquiet rfl, trivial, trivial, trivial, hquiet rfl, trivial, trivial, trivial, trivial⟩
  obtain ⟨hown, hown'⟩ := own_of_run _ _ _ _
  exact ⟨(hown honce rfl ⟨.returned true, none⟩ rfl).1 rfl,
    (hown' hauto rfl ⟨.returned true, none⟩ rfl).1 rfl⟩

end Hinoko
