import Hinoko.Holding
import Hinoko.Lib.Mutex

/-!
# Threads around a resource

`fw_iso_resource_auto.c` keeps what is known of the resource under a mutex.  Any number of threads
call `allocate` and `deallocate` of an opened object, look at its properties, and dispatch the
events that the kernel has queued; each does so in steps, and between two steps anything else may
happen, to the kernel as well.

* `body`: what a thread does under the mutex, step by step.
* `serial_of_run`: whatever the steps, it comes to what the functions of `ResourceAuto.lean` do one
  after the other.
* `held_of_run`: a resource is given up by the handle of the one that the object shows, although the
  kernel may have allocated it before the thread that asked for it has written down the handle.
-/

namespace Hinoko

open Transition Mutex

namespace FwIsoResourceAuto

/-! ### The kernel -/

/-- The resources that the kernel holds, and the events that it has queued for the descriptor. -/
structure Kernel where
  resources : List KernelResource := []
  queue : List ResourceEvent := []
deriving DecidableEq, Repr

inductive KernelMove where
  | busReset (generation : UInt32)
  /-- an allocation has come to an end -/
  | allocated (handle : UInt32) (channel bandwidth : Int32)
  /-- a resource has come to its end -/
  | deallocated (handle : UInt32) (channel bandwidth : Int32)

namespace Kernel

def evolve : KernelMove → Kernel → Kernel
  | .busReset generation, k => { k with queue := k.queue ++ [.busReset generation] }
  | .allocated handle channel bandwidth, k =>
    ⟨grant k.resources handle channel bandwidth,
      k.queue ++ [.isoResource ⟨.allocated, handle, channel, bandwidth⟩]⟩
  | .deallocated handle channel bandwidth, k =>
    ⟨k.resources.filter fun r => r.handle ≠ handle,
      k.queue ++ [.isoResource ⟨.deallocated, handle, channel, bandwidth⟩]⟩

def refusal : Except Nat UInt32 → Option Nat
  | .error errno => some errno
  | .ok _ => none

/-- A request, with the answer that the kernel chooses. -/
def serve (answer : Except Nat UInt32) (request : ResourceEffect) (k : Kernel) :
    Kernel × Except Nat UInt32 :=
  match request with
  | .deallocateIsoResource _ =>
    ({ k with resources := dismiss k.resources [request] (refusal answer) }, answer)
  | _ => ({ k with resources := create k.resources [request] answer }, answer)

end Kernel

/-! ### What threads do -/

/-- The properties that the mutex protects. -/
inductive Property where
  | isAllocated
  | channel
  | bandwidth
deriving DecidableEq, Repr

inductive Outcome where
  | returned (ret : ResourceRet) (error : ErrorLocation)
  /-- the signals of an event, which are emitted without the mutex -/
  | emitted (effects : List ResourceEffect)
  | flag (value : Bool)
  | number (value : UInt32)
  /-- nothing was there to be read, or a bus reset, which the mutex has nothing to do with -/
  | idle
deriving DecidableEq, Repr

/-- What a thread needs the mutex for, behind the checks that are made before. -/
inductive Job where
  | allocate (candidates : List UInt8) (bandwidth : UInt32) (error : ErrorLocation)
      (accepted : acceptsCandidates (some candidates) bandwidth) (admitted : error.admits)
  | deallocate (error : ErrorLocation) (admitted : error.admits)
  | handle (ev : IsoResourceEvent) (hpos : 0 ≤ ev.channel)
  | getProperty (id : Property)

inductive Entry where
  | allocate (candidates : Option (List UInt8)) (bandwidth : UInt32) (error : ErrorLocation)
  | deallocate (error : ErrorLocation)
  | dispatch
  | getProperty (id : Property)

/-- What `parse_iso_resource_event` has found, as a signal. -/
def signalOf (ev : IsoResourceEvent) : List ResourceEffect :=
  let parsed := parseIsoResourceEvent ev
  [.emit parsed.signal parsed.channel parsed.bandwidth parsed.error]

/-- The part of a function in front of `g_mutex_lock`; `fd` is the descriptor of the object, which
does not change any more. -/
def arrive (fd : Int) : Entry → Kernel → Kernel × (Outcome ⊕ Job)
  | .allocate candidates bandwidth error, k =>
    (k,
      match candidates with
      | none => .inl (.returned (.returned false) error)
      | some cs =>
        if haccepted : acceptsCandidates (some cs) bandwidth then
          if hadmitted : error.admits then
            if fd < 0 then .inl (.returned (.returned false) (error.set (.coded .notOpened)))
            else .inr (.allocate cs bandwidth error haccepted hadmitted)
          else .inl (.returned (.returned false) error)
        else .inl (.returned (.returned false) error))
  | .deallocate error, k =>
    (k,
      if hadmitted : error.admits then
        if fd < 0 then .inl (.returned (.returned false) (error.set (.coded .notOpened)))
        else .inr (.deallocate error hadmitted)
      else .inl (.returned (.returned false) error))
  | .dispatch, k =>
    match k.queue with
    | [] => (k, .inl .idle)
    | .isoResource ev :: queue =>
      ({ k with queue := queue },
        if hpos : 0 ≤ ev.channel then .inr (.handle ev hpos) else .inl (.emitted (signalOf ev)))
    | _ :: queue => ({ k with queue := queue }, .inl .idle)
  | .getProperty id, k => (k, .inr (.getProperty id))

/-- The part of a function between `g_mutex_lock` and `g_mutex_unlock`. -/
def body : Job → Sect FwIsoResourceAuto ResourceEffect (Except Nat UInt32) Outcome
  | .allocate candidates bandwidth error _ _ =>
    .look fun self =>
      if self.isAllocated then .done (.returned (.returned false) (error.set (.auto .allocated)))
      else
        .ask (.request .allocateIsoResource (candidateMask candidates) bandwidth) fun answer =>
          match answer with
          | .error errno =>
            .done (.returned (.returned false) (error.set (.ioctl .allocateIsoResource errno)))
          | .ok handle =>
            .write (fun self => { self with handle := handle })
              (.done (.returned (.returned true) error))
  | .deallocate error _ =>
    .look fun self =>
      if ¬ self.isAllocated then
        .done (.returned (.returned false) (error.set (.auto .notAllocated)))
      else
        .look fun self =>
          .ask (.deallocateIsoResource self.handle) fun answer =>
            match answer with
            | .error errno =>
              .done (.returned (.returned false) (error.set (.ioctl .deallocateIsoResource errno)))
            | .ok _ => .done (.returned (.returned true) error)
  | .handle ev _ =>
    let parsed := parseIsoResourceEvent ev
    match ev.type with
    | .allocated =>
      .write (fun self => { self with channel := parsed.channel })
        (.write (fun self => { self with bandwidth := parsed.bandwidth })
          (.write (fun self => { self with isAllocated := true }) (.done (.emitted (signalOf ev)))))
    | .deallocated =>
      .write (fun self => { self with channel := 0 })
        (.write (fun self => { self with bandwidth := self.bandwidth - parsed.bandwidth })
          (.write (fun self => { self with isAllocated := false })
            (.done (.emitted (signalOf ev)))))
  | .getProperty id =>
    .look fun self =>
      match id with
      | .isAllocated => .done (.flag self.isAllocated)
      | .channel => .done (.number self.channel)
      | .bandwidth => .done (.number self.bandwidth)

theorem once_body (b : Job) : (body b).Once := by
  cases b with
  | allocate candidates bandwidth error _ _ =>
    intro self
    dsimp only
    split
    · trivial
    · intro answer
      cases answer <;> trivial
  | deallocate error _ =>
    intro self
    dsimp only
    split
    · trivial
    · intro self' answer
      cases answer <;> trivial
  | handle ev _ =>
    simp only [body]
    split <;> trivial
  | getProperty id =>
    intro self
    cases id <;> trivial

/-! ### Jobs as functions -/

/-- A job as the function that it is part of, done at once. -/
def Job.perform (answer : Except Nat UInt32) (b : Job) (self : FwIsoResourceAuto) (k : Kernel) :
    FwIsoResourceAuto × Kernel × Outcome :=
  match b with
  | .allocate candidates bandwidth error _ _ =>
    let o := FwIsoResource.allocateResource self (some candidates) bandwidth answer error
    (o.state, { k with resources := create k.resources o.effects answer }, .returned o.ret o.error)
  | .deallocate error _ =>
    let o := self.deallocate (Kernel.refusal answer) error
    (o.state, { k with resources := dismiss k.resources o.effects (Kernel.refusal answer) },
      .returned o.ret o.error)
  | .handle ev _ =>
    let h := handleIsoResourceEvent ev self
    (h.1, k, .emitted h.2)
  | .getProperty .isAllocated => (self, k, .flag self.isAllocated)
  | .getProperty .channel => (self, k, .number self.channel)
  | .getProperty .bandwidth => (self, k, .number self.bandwidth)

/-- **The steps of a section come to the function**, when nothing comes between. -/
theorem whole_body {self : FwIsoResourceAuto} (hfd : 0 ≤ self.state.fd) (answer : Except Nat UInt32)
    (b : Job) (k : Kernel) :
    (body b).whole (Kernel.serve answer) self k = b.perform answer self k := by
  have hopen : ¬ self.state.fd < 0 := by omega
  cases b with
  | allocate candidates bandwidth error haccepted hadmitted =>
    simp only [body, Sect.whole, Job.perform, FwIsoResource.allocateResource,
      FwIsoResource.allocate, allocate, haccepted, hadmitted, hopen, not_true_eq_false, if_false]
    cases hallocated : self.isAllocated with
    | true => simp [Sect.whole, create]
    | false => cases answer <;> simp [Sect.whole, Kernel.serve, create, hallocated]
  | deallocate error hadmitted =>
    simp only [body, Sect.whole, Job.perform, deallocate, hadmitted, hopen, not_true_eq_false,
      if_false]
    cases self.isAllocated with
    | true => cases answer <;> simp [Sect.whole, Kernel.serve, Kernel.refusal]
    | false => simp [Sect.whole, dismiss]
  | handle ev hpos =>
    obtain ⟨type, handle, channel, bandwidth⟩ := ev
    simp only [Job.perform, handleIsoResourceEvent, parseIsoResourceEvent, if_pos hpos]
    cases type <;> simp [body, Sect.whole, signalOf, parseIsoResourceEvent, if_pos hpos]
  | getProperty id => cases id <;> rfl

/-- The threads of an opened object and the kernel. -/
def office (fd : Int) :
    Office FwIsoResourceAuto Kernel ResourceEffect (Except Nat UInt32) (Except Nat UInt32) Job
      Entry KernelMove Outcome where
  serve := Kernel.serve
  arrive := arrive fd
  body := body
  once := once_body
  evolve := Kernel.evolve

def start (self : FwIsoResourceAuto) :
    Split Nat FwIsoResourceAuto Kernel ResourceEffect (Except Nat UInt32) Job Outcome where
  data := self
  world := {}
  jobs := fun _ => none
  results := fun _ => []
  inside := none

abbrev Steps := SplitMove Nat (Except Nat UInt32) Entry KernelMove

abbrev Turns := WholeMove Nat (Except Nat UInt32) Entry KernelMove

abbrev Serial := Whole Nat FwIsoResourceAuto Kernel Job Outcome

/-! ### One function after the other -/

/-- The threads and the kernel, when each job is done at once by the function that it is part of. -/
def serialStep (fd : Int) (s : Serial) : Turns → Serial
  | .arrive t e => s.arrive (office fd) t e
  | .work t answer =>
    match s.jobs t with
    | none => s
    | some b => s.finish t (b.perform answer s.data s.world)
  | .evolve e => { s with world := s.world.evolve e }

theorem state_perform (answer : Except Nat UInt32) (b : Job) (self : FwIsoResourceAuto)
    (k : Kernel) : (b.perform answer self k).1.state = self.state := by
  cases b with
  | allocate candidates bandwidth error _ _ =>
    simp only [Job.perform]
    rcases self.allocateResource_cases (some candidates) bandwidth answer error with
      ⟨hstate, _⟩ | ⟨_, _, ⟨_, _, hstate⟩ | ⟨_, _, hstate⟩⟩ <;> rw [hstate]
  | deallocate error _ => simp only [Job.perform, (self.deallocate_cases _ error).1]
  | handle ev _ => exact state_handleIsoResourceEvent ev self
  | getProperty id => cases id <;> rfl

theorem state_step {fd : Int} {s : Serial} (mv : Turns) :
    (serialStep fd s mv).data.state = s.data.state := by
  cases mv with
  | arrive t e => exact congrArg state Whole.data_arrive
  | work t answer =>
    simp only [serialStep]
    cases s.jobs t with
    | none => rfl
    | some b => exact state_perform answer b s.data s.world
  | evolve e => rfl

theorem step_eq_serialStep {s : Serial} (hfd : 0 ≤ s.data.state.fd) (fd : Int) (mv : Turns) :
    s.step (office fd) mv = serialStep fd s mv := by
  cases mv with
  | arrive t e => rfl
  | work t answer =>
    simp only [Whole.step, serialStep]
    cases s.jobs t with
    | none => rfl
    | some b =>
      have hwhole : ((office fd).body b).whole ((office fd).serve answer) s.data s.world =
          b.perform answer s.data s.world := whole_body hfd answer b s.world
      simp only [hwhole]
  | evolve e => rfl

theorem run_eq_serial (fd : Int) : ∀ (ns : List Turns) {s : Serial}, 0 ≤ s.data.state.fd →
    run (Whole.step (office fd)) s ns = run (serialStep fd) s ns := by
  intro ns
  induction ns with
  | nil => exact fun _ => rfl
  | cons mv ns ih =>
    intro s hfd
    rw [run_cons, run_cons, step_eq_serialStep hfd, ih]
    rwa [state_step]

/-- **The mutex makes one function come after the other**: whatever the steps of the threads, the
kernel has gone the same way in a run in which each function is done at once, and the results are
the same, up to those of the thread that holds the mutex; so is the object, while nobody holds
it. -/
theorem serial_of_run (self : FwIsoResourceAuto) (hfd : 0 ≤ self.state.fd) (ms : List Steps) :
    let s := run (Split.step (office self.state.fd)) (start self) ms
    ∃ ns, ns.length ≤ ms.length ∧
      let w := run (serialStep self.state.fd) (start self).toWhole ns
      w.world = s.world ∧ (∀ t, s.inside.map Prod.fst ≠ some t → w.results t = s.results t) ∧
        (s.inside = none → w = s.toWhole) := by
  intro s
  obtain ⟨ns, hlen, _, hmatches⟩ := whole_of_run (m := office self.state.fd)
    (g := ⟨fun _ _ _ _ => True, fun _ _ _ => True⟩) (fun _ _ _ _ _ => trivial) ms
    (.outside (s := start self) rfl)
    (allowed_of_forall (fun mv _ => by cases mv <;> first | trivial | exact fun _ _ _ _ => trivial)
      ms _)
  rw [run_eq_serial _ _ (show 0 ≤ (start self).toWhole.data.state.fd from hfd)] at hmatches
  refine ⟨ns, hlen, hmatches.world_eq, hmatches.results_eq, hmatches.eq_of_outside⟩

/-! ### The promises of the kernel -/

/-- The kernel has queued the event, or a thread has read it and waits for the mutex. -/
def InFlight (jobs : Nat → Option Job) (k : Kernel) (ev : IsoResourceEvent) : Prop :=
  .isoResource ev ∈ k.queue ∨ ∃ t hpos, jobs t = some (.handle ev hpos)

/-- No allocation is asked for while the answer to another is under way. -/
def Unhurried (request : ResourceEffect) (jobs : Nat → Option Job) (k : Kernel) : Prop :=
  match request with
  | .request _ _ _ => (∀ r ∈ k.resources, r.granted ≠ none) ∧
      ∀ ev, InFlight jobs k ev → ev.type ≠ .allocated
  | _ => True

/-- What the kernel keeps to on its own: it ends an allocation that is pending, and a resource that
is to be given up. -/
def PromisedMove (k : Kernel) : KernelMove → Prop
  | .busReset _ => True
  | .allocated handle _ _ => ∃ r ∈ k.resources, r.handle = handle ∧ r.granted = none
  | .deallocated handle channel _ => 0 ≤ channel ∧ ∃ r ∈ k.resources, r.handle = handle ∧
      r.leaving = true

/-- The kernel keeps its promises, the callers are in no hurry, and no resource ends in an error. -/
def promise : Promise Nat Kernel ResourceEffect (Except Nat UInt32) Job KernelMove where
  serve _ request jobs k := Unhurried request jobs k
  evolve mv _ k := PromisedMove k mv

/-! ### The object, the kernel, and the event between them -/

/-- What the object knows of what the kernel holds, when `ev` is to be handled yet. -/
inductive Told (self : FwIsoResourceAuto) : Option IsoResourceEvent → List KernelResource → Prop
    where
  | settled {kernel} (h : Matches self kernel) : Told self none kernel
  | granted {channel bandwidth : Int32} (hfree : self.isAllocated = false) (hpos : 0 ≤ channel) :
      Told self (some ⟨.allocated, self.handle, channel, bandwidth⟩)
        [⟨self.handle, some (channel.toUInt32, bandwidth.toUInt32), false⟩]
  | refused {handle : UInt32} {channel bandwidth : Int32} (hfree : self.isAllocated = false)
      (hneg : ¬ 0 ≤ channel) : Told self (some ⟨.allocated, handle, channel, bandwidth⟩) []
  | ended {handle : UInt32} {channel bandwidth : Int32} (hheld : self.isAllocated = true)
      (hpos : 0 ≤ channel) : Told self (some ⟨.deallocated, handle, channel, bandwidth⟩) []

def Kernel.events (k : Kernel) : List IsoResourceEvent :=
  k.queue.filterMap fun ev =>
    match ev with
    | .isoResource ev => some ev
    | _ => none

def Unread (jobs : Nat → Option Job) : Prop := ∀ t ev hpos, jobs t ≠ some (.handle ev hpos)

/-- Where the event is that is to be handled yet, the only one. -/
inductive Flight (jobs : Nat → Option Job) (k : Kernel) : Option IsoResourceEvent → Prop where
  | landed (h : k.events = []) (hread : Unread jobs) : Flight jobs k none
  | queued {ev} (h : k.events = [ev]) (hread : Unread jobs) : Flight jobs k (some ev)
  | carried {ev t} {hpos : 0 ≤ ev.channel} (h : k.events = [])
      (hjob : jobs t = some (.handle ev hpos))
      (hread : ∀ t' ev' hpos', jobs t' = some (.handle ev' hpos') → t' = t) :
      Flight jobs k (some ev)

theorem Kernel.mem_events {k : Kernel} {ev : IsoResourceEvent} :
    ev ∈ k.events ↔ .isoResource ev ∈ k.queue := by
  rw [events, List.mem_filterMap]
  constructor
  · rintro ⟨ev', hmem, heq⟩
    cases ev' <;> cases heq
    exact hmem
  · exact fun h => ⟨_, h, rfl⟩

theorem Kernel.events_append (k : Kernel) (resources : List KernelResource) (ev : ResourceEvent) :
    (⟨resources, k.queue ++ [ev]⟩ : Kernel).events = k.events ++ (⟨[], [ev]⟩ : Kernel).events := by
  simp only [events, List.filterMap_append]

namespace Flight

variable {jobs jobs' : Nat → Option Job} {k k' : Kernel} {flight : Option IsoResourceEvent}

theorem congr (h : Flight jobs k flight) (hevents : k'.events = k.events)
    (hjobs : ∀ t ev hpos, jobs' t = some (.handle ev hpos) ↔ jobs t = some (.handle ev hpos)) :
    Flight jobs' k' flight := by
  cases h with
  | landed hnone hread =>
    exact .landed (hevents.trans hnone) fun t ev hpos h => hread t ev hpos ((hjobs t ev hpos).mp h)
  | queued hone hread =>
    exact .queued (hevents.trans hone) fun t ev hpos h => hread t ev hpos ((hjobs t ev hpos).mp h)
  | carried hnone hjob hread =>
    exact .carried (hevents.trans hnone) ((hjobs _ _ _).mpr hjob)
      fun t ev hpos h => hread t ev hpos ((hjobs t ev hpos).mp h)

theorem update (h : Flight jobs k flight) {t : Nat} {job : Option Job}
    (hevents : k'.events = k.events)
    (hold : ∀ ev hpos, jobs t ≠ some (.handle ev hpos))
    (hnew : ∀ ev hpos, job ≠ some (.handle ev hpos)) :
    Flight (Function.update jobs t job) k' flight := by
  refine h.congr hevents fun t' ev hpos => ?_
  by_cases heq : t' = t
  · rw [heq, Function.update_self]
    exact ⟨fun h => absurd h (hnew ev hpos), fun h => absurd h (hold ev hpos)⟩
  · rw [Function.update_of_ne heq]

theorem inFlight {ev : IsoResourceEvent} (h : Flight jobs k (some ev)) : InFlight jobs k ev := by
  cases h with
  | queued hone _ =>
    refine .inl (Kernel.mem_events.mp ?_)
    rw [hone]
    exact List.mem_singleton_self ev
  | carried _ hjob _ => exact .inr ⟨_, _, hjob⟩

theorem eq_carried (h : Flight jobs k flight) {t : Nat} {ev : IsoResourceEvent}
    {hpos : 0 ≤ ev.channel} (hjob : jobs t = some (.handle ev hpos)) :
    flight = some ev ∧ k.events = [] ∧
      ∀ t' ev' hpos', jobs t' = some (.handle ev' hpos') → t' = t := by
  cases h with
  | landed _ hread => exact absurd hjob (hread t ev hpos)
  | queued _ hread => exact absurd hjob (hread t ev hpos)
  | carried hnone hjob' hread =>
    obtain rfl := hread t ev hpos hjob
    rw [hjob'] at hjob
    cases hjob
    exact ⟨rfl, hnone, hread⟩

theorem queue (h : Flight jobs k none) (resources : List KernelResource) (ev : IsoResourceEvent) :
    Flight jobs ⟨resources, k.queue ++ [.isoResource ev]⟩ (some ev) := by
  cases h with
  | landed hnone hread =>
    refine .queued ?_ hread
    rw [Kernel.events_append, hnone]
    rfl

end Flight

namespace Told

variable {self : FwIsoResourceAuto} {flight : Option IsoResourceEvent}
  {kernel : List KernelResource}

theorem allocate (h : Told self flight kernel) (candidates : Option (List UInt8))
    (bandwidth : UInt32) (answer : Except Nat UInt32) (error : ErrorLocation)
    (hunhurried : self.isAllocated = false → (∀ r ∈ kernel, r.granted ≠ none) ∧
      ∀ ev, flight = some ev → ev.type ≠ .allocated) :
    let o := FwIsoResource.allocateResource self candidates bandwidth answer error
    Told o.state flight (create kernel o.effects answer) := by
  intro o
  rcases self.allocateResource_cases candidates bandwidth answer error with
    ⟨hstate, heffects⟩ | ⟨hfree, _⟩
  · simp only [o, hstate, heffects, create]
    exact h
  · obtain ⟨hgranted, hflight⟩ := hunhurried hfree
    cases h with
    | settled h => exact .settled (h.allocate hgranted candidates bandwidth answer error)
    | granted hfree' hpos => exact absurd rfl (hflight _ rfl)
    | refused hfree' hneg => exact absurd rfl (hflight _ rfl)
    | ended hheld hpos =>
      rw [hfree] at hheld
      cases hheld

theorem deallocate (h : Told self flight kernel) (answer : Option Nat) (error : ErrorLocation) :
    let o := self.deallocate answer error
    Told o.state flight (dismiss kernel o.effects answer) := by
  intro o
  obtain ⟨hstate, heffects | ⟨hallocated, heffects⟩⟩ := self.deallocate_cases answer error
  · simp only [o, hstate, heffects, dismiss]
    exact h
  · cases h with
    | settled h => exact .settled (h.deallocate answer error)
    | granted hfree hpos =>
      rw [hfree] at hallocated
      cases hallocated
    | refused hfree hneg =>
      rw [hfree] at hallocated
      cases hallocated
    | ended hheld hpos =>
      simp only [o, hstate, heffects]
      cases answer <;> exact .ended hheld hpos

theorem handle {ev : IsoResourceEvent} (h : Told self (some ev) kernel) (hpos : 0 ≤ ev.channel) :
    Matches (handleIsoResourceEvent ev self).1 kernel := by
  cases h with
  | granted hfree hpos' =>
    rw [handleIsoResourceEvent_allocated self hpos']
    exact .held false rfl
  | refused hfree hneg => exact absurd hpos hneg
  | ended hheld hpos' =>
    rw [handleIsoResourceEvent_deallocated self hpos']
    exact .nothing rfl

theorem drop {ev : IsoResourceEvent} (h : Told self (some ev) kernel) (hneg : ¬ 0 ≤ ev.channel) :
    Told self none kernel := by
  cases h with
  | granted hfree hpos => exact absurd hpos hneg
  | refused hfree _ => exact .settled (.nothing hfree)
  | ended hheld hpos => exact absurd hpos hneg

theorem end_allocation (h : Told self flight kernel) {handle : UInt32}
    (hpending : ∃ r ∈ kernel, r.handle = handle ∧ r.granted = none) (channel bandwidth : Int32) :
    flight = none ∧ Told self (some ⟨.allocated, handle, channel, bandwidth⟩)
      (grant kernel handle channel bandwidth) := by
  obtain ⟨r, hr, rfl, hnone⟩ := hpending
  cases h with
  | settled h =>
    cases h with
    | nothing hfree => exact absurd hr List.not_mem_nil
    | held leaving hheld =>
      rw [List.mem_singleton.mp hr] at hnone
      cases hnone
    | asked hfree =>
      refine ⟨rfl, ?_⟩
      rw [List.mem_singleton.mp hr, grant]
      split
      next hpos =>
        simp only [List.map_cons, List.map_nil, if_true]
        exact .granted hfree hpos
      next hneg =>
        simp only [List.filter_cons, List.filter_nil, ne_eq, not_true, decide_false]
        exact .refused hfree hneg
  | granted hfree hpos =>
    rw [List.mem_singleton.mp hr] at hnone
    cases hnone
  | refused hfree hneg => exact absurd hr List.not_mem_nil
  | ended hheld hpos => exact absurd hr List.not_mem_nil

theorem end_resource (h : Told self flight kernel) {handle : UInt32}
    (hleaving : ∃ r ∈ kernel, r.handle = handle ∧ r.leaving = true) {channel : Int32}
    (hpos : 0 ≤ channel) (bandwidth : Int32) :
    flight = none ∧ Told self (some ⟨.deallocated, handle, channel, bandwidth⟩)
      (kernel.filter fun r => r.handle ≠ handle) := by
  obtain ⟨r, hr, rfl, hleaving⟩ := hleaving
  cases h with
  | settled h =>
    cases h with
    | nothing hfree => exact absurd hr List.not_mem_nil
    | asked hfree =>
      rw [List.mem_singleton.mp hr] at hleaving
      cases hleaving
    | held leaving hheld =>
      refine ⟨rfl, ?_⟩
      rw [List.mem_singleton.mp hr]
      simp only [List.filter_cons, List.filter_nil, ne_eq, not_true, decide_false]
      exact .ended hheld hpos
  | granted hfree hpos' =>
    rw [List.mem_singleton.mp hr] at hleaving
    cases hleaving
  | refused hfree hneg => exact absurd hr List.not_mem_nil
  | ended hheld hpos' => exact absurd hr List.not_mem_nil

end Told

theorem Told.shows {self : FwIsoResourceAuto} {flight : Option IsoResourceEvent}
    {kernel : List KernelResource} (h : Told self flight kernel) (hheld : self.isAllocated = true) :
    (∀ r ∈ kernel, r.handle = self.handle ∧ r.granted = some (self.channel, self.bandwidth)) ∧
      (kernel = [] → ∃ ev, flight = some ev ∧ ev.type = .deallocated) := by
  have hcontra : self.isAllocated ≠ false := by rw [hheld]; rintro ⟨⟩
  cases h with
  | settled h =>
    cases h with
    | nothing hfree => exact absurd hfree hcontra
    | asked hfree => exact absurd hfree hcontra
    | held leaving _ =>
      refine ⟨fun r hr => ?_, fun hnil => by cases hnil⟩
      rw [List.mem_singleton.mp hr]
      exact ⟨rfl, rfl⟩
  | granted hfree _ => exact absurd hfree hcontra
  | refused hfree _ => exact absurd hfree hcontra
  | ended _ _ => exact ⟨fun r hr => absurd hr List.not_mem_nil, fun _ => ⟨_, rfl, rfl⟩⟩

theorem Told.length_le {self : FwIsoResourceAuto} {flight : Option IsoResourceEvent}
    {kernel : List KernelResource} (h : Told self flight kernel) : kernel.length ≤ 1 := by
  cases h with
  | settled h => cases h <;> simp
  | granted _ _ => exact Nat.le_refl 1
  | refused _ _ => exact Nat.zero_le 1
  | ended _ _ => exact Nat.zero_le 1

/-- One event at most is under way, and the object knows the rest. -/
def Heard (s : Serial) : Prop :=
  ∃ flight, Flight s.jobs s.world flight ∧ Told s.data flight s.world.resources

/-- What a thread can do in front of the mutex: it may read an event, which it handles under the
mutex unless it is one of an error. -/
theorem arrive_cases (fd : Int) (e : Entry) (k : Kernel) :
    let x := arrive fd e k
    x.1.resources = k.resources ∧
      (x.1.events = k.events ∧ (∀ ev hpos, x.2 ≠ .inr (.handle ev hpos)) ∨
        ∃ ev, k.events = ev :: x.1.events ∧
          ((∃ hpos, x.2 = .inr (.handle ev hpos)) ∨ ¬ 0 ≤ ev.channel ∧ ∃ r, x.2 = .inl r)) := by
  cases e with
  | allocate candidates bandwidth error =>
    refine ⟨rfl, .inl ⟨rfl, fun ev hpos => ?_⟩⟩
    simp only [arrive]
    repeat' split
    all_goals rintro ⟨⟩
  | deallocate error =>
    refine ⟨rfl, .inl ⟨rfl, fun ev hpos => ?_⟩⟩
    simp only [arrive]
    repeat' split
    all_goals rintro ⟨⟩
  | getProperty id => exact ⟨rfl, .inl ⟨rfl, fun ev hpos => by rintro ⟨⟩⟩⟩
  | dispatch =>
    obtain ⟨resources, queue⟩ := k
    cases queue with
    | nil => exact ⟨rfl, .inl ⟨rfl, fun ev hpos => by rintro ⟨⟩⟩⟩
    | cons ev queue =>
      cases ev with
      | isoResource ev =>
        refine ⟨rfl, .inr ⟨ev, rfl, ?_⟩⟩
        by_cases hpos : 0 ≤ ev.channel
        · exact .inl ⟨hpos, by simp only [arrive, dif_pos hpos]⟩
        · exact .inr ⟨hpos, .emitted (signalOf ev), by simp only [arrive, dif_neg hpos]⟩
      | busReset generation => exact ⟨rfl, .inl ⟨rfl, fun ev hpos => by rintro ⟨⟩⟩⟩
      | other => exact ⟨rfl, .inl ⟨rfl, fun ev hpos => by rintro ⟨⟩⟩⟩

theorem Flight.eq_queued {jobs : Nat → Option Job} {k : Kernel} {flight : Option IsoResourceEvent}
    (h : Flight jobs k flight) {ev : IsoResourceEvent} {events : List IsoResourceEvent}
    (hevents : k.events = ev :: events) : flight = some ev ∧ events = [] ∧ Unread jobs := by
  cases h with
  | landed hnone _ =>
    rw [hnone] at hevents
    cases hevents
  | queued hone hread =>
    rw [hone] at hevents
    cases hevents
    exact ⟨rfl, rfl, hread⟩
  | carried hnone _ _ =>
    rw [hnone] at hevents
    cases hevents

namespace Heard

variable {s : Serial} {fd : Int}

theorem arrive (h : Heard s) (t : Nat) (e : Entry) : Heard (s.arrive (office fd) t e) := by
  obtain ⟨flight, hflight, htold⟩ := h
  simp only [Whole.arrive]
  cases hjob : s.jobs t with
  | some b => exact ⟨flight, hflight, htold⟩
  | none =>
    have hfree : ∀ ev hpos, s.jobs t ≠ some (.handle ev hpos) := by
      intro ev hpos
      rw [hjob]
      rintro ⟨⟩
    obtain ⟨hresources, hcases⟩ := arrive_cases fd e s.world
    have hoffice : (office fd).arrive e s.world = FwIsoResourceAuto.arrive fd e s.world := rfl
    rw [hoffice]
    generalize FwIsoResourceAuto.arrive fd e s.world = x at hresources hcases
    obtain ⟨k, r | b⟩ := x
    · dsimp only at hresources hcases ⊢
      rcases hcases with ⟨hevents, _⟩ | ⟨ev, hevents, ⟨_, hjob'⟩ | ⟨hneg, _⟩⟩
      · exact ⟨flight, hflight.congr hevents fun _ _ _ => .rfl, hresources ▸ htold⟩
      · cases hjob'
      · obtain ⟨rfl, hnone, hread⟩ := hflight.eq_queued hevents
        exact ⟨none, .landed hnone hread, hresources ▸ htold.drop hneg⟩
    · dsimp only at hresources hcases ⊢
      rcases hcases with ⟨hevents, hother⟩ | ⟨ev, hevents, ⟨hpos, hjob'⟩ | ⟨_, _, hjob'⟩⟩
      · refine ⟨flight, hflight.update hevents hfree fun ev hpos heq => ?_, hresources ▸ htold⟩
        exact hother ev hpos (congrArg Sum.inr (Option.some.inj heq))
      · obtain ⟨rfl, hnone, hread⟩ := hflight.eq_queued hevents
        obtain rfl := Sum.inr.inj hjob'
        refine ⟨some ev, .carried hnone (Function.update_self ..) fun t' ev' hpos' heq => ?_,
          hresources ▸ htold⟩
        by_contra hne
        exact hread t' ev' hpos' ((Function.update_of_ne hne _ s.jobs).symm.trans heq)
      · cases hjob'

theorem evolve (h : Heard s) {mv : KernelMove} (hpromised : PromisedMove s.world mv) :
    Heard { s with world := s.world.evolve mv } := by
  obtain ⟨flight, hflight, htold⟩ := h
  cases mv with
  | busReset generation =>
    refine ⟨flight, hflight.congr ?_ fun _ _ _ => .rfl, htold⟩
    rw [Kernel.evolve, Kernel.events_append]
    exact List.append_nil _
  | allocated handle channel bandwidth =>
    obtain ⟨rfl, htold'⟩ := htold.end_allocation hpromised channel bandwidth
    exact ⟨_, hflight.queue _ _, htold'⟩
  | deallocated handle channel bandwidth =>
    obtain ⟨hpos, hleaving⟩ := hpromised
    obtain ⟨rfl, htold'⟩ := htold.end_resource hleaving hpos bandwidth
    exact ⟨_, hflight.queue _ _, htold'⟩

theorem asks_allocate {self : FwIsoResourceAuto} (hfree : self.isAllocated = false)
    {candidates : List UInt8} {bandwidth : UInt32} {error : ErrorLocation}
    (haccepted : acceptsCandidates (some candidates) bandwidth) (hadmitted : error.admits) :
    (body (.allocate candidates bandwidth error haccepted hadmitted)).asks self =
      some (.request .allocateIsoResource (candidateMask candidates) bandwidth) := by
  simp only [body, Sect.asks, hfree, Bool.false_eq_true, if_false]

theorem work (h : Heard s) {t : Nat} {b : Job} (hjob : s.jobs t = some b)
    (answer : Except Nat UInt32)
    (hunhurried : ∀ request, (body b).asks s.data = some request →
      Unhurried request s.jobs s.world) :
    Heard (s.finish t (b.perform answer s.data s.world)) := by
  obtain ⟨flight, hflight, htold⟩ := h
  have hdone : ∀ ev (hpos : 0 ≤ ev.channel), (none : Option Job) ≠ some (.handle ev hpos) := by
    rintro ev hpos ⟨⟩
  cases b with
  | allocate candidates bandwidth error haccepted hadmitted =>
    refine ⟨flight, hflight.update rfl (fun ev hpos => ?_) hdone,
      htold.allocate (some candidates) bandwidth answer error fun hfree => ?_⟩
    · rw [hjob]
      rintro ⟨⟩
    · obtain ⟨hgranted, hnone⟩ := hunhurried _ (asks_allocate hfree haccepted hadmitted)
      refine ⟨hgranted, ?_⟩
      rintro ev rfl
      exact hnone ev hflight.inFlight
  | deallocate error hadmitted =>
    refine ⟨flight, hflight.update rfl (fun ev hpos => ?_) hdone,
      htold.deallocate (Kernel.refusal answer) error⟩
    rw [hjob]
    rintro ⟨⟩
  | handle ev hpos =>
    obtain ⟨rfl, hnone, hread⟩ := hflight.eq_carried hjob
    refine ⟨none, .landed hnone fun t' ev' hpos' heq => ?_, .settled (htold.handle hpos)⟩
    by_cases hne : t' = t
    · rw [hne, Whole.jobs_finish_self] at heq
      exact hdone ev' hpos' heq
    · rw [Whole.jobs_finish_of_ne hne] at heq
      exact hne (hread t' ev' hpos' heq)
  | getProperty id =>
    have hsame : (Job.getProperty id).perform answer s.data s.world =
        (s.data, s.world, ((Job.getProperty id).perform answer s.data s.world).2.2) := by
      cases id <;> rfl
    rw [hsame]
    refine ⟨flight, hflight.update rfl (fun ev hpos => ?_) hdone, htold⟩
    rw [hjob]
    rintro ⟨⟩

/-- **A move** of whole functions. -/
theorem step (h : Heard s) (hfd : 0 ≤ s.data.state.fd) {mv : Turns}
    (hpromised : promise.whole (office fd) mv s) : Heard (s.step (office fd) mv) := by
  rw [step_eq_serialStep hfd]
  cases mv with
  | arrive t e => exact h.arrive t e
  | work t answer =>
    simp only [serialStep]
    cases hjob : s.jobs t with
    | none => exact h
    | some b => exact h.work hjob answer fun request hasks => hpromised b request hjob hasks
  | evolve mv => exact h.evolve hpromised

end Heard

/-- A thread that is about to ask for a resource to be given up has changed nothing yet. -/
theorem reaches_deallocate {b : Job} {self self' : FwIsoResourceAuto} {handle : UInt32}
    {k : Except Nat UInt32 → Sect FwIsoResourceAuto ResourceEffect (Except Nat UInt32) Outcome}
    (h : (body b).Reaches self (.ask (.deallocateIsoResource handle) k) self') :
    self' = self ∧ self.isAllocated = true ∧ handle = self.handle := by
  have hasks := h.asks_eq
  cases b with
  | allocate candidates bandwidth error _ _ =>
    simp only [body, Sect.asks] at hasks
    split at hasks <;> cases hasks
  | deallocate error _ =>
    cases h with
    | look h =>
      dsimp only at h
      split at h
      · cases h
      next hallocated =>
        cases h with
        | look h =>
          cases h with
          | refl _ _ => exact ⟨rfl, by simpa using hallocated, rfl⟩
  | handle ev _ =>
    simp only [body] at hasks
    split at hasks <;> cases hasks
  | getProperty id => cases id <;> cases hasks

/-- **What is given up is what is shown**, and the kernel holds one resource at most: from an opened
object on, as long as no allocation is asked for while the answer to another is under way and no
resource ends in an error, and however the threads and the kernel come between each other. -/
theorem held_of_run (self : FwIsoResourceAuto) (hfd : 0 ≤ self.state.fd)
    (hfree : self.isAllocated = false) {ms : List Steps}
    (hms : Allowed (Split.step (office self.state.fd)) promise.split (start self) ms) :
    let s := run (Split.step (office self.state.fd)) (start self) ms
    s.world.resources.length ≤ 1 ∧
      (s.inside = none → s.data.isAllocated = true →
        (∀ r ∈ s.world.resources,
          r.handle = s.data.handle ∧ r.granted = some (s.data.channel, s.data.bandwidth)) ∧
        (s.world.resources = [] → ∃ ev, InFlight s.jobs s.world ev ∧ ev.type = .deallocated)) ∧
      ∀ t handle k, s.inside = some (t, .ask (.deallocateIsoResource handle) k) →
        ∀ r ∈ s.world.resources,
          r.handle = handle ∧ r.granted = some (s.data.channel, s.data.bandwidth) := by
  intro s
  obtain ⟨w, hmatches, ⟨flight, hflight, htold⟩, _⟩ := keeps_of_run (m := office self.state.fd)
    (g := promise) (fun _ _ _ _ h => h)
    (I := fun w => Heard w ∧ w.data.state = self.state)
    (fun mv w hg hw => by
      have hopen : 0 ≤ w.data.state.fd := by rw [hw.2]; exact hfd
      refine ⟨hw.1.step hopen hg, ?_⟩
      rw [step_eq_serialStep hopen, state_step]
      exact hw.2)
    (s := start self) rfl
    ⟨⟨none, .landed rfl (fun t ev hpos => by rintro ⟨⟩), .settled (.nothing hfree)⟩, rfl⟩ hms
  have hworld : w.world = s.world := hmatches.world_eq
  refine ⟨hworld ▸ htold.length_le, fun hin hheld => ?_, fun t handle k hin => ?_⟩
  · obtain rfl := hmatches.eq_of_outside hin
    obtain ⟨hshown, hended⟩ := htold.shows hheld
    refine ⟨hshown, fun hnil => ?_⟩
    obtain ⟨ev, rfl, htype⟩ := hended hnil
    exact ⟨ev, hflight.inFlight, htype⟩
  · rw [← hworld]
    cases hmatches with
    | outside hin' => rw [hin'] at hin; cases hin
    | before d hin' hjob hreach =>
      rw [hin'] at hin
      cases hin
      obtain ⟨hdata, hallocated, rfl⟩ := reaches_deallocate hreach
      have hshown := (htold.shows hallocated).1
      intro r hr
      obtain ⟨hhandle, hgranted⟩ := hshown r hr
      refine ⟨hhandle, hgranted.trans ?_⟩
      rw [← hdata]
    | after d r hin' hjob hsilent =>
      rw [hin'] at hin
      cases hin
      exact hsilent.elim

/-- A resource is allocated before the thread that has asked for it has written down its handle; a
second thread handles the event, and a third one is about to give the resource up. -/
def overtaken : List Steps :=
  [.arrive 0 (.allocate (some [5]) 100 (.at none)), .lock 0, .step (.ok 1), .step (.ok 1),
    .evolve (.allocated 1 5 100), .arrive 1 .dispatch, .lock 1, .step (.ok 1), .step (.ok 1),
    .lock 1, .step (.ok 1), .step (.ok 1), .step (.ok 1), .step (.ok 1),
    .arrive 2 (.deallocate (.at none)), .lock 2, .step (.ok 1), .step (.ok 1)]

def opened : FwIsoResourceAuto := { state := { fd := 3 } }

theorem allowed_overtaken :
    Allowed (Split.step (office opened.state.fd)) promise.split (start opened) overtaken := by
  refine ⟨trivial, trivial, ?_, ?_, ?_, trivial, trivial, ?_, ?_, trivial, ?_, ?_, ?_, ?_, trivial,
    trivial, ?_, ?_, trivial⟩
  · rintro t i k ⟨⟩
  · rintro t i k ⟨⟩
    refine ⟨fun r hr => absurd hr List.not_mem_nil, fun ev hev => ?_⟩
    rcases hev with hqueued | ⟨t, hpos, hjob⟩
    · exact absurd hqueued List.not_mem_nil
    · cases t <;> cases hjob
  · exact ⟨⟨1, none, false⟩, List.mem_singleton_self _, rfl, rfl⟩
  all_goals rintro t i k ⟨⟩

theorem held_overtaken :
    let s := run (Split.step (office opened.state.fd)) (start opened) overtaken
    (∃ k, s.inside = some (2, .ask (.deallocateIsoResource 1) k)) ∧
      s.world.resources ≠ [] ∧
      ∀ r ∈ s.world.resources,
        r.handle = 1 ∧ r.granted = some (s.data.channel, s.data.bandwidth) := by
  intro s
  obtain ⟨_, _, hasked⟩ := held_of_run opened (by decide) rfl allowed_overtaken
  exact ⟨⟨_, rfl⟩, by decide, hasked 2 1 _ rfl⟩

theorem serial_overtaken :
    let s := run (Split.step (office opened.state.fd)) (start opened) overtaken
    ∃ ns, ns.length ≤ overtaken.length ∧
      (run (serialStep opened.state.fd) (start opened).toWhole ns).world = s.world := by
  obtain ⟨ns, hlen, hworld, _⟩ := serial_of_run opened (by decide) overtaken
  exact ⟨ns, hlen, hworld⟩

end FwIsoResourceAuto

end Hinoko
