import Hinoko.ResourceAuto

/-!
# What the kernel holds for a resource

A `FwIsoResourceAuto` and the kernel, from the opening of the character device on.  The
kernel creates a resource when it takes a request to allocate, and says with an event
whether it could; it gives the resource up when it has been asked to, or when it fails to
allocate it again after a bus reset, and says so with an event as well.

* `Matches`: the object and the kernel are in step.
* `mirrors_of_run`: they stay in step, and the properties tell so, as long as every event
  of an end tells of no error, and of the bandwidth that the object shows.
* `one_of_run`: the kernel holds one resource at most, if no allocation is asked for while
  the answer to another is under way.
-/

namespace Hinoko

open Transition

namespace FwIsoResourceAuto

/-! ### The kernel -/

/-- A resource of the kernel: the channel and the bandwidth when it has been allocated, and whether
it is to be given up. -/
structure KernelResource where
  handle : UInt32
  granted : Option (UInt32 × UInt32)
  leaving : Bool
deriving DecidableEq, Repr

structure Holding where
  object : FwIsoResourceAuto
  kernel : List KernelResource
deriving DecidableEq, Repr

/-- What the application calls, and what the object hears from the kernel. -/
inductive Turn where
  | openPath (path : Option String) (env : OpenEnv) (error : ErrorLocation)
  | createSource (source : Bool) (getInfo : Except Nat UInt32) (error : ErrorLocation)
  | allocate (candidates : Option (List UInt8)) (bandwidth : UInt32) (answer : Except Nat UInt32)
      (error : ErrorLocation)
  | deallocate (answer : Option Nat) (error : ErrorLocation)
  | busReset (generation : UInt32)
  /-- an allocation has come to an end -/
  | allocated (handle : UInt32) (channel bandwidth : Int32)
  /-- a resource has come to its end -/
  | deallocated (handle : UInt32) (channel bandwidth : Int32)

/-- The kernel has taken a request to allocate, or has not got one. -/
def create (kernel : List KernelResource) : List ResourceEffect → Except Nat UInt32 →
    List KernelResource
  | _ :: _, .ok handle => kernel ++ [⟨handle, none, false⟩]
  | _, _ => kernel

/-- The kernel has taken a request to deallocate, or has not got one. -/
def dismiss (kernel : List KernelResource) : List ResourceEffect → Option Nat → List KernelResource
  | .deallocateIsoResource handle :: _, none =>
    kernel.map fun r => if r.handle = handle then { r with leaving := true } else r
  | _, _ => kernel

def grant (kernel : List KernelResource) (handle : UInt32) (channel bandwidth : Int32) :
    List KernelResource :=
  if 0 ≤ channel then
    kernel.map fun r =>
      if r.handle = handle then
        { r with granted := some (channel.toUInt32, bandwidth.toUInt32) }
      else r
  else kernel.filter fun r => r.handle ≠ handle

def step (h : Holding) : Turn → Holding
  | .openPath path env error =>
    { h with object := (FwIsoResource.openPath h.object path env error).state }
  | .createSource source getInfo error =>
    { h with object := (FwIsoResource.createSource h.object source getInfo error).state }
  | .allocate candidates bandwidth answer error =>
    let o := FwIsoResource.allocateResource h.object candidates bandwidth answer error
    ⟨o.state, create h.kernel o.effects answer⟩
  | .deallocate answer error =>
    let o := h.object.deallocate answer error
    ⟨o.state, dismiss h.kernel o.effects answer⟩
  | .busReset generation =>
    { h with object := (FwIsoResource.handleEvent (.busReset generation) h.object).1 }
  | .allocated handle channel bandwidth =>
    ⟨(FwIsoResource.handleEvent (.isoResource ⟨.allocated, handle, channel, bandwidth⟩) h.object).1,
      grant h.kernel handle channel bandwidth⟩
  | .deallocated handle channel bandwidth =>
    ⟨(FwIsoResource.handleEvent (.isoResource ⟨.deallocated, handle, channel, bandwidth⟩)
        h.object).1,
      h.kernel.filter fun r => r.handle ≠ handle⟩

/-- What the kernel keeps to: handles are fresh, an event of an allocation is about one that is
pending, and an event of an end is about a resource that is to be given up or, with an error, about
one that could not be allocated again. -/
def Turn.Promised (h : Holding) : Turn → Prop
  | .allocate _ _ answer _ => ∀ handle, answer = .ok handle → ∀ r ∈ h.kernel, r.handle ≠ handle
  | .allocated handle _ _ => ∃ r ∈ h.kernel, r.handle = handle ∧ r.granted = none
  | .deallocated handle channel _ => ∃ r ∈ h.kernel, r.handle = handle ∧
      (r.leaving = true ∨ r.granted ≠ none ∧ channel < 0)
  | _ => True

/-- No request waits for its answer. -/
def Holding.Settled (h : Holding) : Prop := ∀ r ∈ h.kernel, r.granted ≠ none ∧ r.leaving = false

/-- Nothing is to be allocated while a request is pending. -/
def Turn.Orderly (h : Holding) : Turn → Prop
  | .allocate _ _ _ _ => h.Settled
  | _ => True

/-! ### What the functions of the object can do -/

theorem allocateResource_cases (self : FwIsoResourceAuto) (candidates : Option (List UInt8))
    (bandwidth : UInt32) (answer : Except Nat UInt32) (error : ErrorLocation) :
    let o := FwIsoResource.allocateResource self candidates bandwidth answer error
    o.state = self ∧ o.effects = [] ∨ self.isAllocated = false ∧
        (∃ request, o.effects = [request]) ∧
      ((∃ errno, answer = .error errno ∧ o.state = self) ∨
        ∃ handle, answer = .ok handle ∧ o.state = { self with handle := handle }) := by
  simp only [FwIsoResource.allocateResource, FwIsoResource.allocate, allocate]
  split
  · exact .inl ⟨rfl, rfl⟩
  split
  · exact .inl ⟨rfl, rfl⟩
  split
  · exact .inl ⟨rfl, rfl⟩
  split
  · exact .inl ⟨rfl, rfl⟩
  next hfree =>
    refine .inr ⟨Bool.eq_false_iff.mpr hfree, ?_⟩
    cases answer with
    | error errno => exact ⟨⟨_, rfl⟩, .inl ⟨errno, rfl, rfl⟩⟩
    | ok handle => exact ⟨⟨_, rfl⟩, .inr ⟨handle, rfl, rfl⟩⟩

theorem deallocate_cases (self : FwIsoResourceAuto) (answer : Option Nat) (error : ErrorLocation) :
    let o := self.deallocate answer error
    o.state = self ∧ (o.effects = [] ∨
      self.isAllocated = true ∧ o.effects = [.deallocateIsoResource self.handle]) := by
  simp only [deallocate]
  split
  · exact ⟨rfl, .inl rfl⟩
  split
  · exact ⟨rfl, .inl rfl⟩
  split
  · exact ⟨rfl, .inl rfl⟩
  next hallocated =>
    cases answer with
    | some errno => exact ⟨rfl, .inr ⟨by simpa using hallocated, rfl⟩⟩
    | none => exact ⟨rfl, .inr ⟨by simpa using hallocated, rfl⟩⟩

theorem handleIsoResourceEvent_of_neg {ev : IsoResourceEvent} (self : FwIsoResourceAuto)
    (h : ¬ 0 ≤ ev.channel) : (handleIsoResourceEvent ev self).1 = self := by
  simp only [handleIsoResourceEvent, parseIsoResourceEvent, if_neg h]

theorem handleIsoResourceEvent_allocated {handle : UInt32} {channel bandwidth : Int32}
    (self : FwIsoResourceAuto) (h : 0 ≤ channel) :
    (handleIsoResourceEvent ⟨.allocated, handle, channel, bandwidth⟩ self).1 =
      { self with
        channel := channel.toUInt32, bandwidth := bandwidth.toUInt32, isAllocated := true } := by
  simp only [handleIsoResourceEvent, parseIsoResourceEvent, if_pos h]

theorem handleIsoResourceEvent_deallocated {handle : UInt32} {channel bandwidth : Int32}
    (self : FwIsoResourceAuto) (h : 0 ≤ channel) :
    (handleIsoResourceEvent ⟨.deallocated, handle, channel, bandwidth⟩ self).1 =
      { self with
        channel := 0, bandwidth := self.bandwidth - bandwidth.toUInt32, isAllocated := false } := by
  simp only [handleIsoResourceEvent, parseIsoResourceEvent, if_pos h]

/-! ### The object and the kernel in step -/

/-- What the object knows of what the kernel holds. -/
inductive Matches (self : FwIsoResourceAuto) : List KernelResource → Prop where
  | nothing (h : self.isAllocated = false) : Matches self []
  | asked (h : self.isAllocated = false) : Matches self [⟨self.handle, none, false⟩]
  | held (leaving : Bool) (h : self.isAllocated = true) :
      Matches self [⟨self.handle, some (self.channel, self.bandwidth), leaving⟩]

namespace Matches

variable {self self' : FwIsoResourceAuto} {kernel : List KernelResource}

theorem congr (h : Matches self kernel) (hallocated : self'.isAllocated = self.isAllocated)
    (hhandle : self'.handle = self.handle) (hchannel : self'.channel = self.channel)
    (hbandwidth : self'.bandwidth = self.bandwidth) : Matches self' kernel := by
  cases h with
  | nothing h => exact .nothing (hallocated.trans h)
  | asked h =>
    rw [← hhandle]
    exact .asked (hallocated.trans h)
  | held leaving h =>
    rw [← hhandle, ← hchannel, ← hbandwidth]
    exact .held leaving (hallocated.trans h)

theorem allocate (h : Matches self kernel) (hpending : ∀ r ∈ kernel, r.granted ≠ none)
    (candidates : Option (List UInt8)) (bandwidth : UInt32) (answer : Except Nat UInt32)
    (error : ErrorLocation) :
    let o := FwIsoResource.allocateResource self candidates bandwidth answer error
    Matches o.state (create kernel o.effects answer) := by
  intro o
  rcases self.allocateResource_cases candidates bandwidth answer error with
    ⟨hstate, heffects⟩ | ⟨hfree, ⟨request, heffects⟩, ⟨errno, rfl, hstate⟩ | ⟨handle, rfl, hstate⟩⟩
  · simp only [o, hstate, heffects, create]
    exact h
  · simp only [o, hstate, heffects, create]
    exact h
  · simp only [o, hstate, heffects, create]
    cases h with
    | nothing h => exact .asked h
    | asked h => exact absurd rfl (hpending _ List.mem_cons_self)
    | held leaving h =>
      rw [h] at hfree
      cases hfree

theorem deallocate (h : Matches self kernel) (answer : Option Nat) (error : ErrorLocation) :
    let o := self.deallocate answer error
    Matches o.state (dismiss kernel o.effects answer) := by
  intro o
  obtain ⟨hstate, heffects | ⟨hallocated, heffects⟩⟩ := self.deallocate_cases answer error
  · simp only [o, hstate, heffects, dismiss]
    exact h
  · simp only [o, hstate, heffects]
    cases answer with
    | some errno => exact h
    | none =>
      cases h with
      | nothing h => exact .nothing h
      | asked h =>
        rw [h] at hallocated
        cases hallocated
      | held leaving h =>
        simp only [dismiss, List.map_cons, List.map_nil, if_true]
        exact .held true h

theorem granted (h : Matches self kernel) {handle : UInt32}
    (hpending : ∃ r ∈ kernel, r.handle = handle ∧ r.granted = none) (channel bandwidth : Int32) :
    Matches (handleIsoResourceEvent ⟨.allocated, handle, channel, bandwidth⟩ self).1
      (grant kernel handle channel bandwidth) := by
  obtain ⟨r, hr, rfl, hnone⟩ := hpending
  cases h with
  | nothing h => exact absurd hr List.not_mem_nil
  | held leaving h =>
    rw [List.mem_singleton.mp hr] at hnone
    cases hnone
  | asked h =>
    rw [List.mem_singleton.mp hr, grant]
    split
    next hpos =>
      rw [handleIsoResourceEvent_allocated self hpos]
      simp only [List.map_cons, List.map_nil, if_true]
      exact .held false rfl
    next hneg =>
      rw [handleIsoResourceEvent_of_neg self hneg]
      simp only [List.filter_cons, List.filter_nil, ne_eq, not_true, decide_false]
      exact .nothing h

/-- The end of a resource, told without an error. -/
theorem ended (h : Matches self kernel) {handle : UInt32} {channel : Int32} (hpos : 0 ≤ channel)
    (hleaving : ∃ r ∈ kernel, r.handle = handle ∧
      (r.leaving = true ∨ r.granted ≠ none ∧ channel < 0)) (bandwidth : Int32) :
    Matches (handleIsoResourceEvent ⟨.deallocated, handle, channel, bandwidth⟩ self).1
      (kernel.filter fun r => r.handle ≠ handle) := by
  obtain ⟨r, hr, rfl, hwhy⟩ := hleaving
  cases h with
  | nothing h => exact absurd hr List.not_mem_nil
  | asked h =>
    rw [List.mem_singleton.mp hr] at hwhy
    rcases hwhy with hwhy | ⟨hwhy, _⟩
    · cases hwhy
    · exact absurd rfl hwhy
  | held leaving h =>
    rw [handleIsoResourceEvent_deallocated self hpos, List.mem_singleton.mp hr]
    simp only [List.filter_cons, List.filter_nil, ne_eq, not_true, decide_false]
    exact .nothing rfl

end Matches

/-- The functions that deal with the character device leave alone what is known of the resource. -/
theorem openPath_keeps (self : FwIsoResourceAuto) (path : Option String) (env : OpenEnv)
    (error : ErrorLocation) :
    ∃ st, (FwIsoResource.openPath self path env error).state = { self with state := st } :=
  ⟨_, rfl⟩

theorem createSource_keeps (self : FwIsoResourceAuto) (source : Bool) (getInfo : Except Nat UInt32)
    (error : ErrorLocation) :
    ∃ st, (FwIsoResource.createSource self source getInfo error).state =
        { self with state := st } := by
  simp only [FwIsoResource.createSource, FwIsoResource.createSourceOf]
  repeat' split
  all_goals exact ⟨_, rfl⟩

/-! ### Runs -/

/-- Nothing is to be allocated while an allocation is pending, and no resource ends in an error. -/
def Turn.Alone (h : Holding) : Turn → Prop
  | .allocate _ _ _ _ => ∀ r ∈ h.kernel, r.granted ≠ none
  | .deallocated _ channel _ => 0 ≤ channel
  | _ => True

/-- **A turn** keeps the object and the kernel in step. -/
theorem Matches.step {h : Holding} (hm : Matches h.object h.kernel) {t : Turn}
    (hpromised : t.Promised h)
    (halone : t.Alone h) : Matches (step h t).object (step h t).kernel := by
  cases t with
  | openPath path env error =>
    obtain ⟨st, hstate⟩ := h.object.openPath_keeps path env error
    simp only [FwIsoResourceAuto.step, hstate]
    exact hm.congr rfl rfl rfl rfl
  | createSource source getInfo error =>
    obtain ⟨st, hstate⟩ := h.object.createSource_keeps source getInfo error
    simp only [FwIsoResourceAuto.step, hstate]
    exact hm.congr rfl rfl rfl rfl
  | allocate candidates bandwidth answer error => exact hm.allocate halone _ _ _ _
  | deallocate answer error => exact hm.deallocate answer error
  | busReset generation => exact hm.congr rfl rfl rfl rfl
  | allocated handle channel bandwidth => exact hm.granted hpromised channel bandwidth
  | deallocated handle channel bandwidth => exact hm.ended halone hpromised bandwidth

/-- **One resource at most**: the kernel holds no second resource, and the object knows the handle,
the channel and the bandwidth of the one that it says is allocated. -/
theorem one_of_run {ts : List Turn}
    (hts : Allowed step (fun t h => t.Promised h ∧ t.Alone h) ⟨new, []⟩ ts) :
    let h := run step ⟨new, []⟩ ts
    h.kernel.length ≤ 1 ∧ (h.object.isAllocated = true → ∃ r ∈ h.kernel,
      r.handle = h.object.handle ∧ r.granted = some (h.object.channel, h.object.bandwidth)) := by
  intro h
  have hm : Matches h.object h.kernel :=
    run_keeps (I := fun h : Holding => Matches h.object h.kernel)
      (fun t h ht hm => hm.step ht.1 ht.2) hts (.nothing rfl)
  generalize h.kernel = kernel at hm
  cases hm with
  | nothing hfree => exact ⟨Nat.zero_le 1, fun htrue => by rw [hfree] at htrue; cases htrue⟩
  | asked hfree => exact ⟨Nat.le_refl 1, fun htrue => by rw [hfree] at htrue; cases htrue⟩
  | held leaving _ => exact ⟨Nat.le_refl 1, fun _ => ⟨_, List.mem_cons_self, rfl, rfl⟩⟩

/-- A resource that ends does so without an error, and with the bandwidth that the object shows. -/
def Turn.Clean (h : Holding) : Turn → Prop
  | .deallocated _ channel bandwidth => 0 ≤ channel ∧ bandwidth.toUInt32 = h.object.bandwidth
  | _ => True

theorem Turn.Clean.alone {h : Holding} {t : Turn} (ht : t.Clean h) (horderly : t.Orderly h) :
    t.Alone h := by
  cases t with
  | allocate _ _ _ _ => exact fun r hr => (horderly r hr).1
  | deallocated _ _ _ => exact ht.1
  | _ => trivial

/-- What the object shows when it says that nothing is allocated. -/
def Blank (self : FwIsoResourceAuto) : Prop :=
  self.isAllocated = false → self.channel = 0 ∧ self.bandwidth = 0

theorem Blank.step {h : Holding} (hblank : Blank h.object) {t : Turn} (hclean : t.Clean h) :
    Blank (step h t).object := by
  cases t with
  | openPath path env error =>
    obtain ⟨st, hstate⟩ := h.object.openPath_keeps path env error
    simp only [FwIsoResourceAuto.step, hstate]
    exact hblank
  | createSource source getInfo error =>
    obtain ⟨st, hstate⟩ := h.object.createSource_keeps source getInfo error
    simp only [FwIsoResourceAuto.step, hstate]
    exact hblank
  | allocate candidates bandwidth answer error =>
    simp only [FwIsoResourceAuto.step]
    rcases h.object.allocateResource_cases candidates bandwidth answer error with
      ⟨hstate, _⟩ | ⟨_, _, ⟨_, _, hstate⟩ | ⟨_, _, hstate⟩⟩
    · rw [hstate]
      exact hblank
    · rw [hstate]
      exact hblank
    · rw [hstate]
      exact hblank
  | deallocate answer error =>
    simp only [FwIsoResourceAuto.step, (h.object.deallocate_cases answer error).1]
    exact hblank
  | busReset generation => exact hblank
  | allocated handle channel bandwidth =>
    simp only [FwIsoResourceAuto.step, FwIsoResource.handleEvent,
        FwIsoResource.handleIsoResourceEvent]
    by_cases hpos : 0 ≤ channel
    · rw [handleIsoResourceEvent_allocated _ hpos]
      exact fun hfree => by cases hfree
    · rw [handleIsoResourceEvent_of_neg _ hpos]
      exact hblank
  | deallocated handle channel bandwidth =>
    simp only [FwIsoResourceAuto.step, FwIsoResource.handleEvent,
        FwIsoResource.handleIsoResourceEvent]
    rw [handleIsoResourceEvent_deallocated _ hclean.1, hclean.2]
    exact fun _ => ⟨rfl, UInt32.sub_self _⟩

/-- **The object mirrors the kernel**: it says that a resource is allocated just when the kernel
holds one, shows nothing otherwise, and can ask for one again. -/
theorem mirrors_of_run {ts : List Turn}
    (hts : Allowed step (fun t h => (t.Promised h ∧ t.Orderly h) ∧ t.Clean h) ⟨new, []⟩ ts) :
    let h := run step ⟨new, []⟩ ts
    (h.object.isAllocated = true ↔ ∃ r ∈ h.kernel, r.granted ≠ none) ∧
      (h.object.isAllocated = false → h.object.channel = 0 ∧ h.object.bandwidth = 0) ∧
      ((∀ r ∈ h.kernel, r.granted = none) → ∀ candidates bandwidth answer,
        (FwIsoResource.allocateResource h.object candidates bandwidth answer (.at none)).error ≠
          .at (some (.auto .allocated))) := by
  intro h
  obtain ⟨hm, hblank⟩ : Matches h.object h.kernel ∧ Blank h.object :=
    run_keeps (I := fun h : Holding => Matches h.object h.kernel ∧ Blank h.object)
      (fun t h ht hm => ⟨hm.1.step ht.1.1 (ht.2.alone ht.1.2), hm.2.step ht.2⟩) hts
      ⟨.nothing rfl, fun _ => ⟨rfl, rfl⟩⟩
  have hiff : h.object.isAllocated = true ↔ ∃ r ∈ h.kernel, r.granted ≠ none := by
    generalize h.kernel = kernel at hm
    cases hm with
    | nothing hfree => simp [hfree]
    | asked hfree => simp [hfree]
    | held leaving hallocated => simp [hallocated]
  refine ⟨hiff, hblank, fun hnone candidates bandwidth answer => ?_⟩
  have hfree : h.object.isAllocated = false := by
    rw [Bool.eq_false_iff, ne_eq, hiff]
    rintro ⟨r, hr, hgranted⟩
    exact hgranted (hnone r hr)
  simp only [FwIsoResource.allocateResource, FwIsoResource.allocate, allocate, hfree]
  split
  · rintro ⟨⟩
  split
  · rintro ⟨⟩
  split
  · rintro ⟨⟩
  split
  next htrue => cases htrue
  split
  · rintro ⟨⟩
  · rintro ⟨⟩

/-! ### Two runs that go wrong, and one that does not -/

def grantOpen : OpenEnv := ⟨.ok 3, .ok 1⟩

def lost : List Turn :=
  [.openPath (some "/dev/fw0") grantOpen (.at none), .allocate (some [5]) 100 (.ok 1) (.at none),
    .allocated 1 5 100, .busReset 2, .deallocated 1 (-11) 0]

/-- **A resource that is lost** stays allocated for the object, which refuses to ask for another. -/
theorem mirror_fails :
    let h := run step ⟨new, []⟩ lost
    Allowed step (fun t h => t.Promised h ∧ t.Orderly h) ⟨new, []⟩ lost ∧
      h.object.isAllocated = true ∧ h.kernel = [] ∧
      (FwIsoResource.allocateResource h.object (some [6]) 100 (.ok 2) (.at none)).error =
        .at (some (.auto .allocated)) := by
  refine ⟨⟨⟨trivial, trivial⟩, ⟨?_, ?_⟩, ⟨?_, trivial⟩, ⟨trivial, trivial⟩, ⟨?_, trivial⟩, trivial⟩,
    by decide, by decide, by decide⟩
  · rintro handle _ r hr
    exact absurd hr List.not_mem_nil
  · exact fun r hr => absurd hr List.not_mem_nil
  · exact ⟨⟨1, none, false⟩, by decide, rfl, rfl⟩
  · exact ⟨⟨1, some (5, 100), false⟩, by decide, rfl, .inr ⟨nofun, by decide⟩⟩

def doubled : List Turn :=
  [.openPath (some "/dev/fw0") grantOpen (.at none), .allocate (some [5]) 100 (.ok 1) (.at none),
    .allocate (some [6]) 100 (.ok 2) (.at none), .allocated 1 5 100]

/-- **Two requests, two resources**, and the object has the handle of one with the channel of the
other. -/
theorem one_fails :
    let h := run step ⟨new, []⟩ doubled
    Allowed step (fun t h => t.Promised h) ⟨new, []⟩ doubled ∧ h.kernel.length = 2 ∧
      h.object.isAllocated = true ∧ h.object.handle = 2 ∧
      h.kernel = [⟨1, some (5, 100), false⟩, ⟨2, none, false⟩] := by
  refine ⟨⟨trivial, ?_, ?_, ?_, trivial⟩, by decide, by decide, by decide, by decide⟩
  · rintro handle _ r hr
    exact absurd hr List.not_mem_nil
  · rintro handle ⟨rfl⟩ r hr
    have hkernel : r = ⟨1, none, false⟩ := List.mem_singleton.mp hr
    rw [hkernel]
    decide
  · exact ⟨⟨1, none, false⟩, by decide, rfl, rfl⟩

def returned : List Turn :=
  [.openPath (some "/dev/fw0") grantOpen (.at none), .allocate (some [5]) 100 (.ok 1) (.at none),
    .allocated 1 5 100, .deallocate none (.at none), .deallocated 1 5 100]

theorem promised_returned :
    Allowed step (fun t h => (t.Promised h ∧ t.Orderly h) ∧ t.Clean h) ⟨new, []⟩ returned := by
  refine ⟨⟨⟨trivial, trivial⟩, trivial⟩, ⟨⟨?_, ?_⟩, trivial⟩, ⟨⟨?_, trivial⟩, trivial⟩,
    ⟨⟨trivial, trivial⟩, trivial⟩, ⟨⟨?_, trivial⟩, ?_⟩, trivial⟩
  · rintro handle _ r hr
    exact absurd hr List.not_mem_nil
  · exact fun r hr => absurd hr List.not_mem_nil
  · exact ⟨⟨1, none, false⟩, by decide, rfl, rfl⟩
  · exact ⟨⟨1, some (5, 100), true⟩, by decide, rfl, .inl rfl⟩
  · exact ⟨by decide, by decide⟩

theorem mirrors_returned :
    let h := run step ⟨new, []⟩ returned
    h.object.isAllocated = false ∧ h.object.channel = 0 ∧ h.object.bandwidth = 0 := by
  obtain ⟨_, hblank, _⟩ := mirrors_of_run promised_returned
  have hfree : (run step ⟨new, []⟩ returned).object.isAllocated = false := by decide
  exact ⟨hfree, hblank hfree⟩

theorem one_allocated :
    let h := run step ⟨new, []⟩ (returned.take 3)
    h.kernel.length ≤ 1 ∧ ∃ r ∈ h.kernel, r.handle = 1 ∧ r.granted = some (5, 100) := by
  have hts : Allowed step (fun t h => t.Promised h ∧ t.Alone h) ⟨new, []⟩ (returned.take 3) :=
    (allowed_append.mp (promised_returned.mono fun t h ht => ⟨ht.1.1, ht.2.alone ht.1.2⟩ :
      Allowed step _ _ (returned.take 3 ++ returned.drop 3))).1
  obtain ⟨hone, hheld⟩ := one_of_run hts
  exact ⟨hone, hheld (by decide)⟩

end FwIsoResourceAuto

end Hinoko
