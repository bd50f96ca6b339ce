import Hinoko.Resource

/-!
# Resources that the kernel maintains

`fw_iso_resource_auto.c`.  The kernel allocates the resource again after each bus reset,
until it is asked to deallocate it or fails.  The object knows of one resource: its
handle, from the answer to the request, and its channel and bandwidth, from the event.
-/

namespace Hinoko

/-- `HinokoFwIsoResourceAutoPrivate`. -/
structure FwIsoResourceAuto where
  state : FwIsoResourceState := {}
  isAllocated : Bool := false
  channel : UInt32 := 0
  bandwidth : UInt32 := 0
  handle : UInt32 := 0
deriving DecidableEq, Repr

namespace FwIsoResourceAuto

/-- `hinoko_fw_iso_resource_auto_new`. -/
def new : FwIsoResourceAuto := {}

/-- `fw_iso_resource_auto_allocate`. -/
def allocate (self : FwIsoResourceAuto) (candidates : Option (List UInt8)) (bandwidth : UInt32)
    (answer : Except Nat UInt32) (error : ErrorLocation) : ResourceOut FwIsoResourceAuto :=
  if ¬ acceptsCandidates candidates bandwidth then ⟨self, .returned false, error, []⟩
  else if ¬ error.admits then ⟨self, .returned false, error, []⟩
  else if self.state.fd < 0 then ⟨self, .returned false, error.set (.coded .notOpened), []⟩
  else if self.isAllocated then ⟨self, .returned false, error.set (.auto .allocated), []⟩
  else
    let request :=
      ResourceEffect.request .allocateIsoResource (candidateMask (candidates.getD [])) bandwidth
    match answer with
    | .error errno =>
      ⟨self, .returned false, error.set (.ioctl .allocateIsoResource errno), [request]⟩
    | .ok handle => ⟨{ self with handle := handle }, .returned true, error, [request]⟩

/-- `handle_iso_resource_event`. -/
def handleIsoResourceEvent (ev : IsoResourceEvent) (self : FwIsoResourceAuto) :
    FwIsoResourceAuto × List ResourceEffect :=
  let parsed := parseIsoResourceEvent ev
  let self :=
    match parsed.error with
    | some _ => self
    | none =>
      match ev.type with
      | .allocated =>
        { self with channel := parsed.channel, bandwidth := parsed.bandwidth, isAllocated := true }
      | .deallocated =>
        { self with
          channel := 0, bandwidth := self.bandwidth - parsed.bandwidth, isAllocated := false }
  (self, [.emit parsed.signal parsed.channel parsed.bandwidth parsed.error])

/-- `hinoko_fw_iso_resource_auto_deallocate`, with the error that the kernel answers. -/
def deallocate (self : FwIsoResourceAuto) (answer : Option Nat) (error : ErrorLocation) :
    ResourceOut FwIsoResourceAuto :=
  if ¬ error.admits then ⟨self, .returned false, error, []⟩
  else if self.state.fd < 0 then ⟨self, .returned false, error.set (.coded .notOpened), []⟩
  else if ¬ self.isAllocated then ⟨self, .returned false, error.set (.auto .notAllocated), []⟩
  else
    match answer with
    | some errno =>
      ⟨self, .returned false, error.set (.ioctl .deallocateIsoResource errno),
        [.deallocateIsoResource self.handle]⟩
    | none => ⟨self, .returned true, error, [.deallocateIsoResource self.handle]⟩

theorem state_allocate (self : FwIsoResourceAuto) (candidates : Option (List UInt8))
    (bandwidth : UInt32) (answer : Except Nat UInt32) (error : ErrorLocation) :
    (self.allocate candidates bandwidth answer error).state.state = self.state := by
  simp only [allocate]
  repeat' split
  all_goals rfl

theorem state_handleIsoResourceEvent (ev : IsoResourceEvent) (self : FwIsoResourceAuto) :
    (handleIsoResourceEvent ev self).1.state = self.state := by
  simp only [handleIsoResourceEvent]
  repeat' split
  all_goals rfl

instance : FwIsoResource FwIsoResourceAuto where
  state := state
  setState self st := { self with state := st }
  state_setState _ _ := rfl
  allocate := allocate
  state_allocate := state_allocate
  handleIsoResourceEvent := handleIsoResourceEvent
  state_handleIsoResourceEvent := state_handleIsoResourceEvent
  effects_handleIsoResourceEvent _ _ := rfl

end FwIsoResourceAuto

end Hinoko
