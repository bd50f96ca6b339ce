import Hinoko.Resource

/-!
# Resources for one generation of the bus

`fw_iso_resource_once.c`.  The kernel allocates and deallocates channels and bandwidth on
request, once, and the object does not remember what it has asked for.
-/

namespace Hinoko

/-- `HinokoFwIsoResourceOncePrivate`. -/
structure FwIsoResourceOnce where
  state : FwIsoResourceState := {}
deriving DecidableEq, Repr

namespace FwIsoResourceOnce

/-- `hinoko_fw_iso_resource_once_new`. -/
def new : FwIsoResourceOnce := {}

/-- `fw_iso_resource_once_allocate`; the handle of the answer is not looked at. -/
def allocate (self : FwIsoResourceOnce) (candidates : Option (List UInt8)) (bandwidth : UInt32)
    (answer : Except Nat UInt32) (error : ErrorLocation) : ResourceOut FwIsoResourceOnce :=
  if ¬ acceptsCandidates candidates bandwidth then ⟨self, .returned false, error, []⟩
  else if ¬ error.admits then ⟨self, .returned false, error, []⟩
  else if self.state.fd < 0 then ⟨self, .returned false, error.set (.coded .notOpened), []⟩
  else
    let request :=
      ResourceEffect.request .allocateIsoResourceOnce (candidateMask (candidates.getD [])) bandwidth
    match answer with
    | .error errno =>
      ⟨self, .returned false, error.set (.ioctl .allocateIsoResourceOnce errno), [request]⟩
    | .ok _ => ⟨self, .returned true, error, [request]⟩

/-- `handle_iso_resource_event`. -/
def handleIsoResourceEvent (ev : IsoResourceEvent) (self : FwIsoResourceOnce) :
    FwIsoResourceOnce × List ResourceEffect :=
  let parsed := parseIsoResourceEvent ev
  (self, [.emit parsed.signal parsed.channel parsed.bandwidth parsed.error])

/-- `hinoko_fw_iso_resource_once_deallocate`, with the error that the kernel answers. -/
def deallocate (self : FwIsoResourceOnce) (channel bandwidth : UInt32) (answer : Option Nat)
    (error : ErrorLocation) : ResourceOut FwIsoResourceOnce :=
  if ¬ error.admits then ⟨self, .returned false, error, []⟩
  else if 64 ≤ channel then ⟨self, .returned false, error, []⟩
  else if bandwidth = 0 then ⟨self, .returned false, error, []⟩
  else if self.state.fd < 0 then ⟨self, .returned false, error.set (.coded .notOpened), []⟩
  else
    let request := ResourceEffect.request .deallocateIsoResourceOnce
      ((1 : UInt64) <<< channel.toUInt64) bandwidth
    match answer with
    | some errno =>
      ⟨self, .returned false, error.set (.ioctl .deallocateIsoResourceOnce errno), [request]⟩
    | none => ⟨self, .returned true, error, [request]⟩

theorem state_allocate (self : FwIsoResourceOnce) (candidates : Option (List UInt8))
    (bandwidth : UInt32) (answer : Except Nat UInt32) (error : ErrorLocation) :
    (self.allocate candidates bandwidth answer error).state.state = self.state := by
  simp only [allocate]
  repeat' split
  all_goals rfl

instance : FwIsoResource FwIsoResourceOnce where
  state := state
  setState self st := { self with state := st }
  state_setState _ _ := rfl
  allocate := allocate
  state_allocate := state_allocate
  handleIsoResourceEvent := handleIsoResourceEvent
  state_handleIsoResourceEvent _ _ := rfl
  effects_handleIsoResourceEvent _ _ := rfl

end FwIsoResourceOnce

end Hinoko
