import Hinoko.Lib.Transition

/-!
# Isochronous resources

`HinokoFwIsoResource`, the interface of the two kinds of object that ask the Linux
FireWire subsystem for isochronous resources, and `fw_iso_resource_private.c`, from which
both are built (`ResourceAuto.lean`, `ResourceOnce.lean`).

A request is answered by an event, which the object takes from the character device later
and reports with a signal.  A call that waits for the answer connects a handler to the
signal (`Waiter`) before it makes the request.

`GError **error` is an argument like the others: it may be `NULL`, and the functions look
at it and write to it (`ErrorLocation`).
-/

namespace Hinoko

/-! ### Errors -/

/-- `HinokoFwIsoResourceError`. -/
inductive FwIsoResourceError where
  | failed
  | opened
  | notOpened
  | timeout
  | event
deriving DecidableEq, Repr

/-- `hinoko_fw_iso_resource_error_to_label`. -/
def FwIsoResourceError.toLabel : FwIsoResourceError → String
  | .failed => "The system call fails"
  | .opened => "The instance is already associated to any firewire character device"
  | .notOpened => "The instance is not associated to any firewire character device"
  | .timeout => "No event to the request arrives within timeout."
  | .event => "Event for the request arrives but includes error code"

/-- `HinokoFwIsoResourceAutoError`. -/
inductive FwIsoResourceAutoError where
  | failed
  | allocated
  | notAllocated
deriving DecidableEq, Repr

/-- `fw_iso_resource_auto_error_to_label`. -/
def FwIsoResourceAutoError.toLabel : FwIsoResourceAutoError → String
  | .failed => "The system call fails"
  | .allocated => "The instance is already associated to allocated isochronous resources"
  | .notAllocated => "The instance is not associated to allocated isochronous resources"

/-- The requests of the character device that a resource makes. -/
inductive ResourceRequest where
  | getInfo
  | allocateIsoResource
  | deallocateIsoResource
  | allocateIsoResourceOnce
  | deallocateIsoResourceOnce
deriving DecidableEq, Repr

def ResourceRequest.name : ResourceRequest → String
  | .getInfo => "FW_CDEV_IOC_GET_INFO"
  | .allocateIsoResource => "FW_CDEV_IOC_ALLOCATE_ISO_RESOURCE"
  | .deallocateIsoResource => "FW_CDEV_IOC_DEALLOCATE_ISO_RESOURCE"
  | .allocateIsoResourceOnce => "FW_CDEV_IOC_ALLOCATE_ISO_RESOURCE_ONCE"
  | .deallocateIsoResourceOnce => "FW_CDEV_IOC_DEALLOCATE_ISO_RESOURCE_ONCE"

inductive ResourceGError where
  /-- `generate_fw_iso_resource_error_coded` -/
  | coded (code : FwIsoResourceError)
  /-- `generate_local_error` of the automatic kind -/
  | auto (code : FwIsoResourceAutoError)
  /-- `generate_fw_iso_resource_error_ioctl` -/
  | ioctl (request : ResourceRequest) (errno : Nat)
  /-- `generate_syscall_error`, with the call as it is formatted -/
  | syscall (call : String) (errno : Nat)
  /-- `generate_file_error`, in the domain `G_FILE_ERROR` -/
  | file (call : String) (errno : Nat)
  /-- `generate_event_error` -/
  | event (errno : Int32)
deriving DecidableEq, Repr

/-- The code in the domain of `HinokoFwIsoResourceError`. -/
def ResourceGError.code : ResourceGError → Option FwIsoResourceError
  | .coded code => some code
  | .ioctl _ _ => some .failed
  | .syscall _ _ => some .failed
  | .event _ => some .event
  | .auto _ => none
  | .file _ _ => none

def ResourceGError.message (strerror : Int → String) : ResourceGError → String
  | .coded code => code.toLabel
  | .auto code => code.toLabel
  | .ioctl request errno => s!"ioctl({request.name}) {errno}({strerror errno})"
  | .syscall call errno => s!"{call} {errno}({strerror errno})"
  | .file call _ => call
  | .event errno => s!"{errno.toInt} {strerror errno.toInt}"

/-- A `GError **error`. -/
inductive ErrorLocation where
  | null
  /-- a location, and what it holds -/
  | at (content : Option ResourceGError)
deriving DecidableEq, Repr

namespace ErrorLocation

/-- `error == NULL || *error == NULL`. -/
def admits : ErrorLocation → Bool
  | .null => true
  | .at content => content.isNone

def content : ErrorLocation → Option ResourceGError
  | .null => none
  | .at content => content

/-- `g_set_error`: it stores nothing where there is no location, and leaves an error that has
been stored. -/
def set (e : ResourceGError) : ErrorLocation → ErrorLocation
  | .null => .null
  | .at none => .at (some e)
  | .at (some e') => .at (some e')

end ErrorLocation

/-! ### Calls -/

inductive ResourceRet where
  | returned (result : Bool)
  /-- not at all: `*error` is read where `error` is `NULL` -/
  | crashed
deriving DecidableEq, Repr

/-- The two signals that report an answer. -/
inductive ResourceSignal where
  | allocated
  | deallocated
deriving DecidableEq, Repr

/-- `ALLOCATED_SIGNAL_NAME` and `DEALLOCATED_SIGNAL_NAME`. -/
def ResourceSignal.name : ResourceSignal → String
  | .allocated => "allocated"
  | .deallocated => "deallocated"

inductive ResourceEffect where
  /-- the new descriptor, or an error -/
  | open (answer : Except Nat Nat)
  | close
  | getInfo
  | newSource
  | unrefSource
  /-- a request for resources, with the mask of channels -/
  | request (request : ResourceRequest) (channels : UInt64) (bandwidth : UInt32)
  | deallocateIsoResource (handle : UInt32)
  | emit (signal : ResourceSignal) (channel bandwidth : UInt32) (error : Option ResourceGError)
  /-- `g_object_notify` for the property of the generation -/
  | notifyGeneration
deriving DecidableEq, Repr

/-- What comes of a call: the new state, how it comes back, what `error` points to then, and what
it did. -/
structure ResourceOut (σ : Type) where
  state : σ
  ret : ResourceRet
  error : ErrorLocation
  effects : List ResourceEffect

namespace ResourceOut

variable {σ τ : Type}

def map (f : σ → τ) (o : ResourceOut σ) : ResourceOut τ := ⟨f o.state, o.ret, o.error, o.effects⟩

@[simp] theorem map_state (f : σ → τ) (o : ResourceOut σ) : (o.map f).state = f o.state := rfl
@[simp] theorem map_ret (f : σ → τ) (o : ResourceOut σ) : (o.map f).ret = o.ret := rfl
@[simp] theorem map_error (f : σ → τ) (o : ResourceOut σ) : (o.map f).error = o.error := rfl
@[simp] theorem map_effects (f : σ → τ) (o : ResourceOut σ) : (o.map f).effects = o.effects := rfl

end ResourceOut

/-- `struct fw_iso_resource_state`, as `fw_iso_resource_state_init` leaves it; of `bus_state`
only the generation is ever read. -/
structure FwIsoResourceState where
  fd : Int := -1
  generation : UInt32 := 0
deriving DecidableEq, Repr

/-- The kernel's answers to `fw_iso_resource_state_open`: the descriptor or an error, with whether
GLib has a `GFileError` for it, and the generation or the error of `FW_CDEV_IOC_GET_INFO`. -/
structure OpenEnv where
  openResult : Except (Nat × Bool) Nat
  getInfo : Except Nat UInt32

namespace FwIsoResourceState

/-- `fw_iso_resource_state_release`. -/
def release (st : FwIsoResourceState) : FwIsoResourceState × List ResourceEffect :=
  ({ st with fd := -1 }, if 0 ≤ st.fd then [.close] else [])

/-- `fw_iso_resource_state_cache_bus_state`. -/
def cacheBusState (st : FwIsoResourceState) (getInfo : Except Nat UInt32) (error : ErrorLocation) :
    ResourceOut FwIsoResourceState :=
  match getInfo with
  | .error errno => ⟨st, .returned false, error.set (.ioctl .getInfo errno), [.getInfo]⟩
  | .ok generation => ⟨{ st with generation := generation }, .returned true, error, [.getInfo]⟩

/-- `fw_iso_resource_state_open`. -/
def openPath (st : FwIsoResourceState) (path : Option String) (env : OpenEnv)
    (error : ErrorLocation) :
    ResourceOut FwIsoResourceState :=
  if path = none ∨ path = some "" then ⟨st, .returned false, error, []⟩
  else if ¬ error.admits then ⟨st, .returned false, error, []⟩
  else if 0 ≤ st.fd then ⟨st, .returned false, error.set (.coded .opened), []⟩
  else
    let call := "open(" ++ path.getD "" ++ ")"
    match env.openResult with
    | .error (errno, true) =>
      ⟨{ st with fd := -1 }, .returned false, error.set (.file call errno),
        [.open (.error errno)]⟩
    | .error (errno, false) =>
      ⟨{ st with fd := -1 }, .returned false, error.set (.syscall call errno),
        [.open (.error errno)]⟩
    | .ok fd =>
      let o := ({ st with fd := fd } : FwIsoResourceState).cacheBusState env.getInfo error
      match o.ret with
      | .returned true => ⟨o.state, .returned true, o.error, .open (.ok fd) :: o.effects⟩
      | ret =>
        ⟨o.state.release.1, ret, o.error, .open (.ok fd) :: o.effects ++ o.state.release.2⟩

/-- `fw_iso_resource_state_create_source`; `source` says whether there is a place for the new
source.  Unlike every other function it does not admit `error` to be `NULL`. -/
def createSource (st : FwIsoResourceState) (source : Bool) (getInfo : Except Nat UInt32)
    (error : ErrorLocation) : ResourceOut FwIsoResourceState :=
  if ¬ source then ⟨st, .returned false, error, []⟩
  else if error ≠ .at none then ⟨st, .returned false, error, []⟩
  else if st.fd < 0 then ⟨st, .returned false, error.set (.coded .notOpened), []⟩
  else
    let o := st.cacheBusState getInfo error
    match o.ret with
    | .returned true => ⟨o.state, .returned true, o.error, .newSource :: o.effects⟩
    | ret => ⟨o.state, ret, o.error, .newSource :: o.effects ++ [.unrefSource]⟩

end FwIsoResourceState

/-! ### Events -/

/-- `struct fw_cdev_event_iso_resource`; `type` is the signal that goes with it. -/
structure IsoResourceEvent where
  type : ResourceSignal
  handle : UInt32
  channel : Int32
  bandwidth : Int32
deriving DecidableEq, Repr

inductive ResourceEvent where
  | isoResource (ev : IsoResourceEvent)
  | busReset (generation : UInt32)
  | other
deriving DecidableEq, Repr

/-- What `parse_iso_resource_event` finds: the channel, the bandwidth, the signal, and the error. -/
structure ParsedEvent where
  channel : UInt32
  bandwidth : UInt32
  signal : ResourceSignal
  error : Option ResourceGError

/-- `parse_iso_resource_event`. -/
def parseIsoResourceEvent (ev : IsoResourceEvent) : ParsedEvent :=
  if 0 ≤ ev.channel then ⟨ev.channel.toUInt32, ev.bandwidth.toUInt32, ev.type, none⟩
  else ⟨0, 0, ev.type, some (.event (-ev.channel))⟩

/-- The virtual functions of `HinokoFwIsoResourceInterface` that differ between the kinds of
resource, and what a kind does with the event of a resource. -/
class FwIsoResource (π : Type) where
  state : π → FwIsoResourceState
  setState : π → FwIsoResourceState → π
  state_setState : ∀ p st, state (setState p st) = st
  /-- `allocate`, with the handle or the error that the kernel answers -/
  allocate : π → Option (List UInt8) → UInt32 → Except Nat UInt32 → ErrorLocation → ResourceOut π
  state_allocate : ∀ p candidates bandwidth answer error,
    state (allocate p candidates bandwidth answer error).state = state p
  handleIsoResourceEvent : IsoResourceEvent → π → π × List ResourceEffect
  state_handleIsoResourceEvent : ∀ ev p, state (handleIsoResourceEvent ev p).1 = state p
  effects_handleIsoResourceEvent : ∀ ev p, (handleIsoResourceEvent ev p).2 =
    [.emit (parseIsoResourceEvent ev).signal (parseIsoResourceEvent ev).channel
      (parseIsoResourceEvent ev).bandwidth (parseIsoResourceEvent ev).error]

attribute [simp] FwIsoResource.state_setState FwIsoResource.state_allocate
  FwIsoResource.state_handleIsoResourceEvent

/-- The mask of channels that the loops of the two `allocate` functions gather. -/
def candidateMask (candidates : List UInt8) : UInt64 :=
  candidates.foldl (fun (mask : UInt64) (channel : UInt8) =>
    if channel < 64 then mask ||| (1 : UInt64) <<< channel.toUInt64 else mask) 0

/-- The checks of the arguments that every function makes that allocates. -/
def acceptsCandidates (candidates : Option (List UInt8)) (bandwidth : UInt32) : Bool :=
  candidates ≠ none ∧ candidates ≠ some [] ∧ 0 < bandwidth

namespace FwIsoResource

variable {π : Type} [FwIsoResource π]

/-- `hinoko_fw_iso_resource_open`; the implementations of both kinds pass the call on. -/
def openPath (p : π) (path : Option String) (env : OpenEnv)
    (error : ErrorLocation) : ResourceOut π :=
  ((state p).openPath path env error).map (setState p)

/-- `handle_bus_reset_event`, which is the same in both kinds. -/
def handleBusResetEvent (generation : UInt32) (p : π) : π × List ResourceEffect :=
  (setState p { state p with generation := generation },
    if (state p).generation ≠ generation then [.notifyGeneration] else [])

/-- `fw_iso_resource_auto_handle_event` and `fw_iso_resource_once_handle_event`. -/
def handleEvent (ev : ResourceEvent) (p : π) : π × List ResourceEffect :=
  match ev with
  | .isoResource ev => handleIsoResourceEvent ev p
  | .busReset generation => handleBusResetEvent generation p
  | .other => (p, [])

/-- `fw_iso_resource_auto_create_source` and `fw_iso_resource_once_create_source`. -/
def createSourceOf (p : π) (source : Bool) (getInfo : Except Nat UInt32) (error : ErrorLocation) :
    ResourceOut π :=
  let o := (state p).createSource source getInfo error
  match o.ret with
  | .returned true =>
    ⟨setState p o.state, .returned true, o.error,
      if (state p).generation ≠ o.state.generation then o.effects ++ [.notifyGeneration]
      else o.effects⟩
  | ret => ⟨setState p o.state, ret, o.error, o.effects⟩

/-- `hinoko_fw_iso_resource_create_source`. -/
def createSource (p : π) (source : Bool) (getInfo : Except Nat UInt32) (error : ErrorLocation) :
    ResourceOut π :=
  if ¬ source then ⟨p, .returned false, error, []⟩
  else if ¬ error.admits then ⟨p, .returned false, error, []⟩
  else createSourceOf p source getInfo error

/-- `hinoko_fw_iso_resource_allocate`. -/
def allocateResource (p : π) (candidates : Option (List UInt8)) (bandwidth : UInt32)
    (answer : Except Nat UInt32) (error : ErrorLocation) : ResourceOut π :=
  if ¬ acceptsCandidates candidates bandwidth then ⟨p, .returned false, error, []⟩
  else if ¬ error.admits then ⟨p, .returned false, error, []⟩
  else allocate p candidates bandwidth answer error

end FwIsoResource

inductive ResourceWakeup where
  | closed
  | ioErr
  | again
  | readError (errno : Nat)
  | event (ev : ResourceEvent)

/-- `dispatch_src`; the flag says whether the source goes on. -/
def FwIsoResource.dispatch {π : Type} [FwIsoResource π] (w : ResourceWakeup) (p : π) :
    π × List ResourceEffect × Bool :=
  match w with
  | .closed => (p, [], false)
  | .ioErr => (p, [], false)
  | .again => (p, [], true)
  | .readError _ => (p, [], false)
  | .event ev =>
    let h := FwIsoResource.handleEvent ev p
    (h.1, h.2, true)

/-! ### Waiting for an answer -/

/-- `struct fw_iso_resource_waiter`, with the signal that its handler is connected to. -/
structure Waiter where
  signal : ResourceSignal
  error : Option ResourceGError := none
  handled : Bool := false
deriving DecidableEq, Repr

namespace Waiter

/-- `handle_event_signal`. -/
def handleEventSignal (w : Waiter) (error : Option ResourceGError) : Waiter :=
  { w with error := error.orElse fun _ => w.error, handled := true }

/-- What the handler does about the signals of an event. -/
def hear (w : Waiter) : List ResourceEffect → Waiter
  | [] => w
  | .emit signal _ _ error :: es =>
    if signal = w.signal then (w.handleEventSignal error).hear es else w.hear es
  | _ :: es => w.hear es

theorem signal_hear : ∀ (w : Waiter) (es : List ResourceEffect), (w.hear es).signal = w.signal := by
  intro w es
  fun_induction Waiter.hear w es with
  | case1 w => rfl
  | case2 w _ _ error es ih => exact ih
  | case3 w signal _ _ error es hsignal ih => exact ih
  | case4 w e es _ ih => exact ih

/-- The end of `fw_iso_resource_waiter_wait`, when the answer or the time-out has come. -/
def finish (w : Waiter) (error : ErrorLocation) : Bool × ErrorLocation :=
  if ¬ w.handled then (false, error.set (.coded .timeout))
  else
    match w.error with
    | some e => (false, .at (some e))
    | none => (true, error)

end Waiter

end Hinoko
