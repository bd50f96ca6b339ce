import Hinoko.Lib.Memory

/-!
# The character device and the errors of isochronous contexts

What an isochronous context says to the Linux FireWire subsystem, and what it
hears from it: the modes, the packet control word of `linux/firewire-cdev.h`, the
arguments of the requests, the events, and the errors a call leaves behind.

Guint values are `UInt32`, so every sum and product below wraps as in the source.
-/

namespace Hinoko

/-- `HinokoFwIsoCtxMode`. -/
inductive FwIsoCtxMode where
  | it
  | irSingle
  | irMultiple
deriving DecidableEq, Repr

/-- `HinokoFwIsoCtxError`. -/
inductive FwIsoCtxError where
  | failed
  | allocated
  | notAllocated
  | mapped
  | notMapped
  | chunkUnregistered
  | noIsocChannel
deriving DecidableEq, Repr

/-- `hinoko_fw_iso_ctx_error_to_label`. -/
def FwIsoCtxError.toLabel : FwIsoCtxError → String
  | .failed => "The system call fails"
  | .allocated => "The instance is already associated to any firewire character device"
  | .notAllocated => "The instance is not associated to any firewire character device"
  | .mapped => "The intermediate buffer is already mapped to the process"
  | .notMapped => "The intermediate buffer is not mapped to the process"
  | .chunkUnregistered => "No chunk registered before starting"
  | .noIsocChannel => "No isochronous channel available"

inductive Request where
  | getInfo
  | createIsoContext
  | setIsoChannels
  | queueIso
  | startIso
  | stopIso
deriving DecidableEq, Repr

def Request.name : Request → String
  | .getInfo => "FW_CDEV_IOC_GET_INFO"
  | .createIsoContext => "FW_CDEV_IOC_CREATE_ISO_CONTEXT"
  | .setIsoChannels => "FW_CDEV_IOC_SET_ISO_CHANNELS"
  | .queueIso => "FW_CDEV_IOC_QUEUE_ISO"
  | .startIso => "FW_CDEV_IOC_START_ISO"
  | .stopIso => "FW_CDEV_IOC_STOP_ISO"

inductive GError where
  /-- `generate_fw_iso_ctx_error_coded` -/
  | coded (code : FwIsoCtxError)
  /-- `generate_fw_iso_ctx_error_ioctl` -/
  | ioctl (request : Request) (errno : Nat)
  /-- `generate_syscall_error`, with the call as it is formatted -/
  | syscall (call : String) (errno : Nat)
  /-- `generate_file_error`, in the domain `G_FILE_ERROR` -/
  | file (call : String) (errno : Nat)
deriving DecidableEq, Repr

/-- The code in the domain of `HinokoFwIsoCtxError`. -/
def GError.code : GError → Option FwIsoCtxError
  | .coded code => some code
  | .ioctl _ _ => some .failed
  | .syscall _ _ => some .failed
  | .file _ _ => none

/-- The text, over the C library's `strerror`. -/
def GError.message (strerror : Nat → String) : GError → String
  | .coded code => code.toLabel
  | .ioctl request errno => s!"ioctl({request.name}) {errno} ({strerror errno})"
  | .syscall call errno => s!"{call} {errno}({strerror errno})"
  | .file call _ => call

/-- Where the C program has no behaviour: a division by zero, an access outside an
allocation, or a loop that does not end. -/
inductive Fault where
  | divByZero
  | outOfBounds
  | endless
deriving DecidableEq, Repr

inductive Ret where
  /-- `TRUE` -/
  | success
  /-- `FALSE` with `*error` set -/
  | failure (error : GError)
  /-- `FALSE` from `g_return_val_if_fail`, with `*error` left alone -/
  | rejected
  /-- not at all -/
  | crashed (fault : Fault)
deriving DecidableEq, Repr

def Ret.IsFalse : Ret → Prop
  | .failure _ => True
  | .rejected => True
  | _ => False

instance (r : Ret) : Decidable r.IsFalse := by
  cases r <;> simp only [Ret.IsFalse] <;> infer_instance

/-! ### The packet control word -/

def fwCdevIsoPayloadLength (v : UInt32) : UInt32 := v
def fwCdevIsoInterrupt : UInt32 := (1 : UInt32) <<< 16
def fwCdevIsoSkip : UInt32 := (1 : UInt32) <<< 17
def fwCdevIsoTag (v : UInt32) : UInt32 := v <<< 18
def fwCdevIsoSy (v : UInt32) : UInt32 := v <<< 20
def fwCdevIsoHeaderLength (v : UInt32) : UInt32 := v <<< 24

def fwCdevIsoPacketControlToHeaderLength (control : UInt32) : UInt32 :=
  (control &&& 0xff000000) >>> 24

def fwCdevIsoPacketControlToPayloadLength (control : UInt32) : UInt32 := control &&& 0x0000ffff

/-- `sizeof(struct fw_cdev_iso_packet)`: the control word; the header follows it. -/
def sizeofFwCdevIsoPacket : UInt32 := 4

def ieee1394IsoHeaderToDataLength (isoHeader : UInt32) : UInt32 :=
  (isoHeader &&& 0xffff0000) >>> 16

/-! ### Requests and answers -/

/-- `struct fw_cdev_queue_iso`.  `packets` counts from `state->data` and `data` from
`state->addr`. -/
structure QueueIso where
  packets : UInt32
  size : UInt32
  data : UInt32
  handle : UInt32
deriving DecidableEq, Repr

/-- `struct fw_cdev_start_iso`. -/
structure StartIso where
  cycle : UInt32
  sync : UInt32
  tags : UInt32
  handle : UInt32
deriving DecidableEq, Repr

/-- The answer to `FW_CDEV_IOC_QUEUE_ISO`: an error, or how many of the given packets
have been accepted. -/
inductive QueueAnswer where
  | failed (errno : Nat)
  | accepted (count : Nat)
deriving DecidableEq, Repr

/-- A packet as the device reads it from `arg.packets`. -/
structure IsoPacket where
  control : UInt32
  header : List UInt8
deriving DecidableEq, Repr

namespace IsoPacket

def bytes (p : IsoPacket) : List UInt8 := le32 p.control ++ p.header

def payloadLength (p : IsoPacket) : Nat := (fwCdevIsoPacketControlToPayloadLength p.control).toNat

end IsoPacket

inductive Effect where
  /-- the new descriptor, or an error -/
  | open (answer : Except Nat Nat)
  | close
  | getInfo
  /-- the handle of the new context, or an error -/
  | createIsoContext (answer : Except Nat UInt32)
  | setIsoChannels (channels : UInt64)
  /-- the length, whether it can be written to, and the mapping or an error -/
  | mmap (length : UInt32) (writable : Bool) (answer : Except Nat Nat)
  | munmap (length : UInt32)
  /-- the request, the bytes of the packets it points to, and the answer -/
  | queueIso (arg : QueueIso) (packets : List UInt8) (answer : QueueAnswer)
  | startIso (arg : StartIso) (accepted : Bool)
  | stopIso
  /-- `register_chunk` has put a packet into the store -/
  | chunk (packet : IsoPacket)
  /-- the application has registered a packet of an IT context with this payload -/
  | packet (skip : Bool) (payload : List UInt8)
  /-- the interrupted signal, with the number of packets it announces -/
  | interrupted (count : UInt32)
  /-- the stopped signal -/
  | stopped
  /-- `g_warn_if_fail` -/
  | warning
deriving DecidableEq, Repr

/-- What comes of a call: the new state, how it comes back, and what it did. -/
structure Out (σ : Type) where
  state : σ
  ret : Ret
  effects : List Effect

def Out.map {σ τ : Type} (f : σ → τ) (o : Out σ) : Out τ := ⟨f o.state, o.ret, o.effects⟩

@[simp] theorem Out.map_state {σ τ : Type} (f : σ → τ) (o : Out σ) :
    (o.map f).state = f o.state := rfl
@[simp] theorem Out.map_ret {σ τ : Type} (f : σ → τ) (o : Out σ) : (o.map f).ret = o.ret := rfl
@[simp] theorem Out.map_effects {σ τ : Type} (f : σ → τ) (o : Out σ) :
    (o.map f).effects = o.effects := rfl

/-- An array argument of a C function: a pointer, `NULL` or not, and its length. -/
structure ArrayArg where
  content : Option (List UInt8)
  length : UInt32
  length_eq : ∀ bs, content = some bs → bs.length = length.toNat

namespace ArrayArg

def null : ArrayArg := ⟨none, 0, by simp⟩

def ofList (bs : List UInt8) (h : bs.length < 4294967296) : ArrayArg :=
  ⟨some bs, UInt32.ofNat bs.length, by
    rintro _ ⟨rfl⟩
    rw [UInt32.toNat_ofNat', Nat.mod_eq_of_lt h]⟩

def bytes (a : ArrayArg) : List UInt8 := a.content.getD []

end ArrayArg

/-- `struct fw_cdev_event_iso_interrupt`; the header is the raw memory behind it. -/
structure IsoInterrupt where
  cycle : UInt32
  headerLength : UInt32
  header : ByteMem

/-- `struct fw_cdev_event_iso_interrupt_mc`. -/
structure IsoInterruptMc where
  completed : UInt32

/-- `union fw_cdev_event`, as far as a context tells the kinds apart. -/
inductive CdevEvent where
  | isoInterrupt (ev : IsoInterrupt)
  | isoInterruptMc (ev : IsoInterruptMc)
  | other

end Hinoko
