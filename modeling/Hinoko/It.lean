import Hinoko.Ctx

/-!
# IT contexts

`fw_iso_it.c`.  `registerPacket` puts the packet into the store and writes its
payload into the mapped buffer at its own cursor `offset`; a payload that reaches
the end of the buffer goes on at its start.
-/

namespace Hinoko

open Reentrant

/-- `HinokoFwIsoItPrivate`, with the content of the mapped buffer. -/
structure FwIsoIt where
  state : FwIsoCtxState := {}
  offset : UInt32 := 0
  mem : ByteMem := fun _ => 0

namespace FwIsoIt

/-- `hinoko_fw_iso_it_new`. -/
def new : FwIsoIt := {}

/-- `hinoko_fw_iso_it_allocate`. -/
def allocate (self : FwIsoIt) (path : Option String) (scode channel headerSize : UInt32)
    (env : AllocateEnv) : Out FwIsoIt :=
  if 63 < channel then ⟨self, .rejected, []⟩
  else (self.state.allocate path .it scode channel headerSize env).map fun st =>
    { self with state := st }

/-- `hinoko_fw_iso_it_map_buffer`; `mem` is what a new mapping holds. -/
def mapBuffer (self : FwIsoIt) (maximumBytesPerPayload payloadsPerBuffer : UInt32) (env : MapEnv)
    (mem : ByteMem) : Out FwIsoIt :=
  let o := self.state.mapBuffer maximumBytesPerPayload payloadsPerBuffer env
  o.map fun st => { self with state := st, mem := if o.ret = .success then mem else self.mem }

/-- `fw_iso_it_unmap_buffer`. -/
def unmapBuffer (self : FwIsoIt) : Out FwIsoIt :=
  self.state.unmapBuffer.map fun st => { self with state := st }

/-- `fw_iso_it_release`. -/
def release (self : FwIsoIt) : Out FwIsoIt :=
  self.state.release.map fun st => { self with state := st }

/-- `hinoko_fw_iso_it_start`. -/
def start (self : FwIsoIt) (cycleMatch : Option (UInt16 × UInt16)) (env : StartEnv) :
    Out FwIsoIt :=
  if ¬ FwIsoCtxState.acceptsCycleMatch cycleMatch then ⟨self, .rejected, []⟩
  else (self.state.start cycleMatch 0 0 env).map fun st => { self with state := st }

/-- `memcpy` to a frame of the mapped buffer, which it must not leave. -/
def copyTo (self : FwIsoIt) (frame : Option UInt32) (bs : List UInt8) : Option ByteMem :=
  if bs = [] then some self.mem
  else
    match self.state.addr, frame with
    | .mapped _, some offset =>
      if offset.toNat + bs.length ≤ self.state.bytesPerBuffer.toNat then
        some (self.mem.write offset.toNat bs)
      else none
    | _, _ => none

/-- The part of `hinoko_fw_iso_it_register_packet` that writes the payload. -/
def writePayload (self : FwIsoIt) (payload : List UInt8) (payloadLength : UInt32) :
    Option FwIsoIt := do
  let (frames, frameSize) := self.state.readFrame self.offset payloadLength
  let mem ← self.copyTo frames (payload.take frameSize.toNat)
  let self := { self with mem := mem, offset := self.offset + frameSize }
  if frameSize = payloadLength then return self
  else
    let rest := payloadLength - frameSize
    let payload := payload.drop frameSize.toNat
    let (frames, frameSize) := self.state.readFrame 0 rest
    let mem ← self.copyTo frames (payload.take frameSize.toNat)
    return { self with mem := mem, offset := frameSize }

/-- A pointer goes with a length above zero, and `NULL` with zero. -/
def acceptsArray (a : ArrayArg) : Bool :=
  (a.content ≠ none ∧ 0 < a.length) ∨ (a.content = none ∧ a.length = 0)

/-- `hinoko_fw_iso_it_register_packet`. -/
def registerPacket (self : FwIsoIt) (tags syncCode : UInt32) (header payload : ArrayArg)
    (scheduleInterrupt : Bool) : Out FwIsoIt :=
  if 15 < syncCode then ⟨self, .rejected, []⟩
  else if ¬ acceptsArray header then ⟨self, .rejected, []⟩
  else if ¬ acceptsArray payload then ⟨self, .rejected, []⟩
  else
    let skip : Bool := header.length = 0 ∧ payload.length = 0
    let o := self.state.registerChunk skip tags syncCode header payload.length scheduleInterrupt
    match o.ret with
    | .success =>
      let self := { self with state := o.state }
      match self.writePayload payload.bytes payload.length with
      | none => ⟨self, .crashed .outOfBounds, o.effects⟩
      | some self => ⟨self, .success, o.effects ++ [.packet skip payload.bytes]⟩
    | ret => ⟨{ self with state := o.state }, ret, o.effects⟩

/-- The part of `fw_iso_it_handle_event` behind the signal. -/
def queueChunks (answers : Nat → QueueAnswer) (self : FwIsoIt) : Out FwIsoIt :=
  (self.state.queueChunks answers).map fun st => { self with state := st }

/-- `fw_iso_it_handle_event`. -/
def handleEvent (event : CdevEvent) (env : EventEnv) (c : Ctx FwIsoIt) : Act (Ctx FwIsoIt) Ret :=
  match event with
  | .isoInterrupt ev =>
    .emit (c.note (.interrupted (ev.headerLength / 4))) fun c =>
      c.perform (queueChunks env.queueIso)
  | _ => .done .rejected c

instance : FwIsoCtx FwIsoIt where
  state := state
  setState self st := { self with state := st }
  state_setState _ _ := rfl
  unmapBuffer := unmapBuffer
  release := release
  handleEvent := handleEvent

inductive Op where
  | allocate (path : Option String) (scode channel headerSize : UInt32) (env : AllocateEnv)
  | mapBuffer (maximumBytesPerPayload payloadsPerBuffer : UInt32) (env : MapEnv) (mem : ByteMem)
  | registerPacket (tags syncCode : UInt32) (header payload : ArrayArg) (scheduleInterrupt : Bool)
  | start (cycleMatch : Option (UInt16 × UInt16)) (env : StartEnv)
  | stop
  | unmapBuffer
  | release
  | dispatch (w : Wakeup)

def exec : Op → Ctx FwIsoIt → Act (Ctx FwIsoIt) Ret
  | .allocate path scode channel headerSize env, c =>
    c.perform (·.allocate path scode channel headerSize env)
  | .mapBuffer bytes payloads env mem, c => c.perform (·.mapBuffer bytes payloads env mem)
  | .registerPacket tags syncCode header payload irq, c =>
    c.perform (·.registerPacket tags syncCode header payload irq)
  | .start cycleMatch env, c => c.perform (·.start cycleMatch env)
  | .stop, c => c.stop
  | .unmapBuffer, c => c.unmapBuffer
  | .release, c => c.release
  | .dispatch w, c => c.dispatch w

end FwIsoIt

end Hinoko
