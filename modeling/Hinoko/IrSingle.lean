import Hinoko.Ctx

/-!
# IR contexts in packet-per-buffer mode

`fw_iso_ir_single.c`.  An event brings the headers of the packets received since
the last one; `chunkCursor` counts the packets of the events before it, so
`getPayload` finds the chunk of a packet from its index in the event.
-/

namespace Hinoko

open Reentrant

def gMaxInt : UInt32 := 0x7fffffff

/-- What a function for the payload of a packet gives to its caller. -/
inductive Payload where
  /-- nothing, by `g_return_if_fail` -/
  | rejected
  | crashed (fault : Fault)
  /-- a region of the mapped buffer, or `NULL` -/
  | frames (offset : Option UInt32) (length : UInt32)
  /-- the head of `concat_frames` -/
  | concat (length : UInt32)
  /-- a pointer without a length, by `g_return_if_fail` -/
  | unset
deriving DecidableEq, Repr

def Payload.ret : Payload → Ret
  | .rejected => .rejected
  | .unset => .rejected
  | .crashed fault => .crashed fault
  | _ => .success

@[simp] theorem Payload.ret_eq_crashed {payload : Payload} {fault : Fault} :
    payload.ret = .crashed fault ↔ payload = .crashed fault := by
  cases payload <;> simp [ret]

/-- `HinokoFwIsoIrSinglePrivate`. -/
structure FwIsoIrSingle where
  state : FwIsoCtxState := {}
  headerSize : UInt32 := 0
  chunkCursor : UInt32 := 0
  ev : Option IsoInterrupt := none

namespace FwIsoIrSingle

/-- `hinoko_fw_iso_ir_single_new`. -/
def new : FwIsoIrSingle := {}

/-- `hinoko_fw_iso_ir_single_allocate`. -/
def allocate (self : FwIsoIrSingle) (path : Option String) (channel headerSize : UInt32)
    (env : AllocateEnv) : Out FwIsoIrSingle :=
  if 63 < channel then ⟨self, .rejected, []⟩
  else if headerSize < 4 then ⟨self, .rejected, []⟩
  else
    let o := self.state.allocate path .irSingle 0 channel headerSize env
    o.map fun st => { self with
      state := st, headerSize := if o.ret = .success then headerSize else self.headerSize }

/-- `hinoko_fw_iso_ir_single_map_buffer`. -/
def mapBuffer (self : FwIsoIrSingle) (maximumBytesPerPayload payloadsPerBuffer : UInt32)
    (env : MapEnv) : Out FwIsoIrSingle :=
  (self.state.mapBuffer maximumBytesPerPayload payloadsPerBuffer env).map fun st =>
    { self with state := st }

/-- `fw_iso_ir_single_unmap_buffer`. -/
def unmapBuffer (self : FwIsoIrSingle) : Out FwIsoIrSingle :=
  self.state.unmapBuffer.map fun st => { self with state := st }

/-- `fw_iso_ir_single_release`. -/
def release (self : FwIsoIrSingle) : Out FwIsoIrSingle :=
  self.state.release.map fun st => { self with state := st }

/-- `hinoko_fw_iso_ir_single_register_packet`. -/
def registerPacket (self : FwIsoIrSingle) (scheduleInterrupt : Bool) : Out FwIsoIrSingle :=
  (self.state.registerChunk false 0 0 .null 0 scheduleInterrupt).map fun st =>
    { self with state := st }

/-- `hinoko_fw_iso_ir_single_start`. -/
def start (self : FwIsoIrSingle) (cycleMatch : Option (UInt16 × UInt16)) (syncCode tags : UInt32)
    (env : StartEnv) : Out FwIsoIrSingle :=
  if ¬ FwIsoCtxState.acceptsCycleMatch cycleMatch then ⟨self, .rejected, []⟩
  else if 15 < syncCode then ⟨self, .rejected, []⟩
  else
    let self := { self with chunkCursor := 0 }
    (self.state.start cycleMatch syncCode tags env).map fun st => { self with state := st }

/-- The part of `fw_iso_ir_single_handle_event` behind the signal; `count` is the number of
packets it announced. -/
def finishEvent (count : UInt32) (answers : Nat → QueueAnswer) (self : FwIsoIrSingle) :
    Out FwIsoIrSingle :=
  let cursor := self.chunkCursor + count
  if gMaxInt ≤ cursor ∧ self.state.chunksPerBuffer = 0 then
    ⟨{ self with ev := none, chunkCursor := cursor }, .crashed .divByZero, []⟩
  else
    let cursor := if gMaxInt ≤ cursor then cursor % self.state.chunksPerBuffer else cursor
    let self := { self with ev := none, chunkCursor := cursor }
    (self.state.queueChunks answers).map fun st => { self with state := st }

/-- `fw_iso_ir_single_handle_event`. -/
def handleEvent (event : CdevEvent) (env : EventEnv) (c : Ctx FwIsoIrSingle) :
    Act (Ctx FwIsoIrSingle) Ret :=
  match event with
  | .isoInterrupt ev =>
    if c.priv.headerSize = 0 then .done (.crashed .divByZero) c
    else
      let count := ev.headerLength / c.priv.headerSize
      let c := { c with priv := { c.priv with ev := some ev } }
      .emit (c.note (.interrupted count)) fun c => c.perform (finishEvent count env.queueIso)
  | _ => .done .rejected c

/-- `hinoko_fw_iso_ir_single_get_payload`. -/
def getPayload (self : FwIsoIrSingle) (index : UInt32) : Payload :=
  match self.ev with
  | none => .rejected
  | some ev =>
    if ev.headerLength < index * self.headerSize then .rejected
    else
      let pos := index * self.headerSize / 4
      if ev.headerLength.toNat < 4 * pos.toNat + 4 then .crashed .outOfBounds
      else
        let isoHeader := ev.header.be32At (4 * pos.toNat)
        let length := ieee1394IsoHeaderToDataLength isoHeader
        let length := if 8 < self.headerSize then length - (self.headerSize - 8) else length
        let length := if self.state.bytesPerChunk < length then self.state.bytesPerChunk else length
        if self.state.chunksPerBuffer = 0 then .crashed .divByZero
        else
          let index := (self.chunkCursor + index) % self.state.chunksPerBuffer
          let offset := index * self.state.bytesPerChunk
          .frames (self.state.readFrame offset length).1 length

/-- Below the count the check lets an index pass, and the header lies in the event. -/
theorem header_inside {ev : IsoInterrupt} {headerSize index : UInt32} (hleast : 4 ≤ headerSize)
    (hindex : index < ev.headerLength / headerSize) :
    ¬ ev.headerLength < index * headerSize ∧
      ¬ ev.headerLength.toNat < 4 * (index * headerSize / 4).toNat + 4 := by
  have hlt := ev.headerLength.toNat_lt
  have h4 : (4 : UInt32).toNat = 4 := rfl
  rw [UInt32.le_iff_toNat_le, h4] at hleast
  rw [UInt32.lt_iff_toNat_lt, UInt32.toNat_div] at hindex
  have hle : index.toNat * headerSize.toNat + headerSize.toNat ≤ ev.headerLength.toNat := by
    rw [← Nat.succ_mul]
    exact (Nat.mul_le_mul_right _ hindex).trans (Nat.div_mul_le_self _ _)
  have hmul : (index * headerSize).toNat = index.toNat * headerSize.toNat := by
    rw [UInt32.toNat_mul, Nat.mod_eq_of_lt (by omega)]
  rw [UInt32.lt_iff_toNat_lt, UInt32.toNat_div, hmul, h4]
  omega

def askPayload (index : UInt32) (self : FwIsoIrSingle) : Out FwIsoIrSingle :=
  ⟨self, (self.getPayload index).ret, []⟩

instance : FwIsoCtx FwIsoIrSingle where
  state := state
  setState self st := { self with state := st }
  state_setState _ _ := rfl
  unmapBuffer := unmapBuffer
  release := release
  handleEvent := handleEvent

inductive Op where
  | allocate (path : Option String) (channel headerSize : UInt32) (env : AllocateEnv)
  | mapBuffer (maximumBytesPerPayload payloadsPerBuffer : UInt32) (env : MapEnv)
  | registerPacket (scheduleInterrupt : Bool)
  | start (cycleMatch : Option (UInt16 × UInt16)) (syncCode tags : UInt32) (env : StartEnv)
  | getPayload (index : UInt32)
  | stop
  | unmapBuffer
  | release
  | dispatch (w : Wakeup)

def exec : Op → Ctx FwIsoIrSingle → Act (Ctx FwIsoIrSingle) Ret
  | .allocate path channel headerSize env, c => c.perform (·.allocate path channel headerSize env)
  | .mapBuffer bytes payloads env, c => c.perform (·.mapBuffer bytes payloads env)
  | .registerPacket irq, c => c.perform (·.registerPacket irq)
  | .start cycleMatch syncCode tags env, c => c.perform (·.start cycleMatch syncCode tags env)
  | .getPayload index, c => c.perform (askPayload index)
  | .stop, c => c.stop
  | .unmapBuffer, c => c.unmapBuffer
  | .release, c => c.release
  | .dispatch w, c => c.dispatch w

@[simp] theorem exec_getPayload (index : UInt32) (c : Ctx FwIsoIrSingle) :
    exec (.getPayload index) c = .done (c.priv.getPayload index).ret c := by
  simp [exec, Ctx.perform, Ctx.after, askPayload]

end FwIsoIrSingle

end Hinoko
