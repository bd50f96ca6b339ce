import Hinoko.IrSingle

/-!
# IR contexts in buffer-fill mode

`fw_iso_ir_multiple.c`.  The hardware fills the mapped buffer with packets of any
length, one behind the other.  An event says how far it came; `parse` walks the
packets from `prev_offset` on and records those that are complete, and
`finishEvent` registers again the chunks that have been walked over.
-/

namespace Hinoko

open Reentrant

/-- `struct ctx_payload`. -/
structure CtxPayload where
  offset : UInt32
  length : UInt32
deriving DecidableEq, Repr

structure PayloadArray where
  id : Nat
  capacity : Nat
  entries : Nat → CtxPayload

/-- `HinokoFwIsoIrMultiplePrivate`, with the content of the mapped buffer. -/
structure FwIsoIrMultiple where
  state : FwIsoCtxState := {}
  channels : Option (List UInt8) := none
  prevOffset : UInt32 := 0
  ctxPayloads : Option PayloadArray := none
  ctxPayloadCount : UInt32 := 0
  concatFrames : Option Block := none
  chunksPerIrq : UInt32 := 0
  accumulatedChunkCount : UInt32 := 0
  mem : ByteMem := fun _ => 0

/-- What `hinoko_fw_iso_ir_multiple_map_buffer` gets beside a mapping: two more blocks. -/
structure MapMultipleEnv extends MapEnv where
  concatBlock : Nat
  concatFill : ByteMem
  payloadsBlock : Nat
  payloadsFill : Nat → CtxPayload

namespace FwIsoIrMultiple

/-- `hinoko_fw_iso_ir_multiple_new`. -/
def new : FwIsoIrMultiple := {}

/-- `fw_iso_ir_multiple_unmap_buffer`. -/
def unmapBuffer (self : FwIsoIrMultiple) : Out FwIsoIrMultiple :=
  self.state.unmapBuffer.map fun st => { self with state := st, concatFrames := none }

/-- `fw_iso_ir_multiple_release`. -/
def release (self : FwIsoIrMultiple) : Out FwIsoIrMultiple :=
  self.state.release.map fun st => { self with state := st, channels := none }

/-- `fw_iso_ir_multiple_register_chunk`. -/
def registerChunk (self : FwIsoIrMultiple) : Out FwIsoIrMultiple :=
  let count := self.accumulatedChunkCount + 1
  let scheduleIrq : Bool := 0 < self.chunksPerIrq ∧ count % self.chunksPerIrq = 0
  let count :=
    if self.chunksPerIrq = 0 then self.accumulatedChunkCount
    else if gMaxInt ≤ count then count % self.chunksPerIrq else count
  (self.state.registerChunk false 0 0 .null 0 scheduleIrq).map fun st =>
    { self with state := st, accumulatedChunkCount := count }

/-- The loops that register chunks: they end at the first that is refused. -/
def registerChunks : Nat → FwIsoIrMultiple → Out FwIsoIrMultiple
  | 0, self => ⟨self, .success, []⟩
  | n + 1, self =>
    let o := self.registerChunk
    match o.ret with
    | .success =>
      let rest := registerChunks n o.state
      ⟨rest.state, rest.ret, o.effects ++ rest.effects⟩
    | ret => ⟨o.state, ret, o.effects⟩

/-- `hinoko_fw_iso_ir_multiple_map_buffer`. -/
def mapBuffer (self : FwIsoIrMultiple) (bytesPerChunk chunksPerBuffer : UInt32)
    (env : MapMultipleEnv) : Out FwIsoIrMultiple :=
  let bytesPerChunk := (bytesPerChunk + 3) / 4
  let bytesPerChunk := bytesPerChunk * 4
  let self := { self with
    concatFrames := gMallocN env.concatBlock env.concatFill 4 bytesPerChunk }
  let o := self.state.mapBuffer bytesPerChunk chunksPerBuffer env.toMapEnv
  match o.ret with
  | .success =>
    let capacity := (o.state.bytesPerChunk * o.state.chunksPerBuffer / 8 / 2).toNat
    o.map fun st => { self with
      state := st
      ctxPayloads :=
        if capacity = 0 then none else some ⟨env.payloadsBlock, capacity, env.payloadsFill⟩ }
  | _ => o.map fun st => { self with state := st }

/-- `hinoko_fw_iso_ir_multiple_start`. -/
def start (self : FwIsoIrMultiple) (cycleMatch : Option (UInt16 × UInt16))
    (syncCode tags chunksPerIrq : UInt32) (env : StartEnv) : Out FwIsoIrMultiple :=
  if ¬ FwIsoCtxState.acceptsCycleMatch cycleMatch then ⟨self, .rejected, []⟩
  else if 15 < syncCode then ⟨self, .rejected, []⟩
  else if self.state.chunksPerBuffer ≤ chunksPerIrq then ⟨self, .rejected, []⟩
  else
    let self := { self with chunksPerIrq := chunksPerIrq, accumulatedChunkCount := 0 }
    let o := registerChunks self.state.chunksPerBuffer.toNat self
    match o.ret with
    | .success =>
      let self := { o.state with prevOffset := 0 }
      let s := self.state.start cycleMatch syncCode tags env
      ⟨{ self with state := s.state }, s.ret, o.effects ++ s.effects⟩
    | ret => ⟨o.state, ret, o.effects⟩

/-! ### Events -/

/-- The quadlet at an offset of the mapped buffer, in little-endian order. -/
def quadletAt (self : FwIsoIrMultiple) (offset : UInt32) : Option UInt32 :=
  match self.state.addr, (self.state.readFrame offset 4).1 with
  | .mapped _, some frames =>
    if frames.toNat + 4 ≤ self.state.bytesPerBuffer.toNat then some (self.mem.le32At frames.toNat)
    else none
  | _, _ => none

def capacity (self : FwIsoIrMultiple) : Nat :=
  match self.ctxPayloads with
  | none => 0
  | some array => array.capacity

/-- The loop of `fw_iso_ir_multiple_handle_event`: the accumulated length, and the records it
stores from the `n`-th on. -/
def parse (self : FwIsoIrMultiple) (accumEnd : UInt32) :
    Nat → UInt32 → Nat → Except Fault (UInt32 × List CtxPayload)
  | 0, _, _ => .error .endless
  | fuel + 1, accumLength, n =>
    let avail := accumEnd - self.prevOffset - accumLength
    if avail < 4 then .ok (accumLength, [])
    else if self.state.bytesPerBuffer = 0 then .error .divByZero
    else
      let offset := (self.prevOffset + accumLength) % self.state.bytesPerBuffer
      match self.quadletAt offset with
      | none => .error .outOfBounds
      | some isoHeader =>
        -- the data is between the header and a trailing timestamp
        let length := ieee1394IsoHeaderToDataLength isoHeader + 8
        if avail < length then .ok (accumLength, [])
        else if self.capacity ≤ n then .error .outOfBounds
        else
          match parse self accumEnd fuel (accumLength + length) (n + 1) with
          | .error fault => .error fault
          | .ok (total, records) => .ok (total, ⟨offset, length⟩ :: records)

/-- `accum_end`: where the received data ends, counted on past the end of the buffer. -/
def accumEnd (self : FwIsoIrMultiple) (completed : UInt32) : UInt32 :=
  if completed < self.prevOffset then completed + self.state.bytesPerBuffer else completed

/-- The parsing half of `fw_iso_ir_multiple_handle_event`. -/
def parseEvent (self : FwIsoIrMultiple) (completed : UInt32) :
    Except Fault (UInt32 × List CtxPayload) :=
  self.parse (self.accumEnd completed) ((self.accumEnd completed - self.prevOffset).toNat + 1) 0 0

def store (self : FwIsoIrMultiple) (records : List CtxPayload) : FwIsoIrMultiple :=
  { self with
    ctxPayloads := self.ctxPayloads.map fun array =>
      { array with entries := fun i => records[i]?.getD (array.entries i) }
    ctxPayloadCount := UInt32.ofNat records.length }

/-- The part of `fw_iso_ir_multiple_handle_event` behind the signal, with the local variables
that were set before it. -/
def finishEvent (bytesPerChunk bytesPerBuffer accumLength : UInt32) (answers : Nat → QueueAnswer)
    (self : FwIsoIrMultiple) : Out FwIsoIrMultiple :=
  if bytesPerChunk = 0 then ⟨self, .crashed .divByZero, []⟩
  else
    let chunkPos := self.prevOffset / bytesPerChunk
    let chunkEnd := (self.prevOffset + accumLength) / bytesPerChunk
    let o := registerChunks (chunkEnd.toNat - chunkPos.toNat) self
    match o.ret with
    | .success =>
      if bytesPerBuffer = 0 then ⟨o.state, .crashed .divByZero, o.effects⟩
      else
        let self := { o.state with
          prevOffset := (o.state.prevOffset + accumLength) % bytesPerBuffer }
        let q := self.state.queueChunks answers
        ⟨{ self with state := q.state }, q.ret, o.effects ++ q.effects⟩
    | ret => ⟨o.state, ret, o.effects⟩

/-- `fw_iso_ir_multiple_handle_event`. -/
def handleEvent (event : CdevEvent) (env : EventEnv) (c : Ctx FwIsoIrMultiple) :
    Act (Ctx FwIsoIrMultiple) Ret :=
  match event with
  | .isoInterruptMc ev =>
    let self := { c.priv with mem := env.buffer }
    match self.parseEvent ev.completed with
    | .error fault => .done (.crashed fault) c
    | .ok (accumLength, records) =>
      let c := { c with priv := self.store records }
      .emit (c.note (.interrupted (UInt32.ofNat records.length))) fun c =>
        c.perform (finishEvent self.state.bytesPerChunk self.state.bytesPerBuffer accumLength
          env.queueIso)
  | _ => .done .rejected c

/-- `hinoko_fw_iso_ir_multiple_get_payload`: a packet that crosses the end of the buffer is
put together in `concat_frames`. -/
def getPayload (self : FwIsoIrMultiple) (index : UInt32) : FwIsoIrMultiple × Payload :=
  match self.ctxPayloads with
  | none => (self, if index < self.ctxPayloadCount then .crashed .outOfBounds else .rejected)
  | some array =>
    if ¬ index < self.ctxPayloadCount then (self, .rejected)
    else if array.capacity ≤ index.toNat then (self, .crashed .outOfBounds)
    else
      let ctxPayload := array.entries index.toNat
      let (payload, done) := self.state.readFrame ctxPayload.offset ctxPayload.length
      if done < ctxPayload.length then
        let rest := ctxPayload.length - done
        let (payload', frameSize) := self.state.readFrame 0 rest
        match self.state.addr, self.concatFrames with
        | .mapped _, some block =>
          if block.size < done.toNat then (self, .crashed .outOfBounds)
          else
            let head := self.mem.read (payload.getD 0).toNat done.toNat
            let block := { block with bytes := block.bytes.write 0 head }
            if frameSize ≠ rest then ({ self with concatFrames := some block }, .unset)
            else if block.size < done.toNat + rest.toNat then (self, .crashed .outOfBounds)
            else
              let tail := self.mem.read (payload'.getD 0).toNat rest.toNat
              let block := { block with bytes := block.bytes.write done.toNat tail }
              ({ self with concatFrames := some block }, .concat ctxPayload.length)
        | _, _ => (self, .crashed .outOfBounds)
      else (self, .frames payload ctxPayload.length)

/-- The call as an operation, with how it returns. -/
def askPayload (index : UInt32) (self : FwIsoIrMultiple) : Out FwIsoIrMultiple :=
  ⟨(self.getPayload index).1, (self.getPayload index).2.ret, []⟩

def payloadBytes (self : FwIsoIrMultiple) : Payload → List UInt8
  | .frames (some offset) length => self.mem.read offset.toNat length.toNat
  | .concat length =>
    match self.concatFrames with
    | some block => block.bytes.read 0 length.toNat
    | none => []
  | _ => []

instance : FwIsoCtx FwIsoIrMultiple where
  state := state
  setState self st := { self with state := st }
  state_setState _ _ := rfl
  unmapBuffer := unmapBuffer
  release := release
  handleEvent := handleEvent

/-! ### Allocation -/

def channelMask (channels : List UInt8) : UInt64 :=
  channels.foldl (fun mask channel => mask ||| (1 : UInt64) <<< channel.toUInt64) 0

/-- The channels of a mask, as the loop of `hinoko_fw_iso_ir_multiple_allocate` appends them: the
first byte in memory of an `int`. -/
def channelsOfMask (bigEndian : Bool) (mask : UInt64) : List UInt8 :=
  (List.range 64).filterMap fun i =>
    if mask &&& (1 : UInt64) <<< UInt64.ofNat i ≠ 0 then
      some (if bigEndian then 0 else UInt8.ofNat i)
    else none

/-- `hinoko_fw_iso_ir_multiple_allocate`; `setIsoChannels` is the mask that
`FW_CDEV_IOC_SET_ISO_CHANNELS` writes back, or its error, and `bigEndian` the byte order of the
host. -/
def allocate (path : Option String) (channels : List UInt8) (env : AllocateEnv)
    (setIsoChannels : Except Nat UInt64) (bigEndian : Bool) (c : Ctx FwIsoIrMultiple) :
    Act (Ctx FwIsoIrMultiple) Ret :=
  if channels = [] then .done .rejected c
  else if channels.any (63 < ·) then .done .rejected c
  else
    let allocateState (self : FwIsoIrMultiple) : Out FwIsoIrMultiple :=
      (self.state.allocate path .irMultiple 0 0 0 env).map fun st => { self with state := st }
    (c.perform allocateState).bind fun ret c =>
      match ret with
      | .success =>
        let c := c.note (.setIsoChannels (channelMask channels))
        match setIsoChannels with
        | .error errno =>
          c.release.bind fun _ c => .done (.failure (.ioctl .setIsoChannels errno)) c
        | .ok mask =>
          if mask = 0 then
            c.release.bind fun _ c => .done (.failure (.coded .noIsocChannel)) c
          else
            .done .success { c with
              priv := { c.priv with channels := some (channelsOfMask bigEndian mask) } }
      | ret => .done ret c

inductive Op where
  | allocate (path : Option String) (channels : List UInt8) (env : AllocateEnv)
      (setIsoChannels : Except Nat UInt64) (bigEndian : Bool)
  | mapBuffer (bytesPerChunk chunksPerBuffer : UInt32) (env : MapMultipleEnv)
  | start (cycleMatch : Option (UInt16 × UInt16)) (syncCode tags chunksPerIrq : UInt32)
      (env : StartEnv)
  | getPayload (index : UInt32)
  | stop
  | unmapBuffer
  | release
  | dispatch (w : Wakeup)

def exec : Op → Ctx FwIsoIrMultiple → Act (Ctx FwIsoIrMultiple) Ret
  | .allocate path channels env set bigEndian, c => allocate path channels env set bigEndian c
  | .mapBuffer bytes chunks env, c => c.perform (·.mapBuffer bytes chunks env)
  | .start cycleMatch syncCode tags irq env, c =>
    c.perform (·.start cycleMatch syncCode tags irq env)
  | .getPayload index, c => c.perform (askPayload index)
  | .stop, c => c.stop
  | .unmapBuffer, c => c.unmapBuffer
  | .release, c => c.release
  | .dispatch w, c => c.dispatch w

end FwIsoIrMultiple

end Hinoko
