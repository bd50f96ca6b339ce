import Hinoko.Cdev

/-!
# The state of an isochronous context

`struct fw_iso_ctx_state` and the functions of `fw_iso_ctx_private.c` on it.  The
three kinds of context (`It.lean`, `IrSingle.lean`, `IrMultiple.lean`) embed this
state and are built from these functions.

The store `data` is a block of bytes.  `registerChunk` writes a control word and a
header at `data_length`; `queueChunks` walks the store again from its start,
gathers packets into one request (`accumulate`) as long as their payloads fit below
the end of the mapped buffer, and makes the request (`queueLoop`).

What the rest of the system does in a call is an argument of it: the answers of the
kernel, and the blocks that the C library hands out.
-/

namespace Hinoko

structure Block where
  id : Nat
  size : Nat
  bytes : ByteMem

/-- `g_malloc_n`, which gives `NULL` for nothing; `id` and `fill` are what the C library
comes up with. -/
def gMallocN (id : Nat) (fill : ByteMem) (count size : UInt32) : Option Block :=
  if count.toNat * size.toNat = 0 then none else some ⟨id, count.toNat * size.toNat, fill⟩

inductive Addr where
  | null
  | mapFailed
  | mapped (id : Nat)
deriving DecidableEq, Repr

/-- `struct fw_iso_ctx_state`, as `fw_iso_ctx_state_init` leaves it. -/
structure FwIsoCtxState where
  fd : Int := -1
  handle : UInt32 := 0
  mode : FwIsoCtxMode := .it
  headerSize : UInt32 := 0
  addr : Addr := .null
  bytesPerChunk : UInt32 := 0
  chunksPerBuffer : UInt32 := 0
  data : Option Block := none
  dataLength : UInt32 := 0
  allocDataLength : UInt32 := 0
  registeredChunkCount : UInt32 := 0
  currOffset : UInt32 := 0
  running : Bool := false

/-- The kernel's answers to `fw_iso_ctx_state_allocate`: the descriptor or an error, with
whether GLib has a `GFileError` for it, the error of `FW_CDEV_IOC_GET_INFO`, and the
handle of the new context or an error. -/
structure AllocateEnv where
  openResult : Except (Nat × Bool) Nat
  getInfo : Option Nat
  createIsoContext : Except Nat UInt32

/-- What `fw_iso_ctx_state_map_buffer` gets: a block, and a mapping or an error. -/
structure MapEnv where
  dataBlock : Nat
  dataFill : ByteMem
  mmap : Except Nat Nat

/-- The kernel's answers to `fw_iso_ctx_state_start`: to each request to queue, and the
error of `FW_CDEV_IOC_START_ISO`. -/
structure StartEnv where
  queueIso : Nat → QueueAnswer
  startIso : Option Nat

namespace FwIsoCtxState

def bytesPerBuffer (st : FwIsoCtxState) : UInt32 := st.bytesPerChunk * st.chunksPerBuffer

/-- `fw_iso_ctx_state_release`. -/
def release (st : FwIsoCtxState) : Out FwIsoCtxState :=
  ⟨{ st with fd := -1 }, .success, if 0 ≤ st.fd then [.close] else []⟩

/-- `fw_iso_ctx_state_allocate`. -/
def allocate (st : FwIsoCtxState) (path : Option String) (mode : FwIsoCtxMode)
    (scode channel headerSize : UInt32) (env : AllocateEnv) : Out FwIsoCtxState :=
  if path = none ∨ path = some "" then ⟨st, .rejected, []⟩
  else if 5 < scode then ⟨st, .rejected, []⟩
  else if 63 < channel then ⟨st, .rejected, []⟩
  else if headerSize % 4 ≠ 0 then ⟨st, .rejected, []⟩
  else if mode = .irSingle ∧ headerSize < 4 then ⟨st, .rejected, []⟩
  else if mode = .irMultiple ∧ (headerSize ≠ 0 ∨ channel ≠ 0) then ⟨st, .rejected, []⟩
  else if 0 ≤ st.fd then ⟨st, .failure (.coded .allocated), []⟩
  else
    let call := "open(" ++ path.getD "" ++ ")"
    match env.openResult with
    | .error (errno, true) => ⟨{ st with fd := -1 }, .failure (.file call errno),
        [.open (.error errno)]⟩
    | .error (errno, false) => ⟨{ st with fd := -1 }, .failure (.syscall call errno),
        [.open (.error errno)]⟩
    | .ok fd =>
      let st := { st with fd := fd }
      match env.getInfo with
      | some errno =>
        ⟨st.release.state, .failure (.ioctl .getInfo errno),
          [.open (.ok fd), .getInfo] ++ st.release.effects⟩
      | none =>
        match env.createIsoContext with
        | .error errno =>
          ⟨st.release.state, .failure (.ioctl .createIsoContext errno),
            [.open (.ok fd), .getInfo, .createIsoContext (.error errno)] ++ st.release.effects⟩
        | .ok handle =>
          ⟨{ st with handle := handle, mode := mode, headerSize := headerSize }, .success,
            [.open (.ok fd), .getInfo, .createIsoContext (.ok handle)]⟩

/-- `datum_size` of `fw_iso_ctx_state_map_buffer`. -/
def datumSize (st : FwIsoCtxState) : UInt32 :=
  sizeofFwCdevIsoPacket + if st.mode = .it then st.headerSize else 0

/-- `fw_iso_ctx_state_map_buffer`. -/
def mapBuffer (st : FwIsoCtxState) (bytesPerChunk chunksPerBuffer : UInt32) (env : MapEnv) :
    Out FwIsoCtxState :=
  if bytesPerChunk = 0 then ⟨st, .rejected, []⟩
  else if chunksPerBuffer = 0 then ⟨st, .rejected, []⟩
  else if st.fd < 0 then ⟨st, .failure (.coded .notAllocated), []⟩
  else if st.addr ≠ .null then ⟨st, .failure (.coded .mapped), []⟩
  else
    let length := bytesPerChunk * chunksPerBuffer
    let st := { st with
      data := gMallocN env.dataBlock env.dataFill chunksPerBuffer st.datumSize
      allocDataLength := chunksPerBuffer * st.datumSize }
    match env.mmap with
    | .error errno =>
      ⟨{ st with addr := .mapFailed },
        .failure (.syscall s!"mmap({length.toInt32.toInt})" errno),
        [.mmap length (st.mode = .it) env.mmap]⟩
    | .ok id =>
      ⟨{ st with
          addr := .mapped id, bytesPerChunk := bytesPerChunk, chunksPerBuffer := chunksPerBuffer },
        .success, [.mmap length (st.mode = .it) env.mmap]⟩

/-- `fw_iso_ctx_state_unmap_buffer`. -/
def unmapBuffer (st : FwIsoCtxState) : Out FwIsoCtxState :=
  ⟨{ st with addr := .null, data := none }, .success,
    if st.addr = .null then [] else [.munmap st.bytesPerBuffer]⟩

/-- The packet that `fw_iso_ctx_state_register_chunk` puts into the store. -/
def datum (st : FwIsoCtxState) (skip : Bool) (tags syncCode : UInt32) (header : ArrayArg)
    (payloadLength : UInt32) (scheduleInterrupt : Bool) : IsoPacket where
  control :=
    let payloadLength := if st.mode = .it then payloadLength else st.bytesPerChunk
    let headerLength := if st.mode = .irSingle then st.headerSize else header.length
    let control := fwCdevIsoPayloadLength payloadLength ||| fwCdevIsoTag tags |||
      fwCdevIsoSy syncCode ||| fwCdevIsoHeaderLength headerLength
    let control := if skip then control ||| fwCdevIsoSkip else control
    if scheduleInterrupt then control ||| fwCdevIsoInterrupt else control
  header := if st.mode = .it ∧ ¬ skip then header.bytes else []

/-- The checks of `fw_iso_ctx_state_register_chunk` on the arguments of each mode. -/
def acceptsChunk (st : FwIsoCtxState) (skip : Bool) (tags syncCode : UInt32) (header : ArrayArg)
    (payloadLength : UInt32) : Bool :=
  (tags = 0 ∨ tags = 1 ∨ tags = 2 ∨ tags = 4 ∨ tags = 8) ∧ syncCode ≤ 15 ∧
    if st.mode = .it then
      if skip then payloadLength = 0 ∧ header.length = 0 ∧ header.content = none
      else header.length = st.headerSize ∧ payloadLength ≤ st.bytesPerChunk
    else
      tags = 0 ∧ syncCode = 0 ∧ header.content = none ∧ header.length = 0 ∧ payloadLength = 0

/-- `fw_iso_ctx_state_register_chunk`. -/
def registerChunk (st : FwIsoCtxState) (skip : Bool) (tags syncCode : UInt32) (header : ArrayArg)
    (payloadLength : UInt32) (scheduleInterrupt : Bool) : Out FwIsoCtxState :=
  if ¬ st.acceptsChunk skip tags syncCode header payloadLength then ⟨st, .rejected, []⟩
  -- `sizeof` makes the sum one of `size_t`, which does not wrap
  else if st.allocDataLength.toNat <
      st.dataLength.toNat + sizeofFwCdevIsoPacket.toNat + header.length.toNat then
    ⟨st, .rejected, []⟩
  else if st.fd < 0 then ⟨st, .failure (.coded .notAllocated), []⟩
  else if st.addr = .null then ⟨st, .failure (.coded .notMapped), []⟩
  else
    match st.data with
    | none => ⟨st, .crashed .outOfBounds, []⟩
    | some block =>
      let packet := st.datum skip tags syncCode header payloadLength scheduleInterrupt
      ⟨{ st with
          data := some { block with bytes := block.bytes.write st.dataLength.toNat packet.bytes }
          dataLength := st.dataLength + (sizeofFwCdevIsoPacket + header.length)
          registeredChunkCount := st.registeredChunkCount + 1 },
        .success, [.chunk packet]⟩

/-! ### Queueing -/

/-- The variables of the inner loop of `fw_iso_ctx_state_queue_chunks`. -/
structure Batch where
  bufOffset : UInt32
  bufLength : UInt32
  dataLength : UInt32
  chunkCount : UInt32

def controlAt (st : FwIsoCtxState) (offset : UInt32) : Option UInt32 :=
  match st.data with
  | none => none
  | some block =>
    if offset.toNat + 4 ≤ block.size then some (block.bytes.le32At offset.toNat) else none

/-- `datum_length` of `fw_iso_ctx_state_queue_chunks`. -/
def datumLength (st : FwIsoCtxState) (control : UInt32) : UInt32 :=
  sizeofFwCdevIsoPacket +
    if st.mode = .it then fwCdevIsoPacketControlToHeaderLength control else 0

/-- The inner loop of `fw_iso_ctx_state_queue_chunks`: gather packets as long as they fit
below the end of the buffer. -/
def accumulate (st : FwIsoCtxState) (dataOffset : UInt32) : Nat → Batch → Except Fault Batch
  | 0, _ => .error .endless
  | fuel + 1, b =>
    if b.bufOffset + b.bufLength < st.bytesPerBuffer ∧
        dataOffset + b.dataLength < st.dataLength then
      match st.controlAt (dataOffset + b.dataLength) with
      | none => .error .outOfBounds
      | some control =>
        let payloadLength := fwCdevIsoPacketControlToPayloadLength control
        if st.bytesPerBuffer < b.bufOffset + b.bufLength + payloadLength then
          .ok { b with bufOffset := 0 }
        else
          accumulate st dataOffset fuel { b with
            bufLength := b.bufLength + payloadLength
            dataLength := b.dataLength + st.datumLength control
            chunkCount := b.chunkCount + 1 }
    else .ok b

/-- How the outer loop of `fw_iso_ctx_state_queue_chunks` ends. -/
inductive QueueEnd where
  | finished (bufOffset chunkCount : UInt32)
  | failed (errno : Nat)
  | crashed (fault : Fault)

/-- The bytes of the store that a request points to. -/
def packetsOf (st : FwIsoCtxState) (arg : QueueIso) : List UInt8 :=
  match st.data with
  | none => []
  | some block => block.bytes.read arg.packets.toNat arg.size.toNat

/-- The outer loop of `fw_iso_ctx_state_queue_chunks`: gather packets, queue them, and go on
behind them.  The `i`-th request gets the `i`-th answer. -/
def queueLoop (st : FwIsoCtxState) (answers : Nat → QueueAnswer) :
    Nat → Nat → UInt32 → UInt32 → UInt32 → List Effect × QueueEnd
  | 0, _, _, _, _ => ([], .crashed .endless)
  | fuel + 1, i, dataOffset, bufOffset, chunkCount =>
    if dataOffset < st.dataLength then
      match st.accumulate dataOffset (st.dataLength.toNat + 1) ⟨bufOffset, 0, 0, chunkCount⟩ with
      | .error fault => ([], .crashed fault)
      | .ok b =>
        let arg : QueueIso := ⟨dataOffset, b.dataLength, b.bufOffset, st.handle⟩
        let effect := Effect.queueIso arg (st.packetsOf arg) (answers i)
        match answers i with
        | .failed errno => ([effect], .failed errno)
        | .accepted _ =>
          if st.bytesPerBuffer = 0 then ([effect], .crashed .divByZero)
          else
            let rest := queueLoop st answers fuel (i + 1) (dataOffset + b.dataLength)
              ((b.bufOffset + b.bufLength) % st.bytesPerBuffer) b.chunkCount
            (effect :: rest.1, rest.2)
    else ([], .finished bufOffset chunkCount)

/-- A bound for the outer loop: two of three rounds may stand still. -/
def queueFuel (st : FwIsoCtxState) : Nat := 3 * (st.dataLength.toNat + 1)

/-- `fw_iso_ctx_state_queue_chunks`. -/
def queueChunks (st : FwIsoCtxState) (answers : Nat → QueueAnswer) : Out FwIsoCtxState :=
  let q := st.queueLoop answers st.queueFuel 0 0 st.currOffset 0
  match q.2 with
  | .crashed fault => ⟨st, .crashed fault, q.1⟩
  | .failed errno => ⟨st, .failure (.ioctl .queueIso errno), q.1⟩
  | .finished bufOffset chunkCount =>
    ⟨{ st with currOffset := bufOffset, dataLength := 0, registeredChunkCount := 0 }, .success,
      if chunkCount = st.registeredChunkCount then q.1 else q.1 ++ [.warning]⟩

/-! ### Starting and stopping -/

/-- `fw_cdev_cycle_match_from_fields`. -/
def cycleMatchFromFields (sec cycle : UInt32) : UInt32 :=
  ((sec <<< 13) &&& 0x00007000) ||| (cycle &&& 0x00001fff)

/-- The check of the cycle to start at, which every start function makes. -/
def acceptsCycleMatch : Option (UInt16 × UInt16) → Bool
  | none => true
  | some (sec, cycle) => sec ≤ 3 ∨ cycle ≤ 7999

/-- The checks of `fw_iso_ctx_state_start` on the arguments of each mode. -/
def acceptsStart (st : FwIsoCtxState) (cycleMatch : Option (UInt16 × UInt16))
    (syncCode tags : UInt32) : Bool :=
  acceptsCycleMatch cycleMatch ∧
    if st.mode = .it then syncCode = 0 ∧ tags = 0 else syncCode ≤ 15 ∧ tags ≤ 15

/-- The request of `fw_iso_ctx_state_start`. -/
def startArg (st : FwIsoCtxState) (cycleMatch : Option (UInt16 × UInt16))
    (syncCode tags : UInt32) : StartIso where
  cycle :=
    match cycleMatch with
    | none => 0xffffffff
    | some (sec, cycle) => cycleMatchFromFields sec.toUInt32 cycle.toUInt32
  sync := syncCode
  tags := tags
  handle := st.handle

/-- `fw_iso_ctx_state_start`. -/
def start (st : FwIsoCtxState) (cycleMatch : Option (UInt16 × UInt16)) (syncCode tags : UInt32)
    (env : StartEnv) : Out FwIsoCtxState :=
  if st.fd < 0 then ⟨st, .failure (.coded .notAllocated), []⟩
  else if st.addr = .null then ⟨st, .failure (.coded .notMapped), []⟩
  else if ¬ st.acceptsStart cycleMatch syncCode tags then ⟨st, .rejected, []⟩
  else if st.dataLength = 0 then ⟨st, .failure (.coded .chunkUnregistered), []⟩
  else
    let q := st.queueChunks env.queueIso
    match q.ret with
    | .success =>
      let arg := st.startArg cycleMatch syncCode tags
      match env.startIso with
      | some errno =>
        ⟨q.state, .failure (.ioctl .startIso errno), q.effects ++ [.startIso arg false]⟩
      | none => ⟨{ q.state with running := true }, .success, q.effects ++ [.startIso arg true]⟩
    | ret => ⟨q.state, ret, q.effects⟩

/-- `fw_iso_ctx_state_stop`. -/
def stop (st : FwIsoCtxState) : Out FwIsoCtxState :=
  if ¬ st.running then ⟨st, .success, []⟩
  else
    ⟨{ st with running := false, registeredChunkCount := 0, dataLength := 0, currOffset := 0 },
      .success, [.stopIso]⟩

/-- `fw_iso_ctx_state_read_frame`: the frame, counted from `state->addr`, and its size. -/
def readFrame (st : FwIsoCtxState) (offset length : UInt32) : Option UInt32 × UInt32 :=
  if st.bytesPerBuffer < offset then (none, 0)
  else if offset + length < st.bytesPerBuffer then (some offset, length)
  else (some offset, st.bytesPerBuffer - offset)

theorem readFrame_fst_iff {st : FwIsoCtxState} {offset length address : UInt32} :
    (st.readFrame offset length).1 = some address ↔
      offset.toNat ≤ st.bytesPerBuffer.toNat ∧ address = offset := by
  rw [readFrame]
  split
  next hlt =>
    rw [UInt32.lt_iff_toNat_lt] at hlt
    refine iff_of_false (fun h => ?_) (fun h => absurd h.1 (by omega))
    cases h
  next hge =>
    rw [UInt32.lt_iff_toNat_lt, Nat.not_lt] at hge
    split <;> exact ⟨fun h => ⟨hge, (Option.some.inj h).symm⟩, fun h => congrArg some h.2.symm⟩

theorem readFrame_fst (st : FwIsoCtxState) {offset : UInt32} (length : UInt32)
    (hoffset : offset.toNat ≤ st.bytesPerBuffer.toNat) :
    (st.readFrame offset length).1 = some offset :=
  readFrame_fst_iff.mpr ⟨hoffset, rfl⟩

/-- The size of a frame: all of it, or what is before the end of the buffer; a sum that does not fit
is not noticed. -/
theorem readFrame_cases {st : FwIsoCtxState} {offset : UInt32} (length : UInt32)
    (hoffset : offset.toNat ≤ st.bytesPerBuffer.toNat) :
    let size := (st.readFrame offset length).2
    offset.toNat + length.toNat ≤ st.bytesPerBuffer.toNat ∧ size = length ∨
      4294967296 ≤ offset.toNat + length.toNat ∧ size = length ∨
      st.bytesPerBuffer.toNat < offset.toNat + length.toNat ∧
        offset.toNat + length.toNat < 4294967296 ∧
        size.toNat = st.bytesPerBuffer.toNat - offset.toNat := by
  have hbuffer := st.bytesPerBuffer.toNat_lt
  have hlength := length.toNat_lt
  have hinside : ¬ st.bytesPerBuffer < offset := by
    rw [UInt32.lt_iff_toNat_lt]
    omega
  have hsum := UInt32.toNat_add offset length
  rw [readFrame, if_neg hinside]
  split
  next hlt =>
    rw [UInt32.lt_iff_toNat_lt, hsum] at hlt
    simp only [and_true]
    omega
  next hge =>
    rw [UInt32.lt_iff_toNat_lt, hsum] at hge
    have hsize : (st.bytesPerBuffer - offset).toNat = st.bytesPerBuffer.toNat - offset.toNat :=
      UInt32.toNat_sub_of_le _ _ (UInt32.le_iff_toNat_le.mpr hoffset)
    simp only [← UInt32.toNat_inj, hsize, and_true]
    omega

theorem toNat_readFrame_snd (st : FwIsoCtxState) {offset : UInt32} (length : UInt32)
    (hoffset : offset.toNat ≤ st.bytesPerBuffer.toNat)
    (hsum : offset.toNat + length.toNat < 4294967296) :
    (st.readFrame offset length).2.toNat =
      min length.toNat (st.bytesPerBuffer.toNat - offset.toNat) := by
  rcases readFrame_cases length hoffset with ⟨hfit, hsize⟩ | ⟨hwrap, _⟩ | ⟨hcross, _, hsize⟩
  · rw [hsize]
    omega
  · omega
  · rw [hsize]
    omega

theorem readFrame_zero (st : FwIsoCtxState) (length : UInt32) :
    (st.readFrame 0 length).1 = some 0 ∧
      (st.readFrame 0 length).2.toNat = min length.toNat st.bytesPerBuffer.toNat := by
  have hstart : (0 : UInt32).toNat ≤ st.bytesPerBuffer.toNat := Nat.zero_le _
  have hlength : (0 : UInt32).toNat + length.toNat < 4294967296 := by
    rw [UInt32.toNat_zero, Nat.zero_add]
    exact length.toNat_lt
  exact ⟨st.readFrame_fst length hstart, st.toNat_readFrame_snd length hstart hlength⟩

end FwIsoCtxState

end Hinoko
