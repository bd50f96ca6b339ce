import Hinoko.Lifecycle

/-!
# What holds of every context

The invariant of `Lifecycle.lean` needs an empty store at every `unmap_buffer`.  Less
than that holds in every run, and it is enough for a context whose store is empty now:
then `StoreInv` holds again.

* `FwIsoIt.grounded_of_run`, `FwIsoIrSingle.grounded_of_run`, `FwIsoIrMultiple.grounded_of_run`:
  it holds in every run.
* `Grounded.storeInv`: from here a new account of the store can begin.
-/

namespace Hinoko

open Reentrant

/-- What holds of the state in every context of this kind. -/
structure Grounded (kind : FwIsoCtxMode) (st : FwIsoCtxState) : Prop where
  mode : 0 ≤ st.fd → st.mode = kind
  unallocated : st.fd < 0 → st.addr = .null
  live : st.addr ≠ .null → 0 < st.allocDataLength.toNat →
    ∃ block, st.data = some block ∧ st.allocDataLength.toNat ≤ block.size
  sizes : st.bytesPerChunk = 0 ↔ st.chunksPerBuffer = 0
  counts : 4 * st.registeredChunkCount.toNat ≤ st.dataLength.toNat

namespace Grounded

variable {kind : FwIsoCtxMode} {st : FwIsoCtxState}

theorem init : Grounded kind {} :=
  ⟨fun h => absurd h (by decide), fun _ => rfl, fun h => absurd rfl h, Iff.rfl, by decide⟩

/-- **A new account of the store** begins where it is empty. -/
theorem storeInv (h : Grounded kind st) (hlen : st.dataLength = 0) : StoreInv kind st [] := by
  have hcount : st.registeredChunkCount = 0 := by
    have h4 := h.counts
    rw [hlen, UInt32.toNat_zero] at h4
    rw [← UInt32.toNat_inj, UInt32.toNat_zero]
    omega
  exact .empty h.mode h.unallocated hlen hcount h.live

theorem congr {st' : FwIsoCtxState} (h : Grounded kind st) (hfd : st'.fd = st.fd)
    (hmode : st'.mode = st.mode) (haddr : st'.addr = st.addr) (hdata : st'.data = st.data)
    (halloc : st'.allocDataLength = st.allocDataLength)
    (hbytes : st'.bytesPerChunk = st.bytesPerChunk)
    (hchunks : st'.chunksPerBuffer = st.chunksPerBuffer)
    (hcounts : 4 * st'.registeredChunkCount.toNat ≤ st'.dataLength.toNat) : Grounded kind st' := by
  refine ⟨?_, ?_, ?_, ?_, hcounts⟩
  · rw [hfd, hmode]
    exact h.mode
  · rw [hfd, haddr]
    exact h.unallocated
  · rw [haddr, hdata, halloc]
    exact h.live
  · rw [hbytes, hchunks]
    exact h.sizes

theorem allocate {path : Option String} {scode channel headerSize : UInt32} {env : AllocateEnv}
    (h : Grounded kind st) :
    Grounded kind (st.allocate path kind scode channel headerSize env).state := by
  rcases st.allocate_cases path kind scode channel headerSize env with
    hr | ⟨hfd, _, ⟨_, hstate⟩ | ⟨_, fd, handle, hstate⟩⟩
  · rw [hr.state]
    exact h
  · have haddr := h.unallocated hfd
    rw [hstate]
    exact ⟨fun hfd' => absurd hfd' (by simp), fun _ => haddr, fun hne => absurd haddr hne, h.sizes,
      h.counts⟩
  · have haddr := h.unallocated hfd
    rw [hstate]
    exact ⟨fun _ => rfl, fun _ => haddr, fun hne => absurd haddr hne, h.sizes, h.counts⟩

theorem mapBuffer (bytesPerChunk chunksPerBuffer : UInt32) {env : MapEnv} (h : Grounded kind st) :
    Grounded kind (st.mapBuffer bytesPerChunk chunksPerBuffer env).state := by
  have hlive : 0 < (chunksPerBuffer * st.datumSize).toNat →
      ∃ block, gMallocN env.dataBlock env.dataFill chunksPerBuffer st.datumSize = some block ∧
        (chunksPerBuffer * st.datumSize).toNat ≤ block.size :=
    gMallocN_of_pos env.dataBlock env.dataFill
  rcases st.mapBuffer_cases bytesPerChunk chunksPerBuffer env with
    hr | ⟨⟨hbytes, hchunks, hfd, _⟩, _, ⟨_, _, _, hstate⟩ | ⟨_, _, _, hstate⟩⟩
  · rw [hr.state]
    exact h
  · rw [hstate]
    exact ⟨h.mode, fun hneg => absurd hneg (by simpa using hfd), fun _ => hlive, h.sizes, h.counts⟩
  · rw [hstate]
    exact ⟨h.mode, fun hneg => absurd hneg (by simpa using hfd), fun _ => hlive,
      iff_of_false hbytes hchunks, h.counts⟩

theorem unmapBuffer (h : Grounded kind st) : Grounded kind st.unmapBuffer.state :=
  ⟨h.mode, fun _ => rfl, fun hne => absurd rfl hne, h.sizes, h.counts⟩

theorem release (h : Grounded kind st) (haddr : st.addr = .null) :
    Grounded kind st.release.state :=
  ⟨fun hfd => absurd hfd (by simp [FwIsoCtxState.release]), fun _ => haddr,
    fun hne => absurd haddr hne, h.sizes, h.counts⟩

theorem registerChunk {skip : Bool} {tags syncCode : UInt32} {header : ArrayArg}
    {payloadLength : UInt32} {irq : Bool} (h : Grounded kind st) :
    Grounded kind (st.registerChunk skip tags syncCode header payloadLength irq).state := by
  rcases st.registerChunk_cases skip tags syncCode header payloadLength irq with
    hr | ⟨⟨_, hroom, hfd, haddr⟩, ⟨_, ho⟩ | ⟨block, hdata, ho⟩⟩
  · rw [hr.state]
    exact h
  · rw [ho]
    exact h
  · have halloc := st.allocDataLength.toNat_lt
    have h4 : sizeofFwCdevIsoPacket.toNat = 4 := rfl
    have hcounts := h.counts
    rw [ho]
    refine ⟨h.mode, fun hneg => absurd hneg (by simpa using hfd), fun _ hpos => ?_, h.sizes, ?_⟩
    · obtain ⟨block', hdata', hsize⟩ := h.live haddr hpos
      rw [hdata] at hdata'
      cases hdata'
      exact ⟨_, rfl, hsize⟩
    · simp only [UInt32.toNat_add, h4, UInt32.toNat_one]
      omega

theorem queueChunks (h : Grounded kind st) (answers : Nat → QueueAnswer) :
    Grounded kind (st.queueChunks answers).state := by
  rcases (st.queueChunks_cases answers).2 with ⟨hstate, _⟩ | ⟨_, x, hstate⟩
  · rw [hstate]
    exact h
  · rw [hstate]
    exact h.congr rfl rfl rfl rfl rfl rfl rfl (Nat.le_refl 0)

theorem start {cycleMatch : Option (UInt16 × UInt16)} {syncCode tags : UInt32} {env : StartEnv}
    (h : Grounded kind st) : Grounded kind (st.start cycleMatch syncCode tags env).state := by
  have hq := h.queueChunks env.queueIso
  rcases st.start_cases cycleMatch syncCode tags env with
    hr | ⟨_, ⟨_, ho⟩ | ⟨_, ⟨_, _, ho⟩ | ⟨_, ho⟩⟩⟩
  · rw [hr.state]
    exact h
  · rw [ho]
    exact hq
  · rw [ho]
    exact hq
  · rw [ho]
    exact hq.congr rfl rfl rfl rfl rfl rfl rfl hq.counts

theorem stop (h : Grounded kind st) : Grounded kind st.stop.state := by
  cases hrun : st.running with
  | false =>
    rw [FwIsoCtxState.stop_of_not_running hrun]
    exact h
  | true =>
    rw [FwIsoCtxState.stop_of_running hrun]
    exact h.congr rfl rfl rfl rfl rfl rfl rfl (Nat.le_refl 0)

end Grounded

/-! ### What the functions of the state leave alone -/

/-- What registering and queueing leave alone. -/
structure SameSetup (st st' : FwIsoCtxState) : Prop where
  fd : st'.fd = st.fd
  addr : st'.addr = st.addr
  bytesPerChunk : st'.bytesPerChunk = st.bytesPerChunk
  chunksPerBuffer : st'.chunksPerBuffer = st.chunksPerBuffer
  allocDataLength : st'.allocDataLength = st.allocDataLength
  running : st'.running = st.running

namespace SameSetup

theorem refl (st : FwIsoCtxState) : SameSetup st st := ⟨rfl, rfl, rfl, rfl, rfl, rfl⟩

theorem trans {a b c : FwIsoCtxState} (h : SameSetup a b) (h' : SameSetup b c) : SameSetup a c :=
  ⟨h'.fd.trans h.fd, h'.addr.trans h.addr, h'.bytesPerChunk.trans h.bytesPerChunk,
    h'.chunksPerBuffer.trans h.chunksPerBuffer, h'.allocDataLength.trans h.allocDataLength,
    h'.running.trans h.running⟩

theorem bytesPerBuffer {a b : FwIsoCtxState} (h : SameSetup a b) :
    b.bytesPerBuffer = a.bytesPerBuffer := by
  rw [FwIsoCtxState.bytesPerBuffer, FwIsoCtxState.bytesPerBuffer, h.bytesPerChunk,
    h.chunksPerBuffer]

theorem registerChunk (st : FwIsoCtxState) (skip : Bool) (tags syncCode : UInt32)
    (header : ArrayArg) (payloadLength : UInt32) (irq : Bool) :
    SameSetup st (st.registerChunk skip tags syncCode header payloadLength irq).state := by
  rcases st.registerChunk_cases skip tags syncCode header payloadLength irq with
    hr | ⟨_, ⟨_, ho⟩ | ⟨_, _, ho⟩⟩
  · rw [hr.state]
    exact refl st
  · rw [ho]
    exact refl st
  · rw [ho]
    exact ⟨rfl, rfl, rfl, rfl, rfl, rfl⟩

theorem queueChunks (st : FwIsoCtxState) (answers : Nat → QueueAnswer) :
    SameSetup st (st.queueChunks answers).state := by
  rcases (st.queueChunks_cases answers).2 with ⟨hstate, _⟩ | ⟨_, x, hstate⟩
  · rw [hstate]
    exact refl st
  · rw [hstate]
    exact ⟨rfl, rfl, rfl, rfl, rfl, rfl⟩

end SameSetup

namespace FwIsoCtxState

theorem start_same (st : FwIsoCtxState) (cycleMatch : Option (UInt16 × UInt16))
    (syncCode tags : UInt32) (env : StartEnv) :
    ∃ running, SameSetup { st with running := running }
      (st.start cycleMatch syncCode tags env).state := by
  obtain ⟨hfd, haddr, hbytes, hchunks, halloc, hrun⟩ := SameSetup.queueChunks st env.queueIso
  rcases st.start_cases cycleMatch syncCode tags env with
    hr | ⟨_, ⟨_, ho⟩ | ⟨_, ⟨_, _, ho⟩ | ⟨_, ho⟩⟩⟩
  · rw [hr.state]
    exact ⟨st.running, .refl st⟩
  · rw [ho]
    exact ⟨st.running, hfd, haddr, hbytes, hchunks, halloc, hrun⟩
  · rw [ho]
    exact ⟨st.running, hfd, haddr, hbytes, hchunks, halloc, hrun⟩
  · rw [ho]
    exact ⟨true, hfd, haddr, hbytes, hchunks, halloc, rfl⟩

theorem stop_same (st : FwIsoCtxState) :
    ∃ running, SameSetup { st with running := running } st.stop.state := by
  cases hrun : st.running with
  | false =>
    rw [FwIsoCtxState.stop_of_not_running hrun]
    exact ⟨st.running, .refl st⟩
  | true =>
    rw [FwIsoCtxState.stop_of_running hrun]
    exact ⟨false, rfl, rfl, rfl, rfl, rfl, rfl⟩

theorem sizes_start (st : FwIsoCtxState) (cycleMatch : Option (UInt16 × UInt16))
    (syncCode tags : UInt32) (env : StartEnv) :
    let o := st.start cycleMatch syncCode tags env
    o.state.bytesPerChunk = st.bytesPerChunk ∧ o.state.chunksPerBuffer = st.chunksPerBuffer := by
  have hsame := SameSetup.queueChunks st env.queueIso
  have hq := And.intro hsame.bytesPerChunk hsame.chunksPerBuffer
  rcases st.start_cases cycleMatch syncCode tags env with
    hr | ⟨_, ⟨_, ho⟩ | ⟨_, ⟨_, _, ho⟩ | ⟨_, ho⟩⟩⟩
  · simp only [hr.state, and_self]
  · simp only [ho]
    exact hq
  · simp only [ho]
    exact hq
  · simp only [ho]
    exact hq

end FwIsoCtxState

theorem FwIsoIt.registerPacket_same (self : FwIsoIt) (tags syncCode : UInt32)
    (header payload : ArrayArg) (irq : Bool) :
    SameSetup self.state (self.registerPacket tags syncCode header payload irq).state.state := by
  have hsame := SameSetup.registerChunk self.state
    (header.length = 0 ∧ payload.length = 0 : Bool) tags syncCode header payload.length irq
  rcases self.registerPacket_cases tags syncCode header payload irq with
    hr | ⟨_, ⟨_, ho⟩ | ⟨_, ⟨_, ho⟩ | ⟨self', hw, ho⟩⟩⟩
  · rw [hr.state]
    exact .refl _
  · rw [ho]
    exact hsame
  · rw [ho]
    exact hsame
  · rw [ho, writePayload_state hw]
    exact hsame

/-! ### IT contexts -/

namespace FwIsoIt

def Grounded (it : FwIsoIt) : Prop := Hinoko.Grounded .it it.state

namespace Grounded

variable {self : FwIsoIt}

theorem registerPacket (h : Grounded self) (tags syncCode : UInt32) (header payload : ArrayArg)
    (irq : Bool) : Grounded (self.registerPacket tags syncCode header payload irq).state := by
  have hchunk : Hinoko.Grounded .it (self.state.registerChunk
    (header.length = 0 ∧ payload.length = 0 : Bool) tags syncCode header payload.length
      irq).state := Hinoko.Grounded.registerChunk h
  rw [Grounded]
  rcases self.registerPacket_cases tags syncCode header payload irq with
    hr | ⟨_, ⟨_, ho⟩ | ⟨_, ⟨_, ho⟩ | ⟨self', hw, ho⟩⟩⟩
  · rw [hr.state]
    exact h
  · rw [ho]
    exact hchunk
  · rw [ho]
    exact hchunk
  · rw [ho, writePayload_state hw]
    exact hchunk

theorem exec (op : Op) (c : Ctx FwIsoIt) (h : Grounded c.priv) :
    (exec op c).Keeps (fun c => Grounded c.priv) fun _ c => Grounded c.priv := by
  have hstop : ∀ c : Ctx FwIsoIt, Grounded c.priv →
      Grounded (c.after (Ctx.onState FwIsoCtxState.stop c.priv)).priv :=
    fun _ hc => Hinoko.Grounded.stop hc
  cases op with
  | allocate path scode channel headerSize env =>
    show Grounded (c.priv.allocate path scode channel headerSize env).state
    rw [FwIsoIt.allocate]
    split
    · exact h
    · exact Hinoko.Grounded.allocate h
  | mapBuffer bytes payloads env mem => exact Hinoko.Grounded.mapBuffer bytes payloads h
  | registerPacket tags syncCode header payload irq =>
    exact h.registerPacket tags syncCode header payload irq
  | start cycleMatch env =>
    show Grounded (c.priv.start cycleMatch env).state
    rw [FwIsoIt.start]
    split
    · exact h
    · exact Hinoko.Grounded.start h
  | stop => exact Ctx.stop_keeps hstop (fun _ hc => hc) h
  | unmapBuffer =>
    exact Ctx.unmapBuffer_keeps hstop (fun _ hc => hc)
      (fun _ hc => Hinoko.Grounded.unmapBuffer hc) h
  | release =>
    exact Ctx.release_keeps (Q := fun c => Grounded c.priv ∧ c.priv.state.addr = .null) hstop
      (fun _ hc => hc) (fun _ hc => ⟨Hinoko.Grounded.unmapBuffer hc, rfl⟩)
      (fun _ hc => Hinoko.Grounded.release hc.1 hc.2) h
  | dispatch w =>
    refine Ctx.dispatch_keeps hstop (fun _ hc => hc) (fun ev env c hc => ?_) w h
    cases ev with
    | isoInterrupt ev => exact ⟨hc, fun c' hc' => Hinoko.Grounded.queueChunks hc' _⟩
    | isoInterruptMc ev => exact hc
    | other => exact hc

end Grounded

/-- **It holds in every run.** -/
theorem grounded_of_run (ms : List (Move Op)) :
    Grounded (run exec ⟨⟨new, []⟩, []⟩ ms).state.priv :=
  run_keeps_of_init (I := fun c : Ctx FwIsoIt => Grounded c.priv) (s := ⟨new, []⟩) ms
    .init fun op _ c hc => Grounded.exec op c hc

end FwIsoIt

/-! ### Single-channel IR contexts -/

namespace FwIsoIrSingle

structure Grounded (it : FwIsoIrSingle) : Prop where
  state : Hinoko.Grounded .irSingle it.state
  headerSize : 0 ≤ it.state.fd ∨ it.state.running → 4 ≤ it.headerSize
  /-- `allocate` has not given a header size yet, or a sensible one -/
  sensible : it.headerSize = 0 ∨ 4 ≤ it.headerSize

namespace Grounded

variable {self self' : FwIsoIrSingle}

theorem init : Grounded new := ⟨.init, by decide, .inl rfl⟩

theorem congr (h : Grounded self) (hstate : Hinoko.Grounded .irSingle self'.state)
    (hsize : self'.headerSize = self.headerSize)
    (hup : 0 ≤ self'.state.fd ∨ self'.state.running →
      0 ≤ self.state.fd ∨ self.state.running) : Grounded self' :=
  ⟨hstate, fun h' => hsize ▸ h.headerSize (hup h'), hsize ▸ h.sensible⟩

theorem allocate (h : Grounded self) (path : Option String) (channel headerSize : UInt32)
    (env : AllocateEnv) : Grounded (self.allocate path channel headerSize env).state := by
  simp only [FwIsoIrSingle.allocate]
  split
  · exact h
  split
  · exact h
  next hsize =>
  have hleast : 4 ≤ headerSize := UInt32.not_lt.mp hsize
  rcases self.state.allocate_cases path .irSingle 0 channel headerSize env with
    hr | ⟨_, _, ⟨hfalse, hstate⟩ | ⟨hret, _⟩⟩
  · have hne : (self.state.allocate path .irSingle 0 channel headerSize env).ret ≠ .success := by
      intro hret
      have hfalse := hr.ret
      rw [hret] at hfalse
      exact hfalse
    refine ⟨h.state.allocate, ?_, ?_⟩ <;> simp only [Out.map_state, hne, if_false, hr.state]
    · exact h.headerSize
    · exact h.sensible
  · have hne : (self.state.allocate path .irSingle 0 channel headerSize env).ret ≠ .success := by
      intro hret
      rw [hret] at hfalse
      exact hfalse
    refine ⟨h.state.allocate, ?_, ?_⟩ <;> simp only [Out.map_state, hne, if_false, hstate]
    · rintro (hfd | hrun)
      · exact absurd hfd (by decide)
      · exact h.headerSize (.inr hrun)
    · exact h.sensible
  · refine ⟨h.state.allocate, ?_, ?_⟩ <;> simp only [Out.map_state, hret, if_true]
    · exact fun _ => hleast
    · exact .inr hleast

theorem mapBuffer (h : Grounded self) (bytes payloads : UInt32) (env : MapEnv) :
    Grounded (self.mapBuffer bytes payloads env).state := by
  refine h.congr (h.state.mapBuffer bytes payloads) rfl ?_
  simp only [FwIsoIrSingle.mapBuffer, Out.map_state]
  rcases self.state.mapBuffer_cases bytes payloads env with
    hr | ⟨_, _, ⟨_, _, _, hstate⟩ | ⟨_, _, _, hstate⟩⟩
  · rw [hr.state]
    exact id
  · rw [hstate]
    exact id
  · rw [hstate]
    exact id

theorem registerPacket (h : Grounded self) (irq : Bool) :
    Grounded (self.registerPacket irq).state := by
  refine h.congr h.state.registerChunk rfl ?_
  simp only [FwIsoIrSingle.registerPacket, Out.map_state]
  rcases self.state.registerChunk_cases false 0 0 .null 0 irq with hr | ⟨_, ⟨_, ho⟩ | ⟨_, _, ho⟩⟩
  · rw [hr.state]
    exact id
  · rw [ho]
    exact id
  · rw [ho]
    exact id

theorem start (h : Grounded self) (cycleMatch : Option (UInt16 × UInt16)) (syncCode tags : UInt32)
    (env : StartEnv) : Grounded (self.start cycleMatch syncCode tags env).state := by
  simp only [FwIsoIrSingle.start]
  split
  · exact h
  split
  · exact h
  refine h.congr h.state.start rfl ?_
  simp only [Out.map_state]
  obtain ⟨hfd, _, _, _, _, hrun⟩ := SameSetup.queueChunks self.state env.queueIso
  rcases self.state.start_cases cycleMatch syncCode tags env with
    hr | ⟨⟨hfd0, _⟩, ⟨_, ho⟩ | ⟨_, ⟨_, _, ho⟩ | ⟨_, ho⟩⟩⟩
  · rw [hr.state]
    exact id
  · rw [ho, hfd, hrun]
    exact id
  · rw [ho, hfd, hrun]
    exact id
  · exact fun _ => .inl hfd0

theorem finishEvent (h : Grounded self) (count : UInt32) (answers : Nat → QueueAnswer) :
    Grounded (FwIsoIrSingle.finishEvent count answers self).state := by
  simp only [FwIsoIrSingle.finishEvent]
  split
  · exact h.congr h.state rfl id
  · refine h.congr (h.state.queueChunks answers) rfl ?_
    obtain ⟨hfd, _, _, _, _, hrun⟩ := SameSetup.queueChunks self.state answers
    simp only [Out.map_state, hfd, hrun]
    exact id

theorem stop (h : Grounded self) : Grounded (Ctx.onState FwIsoCtxState.stop self).state := by
  refine h.congr h.state.stop rfl ?_
  simp only [Ctx.onState, Out.map_state, FwIsoCtx.setState, FwIsoCtx.state]
  cases hrun : self.state.running with
  | false =>
    rw [FwIsoCtxState.stop_of_not_running hrun, hrun]
    exact id
  | true => exact fun _ => .inr rfl

theorem unmapBuffer (h : Grounded self) :
    Grounded self.unmapBuffer.state ∧ self.unmapBuffer.state.state.addr = .null :=
  ⟨h.congr h.state.unmapBuffer rfl id, rfl⟩

theorem release (h : Grounded self) (haddr : self.state.addr = .null) :
    Grounded self.release.state := by
  refine h.congr (h.state.release haddr) rfl ?_
  rintro (hfd | hrun)
  · exact absurd hfd (by simp [FwIsoIrSingle.release, FwIsoCtxState.release])
  · exact .inr hrun

theorem exec (op : Op) (c : Ctx FwIsoIrSingle) (h : Grounded c.priv) :
    (exec op c).Keeps (fun c => Grounded c.priv) fun _ c => Grounded c.priv := by
  have hstop : ∀ c : Ctx FwIsoIrSingle, Grounded c.priv →
      Grounded (c.after (Ctx.onState FwIsoCtxState.stop c.priv)).priv := fun _ hc => hc.stop
  cases op with
  | allocate path channel headerSize env => exact h.allocate path channel headerSize env
  | mapBuffer bytes payloads env => exact h.mapBuffer bytes payloads env
  | registerPacket irq => exact h.registerPacket irq
  | start cycleMatch syncCode tags env => exact h.start cycleMatch syncCode tags env
  | getPayload index => exact h
  | stop => exact Ctx.stop_keeps hstop (fun _ hc => hc) h
  | unmapBuffer =>
    exact Ctx.unmapBuffer_keeps hstop (fun _ hc => hc) (fun _ hc => hc.unmapBuffer.1) h
  | release =>
    exact Ctx.release_keeps (Q := fun c => Grounded c.priv ∧ c.priv.state.addr = .null) hstop
      (fun _ hc => hc) (fun _ hc => hc.unmapBuffer) (fun _ hc => hc.1.release hc.2) h
  | dispatch w =>
    refine Ctx.dispatch_keeps hstop (fun _ hc => hc) (fun ev env c hc => ?_) w h
    cases ev with
    | isoInterrupt ev =>
      simp only [FwIsoCtx.handleEvent, handleEvent]
      split
      · exact hc
      · exact ⟨hc.congr hc.state rfl id, fun c' hc' => hc'.finishEvent _ _⟩
    | isoInterruptMc ev => exact hc
    | other => exact hc

end Grounded

/-- **It holds in every run.** -/
theorem grounded_of_run (ms : List (Move Op)) :
    Grounded (run exec ⟨⟨new, []⟩, []⟩ ms).state.priv :=
  run_keeps_of_init (I := fun c : Ctx FwIsoIrSingle => Grounded c.priv) (s := ⟨new, []⟩) ms
    .init fun op _ c hc => Grounded.exec op c hc

end FwIsoIrSingle

/-! ### Multiple-channel IR contexts -/

namespace FwIsoIrMultiple

/-- What holds of every multiple-channel IR context: chunks are whole quadlets, and the array of
records has the size that goes with the buffer. -/
structure Grounded (it : FwIsoIrMultiple) : Prop where
  state : Hinoko.Grounded .irMultiple it.state
  quadlets : it.state.bytesPerChunk.toNat % 4 = 0
  capacity : it.capacity = (it.state.bytesPerBuffer / 8 / 2).toNat

namespace Grounded

variable {self self' : FwIsoIrMultiple}

theorem congr (h : Grounded self) (hstate : Hinoko.Grounded .irMultiple self'.state)
    (hbytes : self'.state.bytesPerChunk = self.state.bytesPerChunk)
    (hchunks : self'.state.chunksPerBuffer = self.state.chunksPerBuffer)
    (hcapacity : self'.capacity = self.capacity) : Grounded self' := by
  refine ⟨hstate, ?_, ?_⟩
  · rw [hbytes]
    exact h.quadlets
  · rw [hcapacity, h.capacity, FwIsoCtxState.bytesPerBuffer, FwIsoCtxState.bytesPerBuffer, hbytes,
      hchunks]

theorem mapBuffer (h : Grounded self) (bytesPerChunk chunksPerBuffer : UInt32)
    (env : MapMultipleEnv) : Grounded (self.mapBuffer bytesPerChunk chunksPerBuffer env).state := by
  have hstate : Hinoko.Grounded .irMultiple (self.state.mapBuffer ((bytesPerChunk + 3) / 4 * 4)
      chunksPerBuffer env.toMapEnv).state := h.state.mapBuffer _ _
  have hcases := self.state.mapBuffer_cases ((bytesPerChunk + 3) / 4 * 4) chunksPerBuffer
    env.toMapEnv
  simp only [FwIsoIrMultiple.mapBuffer]
  split
  next hret =>
    obtain ⟨_, _, id, _, ho⟩ := FwIsoCtxState.mapBuffer_of_success hret
    have h4 : (4 : UInt32).toNat = 4 := rfl
    refine ⟨hstate, ?_, ?_⟩
    · simp only [Out.map_state, ho, UInt32.toNat_mul, UInt32.toNat_div, h4]
      omega
    · simp only [Out.map_state, FwIsoCtxState.bytesPerBuffer]
      generalize (_ / 8 / 2 : UInt32).toNat = n
      by_cases hn : n = 0 <;> simp [FwIsoIrMultiple.capacity, hn]
  next hret =>
    simp only [Out.map_state]
    rcases hcases with hr | ⟨_, _, ⟨_, _, _, ho⟩ | ⟨_, _, hret', _⟩⟩
    · rw [hr.state]
      exact h.congr h.state rfl rfl rfl
    · rw [ho] at hstate ⊢
      exact h.congr hstate rfl rfl rfl
    · exact absurd hret' hret

theorem registerChunk (h : Grounded self) : Grounded self.registerChunk.state := by
  have hstate : Hinoko.Grounded .irMultiple self.registerChunk.state.state := h.state.registerChunk
  have hsame := SameSetup.registerChunk self.state false 0 0 .null 0
    (0 < self.chunksPerIrq ∧ (self.accumulatedChunkCount + 1) % self.chunksPerIrq = 0)
  exact h.congr hstate hsame.bytesPerChunk hsame.chunksPerBuffer rfl

theorem registerChunks : ∀ (n : Nat) {self : FwIsoIrMultiple}, Grounded self →
    Grounded (FwIsoIrMultiple.registerChunks n self).state := by
  intro n
  induction n with
  | zero => exact fun h => h
  | succ n ih =>
    intro self h
    simp only [FwIsoIrMultiple.registerChunks]
    split
    · exact ih h.registerChunk
    · exact h.registerChunk

theorem queueChunks (h : Grounded self) (answers : Nat → QueueAnswer) :
    Grounded { self with state := (self.state.queueChunks answers).state } := by
  have hsame := SameSetup.queueChunks self.state answers
  exact h.congr (h.state.queueChunks answers) hsame.bytesPerChunk hsame.chunksPerBuffer rfl

theorem start (h : Grounded self) (cycleMatch : Option (UInt16 × UInt16))
    (syncCode tags chunksPerIrq : UInt32) (env : StartEnv) :
    Grounded (self.start cycleMatch syncCode tags chunksPerIrq env).state := by
  simp only [FwIsoIrMultiple.start]
  split
  · exact h
  split
  · exact h
  split
  · exact h
  have hreg : Grounded (FwIsoIrMultiple.registerChunks self.state.chunksPerBuffer.toNat
      { self with chunksPerIrq := chunksPerIrq, accumulatedChunkCount := 0 }).state :=
    registerChunks _ (h.congr h.state rfl rfl rfl)
  split
  · obtain ⟨hbytes, hchunks⟩ := FwIsoCtxState.sizes_start (FwIsoIrMultiple.registerChunks
      self.state.chunksPerBuffer.toNat
      { self with chunksPerIrq := chunksPerIrq, accumulatedChunkCount := 0 }).state.state
      cycleMatch syncCode tags env
    exact hreg.congr hreg.state.start hbytes hchunks rfl
  · exact hreg

theorem finishEvent (h : Grounded self) (bytesPerChunk bytesPerBuffer accumLength : UInt32)
    (answers : Nat → QueueAnswer) :
    Grounded (FwIsoIrMultiple.finishEvent bytesPerChunk bytesPerBuffer accumLength answers
      self).state := by
  simp only [FwIsoIrMultiple.finishEvent]
  split
  · exact h
  have hreg : Grounded (FwIsoIrMultiple.registerChunks
    (((self.prevOffset + accumLength) / bytesPerChunk).toNat -
      (self.prevOffset / bytesPerChunk).toNat) self).state := registerChunks _ h
  split
  · split
    · exact hreg
    · exact (hreg.congr hreg.state rfl rfl rfl : Grounded { (FwIsoIrMultiple.registerChunks
        (((self.prevOffset + accumLength) / bytesPerChunk).toNat -
          (self.prevOffset / bytesPerChunk).toNat) self).state with
        prevOffset := ((FwIsoIrMultiple.registerChunks
          (((self.prevOffset + accumLength) / bytesPerChunk).toNat -
            (self.prevOffset / bytesPerChunk).toNat) self).state.prevOffset + accumLength) %
              bytesPerBuffer }).queueChunks answers
  · exact hreg

theorem stored (h : Grounded self) (records : List CtxPayload) : Grounded (self.store records) := by
  refine h.congr h.state rfl rfl ?_
  cases hp : self.ctxPayloads <;> simp [FwIsoIrMultiple.capacity, FwIsoIrMultiple.store, hp]

theorem getPayload (h : Grounded self) (index : UInt32) :
    Grounded (self.getPayload index).1 := by
  have hstate := self.state_getPayload index
  refine h.congr (hstate ▸ h.state) (by rw [hstate]) (by rw [hstate]) ?_
  simp only [FwIsoIrMultiple.getPayload]
  repeat' split
  all_goals rfl

theorem stop (h : Grounded self) : Grounded (Ctx.onState FwIsoCtxState.stop self).state := by
  have hstop := h.state.stop
  simp only [Ctx.onState, Out.map_state, FwIsoCtx.setState, FwIsoCtx.state]
  cases hrun : self.state.running with
  | false =>
    rw [FwIsoCtxState.stop_of_not_running hrun]
    exact h
  | true =>
    rw [FwIsoCtxState.stop_of_running hrun] at hstop ⊢
    exact h.congr hstop rfl rfl rfl

theorem unmapBuffer (h : Grounded self) :
    Grounded self.unmapBuffer.state ∧ self.unmapBuffer.state.state.addr = .null :=
  ⟨h.congr h.state.unmapBuffer rfl rfl rfl, rfl⟩

theorem release (h : Grounded self) (haddr : self.state.addr = .null) :
    Grounded self.release.state :=
  h.congr (h.state.release haddr) rfl rfl rfl

theorem keeps_release {c : Ctx FwIsoIrMultiple} (h : Grounded c.priv) :
    c.release.Keeps (fun c => Grounded c.priv) fun _ c => Grounded c.priv :=
  Ctx.release_keeps (Q := fun c => Grounded c.priv ∧ c.priv.state.addr = .null)
    (fun _ hc => hc.stop) (fun _ hc => hc) (fun _ hc => hc.unmapBuffer)
    (fun _ hc => hc.1.release hc.2) h

theorem allocateState (h : Grounded self) (path : Option String) (env : AllocateEnv) :
    Grounded (allocateState path env self).state := by
  have hstate : Hinoko.Grounded .irMultiple
    (self.state.allocate path .irMultiple 0 0 0 env).state := h.state.allocate
  simp only [FwIsoIrMultiple.allocateState, Out.map_state]
  rcases self.state.allocate_cases path .irMultiple 0 0 0 env with
    hr | ⟨_, _, ⟨_, ho⟩ | ⟨_, _, _, ho⟩⟩
  · rw [hr.state]
    exact h.congr h.state rfl rfl rfl
  · rw [ho] at hstate ⊢
    exact h.congr hstate rfl rfl rfl
  · rw [ho] at hstate ⊢
    exact h.congr hstate rfl rfl rfl

theorem exec (op : Op) (c : Ctx FwIsoIrMultiple) (h : Grounded c.priv) :
    (exec op c).Keeps (fun c => Grounded c.priv) fun _ c => Grounded c.priv := by
  have hstop : ∀ c : Ctx FwIsoIrMultiple, Grounded c.priv →
      Grounded (c.after (Ctx.onState FwIsoCtxState.stop c.priv)).priv := fun _ hc => hc.stop
  cases op with
  | allocate path channels env set bigEndian =>
    exact allocate_keeps (fun c hc => hc.allocateState path env) (fun _ hc => hc)
      (fun _ hc => keeps_release hc) (fun _ _ hc => hc.congr hc.state rfl rfl rfl) h
  | mapBuffer bytes chunks env => exact h.mapBuffer bytes chunks env
  | start cycleMatch syncCode tags irq env => exact h.start cycleMatch syncCode tags irq env
  | getPayload index => exact h.getPayload index
  | stop => exact Ctx.stop_keeps hstop (fun _ hc => hc) h
  | unmapBuffer =>
    exact Ctx.unmapBuffer_keeps hstop (fun _ hc => hc) (fun _ hc => hc.unmapBuffer.1) h
  | release => exact keeps_release h
  | dispatch w =>
    refine Ctx.dispatch_keeps hstop (fun _ hc => hc) (fun ev env c hc => ?_) w h
    cases ev with
    | isoInterrupt ev => exact hc
    | isoInterruptMc ev =>
      simp only [FwIsoCtx.handleEvent, handleEvent]
      split
      · exact hc
      next records _ =>
        have hmem : Grounded { c.priv with mem := env.buffer } := hc.congr hc.state rfl rfl rfl
        exact ⟨hmem.stored records, fun c' hc' => hc'.finishEvent _ _ _ _⟩
    | other => exact hc

end Grounded

/-- **It holds in every run.** -/
theorem grounded_of_run (ms : List (Move Op)) :
    Grounded (run exec ⟨⟨new, []⟩, []⟩ ms).state.priv :=
  run_keeps_of_init (I := fun c : Ctx FwIsoIrMultiple => Grounded c.priv) (s := ⟨new, []⟩) ms
    ⟨.init, rfl, rfl⟩ fun op _ c hc => Grounded.exec op c hc

end FwIsoIrMultiple

end Hinoko
