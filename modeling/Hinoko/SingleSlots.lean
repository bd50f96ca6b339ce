import Hinoko.Slots

/-!
# The slots of a single-channel IR context

The queue takes the slots in turn (`Slots.lean`).  On the other side, the context counts
the packets that it has reported in `chunk_cursor`, which it reduces when it gets large,
and takes the slot of a packet from it.  `Streaming` relates the two counts over a run.

* `slots_of_run`: chunk `n` is queued at slot `n`, and packet `n` is read from there, each
  modulo the number of slots, in every state of every run.
-/

namespace Hinoko

open Reentrant

namespace FwIsoIrSingle

def reported (es : List Effect) : Nat :=
  (es.map fun
    | .interrupted count => count.toNat
    | _ => 0).sum

def announced (self : FwIsoIrSingle) : Nat :=
  match self.ev with
  | none => 0
  | some ev => (ev.headerLength / self.headerSize).toNat

/-- A stream: registering, asking for payloads, a start of a context that does not run, and the
events of one that does, one after the other. -/
def Op.Streams : Op → Ctx FwIsoIrSingle → Prop
  | .registerPacket _, _ => True
  | .getPayload _, _ => True
  | .start _ _ _ env, c => c.priv.state.running = false ∧ Accepting env.queueIso
  | .dispatch (.event (.isoInterrupt _) env), c =>
    c.priv.state.running = true ∧ c.priv.ev = none ∧ Accepting env.queueIso
  | _, _ => False

/-- The context has just been allocated and mapped, or it has been stopped while it was running and
no event was being handled. -/
inductive Initial : FwIsoIrSingle → Prop where
  | mapped {path : Option String} {channel headerSize bytes payloads : UInt32}
      {allocateEnv : AllocateEnv} {mapEnv : MapEnv}
      (allocates : (new.allocate path channel headerSize allocateEnv).ret = .success)
      (maps : ((new.allocate path channel headerSize allocateEnv).state.mapBuffer bytes payloads
        mapEnv).ret = .success) :
      Initial ((new.allocate path channel headerSize allocateEnv).state.mapBuffer bytes payloads
        mapEnv).state
  | stopped (ms : List (Move Op)) (self : FwIsoIrSingle)
      (reached : (run exec ⟨⟨new, []⟩, []⟩ ms).state.priv = self)
      (running : self.state.running = true) (outside : self.ev = none) :
      Initial (Ctx.onState FwIsoCtxState.stop self).state

/-! ### The invariant -/

theorem reported_append (es es' : List Effect) :
    reported (es ++ es') = reported es + reported es' := by
  rw [reported, List.map_append, List.sum_append]
  rfl

/-- Effects that report nothing. -/
theorem reported_append_of_none {es es' : List Effect}
    (h : ∀ e ∈ es', ∀ count, e ≠ .interrupted count) : reported (es ++ es') = reported es := by
  have hzero : reported es' = 0 := by
    rw [reported, List.sum_eq_zero_iff]
    intro n hn
    obtain ⟨e, he, rfl⟩ := List.mem_map.mp hn
    cases e <;>
      first
      | rfl
      | exact absurd rfl (h _ he _)
  rw [reported_append, hzero, Nat.add_zero]

/-- The cursor agrees with what has been reported before the event that is being handled. -/
structure Streaming (it : FwIsoIrSingle) (es : List Effect) : Prop where
  slots : Slots .irSingle it.state es
  chunks_lt : it.state.chunksPerBuffer.toNat < 2147483648
  headerSize : 0 ≤ it.state.fd ∨ it.state.running → 4 ≤ it.headerSize
  idle : it.state.running = false → it.ev = none ∧ reported es = 0
  cursor_lt : it.state.running = true → it.chunkCursor.toNat < 2147483648
  announced_le : it.announced ≤ reported es
  cursor : it.state.running = true → it.chunkCursor.toNat % it.state.chunksPerBuffer.toNat =
    (reported es - it.announced) % it.state.chunksPerBuffer.toNat

namespace Streaming

variable {self : FwIsoIrSingle} {es : List Effect}

theorem count_lt (h : Streaming self es) (hrun : self.state.running = true) (length : UInt32) :
    (length / self.headerSize).toNat < 1073741824 := by
  have h4 : (4 : UInt32).toNat ≤ self.headerSize.toNat :=
    UInt32.le_iff_toNat_le.mp (h.headerSize (.inr hrun))
  have hlt := length.toNat_lt
  rw [UInt32.toNat_div]
  calc length.toNat / self.headerSize.toNat ≤ length.toNat / 4 := Nat.div_le_div_left h4 (by decide)
    _ < 1073741824 := by omega

theorem registerPacket (h : Streaming self es) (irq : Bool) :
    Streaming (self.registerPacket irq).state (es ++ (self.registerPacket irq).effects) := by
  have hslots := h.slots.registerChunk (by decide) irq
  simp only [FwIsoIrSingle.registerPacket, Out.map_state, Out.map_effects]
  rcases self.state.registerChunk_cases false 0 0 .null 0 irq with
    hr | ⟨_, ⟨_, ho⟩ | ⟨_, _, ho⟩⟩
  · rw [hr.state, hr.effects, List.append_nil]
    exact h
  · rw [ho, List.append_nil]
    exact h
  · rw [ho] at hslots ⊢
    have hreported : reported (es ++ [.chunk (self.state.datum false 0 0 .null 0 irq)]) =
        reported es := reported_append_of_none (by simp)
    refine ⟨hslots, h.chunks_lt, h.headerSize, ?_, h.cursor_lt, ?_, ?_⟩ <;> rw [hreported]
    · exact h.idle
    · exact h.announced_le
    · exact h.cursor

/-- Queueing does not report packets. -/
theorem reported_queueChunks (st : FwIsoCtxState) (answers : Nat → QueueAnswer) (es : List Effect) :
    reported (es ++ (st.queueChunks answers).effects) = reported es := by
  refine reported_append_of_none fun e he count => ?_
  rcases (st.queueChunks_cases answers).1 e he with rfl | ⟨_, _, _, rfl⟩ <;> nofun

theorem of_zero (hslots : Slots .irSingle self.state es)
    (hchunks : self.state.chunksPerBuffer.toNat < 2147483648)
    (hheader : 0 ≤ self.state.fd ∨ self.state.running → 4 ≤ self.headerSize)
    (hev : self.ev = none) (hreported : reported es = 0) (hcursor : self.chunkCursor = 0) :
    Streaming self es := by
  have hannounced : self.announced = 0 := by rw [announced, hev]
  refine ⟨hslots, hchunks, hheader, fun _ => ⟨hev, hreported⟩, fun _ => ?_, ?_, fun _ => ?_⟩
  · rw [hcursor]
    decide
  · rw [hannounced]
    exact Nat.zero_le _
  · rw [hcursor, hannounced, hreported]
    rfl

theorem start (h : Streaming self es) (hidle : self.state.running = false)
    (cycleMatch : Option (UInt16 × UInt16)) (syncCode tags : UInt32) {env : StartEnv}
    (hanswers : Accepting env.queueIso) :
    Streaming (self.start cycleMatch syncCode tags env).state
      (es ++ (self.start cycleMatch syncCode tags env).effects) := by
  obtain ⟨hev, hzero⟩ := h.idle hidle
  obtain ⟨hret, _, hslots⟩ := h.slots.queueChunks (by decide) hanswers
  obtain ⟨hfd, _, _, hchunks, _, hrun⟩ := SameSetup.queueChunks self.state env.queueIso
  have hnone := reported_queueChunks self.state env.queueIso es
  have hlt : (self.state.queueChunks env.queueIso).state.chunksPerBuffer.toNat < 2147483648 := by
    rw [hchunks]
    exact h.chunks_lt
  simp only [FwIsoIrSingle.start]
  split
  · rw [List.append_nil]
    exact h
  split
  · rw [List.append_nil]
    exact h
  simp only [Out.map_state, Out.map_effects]
  rcases self.state.start_cases cycleMatch syncCode tags env with
    hr | ⟨⟨hfd0, _⟩, ⟨hne, _⟩ | ⟨_, ⟨_, _, ho⟩ | ⟨_, ho⟩⟩⟩
  · rw [hr.state, hr.effects, List.append_nil]
    exact of_zero h.slots h.chunks_lt h.headerSize hev hzero rfl
  · exact absurd hret hne
  · rw [ho, ← List.append_assoc]
    refine of_zero (hslots.quiet (by simp [Effect.Quiet]) (by simp)) hlt ?_ hev ?_ rfl
    · simp only [hfd, hrun]
      exact h.headerSize
    · rw [reported_append_of_none (by simp), hnone, hzero]
  · rw [ho, ← List.append_assoc]
    refine of_zero (hslots.frame rfl rfl rfl rfl rfl rfl rfl rfl rfl rfl (by simp [Effect.Quiet])
      (by simp)) hlt ?_ hev ?_ rfl
    · exact fun _ => h.headerSize (.inl hfd0)
    · rw [reported_append_of_none (by simp), hnone, hzero]

theorem interrupted (h : Streaming self es) (hrun : self.state.running = true)
    (hev : self.ev = none) (ev : IsoInterrupt) :
    Streaming { self with ev := some ev }
        (es ++ [.interrupted (ev.headerLength / self.headerSize)]) := by
  have hreported : reported (es ++ [.interrupted (ev.headerLength / self.headerSize)]) =
      reported es + (ev.headerLength / self.headerSize).toNat := by
    rw [reported_append]
    rfl
  have hcursor := h.cursor hrun
  have hannounced : self.announced = 0 := by rw [announced, hev]
  rw [hannounced, Nat.sub_zero] at hcursor
  refine ⟨h.slots.quiet (by simp [Effect.Quiet]) (by simp), h.chunks_lt, h.headerSize,
      fun hidle => ?_,
    h.cursor_lt, ?_, fun _ => ?_⟩
  · rw [show ({ self with ev := some ev } : FwIsoIrSingle).state.running = self.state.running
        from rfl,
      hrun] at hidle
    cases hidle
  · rw [hreported]
    exact Nat.le_add_left _ _
  · rw [hreported]
    simp only [announced, Nat.add_sub_cancel]
    exact hcursor

theorem reduced (cursor : UInt32) {chunks : UInt32} (hpos : 0 < chunks.toNat)
    (hlt : chunks.toNat < 2147483648) :
    let reduced := if gMaxInt ≤ cursor then cursor % chunks else cursor
    reduced.toNat < 2147483648 ∧ reduced.toNat % chunks.toNat = cursor.toNat % chunks.toNat := by
  have hmax : gMaxInt.toNat = 2147483647 := rfl
  simp only
  split
  next hge =>
    rw [UInt32.toNat_mod]
    exact ⟨(Nat.mod_lt _ hpos).trans hlt, Nat.mod_mod _ _⟩
  next hge =>
    rw [UInt32.le_iff_toNat_le, hmax] at hge
    exact ⟨by omega, rfl⟩

/-- **The end of an event** moves the cursor on by the packets of the event. -/
theorem finishEvent (h : Streaming self es) (hrun : self.state.running = true) {ev : IsoInterrupt}
    (hev : self.ev = some ev) {answers : Nat → QueueAnswer} (hanswers : Accepting answers) :
    let o := FwIsoIrSingle.finishEvent (ev.headerLength / self.headerSize) answers self
    o.ret = .success ∧ o.state.state.dataLength = 0 ∧ o.state.ev = none ∧
      o.state.state.running = true ∧ Streaming o.state (es ++ o.effects) := by
  obtain ⟨hret, hempty, hslots⟩ := h.slots.queueChunks (by decide) hanswers
  obtain ⟨hfd, _, _, hchunks, _, hrun'⟩ := SameSetup.queueChunks self.state answers
  have hnone := reported_queueChunks self.state answers es
  have hcount := h.count_lt hrun ev.headerLength
  have hcursor_lt := h.cursor_lt hrun
  have hcursor := h.cursor hrun
  have hle := h.announced_le
  have hannounced : self.announced = (ev.headerLength / self.headerSize).toNat := by
    rw [announced, hev]
  have hpos := h.slots.chunks_pos
  have hsum : (self.chunkCursor + ev.headerLength / self.headerSize).toNat =
      self.chunkCursor.toNat + (ev.headerLength / self.headerSize).toNat := by
    rw [UInt32.toNat_add, Nat.mod_eq_of_lt (by omega)]
  have hmod : (self.chunkCursor.toNat + (ev.headerLength / self.headerSize).toNat) %
      self.state.chunksPerBuffer.toNat = reported es % self.state.chunksPerBuffer.toNat := by
    rw [← Nat.mod_add_mod, hcursor, Nat.mod_add_mod, hannounced, Nat.sub_add_cancel
        (hannounced ▸ hle)]
  have hne : self.state.chunksPerBuffer ≠ 0 := by
    intro h0
    rw [h0] at hpos
    exact absurd hpos (by decide)
  obtain ⟨hlt, hreduced⟩ := reduced (self.chunkCursor + ev.headerLength / self.headerSize) hpos
    h.chunks_lt
  simp only [FwIsoIrSingle.finishEvent, hne, and_false, if_false, Out.map_state, Out.map_effects,
    Out.map_ret]
  refine ⟨hret, hempty, trivial, hrun'.trans hrun, hslots, ?_, ?_, fun hidle => ?_, fun _ => hlt,
    Nat.zero_le _, fun _ => ?_⟩
  · rw [hchunks]
    exact h.chunks_lt
  · simp only [hfd, hrun']
    exact h.headerSize
  · rw [show (_ : Bool) = _ from hrun'.trans hrun] at hidle
    cases hidle
  · rw [hchunks, hreduced, hsum, hmod, hnone]
    rfl

/-- **The payload of a packet** is read from the slot of its number. -/
theorem getPayload (h : Streaming self es) (hrun : self.state.running = true) {ev : IsoInterrupt}
    (hev : self.ev = some ev) {i : UInt32} (hi : i < ev.headerLength / self.headerSize) :
    ∃ offset length, self.getPayload i = .frames (some offset) length ∧
      offset.toNat = self.state.bytesPerChunk.toNat *
        ((reported es - self.announced + i.toNat) % self.state.chunksPerBuffer.toNat) := by
  have hcount := h.count_lt hrun ev.headerLength
  have hcursor_lt := h.cursor_lt hrun
  have hcursor := h.cursor hrun
  have hpos := h.slots.chunks_pos
  have hB := h.slots.bytesPerBuffer
  have hi' := UInt32.lt_iff_toNat_lt.mp hi
  have hne : self.state.chunksPerBuffer ≠ 0 := by
    intro h0
    rw [h0] at hpos
    exact absurd hpos (by decide)
  obtain ⟨haccepts, hheader⟩ := header_inside (h.headerSize (.inr hrun)) hi
  have hslot : ((self.chunkCursor + i) % self.state.chunksPerBuffer).toNat =
      (reported es - self.announced + i.toNat) % self.state.chunksPerBuffer.toNat := by
    rw [UInt32.toNat_mod, UInt32.toNat_add, Nat.mod_eq_of_lt (a := _ + _) (by omega),
      ← Nat.mod_add_mod, hcursor, Nat.mod_add_mod]
  have hle : ((self.chunkCursor + i) % self.state.chunksPerBuffer).toNat *
      self.state.bytesPerChunk.toNat ≤ self.state.bytesPerBuffer.toNat := by
    rw [hB, Nat.mul_comm, UInt32.toNat_mod]
    exact Nat.mul_le_mul_left _ (Nat.mod_lt _ hpos).le
  have hoffset : ((self.chunkCursor + i) % self.state.chunksPerBuffer *
      self.state.bytesPerChunk).toNat = self.state.bytesPerChunk.toNat *
        ((reported es - self.announced + i.toNat) % self.state.chunksPerBuffer.toNat) := by
    have hlt := self.state.bytesPerBuffer.toNat_lt
    rw [UInt32.toNat_mul, Nat.mod_eq_of_lt (by omega), hslot, Nat.mul_comm]
  have hframe : ∀ length, (self.state.readFrame ((self.chunkCursor + i) %
      self.state.chunksPerBuffer * self.state.bytesPerChunk) length).1 =
        some ((self.chunkCursor + i) % self.state.chunksPerBuffer * self.state.bytesPerChunk) := by
    intro length
    have hlt := self.state.bytesPerBuffer.toNat_lt
    refine self.state.readFrame_fst length ?_
    rwa [UInt32.toNat_mul, Nat.mod_eq_of_lt (by omega)]
  simp only [FwIsoIrSingle.getPayload, hev, haccepts, hheader, hne, if_false, hframe]
  exact ⟨_, _, rfl, hoffset⟩

end Streaming

/-! ### Runs -/

def Waiting (c : Config (Ctx FwIsoIrSingle) Ret) : Prop :=
  c.stack = [] ∧ c.state.priv.ev = none ∨
    ∃ ev answers k, Accepting answers ∧ c.state.priv.ev = some ev ∧
      c.state.priv.state.running = true ∧ c.stack = [k] ∧ ∀ s : Ctx FwIsoIrSingle,
        let o := finishEvent (ev.headerLength / c.state.priv.headerSize) answers s.priv
        o.ret = .success → k s = .done .success (s.after o)

structure KeptStreaming (bytes chunks : UInt32) (c : Config (Ctx FwIsoIrSingle) Ret) : Prop where
  streaming : Streaming c.state.priv c.state.effects
  waiting : Waiting c
  bytes_eq : c.state.priv.state.bytesPerChunk = bytes
  chunks_eq : c.state.priv.state.chunksPerBuffer = chunks

namespace KeptStreaming

variable {bytes chunks : UInt32} {c : Ctx FwIsoIrSingle}
  {stack : List (Ctx FwIsoIrSingle → Act (Ctx FwIsoIrSingle) Ret)}

theorem registerPacket (h : KeptStreaming bytes chunks ⟨c, stack⟩) (irq : Bool) :
    KeptStreaming bytes chunks ⟨c.after (c.priv.registerPacket irq), stack⟩ := by
  obtain ⟨_, _, hbytes, hchunks, _, hrun⟩ :=
    SameSetup.registerChunk c.priv.state false 0 0 .null 0 irq
  refine ⟨?_, ?_, hbytes.trans h.bytes_eq, hchunks.trans h.chunks_eq⟩
  · rw [Ctx.after_effects]
    exact h.streaming.registerPacket irq
  · rcases h.waiting with hidle | ⟨ev, answers, k, hanswers, hev, hrunning, hstack, hk⟩
    · exact .inl hidle
    · exact .inr ⟨ev, answers, k, hanswers, hev, hrun.trans hrunning, hstack, hk⟩

theorem start (h : KeptStreaming bytes chunks ⟨c, stack⟩) (hidle : c.priv.state.running = false)
    (cycleMatch : Option (UInt16 × UInt16)) (syncCode tags : UInt32) {env : StartEnv}
    (hanswers : Accepting env.queueIso) :
    KeptStreaming bytes chunks ⟨c.after (c.priv.start cycleMatch syncCode tags env), stack⟩ := by
  have hstack : stack = [] ∧ c.priv.ev = none := by
    rcases h.waiting with hnone | ⟨_, _, _, _, _, hrunning, _⟩
    · exact hnone
    · rw [hidle] at hrunning
      cases hrunning
  have hkept : (c.priv.start cycleMatch syncCode tags env).state.ev = c.priv.ev ∧
      (c.priv.start cycleMatch syncCode tags env).state.state.bytesPerChunk =
        c.priv.state.bytesPerChunk ∧
      (c.priv.start cycleMatch syncCode tags env).state.state.chunksPerBuffer =
        c.priv.state.chunksPerBuffer := by
    simp only [FwIsoIrSingle.start]
    split
    · exact ⟨rfl, rfl, rfl⟩
    split
    · exact ⟨rfl, rfl, rfl⟩
    · exact ⟨rfl, c.priv.state.sizes_start cycleMatch syncCode tags env⟩
  obtain ⟨hev, hbytes, hchunks⟩ := hkept
  refine ⟨?_, .inl ⟨hstack.1, hev.trans hstack.2⟩, hbytes.trans h.bytes_eq,
    hchunks.trans h.chunks_eq⟩
  rw [Ctx.after_effects]
  exact h.streaming.start hidle cycleMatch syncCode tags hanswers

theorem event (h : KeptStreaming bytes chunks ⟨c, stack⟩) (hrun : c.priv.state.running = true)
    (hev : c.priv.ev = none) (ev : IsoInterrupt) {env : EventEnv}
    (hanswers : Accepting env.queueIso) :
    KeptStreaming bytes chunks
      (enter stack (c.dispatch (.event (.isoInterrupt ev) env))) := by
  have hstack : stack = [] := by
    rcases h.waiting with hnone | ⟨_, _, _, _, hsome, _⟩
    · exact hnone.1
    · rw [hev] at hsome
      cases hsome
  have hne : c.priv.headerSize ≠ 0 := by
    intro h0
    have h4 := h.streaming.headerSize (.inr hrun)
    rw [h0] at h4
    exact absurd h4 (by decide)
  have hs := h.streaming.interrupted hrun hev ev
  simp only [Ctx.dispatch, FwIsoCtx.handleEvent, handleEvent, hne, if_false, Act.bind, enter]
  refine ⟨?_, .inr ⟨ev, env.queueIso, _, hanswers, rfl, hrun, by rw [hstack], fun s hret => ?_⟩,
    h.bytes_eq, h.chunks_eq⟩
  · simpa [Ctx.note, Ctx.effects] using hs
  · have hret' : (finishEvent (ev.headerLength / c.priv.headerSize) env.queueIso s.priv).ret =
        .success := hret
    rw [Ctx.perform, hret']
    rfl

theorem resume (h : KeptStreaming bytes chunks ⟨c, stack⟩) :
    KeptStreaming bytes chunks (step exec ⟨c, stack⟩ .resume) := by
  rcases h.waiting with ⟨hstack, _⟩ | ⟨ev, answers, k, hanswers, hev, hrunning, hstack, hk⟩
  · simp only at hstack
    subst hstack
    exact h
  · simp only at hstack hev hrunning hk
    subst hstack
    obtain ⟨hret, _, hnone, _, hstream⟩ := h.streaming.finishEvent hrunning hev hanswers
    have hkept : (finishEvent (ev.headerLength / c.priv.headerSize) answers
          c.priv).state.state.bytesPerChunk = c.priv.state.bytesPerChunk ∧
        (finishEvent (ev.headerLength / c.priv.headerSize) answers
          c.priv).state.state.chunksPerBuffer = c.priv.state.chunksPerBuffer := by
      simp only [finishEvent]
      split
      · exact ⟨rfl, rfl⟩
      · have hsame := SameSetup.queueChunks c.priv.state answers
        exact ⟨hsame.bytesPerChunk, hsame.chunksPerBuffer⟩
    simp only [step, hk c hret, enter]
    refine ⟨?_, .inl ⟨rfl, hnone⟩, hkept.1.trans h.bytes_eq, hkept.2.trans h.chunks_eq⟩
    rw [Ctx.after_effects]
    exact hstream

theorem call (op : Op) (c : Config (Ctx FwIsoIrSingle) Ret) (hop : op.Streams c.state)
    (h : KeptStreaming bytes chunks c) : KeptStreaming bytes chunks (step exec c (.call op)) := by
  obtain ⟨c, stack⟩ := c
  cases op with
  | registerPacket irq => exact h.registerPacket irq
  | start cycleMatch syncCode tags env => exact h.start hop.1 cycleMatch syncCode tags hop.2
  | getPayload index =>
    rw [step, exec_getPayload]
    exact h
  | dispatch w =>
    cases w with
    | event ev env =>
      cases ev with
      | isoInterrupt ev => exact h.event hop.1 hop.2.1 ev hop.2.2
      | isoInterruptMc ev => exact hop.elim
      | other => exact hop.elim
    | ioErr => exact hop.elim
    | again => exact hop.elim
    | readError errno => exact hop.elim
  | allocate _ _ _ _ => exact hop.elim
  | mapBuffer _ _ _ => exact hop.elim
  | stop => exact hop.elim
  | unmapBuffer => exact hop.elim
  | release => exact hop.elim

end KeptStreaming

theorem Initial.streaming {self : FwIsoIrSingle} (h : Initial self)
    (hpos : 1 ≤ self.state.bytesPerChunk.toNat) (hle : self.state.bytesPerChunk.toNat ≤ 65535)
    (hbuffer : self.state.bytesPerChunk.toNat * self.state.chunksPerBuffer.toNat < 4294967296)
    (hchunks : self.state.chunksPerBuffer.toNat < 2147483648) :
    Streaming self [] ∧ self.ev = none := by
  have hground : Grounded self ∧ self.state.dataLength = 0 ∧ self.state.currOffset = 0 ∧
      self.state.running = false ∧ self.ev = none := by
    cases h with
    | mapped allocates maps =>
      refine ⟨(Grounded.init.allocate _ _ _ _).mapBuffer _ _ _, ?_⟩
      simp only [mapBuffer, Out.map_ret, Out.map_state] at maps ⊢
      obtain ⟨_, _, _, _, hmapped⟩ := FwIsoCtxState.mapBuffer_of_success maps
      rw [hmapped]
      simp only [allocate] at allocates ⊢
      split at allocates
      · cases allocates
      next hchannel =>
      rw [if_neg hchannel]
      split at allocates
      · cases allocates
      next hsize =>
      obtain ⟨_, _, hallocated⟩ := FwIsoCtxState.allocate_of_success allocates
      rw [if_neg hsize]
      simp only [Out.map_state, hallocated]
      exact ⟨rfl, rfl, rfl, rfl⟩
    | stopped ms prev reached running outside =>
      have hprev : Grounded prev := reached ▸ grounded_of_run ms
      refine ⟨hprev.stop, ?_⟩
      simp only [Ctx.onState, Out.map_state, FwIsoCtx.setState, FwIsoCtx.state,
        FwIsoCtxState.stop_of_running running]
      exact ⟨trivial, trivial, trivial, outside⟩
  obtain ⟨hground, hlen, hcurr, hidle, hev⟩ := hground
  have hannounced : self.announced = 0 := by rw [announced, hev]
  refine ⟨⟨.init hground.state hlen hcurr hpos hle hbuffer, hchunks, hground.headerSize,
    fun _ => ⟨hev, rfl⟩, fun hrun => ?_, ?_, fun hrun => ?_⟩, hev⟩
  · rw [hidle] at hrun
    cases hrun
  · rw [hannounced]
    exact Nat.zero_le _
  · rw [hidle] at hrun
    cases hrun

/-- **The slots of queueing and of reading agree**, in every state of every run: chunks are queued
in the order of their registration, chunk `n` at slot `n`, and none is left behind; and the payload
of the `i`-th packet of an event is read from the slot of packet `i` after those reported before. -/
theorem slots_of_run {self : FwIsoIrSingle} (hinit : Initial self)
    (hpos : 1 ≤ self.state.bytesPerChunk.toNat) (hle : self.state.bytesPerChunk.toNat ≤ 65535)
    (hbuffer : self.state.bytesPerChunk.toNat * self.state.chunksPerBuffer.toNat < 4294967296)
    (hchunks : self.state.chunksPerBuffer.toNat < 2147483648) (ms : List (Move Op))
    (hms : Guarded exec Op.Streams ⟨⟨self, []⟩, []⟩ ms) :
    let c := (run exec ⟨⟨self, []⟩, []⟩ ms).state
    let slot := fun n => self.state.bytesPerChunk.toNat * (n % self.state.chunksPerBuffer.toNat)
    queued c.effects ++ held c.priv.state c.effects = chunksSinceMap c.effects ∧
      queuedAt c.effects = (List.range (queued c.effects).length).map slot ∧
      (∀ answers, Accepting answers → (c.priv.state.queueChunks answers).ret = .success ∧
        (c.priv.state.queueChunks answers).state.dataLength = 0) ∧
      ∀ ev, c.priv.ev = some ev → ∀ i < ev.headerLength / c.priv.headerSize,
        ∃ offset length, c.priv.getPayload i = .frames (some offset) length ∧
          offset.toNat = slot (reported c.effects - c.priv.announced + i.toNat) := by
  obtain ⟨hstream, hnone⟩ := hinit.streaming hpos hle hbuffer hchunks
  have h : KeptStreaming self.state.bytesPerChunk self.state.chunksPerBuffer
      (run exec ⟨⟨self, []⟩, []⟩ ms) :=
    run_keeps_of_steps KeptStreaming.call (fun _ hc => hc.resume) ms hms
      ⟨hstream, .inl ⟨rfl, hnone⟩, rfl, rfl⟩
  have hslots := h.streaming.slots
  refine ⟨hslots.order, ?_, fun answers hanswers => ?_, fun ev hev i hi => ?_⟩
  · rw [hslots.places, h.bytes_eq, h.chunks_eq]
    rfl
  · obtain ⟨hret, hempty, _⟩ := hslots.queueChunks (by decide) hanswers
    exact ⟨hret, hempty⟩
  · have hrun : (run exec ⟨⟨self, []⟩, []⟩ ms).state.priv.state.running = true := by
      by_contra hidle
      have := (h.streaming.idle (by simpa using hidle)).1
      rw [hev] at this
      cases this
    obtain ⟨offset, length, hget, hoffset⟩ := h.streaming.getPayload hrun hev hi
    rw [h.bytes_eq, h.chunks_eq] at hoffset
    exact ⟨offset, length, hget, hoffset⟩

/-! ### A run -/

def twoSlots : FwIsoIrSingle :=
  ((new.allocate (some "/dev/fw0") 0 4 grantAllocate).state.mapBuffer 8 2 grantMap).state

def goRound : List (Move Op) :=
  [.call (.registerPacket false), .call (.registerPacket true),
    .call (.start none 0 0 (grantStart 2)),
    .call (.dispatch (.event (.isoInterrupt ⟨0, 8, fun _ => 0⟩)
        ⟨fun _ => 0, fun _ => .accepted 1⟩)),
    .call (.registerPacket true), .resume,
    .call (.dispatch (.event (.isoInterrupt ⟨0, 4, fun _ => 0⟩)
        ⟨fun _ => 0, fun _ => .accepted 1⟩))]

theorem guarded_goRound : Guarded exec Op.Streams ⟨⟨twoSlots, []⟩, []⟩ goRound := by
  refine ⟨trivial, trivial, ⟨by decide +kernel, fun _ => ⟨2, rfl⟩⟩,
    ⟨by decide +kernel, ?_, fun _ => ⟨1, rfl⟩⟩, trivial,
    ⟨by decide +kernel, ?_, fun _ => ⟨1, rfl⟩⟩, trivial⟩ <;> rfl

/-- In the second event the packet is the third, which has gone round to the first slot. -/
theorem slots_goRound :
    let c := (run exec ⟨⟨twoSlots, []⟩, []⟩ goRound).state
    queuedAt c.effects = [0, 8, 0] ∧
      ∃ offset length, c.priv.getPayload 0 = .frames (some offset) length ∧ offset.toNat = 0 := by
  have hinit : Initial twoSlots := .mapped (by decide +kernel) (by decide +kernel)
  obtain ⟨_, hqueued, _, hread⟩ := slots_of_run hinit (by decide +kernel) (by decide +kernel)
    (by decide +kernel) (by decide +kernel) goRound guarded_goRound
  obtain ⟨offset, length, hget, hoffset⟩ := hread ⟨0, 4, fun _ => 0⟩ rfl 0 (by decide +kernel)
  refine ⟨hqueued.trans (by decide +kernel), offset, length, hget, hoffset.trans ?_⟩
  decide +kernel

end FwIsoIrSingle

end Hinoko
