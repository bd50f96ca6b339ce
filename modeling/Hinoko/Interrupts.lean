import Hinoko.Handover
import Hinoko.Parse

/-!
# The events of a multiple-channel context

From a successful start on, events come in, and the program asks for payloads.  An event
walks over the frames that are complete, reports them, and, when the handler has
returned, registers and queues as many chunks as have been walked over.

* `Started`: what holds between a start and the next stop (`started_of_start`).
* `run_handling`: up to the return of the handler nothing changes but the records.
* `Started.goOn`: from there on the chunks are registered, and queued if the kernel
  takes them; otherwise the context stops.
-/

namespace Hinoko

open Reentrant

namespace FwIsoIrMultiple

/-! ### Chunks -/

theorem registerChunks_same : ∀ (n : Nat) (self : FwIsoIrMultiple),
    SameSetup self.state (registerChunks n self).state.state ∧
      ∃ st count, (registerChunks n self).state =
        { self with state := st, accumulatedChunkCount := count } := by
  intro n
  induction n with
  | zero => exact fun self => ⟨.refl _, _, _, rfl⟩
  | succ n ih =>
    intro self
    have hfirst : SameSetup self.state self.registerChunk.state.state :=
      SameSetup.registerChunk self.state false 0 0 .null 0 _
    simp only [registerChunks]
    split
    · obtain ⟨hrest, st, count, ho⟩ := ih self.registerChunk.state
      exact ⟨hfirst.trans hrest, st, count, ho⟩
    · exact ⟨hfirst, _, _, rfl⟩

theorem registerChunks_concatFrames (n : Nat) (self : FwIsoIrMultiple) :
    (registerChunks n self).state.concatFrames = self.concatFrames := by
  obtain ⟨_, st, count, ho⟩ := registerChunks_same n self
  rw [ho]

theorem registerChunks_effects : ∀ (n : Nat) {self : FwIsoIrMultiple},
    ∀ e ∈ (registerChunks n self).effects, ∃ p, e = .chunk p := by
  intro n
  induction n with
  | zero => exact fun e he => absurd he List.not_mem_nil
  | succ n ih =>
    intro self e he
    have hfirst : ∀ e ∈ self.registerChunk.effects, ∃ p, e = .chunk p :=
      self.state.registerChunk_effects false 0 0 .null 0 _
    simp only [registerChunks] at he
    split at he
    · rcases List.mem_append.mp he with he | he
      · exact hfirst e he
      · exact ih e he
    · exact hfirst e he

/-- Mapping does what the function of the state does, beside its own two blocks. -/
theorem mapBuffer_state (self : FwIsoIrMultiple) (bytes chunks : UInt32) (env : MapMultipleEnv) :
    let o := self.state.mapBuffer ((bytes + 3) / 4 * 4) chunks env.toMapEnv
    (self.mapBuffer bytes chunks env).state.state = o.state ∧
      (self.mapBuffer bytes chunks env).ret = o.ret ∧
      (self.mapBuffer bytes chunks env).effects = o.effects := by
  simp only [mapBuffer]
  split <;> exact ⟨rfl, rfl, rfl⟩

theorem start_same (self : FwIsoIrMultiple) (cycleMatch : Option (UInt16 × UInt16))
    (syncCode tags chunksPerIrq : UInt32) (env : StartEnv) :
    let s := (self.start cycleMatch syncCode tags chunksPerIrq env).state
    (∃ running, SameSetup { self.state with running := running } s.state) ∧
      s.concatFrames = self.concatFrames := by
  simp only [start]
  split
  · exact ⟨⟨_, .refl _⟩, rfl⟩
  split
  · exact ⟨⟨_, .refl _⟩, rfl⟩
  split
  · exact ⟨⟨_, .refl _⟩, rfl⟩
  obtain ⟨hsame, st, count, ho⟩ := registerChunks_same self.state.chunksPerBuffer.toNat
    { self with chunksPerIrq := chunksPerIrq, accumulatedChunkCount := 0 }
  split
  · obtain ⟨running, hstart⟩ := FwIsoCtxState.start_same (registerChunks
      self.state.chunksPerBuffer.toNat { self with
        chunksPerIrq := chunksPerIrq, accumulatedChunkCount := 0 }).state.state
      cycleMatch syncCode tags env
    refine ⟨⟨running, ?_⟩, ?_⟩
    · exact ⟨hstart.fd.trans hsame.fd, hstart.addr.trans hsame.addr,
        hstart.bytesPerChunk.trans hsame.bytesPerChunk,
        hstart.chunksPerBuffer.trans hsame.chunksPerBuffer,
        hstart.allocDataLength.trans hsame.allocDataLength, hstart.running⟩
    · simp only [ho]
  · exact ⟨⟨_, hsame⟩, by rw [ho]⟩

theorem finishEvent_same (self : FwIsoIrMultiple)
    (bytesPerChunk bytesPerBuffer accumLength : UInt32)
    (answers : Nat → QueueAnswer) :
    let s := (finishEvent bytesPerChunk bytesPerBuffer accumLength answers self).state
    SameSetup self.state s.state ∧ s.concatFrames = self.concatFrames := by
  simp only [finishEvent]
  split
  · exact ⟨.refl _, rfl⟩
  obtain ⟨hsame, st, count, ho⟩ := registerChunks_same
    (((self.prevOffset + accumLength) / bytesPerChunk).toNat -
      (self.prevOffset / bytesPerChunk).toNat) self
  split
  · split
    · exact ⟨hsame, by rw [ho]⟩
    · exact ⟨hsame.trans (.queueChunks _ answers), by simp only [ho]⟩
  · exact ⟨hsame, by rw [ho]⟩

theorem registers_one {self : FwIsoIrMultiple} {es : List Effect}
    (h : StoreInv .irMultiple self.state es) (hfd : 0 ≤ self.state.fd)
    (haddr : self.state.addr ≠ .null)
    (hroom : self.state.dataLength.toNat + 4 ≤ self.state.allocDataLength.toNat) :
    let o := self.registerChunk
    o.ret = .success ∧ StoreInv .irMultiple o.state.state (es ++ o.effects) ∧
      o.state.state.dataLength.toNat = self.state.dataLength.toNat + 4 ∧
      o.state.state.currOffset = self.state.currOffset ∧
      ∃ p, o.effects = [.chunk p] ∧ p.payloadLength = self.state.bytesPerChunk.toNat % 65536 ∧
        held o.state.state (es ++ o.effects) = held self.state es ++ [p] := by
  have hmode := h.mode hfd
  have halloc := self.state.allocDataLength.toNat_lt
  have h4 : (sizeofFwCdevIsoPacket + ArrayArg.null.length).toNat = 4 := rfl
  have hstore : StoreInv .irMultiple self.registerChunk.state.state
      (es ++ self.registerChunk.effects) := h.registerIrChunk (by decide)
  have haccepts : ¬ self.state.RefusesChunk := by
    rw [FwIsoCtxState.RefusesChunk]
    simp only [not_or, not_not, not_lt]
    exact ⟨by simp [FwIsoCtxState.acceptsChunk, hmode, ArrayArg.null], hroom, hfd, haddr⟩
  simp only [registerChunk, Out.map_state, Out.map_ret, Out.map_effects] at hstore ⊢
  generalize (decide (0 < self.chunksPerIrq ∧
    (self.accumulatedChunkCount + 1) % self.chunksPerIrq = 0)) = irq at hstore ⊢
  rcases h.registerChunk_cases false 0 0 .null 0 irq with hr | ⟨_, block, _, ho⟩
  · exact absurd ((self.state.registerChunk_isFalse_iff irq).mp hr.ret) haccepts
  · rw [ho] at hstore ⊢
    refine ⟨rfl, hstore, ?_, rfl, _, rfl, ?_, h.held_chunk rfl⟩
    · simp only [UInt32.toNat_add, h4]
      omega
    · rw [payloadLength_datum, hmode]
      rfl

/-- **Chunks are registered** where there is room for them. -/
theorem registers : ∀ (n : Nat) {self : FwIsoIrMultiple} {es : List Effect},
    StoreInv .irMultiple self.state es → 0 ≤ self.state.fd → self.state.addr ≠ .null →
    self.state.dataLength.toNat + 4 * n ≤ self.state.allocDataLength.toNat →
    let o := registerChunks n self
    o.ret = .success ∧ StoreInv .irMultiple o.state.state (es ++ o.effects) ∧
      o.state.state.currOffset = self.state.currOffset ∧
      ∃ ps : List IsoPacket, ps.length = n ∧ o.effects = ps.map .chunk ∧
        (∀ p ∈ ps, p.payloadLength = self.state.bytesPerChunk.toNat % 65536) ∧
        held o.state.state (es ++ o.effects) = held self.state es ++ ps := by
  intro n
  induction n with
  | zero =>
    intro self es h _ _ _
    simp only [registerChunks, List.append_nil]
    exact ⟨trivial, h, trivial, [], rfl, rfl, List.forall_mem_nil _, (List.append_nil _).symm⟩
  | succ n ih =>
    intro self es h hfd haddr hroom
    obtain ⟨hret, hstore, hlen, hcurr, p, heffects, hp, hheld⟩ :=
      registers_one h hfd haddr (by omega)
    have hsame : SameSetup self.state self.registerChunk.state.state :=
      SameSetup.registerChunk self.state false 0 0 .null 0 _
    obtain ⟨hret', hstore', hcurr', ps, hps, heffects', hall, hheld'⟩ := ih hstore
      (by rw [hsame.fd]; exact hfd) (by rw [hsame.addr]; exact haddr)
      (by rw [hlen, hsame.allocDataLength]; omega)
    rw [hsame.bytesPerChunk] at hall
    simp only [registerChunks, hret, ← List.append_assoc]
    refine ⟨hret', hstore', hcurr'.trans hcurr, p :: ps, by rw [List.length_cons, hps], ?_, ?_, ?_⟩
    · rw [heffects, heffects', List.map_cons]
      rfl
    · rintro q hq
      rcases List.mem_cons.mp hq with rfl | hq
      · exact hp
      · exact hall q hq
    · rw [hheld', hheld, List.append_assoc]
      rfl

theorem room_of_registers : ∀ (n : Nat) {self : FwIsoIrMultiple}, 0 < n →
    (registerChunks n self).ret = .success →
    self.state.dataLength.toNat + 4 * n ≤ self.state.allocDataLength.toNat := by
  intro n
  induction n with
  | zero => exact fun h => absurd h (Nat.lt_irrefl 0)
  | succ n ih =>
    intro self _ hret
    have halloc := self.state.allocDataLength.toNat_lt
    have h4 : (sizeofFwCdevIsoPacket + ArrayArg.null.length).toNat = 4 := rfl
    simp only [registerChunks] at hret
    split at hret
    next hfirst =>
      have hcases := self.state.registerChunk_cases false 0 0 .null 0
          (decide (0 < self.chunksPerIrq ∧
        (self.accumulatedChunkCount + 1) % self.chunksPerIrq = 0))
      simp only [registerChunk, Out.map_ret, Out.map_state] at hfirst hret
      rcases hcases with hr | ⟨⟨_, hroom, _⟩, ⟨_, ho⟩ | ⟨block, _, ho⟩⟩
      · have hfalse := hr.ret
        rw [hfirst] at hfalse
        exact hfalse.elim
      · rw [ho] at hfirst
        cases hfirst
      · rw [ho] at hret
        rcases Nat.eq_zero_or_pos n with rfl | hn
        · omega
        · have hrest := ih hn hret
          simp only [UInt32.toNat_add, h4] at hrest
          omega
    next hne => exact absurd hret hne

/-- **Registering and queueing**, with an empty store to begin with: it is empty again when the
kernel takes the chunks. -/
theorem registers_queues {self : FwIsoIrMultiple} (n : Nat)
    (hstore : StoreInv .irMultiple self.state []) (hempty : self.state.dataLength = 0)
    (hcurr : self.state.currOffset < self.state.bytesPerBuffer)
    (hchunk : self.state.bytesPerChunk.toNat ≤ self.state.bytesPerBuffer.toNat)
    (hfd : 0 ≤ self.state.fd) (haddr : self.state.addr ≠ .null)
    (hroom : 4 * n ≤ self.state.allocDataLength.toNat) (answers : Nat → QueueAnswer) :
    let r := registerChunks n self
    let q := r.state.state.queueChunks answers
    r.ret = .success ∧ SameSetup self.state q.state ∧
      q.state.currOffset < q.state.bytesPerBuffer ∧
      (q.ret = .success ∧ q.state.dataLength = 0 ∧ StoreInv .irMultiple q.state [] ∨
        ∃ errno, q.ret = .failure (.ioctl .queueIso errno)) := by
  intro r q
  obtain ⟨hsame, _⟩ := registerChunks_same n self
  obtain ⟨hret, hstore', hcurr', ps, _, _, hall, hheld⟩ :=
    registers n hstore hfd haddr (by rw [hempty, UInt32.toNat_zero]; omega)
  have hsame' : SameSetup self.state q.state := hsame.trans (.queueChunks _ answers)
  have hfit : ∀ p ∈ held r.state.state ([] ++ r.effects),
      p.payloadLength ≤ r.state.state.bytesPerBuffer.toNat := by
    have hnone : held self.state [] = [] := List.rtake_nil _
    intro p hp
    rw [hheld, hnone, List.nil_append] at hp
    rw [hall p hp, hsame.bytesPerBuffer]
    exact (Nat.mod_le _ _).trans hchunk
  have hlt : r.state.state.currOffset < r.state.state.bytesPerBuffer := by
    rw [hcurr', hsame.bytesPerBuffer]
    exact hcurr
  have hreturns := queueChunks_returns answers hstore'.stores hstore'.sized
    (ne_zero_of_lt_size hlt) hfit
  refine ⟨hret, hsame', ?_, ?_⟩
  · rw [hsame'.bytesPerBuffer, ← hsame.bytesPerBuffer]
    exact queueChunks_curr_lt answers hstore'.stores hstore'.sized hlt
  · rcases (r.state.state.queueChunks_cases answers).2 with
      ⟨_, hfailed | ⟨fault, hcrashed⟩⟩ | ⟨hsuccess, x, hstate⟩
    · exact .inr hfailed
    · exact absurd hcrashed (hreturns fault)
    · have hzero : q.state.dataLength = 0 := by
        simp only [q, hstate]
      exact .inl ⟨hsuccess, hzero, hstore'.queueChunks.forget hzero⟩

/-! ### Starting -/

theorem start_of_success {self : FwIsoIrMultiple} {cycleMatch : Option (UInt16 × UInt16)}
    {syncCode tags chunksPerIrq : UInt32} {env : StartEnv}
    (hret : (self.start cycleMatch syncCode tags chunksPerIrq env).ret = .success) :
    let o := registerChunks self.state.chunksPerBuffer.toNat
      { self with chunksPerIrq := chunksPerIrq, accumulatedChunkCount := 0 }
    let s := o.state.state.start cycleMatch syncCode tags env
    chunksPerIrq < self.state.chunksPerBuffer ∧ o.ret = .success ∧ s.ret = .success ∧
      self.start cycleMatch syncCode tags chunksPerIrq env =
        ⟨{ o.state with prevOffset := 0, state := s.state }, .success, o.effects ++ s.effects⟩ := by
  simp only [start] at hret ⊢
  split at hret
  · cases hret
  next hcycle =>
  rw [if_neg hcycle]
  split at hret
  · cases hret
  next hsync =>
  rw [if_neg hsync]
  split at hret
  · cases hret
  next hirq =>
  rw [if_neg hirq]
  split at hret
  next hregisters =>
    simp only [hregisters]
    exact ⟨UInt32.not_le.mp hirq, trivial, hret, by rw [hret]⟩
  next hne => exact absurd hret (by simpa using hne)

/-- Where the queue goes on: inside the buffer, once a request has been made. -/
theorem queueLoop_finished (st : FwIsoCtxState) (answers : Nat → QueueAnswer) :
    ∀ (fuel i : Nat) (dataOffset bufOffset chunkCount x n : UInt32),
      (st.queueLoop answers fuel i dataOffset bufOffset chunkCount).2 = .finished x n →
      ¬ dataOffset < st.dataLength ∧ x = bufOffset ∨ x < st.bytesPerBuffer := by
  intro fuel
  induction fuel with
  | zero => exact fun _ _ _ _ _ _ h => by cases h
  | succ fuel ih =>
    intro i dataOffset bufOffset chunkCount x n h
    simp only [FwIsoCtxState.queueLoop] at h
    split at h
    next hmore =>
      split at h
      · cases h
      next b _ =>
        split at h
        · cases h
        split at h
        · cases h
        next hB =>
          rcases ih _ _ _ _ _ _ h with ⟨_, hx⟩ | hx
          · refine .inr ?_
            rw [hx, UInt32.lt_iff_toNat_lt, UInt32.toNat_mod]
            refine Nat.mod_lt _ (Nat.pos_of_ne_zero fun h0 => hB ?_)
            exact UInt32.toNat_inj.mp h0
          · exact .inr hx
    next hdone =>
      cases h
      exact .inl ⟨hdone, rfl⟩

theorem currOffset_queueChunks {st : FwIsoCtxState} {answers : Nat → QueueAnswer}
    (hlen : st.dataLength ≠ 0) (hret : (st.queueChunks answers).ret = .success) :
    (st.queueChunks answers).state.currOffset < st.bytesPerBuffer := by
  have hloop := queueLoop_finished st answers st.queueFuel 0 0 st.currOffset 0
  simp only [FwIsoCtxState.queueChunks] at hret ⊢
  generalize (st.queueLoop answers st.queueFuel 0 0 st.currOffset 0).2 = e at hloop hret ⊢
  cases e with
  | crashed fault => cases hret
  | failed errno => cases hret
  | finished x n =>
    rcases hloop x n rfl with ⟨hnone, _⟩ | hx
    · refine absurd ?_ hnone
      rw [UInt32.lt_iff_toNat_lt, UInt32.toNat_zero]
      exact Nat.pos_of_ne_zero fun h0 => hlen (UInt32.toNat_inj.mp h0)
    · exact hx

/-- A store that has been queued is empty, and the queue goes on inside the buffer. -/
theorem queueChunks_of_success {kind : FwIsoCtxMode} {st : FwIsoCtxState} {es : List Effect}
    {answers : Nat → QueueAnswer} (h : StoreInv kind st es) (hlen : st.dataLength ≠ 0)
    (hret : (st.queueChunks answers).ret = .success) :
    let q := (st.queueChunks answers).state
    StoreInv kind q [] ∧ q.dataLength = 0 ∧ q.currOffset < q.bytesPerBuffer := by
  intro q
  have hzero : q.dataLength = 0 := by
    rcases (st.queueChunks_cases answers).2 with ⟨_, ⟨_, he⟩ | ⟨_, he⟩⟩ | ⟨_, x, hstate⟩
    · rw [hret] at he
      cases he
    · rw [hret] at he
      cases he
    · simp only [q, hstate]
  refine ⟨h.queueChunks.forget hzero, hzero, ?_⟩
  rw [(SameSetup.queueChunks st answers).bytesPerBuffer]
  exact currOffset_queueChunks hlen hret

/-- A context between a successful start and the next stop, with no event being handled. -/
structure Started (it : FwIsoIrMultiple) : Prop where
  store : StoreInv .irMultiple it.state []
  empty : it.state.dataLength = 0
  curr_lt : it.state.currOffset < it.state.bytesPerBuffer
  allocated : 0 ≤ it.state.fd
  mapped : ∃ id, it.state.addr = .mapped id
  chunk_pos : 0 < it.state.bytesPerChunk.toNat
  chunks_pos : 0 < it.state.chunksPerBuffer.toNat
  quadlets : it.state.bytesPerChunk.toNat % 4 = 0
  buffer : it.state.bytesPerChunk.toNat * it.state.chunksPerBuffer.toNat < 2147483648
  room : 4 * it.state.chunksPerBuffer.toNat ≤ it.state.allocDataLength.toNat
  capacity : it.capacity = it.state.bytesPerChunk.toNat * it.state.chunksPerBuffer.toNat / 16
  prev_lt : it.prevOffset.toNat < it.state.bytesPerChunk.toNat * it.state.chunksPerBuffer.toNat
  prev_quadlet : it.prevOffset.toNat % 4 = 0

namespace Started

variable {self self' : FwIsoIrMultiple}

theorem bytesPerBuffer (h : Started self) : self.state.bytesPerBuffer.toNat =
    self.state.bytesPerChunk.toNat * self.state.chunksPerBuffer.toNat := by
  have hbuffer := h.buffer
  rw [FwIsoCtxState.bytesPerBuffer, UInt32.toNat_mul, Nat.mod_eq_of_lt (by omega)]

theorem reading (h : Started self) : Reading self := by
  refine ⟨h.mapped, ?_, ?_, ?_, h.prev_quadlet⟩ <;> rw [h.bytesPerBuffer]
  · exact h.buffer
  · rw [Nat.mul_mod, h.quadlets, Nat.zero_mul]
  · exact h.prev_lt

theorem of_same (h : Started self) (hsame : SameSetup self.state self'.state)
    (hstore : StoreInv .irMultiple self'.state []) (hempty : self'.state.dataLength = 0)
    (hcurr : self'.state.currOffset < self'.state.bytesPerBuffer)
    (hcapacity : self'.capacity = self.capacity)
    (hprev : self'.prevOffset.toNat <
      self.state.bytesPerChunk.toNat * self.state.chunksPerBuffer.toNat)
    (hquad : self'.prevOffset.toNat % 4 = 0) : Started self' := by
  refine ⟨hstore, hempty, hcurr, ?_, ?_, ?_, ?_, ?_, ?_, ?_, ?_, ?_, hquad⟩
  · rw [hsame.fd]
    exact h.allocated
  · rw [hsame.addr]
    exact h.mapped
  · rw [hsame.bytesPerChunk]
    exact h.chunk_pos
  · rw [hsame.chunksPerBuffer]
    exact h.chunks_pos
  · rw [hsame.bytesPerChunk]
    exact h.quadlets
  · rw [hsame.bytesPerChunk, hsame.chunksPerBuffer]
    exact h.buffer
  · rw [hsame.chunksPerBuffer, hsame.allocDataLength]
    exact h.room
  · rw [hcapacity, hsame.bytesPerChunk, hsame.chunksPerBuffer]
    exact h.capacity
  · rw [hsame.bytesPerChunk, hsame.chunksPerBuffer]
    exact hprev

theorem congr (h : Started self) (hstate : self'.state = self.state)
    (hcapacity : self'.capacity = self.capacity) (hprev : self'.prevOffset = self.prevOffset) :
    Started self' := by
  refine h.of_same (hstate ▸ .refl _) (hstate ▸ h.store) (hstate ▸ h.empty) (hstate ▸ h.curr_lt)
    hcapacity ?_ ?_
  · rw [hprev]
    exact h.prev_lt
  · rw [hprev]
    exact h.prev_quadlet

end Started

/-- **A successful start** of a context with an empty store. -/
theorem started_of_start {self : FwIsoIrMultiple} {cycleMatch : Option (UInt16 × UInt16)}
    {syncCode tags chunksPerIrq : UInt32} {env : StartEnv} (hground : Grounded self)
    (hlen : self.state.dataLength = 0) (hmapped : ∃ id, self.state.addr = .mapped id)
    (hbuffer : self.state.bytesPerChunk.toNat * self.state.chunksPerBuffer.toNat < 2147483648)
    (hret : (self.start cycleMatch syncCode tags chunksPerIrq env).ret = .success) :
    let s := self.start cycleMatch syncCode tags chunksPerIrq env
    Started s.state ∧ s.state.state.running = true ∧ s.state.prevOffset = 0 ∧
      s.state.state.bytesPerChunk = self.state.bytesPerChunk ∧
      s.state.state.chunksPerBuffer = self.state.chunksPerBuffer ∧
      s.state.concatFrames = self.concatFrames := by
  obtain ⟨hirq, hregisters, hstart, ho⟩ := start_of_success hret
  set prepared : FwIsoIrMultiple :=
    { self with chunksPerIrq := chunksPerIrq, accumulatedChunkCount := 0 } with hprepared
  obtain ⟨id, hid⟩ := hmapped
  have hchunks : 0 < self.state.chunksPerBuffer.toNat :=
    Nat.zero_lt_of_lt (UInt32.lt_iff_toNat_lt.mp hirq)
  have hstore : StoreInv .irMultiple prepared.state [] := hground.state.storeInv hlen
  have hroom : prepared.state.dataLength.toNat + 4 * self.state.chunksPerBuffer.toNat ≤
      prepared.state.allocDataLength.toNat := room_of_registers _ hchunks hregisters
  obtain ⟨hsame, st, count, hstate⟩ := registerChunks_same self.state.chunksPerBuffer.toNat prepared
  obtain ⟨hqueued, hfd, _, hstart'⟩ := FwIsoCtxState.start_of_success hstart
  rw [hsame.fd] at hfd
  have haddr : prepared.state.addr ≠ .null := by
    rw [show prepared.state.addr = .mapped id from hid]
    rintro ⟨⟩
  have hB : self.state.bytesPerBuffer.toNat =
      self.state.bytesPerChunk.toNat * self.state.chunksPerBuffer.toNat := by
    rw [FwIsoCtxState.bytesPerBuffer, UInt32.toNat_mul, Nat.mod_eq_of_lt (by omega)]
  have hchunk : 0 < self.state.bytesPerChunk.toNat := by
    rw [Nat.pos_iff_ne_zero]
    intro h0
    have hzero := hground.state.sizes.mp (UInt32.toNat_inj.mp h0)
    rw [hzero] at hchunks
    exact absurd hchunks (Nat.lt_irrefl 0)
  obtain ⟨_, hstored, _, ps, hps, _, _, hheld⟩ :=
    registers self.state.chunksPerBuffer.toNat hstore hfd haddr hroom
  set r := registerChunks self.state.chunksPerBuffer.toNat prepared
  have hfilled : r.state.state.dataLength ≠ 0 := by
    intro h0
    have hnone := (hstored.stores.eq_nil h0).1
    rw [hheld] at hnone
    rw [(List.append_eq_nil_iff.mp hnone).2] at hps
    exact absurd hps hchunks.ne
  obtain ⟨hempty, hzero, hcurr⟩ := queueChunks_of_success hstored hfilled hqueued
  have hsame' := hsame.trans (.queueChunks r.state.state env.queueIso)
  have hcapacity : self.capacity = self.state.bytesPerChunk.toNat *
      self.state.chunksPerBuffer.toNat / 16 := by
    rw [hground.capacity, UInt32.toNat_div, UInt32.toNat_div, hB]
    exact Nat.div_div_eq_div_mul _ 8 2
  have hend : (self.start cycleMatch syncCode tags chunksPerIrq env).state = { prepared with
      state := { (r.state.state.queueChunks env.queueIso).state with running := true }
      accumulatedChunkCount := count
      prevOffset := 0 } := by
    rw [ho, hstart', hstate]
  simp only [hend]
  generalize (r.state.state.queueChunks env.queueIso).state = st' at hsame' hempty hzero hcurr ⊢
  obtain ⟨hfd', haddr', hbytes, hcount, halloc, _⟩ := hsame'
  refine ⟨⟨hempty.frame rfl rfl rfl rfl rfl rfl rfl (List.forall_mem_nil _), hzero, hcurr, ?_,
    ⟨id, ?_⟩, ?_, ?_, ?_, ?_, ?_, ?_, ?_, rfl⟩, trivial, trivial, hbytes, hcount, rfl⟩ <;>
    simp only [hfd', haddr', hbytes, hcount, halloc]
  · exact hfd
  · exact hid
  · exact hchunk
  · exact hchunks
  · exact hground.quadlets
  · exact hbuffer
  · exact (Nat.le_add_left _ _).trans hroom
  · exact hcapacity
  · exact Nat.mul_pos hchunk hchunks

/-! ### What the program asks for -/

/-- The same object but for what has been put together last. -/
def Asked (a b : FwIsoIrMultiple) : Prop :=
  ∃ concat : Option Block, b = { a with concatFrames := concat } ∧
    concat.map Block.size = a.concatFrames.map Block.size

theorem Asked.refl (a : FwIsoIrMultiple) : Asked a a := ⟨a.concatFrames, rfl, rfl⟩

theorem Asked.trans {a b c : FwIsoIrMultiple} (h : Asked a b) (h' : Asked b c) : Asked a c := by
  obtain ⟨_, rfl, hsize⟩ := h
  obtain ⟨concat, rfl, hsize'⟩ := h'
  exact ⟨concat, rfl, hsize'.trans hsize⟩

theorem asked_getPayload (self : FwIsoIrMultiple) (index : UInt32) :
    Asked self (self.getPayload index).1 := by
  simp only [getPayload]
  split
  · exact .refl self
  split
  · exact .refl self
  split
  · exact .refl self
  split
  · split
    next block _ hblock =>
      split
      · exact .refl self
      split
      · exact ⟨_, rfl, by rw [hblock]; rfl⟩
      split
      · exact .refl self
      · exact ⟨_, rfl, by rw [hblock]; rfl⟩
    · exact .refl self
  · exact .refl self

theorem Asked.mem {a b : FwIsoIrMultiple} (h : Asked a b) (mem : ByteMem) :
    Asked { a with mem := mem } { b with mem := mem } := by
  obtain ⟨concat, rfl, hsize⟩ := h
  exact ⟨concat, rfl, hsize⟩

theorem Asked.store {a b : FwIsoIrMultiple} (h : Asked a b) (records : List CtxPayload) :
    Asked (a.store records) (b.store records) := by
  obtain ⟨concat, rfl, hsize⟩ := h
  exact ⟨concat, rfl, hsize⟩

theorem Asked.setup {a b : FwIsoIrMultiple} (h : Asked a b) :
    b.state = a.state ∧ b.prevOffset = a.prevOffset := by
  obtain ⟨_, rfl, _⟩ := h
  exact ⟨rfl, rfl⟩

theorem Asked.parse {a b : FwIsoIrMultiple} (h : Asked a b) (accumEnd : UInt32) :
    ∀ (fuel : Nat) (accumLength : UInt32) (n : Nat),
      b.parse accumEnd fuel accumLength n = a.parse accumEnd fuel accumLength n := by
  obtain ⟨concat, rfl, _⟩ := h
  intro fuel
  induction fuel with
  | zero => exact fun _ _ => rfl
  | succ fuel ih =>
    intro accumLength n
    simp only [FwIsoIrMultiple.parse, ih]
    rfl

theorem Asked.parseEvent {a b : FwIsoIrMultiple} (h : Asked a b) (completed : UInt32) :
    b.parseEvent completed = a.parseEvent completed := by
  have hend : b.accumEnd completed = a.accumEnd completed := by
    obtain ⟨_, rfl, _⟩ := h
    rfl
  rw [FwIsoIrMultiple.parseEvent, FwIsoIrMultiple.parseEvent, h.parse, hend, h.setup.2]

def asking (indexes : List UInt32) : List (Move Op) :=
  indexes.map fun index => .call (.getPayload index)

theorem run_asking : ∀ (indexes : List UInt32) (c : Ctx FwIsoIrMultiple)
    (stack : List (Ctx FwIsoIrMultiple → Act (Ctx FwIsoIrMultiple) Ret)),
    ∃ c', run exec ⟨c, stack⟩ (asking indexes) = ⟨c', stack⟩ ∧ c'.trace = c.trace ∧
      Asked c.priv c'.priv := by
  intro indexes
  induction indexes with
  | nil => exact fun c stack => ⟨c, rfl, rfl, .refl _⟩
  | cons index indexes ih =>
    intro c stack
    obtain ⟨c', hrun, htrace, hasked⟩ :=
        ih (c.after (askPayload index c.priv)) stack
    refine ⟨c', hrun, ?_, (asked_getPayload c.priv index).trans hasked⟩
    rw [htrace]
    exact List.append_nil _

/-! ### An event -/

/-- An event, with what the kernel has ready for it, and what the program asks for before it comes
and while it is being handled. -/
structure Interrupt where
  before : List UInt32
  completed : UInt32
  env : EventEnv
  asks : List UInt32

def Interrupt.handling (i : Interrupt) : List (Move Op) :=
  asking i.before ++ .call (.dispatch (.event (.isoInterruptMc ⟨i.completed⟩) i.env)) ::
    asking i.asks

def Interrupt.moves (i : Interrupt) : List (Move Op) := i.handling ++ [.resume]

/-- What is left to do when the handler returns. -/
def goOn (bytesPerChunk bytesPerBuffer accumLength : UInt32) (answers : Nat → QueueAnswer)
    (c : Ctx FwIsoIrMultiple) : Act (Ctx FwIsoIrMultiple) Ret :=
  (c.perform (finishEvent bytesPerChunk bytesPerBuffer accumLength answers)).bind fun ret c =>
    match ret with
    | .success => .done .success c
    | .crashed fault => .done (.crashed fault) c
    | _ => c.stop

def handled (self : FwIsoIrMultiple) (i : Interrupt) : FwIsoIrMultiple :=
  { self with mem := i.env.buffer }.store (recordsAt self.state.bytesPerBuffer.toNat
    self.prevOffset.toNat (self.frames i.env.buffer i.completed))

/-- An event of which the records can be stored. -/
structure Interrupt.Fits (i : Interrupt) (it : FwIsoIrMultiple) : Prop where
  completed_le : i.completed.toNat ≤ it.state.bytesPerChunk.toNat * it.state.chunksPerBuffer.toNat
  quadlets : ∀ n ∈ it.frames i.env.buffer i.completed, n % 4 = 0
  room : (it.frames i.env.buffer i.completed).length ≤ it.capacity

section Handling

variable {c : Ctx FwIsoIrMultiple} {i : Interrupt}
  (stack : List (Ctx FwIsoIrMultiple → Act (Ctx FwIsoIrMultiple) Ret))

/-- **An event until its handler returns**, whatever the loop finds: nothing changes but the
records. -/
theorem run_handling_of_parse {total : UInt32} {records : List CtxPayload}
    (hparse : ({ c.priv with mem := i.env.buffer } : FwIsoIrMultiple).parseEvent i.completed =
      .ok (total, records)) :
    ∃ c' reported, run exec ⟨c, stack⟩ i.handling = ⟨c',
        goOn c.priv.state.bytesPerChunk c.priv.state.bytesPerBuffer total i.env.queueIso ::
          stack⟩ ∧
      Asked ({ c.priv with mem := i.env.buffer }.store records) c'.priv ∧
      Asked ({ c.priv with mem := i.env.buffer }.store records) reported ∧
      c'.trace = c.trace ++ [(.interrupted (UInt32.ofNat records.length), reported)] := by
  obtain ⟨c₁, hrun₁, htrace₁, hasked₁⟩ := run_asking i.before c stack
  have hparse₁ := (hasked₁.mem i.env.buffer).parseEvent i.completed
  rw [hparse] at hparse₁
  set left := goOn c.priv.state.bytesPerChunk c.priv.state.bytesPerBuffer total i.env.queueIso
    with hleft
  set stored : FwIsoIrMultiple := { c₁.priv with mem := i.env.buffer }.store records with hstored
  have hstep : step exec ⟨c₁, stack⟩
      (.call (.dispatch (.event (.isoInterruptMc ⟨i.completed⟩) i.env))) =
        ⟨(⟨stored, c₁.trace⟩ : Ctx FwIsoIrMultiple).note
          (.interrupted (UInt32.ofNat records.length)), left :: stack⟩ := by
    simp only [step, exec, Ctx.dispatch, FwIsoCtx.handleEvent, handleEvent, hparse₁, Act.bind,
      enter, hleft, hstored, ← hasked₁.setup.1]
    rfl
  have hasked : Asked ({ c.priv with mem := i.env.buffer }.store records) stored :=
    (hasked₁.mem i.env.buffer).store records
  obtain ⟨c₂, hrun₂, htrace₂, hasked₂⟩ := run_asking i.asks
    ((⟨stored, c₁.trace⟩ : Ctx FwIsoIrMultiple).note
      (.interrupted (UInt32.ofNat records.length))) (left :: stack)
  refine ⟨c₂, stored, ?_, hasked.trans hasked₂, hasked, ?_⟩
  · rw [Interrupt.handling, run_append, hrun₁, run_cons, hstep, hrun₂]
  · rw [htrace₂, Ctx.note, htrace₁]

/-- An event that the loop gives up has no handler. -/
theorem run_handling_of_error {fault : Fault}
    (hparse : ({ c.priv with mem := i.env.buffer } : FwIsoIrMultiple).parseEvent i.completed =
      .error fault) :
    ∃ c', run exec ⟨c, stack⟩ i.handling = ⟨c', stack⟩ ∧ Asked c.priv c'.priv ∧
      c'.trace = c.trace := by
  obtain ⟨c₁, hrun₁, htrace₁, hasked₁⟩ := run_asking i.before c stack
  have hparse₁ := (hasked₁.mem i.env.buffer).parseEvent i.completed
  rw [hparse] at hparse₁
  have hstep : step exec ⟨c₁, stack⟩
      (.call (.dispatch (.event (.isoInterruptMc ⟨i.completed⟩) i.env))) = ⟨c₁, stack⟩ := by
    simp only [step, exec, Ctx.dispatch, FwIsoCtx.handleEvent, handleEvent, hparse₁, Act.bind,
      enter]
  obtain ⟨c₂, hrun₂, htrace₂, hasked₂⟩ := run_asking i.asks c₁ stack
  refine ⟨c₂, ?_, hasked₁.trans hasked₂, htrace₂.trans htrace₁⟩
  rw [Interrupt.handling, run_append, hrun₁, run_cons, hstep, hrun₂]

/-- **An event until its handler returns**: the records are those of the walk. -/
theorem run_handling (h : Started c.priv) (hfits : i.Fits c.priv) :
    ∃ c' reported, run exec ⟨c, stack⟩ i.handling = ⟨c',
        goOn c.priv.state.bytesPerChunk c.priv.state.bytesPerBuffer
          (UInt32.ofNat (c.priv.frames i.env.buffer i.completed).sum) i.env.queueIso :: stack⟩ ∧
      Asked (c.priv.handled i) c'.priv ∧ Asked (c.priv.handled i) reported ∧
      c'.trace = c.trace ++ [(.interrupted (UInt32.ofNat
        (c.priv.frames i.env.buffer i.completed).length), reported)] := by
  have hreading : Reading { c.priv with mem := i.env.buffer } := h.reading.congr rfl rfl rfl
  obtain ⟨c', reported, hrun, hasked, hreported, htrace⟩ := run_handling_of_parse stack
    (hreading.parseEvent i.completed (hfits.completed_le.trans_eq h.bytesPerBuffer.symm)
      hfits.quadlets hfits.room)
  rw [length_recordsAt] at htrace
  exact ⟨c', reported, hrun, hasked, hreported, htrace⟩

end Handling

/-! ### The rest of an event -/

@[simp] theorem capacity_store (self : FwIsoIrMultiple) (records : List CtxPayload) :
    (self.store records).capacity = self.capacity := by
  cases hp : self.ctxPayloads <;> simp [capacity, store, hp]

theorem capacity_asked {a b : FwIsoIrMultiple} (h : Asked a b) : b.capacity = a.capacity := by
  obtain ⟨_, rfl, _⟩ := h
  rfl

theorem sum_frames_le (self : FwIsoIrMultiple) (mem : ByteMem) (completed : UInt32) :
    (self.frames mem completed).sum ≤ self.received completed :=
  Framing.sum_walk_le _ _ _

namespace Started

variable {self self' : FwIsoIrMultiple}

theorem asked (h : Started self) (hasked : Asked self self') : Started self' := by
  refine h.congr ?_ (capacity_asked hasked) ?_ <;> obtain ⟨_, rfl, _⟩ := hasked <;> rfl

theorem handled (h : Started self) (i : Interrupt) : Started (self.handled i) :=
  h.congr rfl (capacity_store _ _) rfl

/-- What has been received ends at most one round behind its start, and inside the buffer if it
does not wrap. -/
theorem received_le (h : Started self) {completed : UInt32} (hcompleted : completed.toNat ≤
    self.state.bytesPerChunk.toNat * self.state.chunksPerBuffer.toNat) :
    self.prevOffset.toNat + self.received completed =
      if completed.toNat < self.prevOffset.toNat then completed.toNat +
        self.state.bytesPerChunk.toNat * self.state.chunksPerBuffer.toNat else completed.toNat := by
  obtain ⟨hend, hle, _⟩ := h.reading.accumEnd (hcompleted.trans_eq h.bytesPerBuffer.symm)
  rw [received, Nat.add_sub_cancel' hle, hend, h.bytesPerBuffer]

/-- An event walks over at most as many chunks as there are. -/
theorem chunks_le (h : Started self) (mem : ByteMem) {completed : UInt32}
    (hcompleted : completed.toNat ≤
      self.state.bytesPerChunk.toNat * self.state.chunksPerBuffer.toNat) :
    self.prevOffset.toNat + (self.frames mem completed).sum < 4294967296 ∧
    (self.prevOffset.toNat + (self.frames mem completed).sum) / self.state.bytesPerChunk.toNat -
      self.prevOffset.toNat / self.state.bytesPerChunk.toNat ≤
          self.state.chunksPerBuffer.toNat := by
  have hsum := self.sum_frames_le mem completed
  have hend := h.received_le hcompleted
  have hpos := h.chunk_pos
  have hbuffer := h.buffer
  have hprev := h.prev_lt
  have hle : self.prevOffset.toNat + (self.frames mem completed).sum ≤
      self.prevOffset.toNat + self.received completed := Nat.add_le_add_left hsum _
  have hdiv := Nat.div_le_div_right (c := self.state.bytesPerChunk.toNat) hle
  rw [hend] at hle hdiv
  split at hdiv
  next hback =>
    rw [if_pos hback] at hle
    have hless := Nat.div_le_div_right (c := self.state.bytesPerChunk.toNat) hback.le
    rw [Nat.add_mul_div_left _ _ hpos] at hdiv
    omega
  next hahead =>
    rw [if_neg hahead] at hle
    have hless := Nat.div_le_div_right (c := self.state.bytesPerChunk.toNat) hcompleted
    rw [Nat.mul_div_cancel_left _ hpos] at hless
    exact ⟨by omega, (Nat.sub_le _ _).trans (hdiv.trans hless)⟩

/-- The end of an event registers the chunks that have been walked over, and queues them. -/
theorem finishEvent_eq (h : Started self) {accumLength : UInt32}
    (hsum : self.prevOffset.toNat + accumLength.toNat < 4294967296) {n : Nat}
    (hn : n = (self.prevOffset.toNat + accumLength.toNat) / self.state.bytesPerChunk.toNat -
      self.prevOffset.toNat / self.state.bytesPerChunk.toNat)
    (hle : n ≤ self.state.chunksPerBuffer.toNat) (answers : Nat → QueueAnswer) :
    let r := registerChunks n self
    let q := r.state.state.queueChunks answers
    finishEvent self.state.bytesPerChunk self.state.bytesPerBuffer accumLength answers self =
        ⟨{ r.state with
          prevOffset := (self.prevOffset + accumLength) % self.state.bytesPerBuffer
          state := q.state }, q.ret, r.effects ++ q.effects⟩ ∧
      SameSetup self.state q.state ∧ q.state.currOffset < q.state.bytesPerBuffer ∧
      (q.ret = .success ∧ q.state.dataLength = 0 ∧ StoreInv .irMultiple q.state [] ∨
        ∃ errno, q.ret = .failure (.ioctl .queueIso errno)) := by
  intro r q
  obtain ⟨id, hid⟩ := h.mapped
  have hchunk : self.state.bytesPerChunk.toNat ≤ self.state.bytesPerBuffer.toNat := by
    rw [h.bytesPerBuffer]
    exact Nat.le_mul_of_pos_right _ h.chunks_pos
  have hroom := h.room
  obtain ⟨hret, hqueue⟩ := registers_queues n h.store h.empty h.curr_lt hchunk h.allocated
    (by rw [hid]; nofun) (by omega) answers
  obtain ⟨_, st, count, hstate⟩ := registerChunks_same n self
  have hprev : r.state.prevOffset = self.prevOffset := by
    simp only [r, hstate]
  have hcount : ((self.prevOffset + accumLength) / self.state.bytesPerChunk).toNat -
      (self.prevOffset / self.state.bytesPerChunk).toNat = n := by
    rw [UInt32.toNat_div, UInt32.toNat_div, UInt32.toNat_add, Nat.mod_eq_of_lt (a := _ + _)
        hsum, hn]
  have hbytes : self.state.bytesPerChunk ≠ 0 := by
    intro h0
    have hpos := h.chunk_pos
    rw [h0] at hpos
    exact absurd hpos (Nat.lt_irrefl 0)
  have hbuffer : self.state.bytesPerBuffer ≠ 0 := by
    intro h0
    have hpos := h.chunk_pos.trans_le hchunk
    rw [h0] at hpos
    exact absurd hpos (Nat.lt_irrefl 0)
  refine ⟨?_, hqueue⟩
  simp only [finishEvent, if_neg hbytes, hcount, hret, if_neg hbuffer]
  rw [show (registerChunks n self).state.prevOffset = self.prevOffset from hprev]

end Started

/-! ### What has been consumed -/

def recorded (self : FwIsoIrMultiple) : List CtxPayload :=
  match self.ctxPayloads with
  | none => []
  | some array => (List.range self.ctxPayloadCount.toNat).map array.entries

/-- The number of bytes that the signals so far have reported, in packets. -/
def consumed (trace : List (Effect × FwIsoIrMultiple)) : Nat :=
  (trace.map fun
    | (.interrupted _, self) => (self.recorded.map fun r => r.length.toNat).sum
    | _ => 0).sum

theorem recorded_store {self : FwIsoIrMultiple} {records : List CtxPayload}
    (hroom : records.length ≤ self.capacity) (hlt : records.length < 4294967296) :
    (self.store records).recorded = records := by
  cases hp : self.ctxPayloads with
  | none =>
    rw [FwIsoIrMultiple.capacity, hp] at hroom
    rw [List.length_eq_zero_iff.mp (Nat.le_zero.mp hroom)]
    simp [recorded, store, hp]
  | some array =>
    simp only [recorded, store, hp, Option.map_some, UInt32.toNat_ofNat', Nat.mod_eq_of_lt hlt]
    apply List.ext_getElem (by simp)
    intro i h₁ h₂
    simp [List.getElem?_eq_getElem h₂]

theorem recorded_asked {a b : FwIsoIrMultiple} (h : Asked a b) : b.recorded = a.recorded := by
  obtain ⟨_, rfl, _⟩ := h
  rfl

theorem lengths_recordsAt {B pos : Nat} {ns : List Nat} (hlt : ∀ n ∈ ns, n < 4294967296) :
    (recordsAt B pos ns).map (fun r => r.length.toNat) = ns := by
  apply List.ext_getElem (by simp)
  intro i h₁ h₂
  have := hlt _ (List.getElem_mem h₂)
  simp only [recordsAt, record, List.getElem_map, List.getElem_zipWith, UInt32.toNat_ofNat']
  exact Nat.mod_eq_of_lt this

theorem consumed_append (t t' : List (Effect × FwIsoIrMultiple)) :
    consumed (t ++ t') = consumed t + consumed t' := by
  rw [consumed, List.map_append, List.sum_append]
  rfl

theorem consumed_after (c : Ctx FwIsoIrMultiple) (o : Out FwIsoIrMultiple)
    (hquiet : ∀ e ∈ o.effects, ∀ count, e ≠ .interrupted count) :
    consumed (c.after o).trace = consumed c.trace := by
  have hzero : consumed (o.effects.map fun e => (e, c.priv)) = 0 := by
    rw [consumed, List.map_map, List.sum_eq_zero_iff]
    intro n hn
    obtain ⟨e, he, rfl⟩ := List.mem_map.mp hn
    cases e <;>
      first
      | rfl
      | exact absurd rfl (hquiet _ he _)
  rw [Ctx.after, consumed_append, hzero, Nat.add_zero]

/-- **An event until its handler returns**: the complete frames have been consumed. -/
theorem Started.handling {c : Ctx FwIsoIrMultiple} {i : Interrupt} (h : Started c.priv)
    (hfits : i.Fits c.priv) : ∃ s : Ctx FwIsoIrMultiple, run exec ⟨c, []⟩ i.handling = ⟨s,
        [goOn s.priv.state.bytesPerChunk s.priv.state.bytesPerBuffer
          (UInt32.ofNat (c.priv.frames i.env.buffer i.completed).sum) i.env.queueIso]⟩ ∧
      Asked (c.priv.handled i) s.priv ∧
      consumed s.trace = consumed c.trace + (c.priv.frames i.env.buffer i.completed).sum ∧
      s.effects = c.effects ++
        [.interrupted (UInt32.ofNat (c.priv.frames i.env.buffer i.completed).length)] := by
  obtain ⟨s, reported, hrun, hasked, hreported, htrace⟩ := run_handling [] h hfits
  have hrecorded : (reported.recorded.map fun r => r.length.toNat) =
      c.priv.frames i.env.buffer i.completed := by
    rw [recorded_asked hreported, FwIsoIrMultiple.handled, recorded_store
      (by rw [length_recordsAt]; exact hfits.room) ?_,
      lengths_recordsAt fun n hn => ?_]
    · have hle := List.single_le_sum (fun _ _ => Nat.zero_le _) n hn
      have hlt := (h.chunks_le i.env.buffer hfits.completed_le).1
      omega
    · have hroom := hfits.room
      have hbuffer := h.buffer
      rw [h.capacity] at hroom
      rw [length_recordsAt]
      omega
  have hstate : s.priv.state = c.priv.state := by
    obtain ⟨_, hs, _⟩ := hasked
    rw [hs]
    rfl
  refine ⟨s, ?_, hasked, ?_, ?_⟩
  · rw [hrun, hstate]
  · rw [htrace, consumed_append, ← hrecorded]
    simp [consumed]
  · rw [Ctx.effects, htrace, List.map_append]
    rfl

theorem running_stop (c : Ctx FwIsoIrMultiple) (stack : List _) :
    (enter stack c.stop).state.priv.state.running = false := by
  have hstopped : (c.after (Ctx.onState FwIsoCtxState.stop c.priv)).priv.state.running = false := by
    simp only [Ctx.after_priv, Ctx.onState, Out.map_state, FwIsoCtx.setState, FwIsoCtx.state]
    cases hrun : c.priv.state.running with
    | false =>
      rw [FwIsoCtxState.stop_of_not_running hrun]
      exact hrun
    | true => rw [FwIsoCtxState.stop_of_running hrun]
  simp only [Ctx.stop]
  split
  · exact hstopped
  · exact hstopped

/-- **The rest of an event**: chunks are registered and queued, or the context stops. -/
theorem Started.goOn {s : Ctx FwIsoIrMultiple} (h : Started s.priv) (accumLength : UInt32)
    (hquad : accumLength.toNat % 4 = 0)
    (hsum : s.priv.prevOffset.toNat + accumLength.toNat < 4294967296) {n : Nat}
    (hn : n = (s.priv.prevOffset.toNat + accumLength.toNat) / s.priv.state.bytesPerChunk.toNat -
      s.priv.prevOffset.toNat / s.priv.state.bytesPerChunk.toNat)
    (hle : n ≤ s.priv.state.chunksPerBuffer.toNat) (answers : Nat → QueueAnswer) :
    let c := enter [] (goOn s.priv.state.bytesPerChunk s.priv.state.bytesPerBuffer accumLength
      answers s)
    let r := registerChunks n s.priv
    let q := r.state.state.queueChunks answers
    c.stack = [] ∧ c.state = s.after ⟨{ r.state with
          prevOffset := (s.priv.prevOffset + accumLength) % s.priv.state.bytesPerBuffer
          state := q.state }, .success, r.effects ++ q.effects⟩ ∧
        q.ret = .success ∧ SameSetup s.priv.state q.state ∧ Started c.state.priv ∨
      q.ret ≠ .success ∧ c.state.priv.state.running = false := by
  intro c r q
  obtain ⟨heq, hsame, hcurr, ⟨hret, hempty, hstore⟩ | ⟨errno, hret⟩⟩ :=
    h.finishEvent_eq hsum hn hle answers
  · obtain ⟨_, st, count, hstate⟩ := registerChunks_same n s.priv
    have hc : c = ⟨s.after ⟨{ r.state with
        prevOffset := (s.priv.prevOffset + accumLength) % s.priv.state.bytesPerBuffer
        state := q.state }, .success, r.effects ++ q.effects⟩, []⟩ := by
      simp only [c, FwIsoIrMultiple.goOn, Ctx.perform, heq, hret, Act.bind, enter]
      rfl
    have hprev : ((s.priv.prevOffset + accumLength) % s.priv.state.bytesPerBuffer).toNat =
        (s.priv.prevOffset.toNat + accumLength.toNat) %
          (s.priv.state.bytesPerChunk.toNat * s.priv.state.chunksPerBuffer.toNat) := by
      rw [UInt32.toNat_mod, UInt32.toNat_add, Nat.mod_eq_of_lt (a := _ + _) hsum, h.bytesPerBuffer]
    have hquadlets : 4 ∣ s.priv.state.bytesPerChunk.toNat * s.priv.state.chunksPerBuffer.toNat :=
      (Nat.dvd_of_mod_eq_zero h.quadlets).mul_right _
    have hprevquad := h.prev_quadlet
    rw [hc]
    refine .inl ⟨rfl, rfl, hret, hsame, h.of_same hsame hstore hempty hcurr ?_ ?_ ?_⟩
    · simp only [Ctx.after_priv, r, hstate]
      rfl
    · simp only [Ctx.after_priv, hprev]
      exact Nat.mod_lt _ (Nat.mul_pos h.chunk_pos h.chunks_pos)
    · simp only [Ctx.after_priv, hprev]
      rw [Nat.mod_mod_of_dvd _ hquadlets]
      omega
  · refine .inr ⟨by rw [hret]; rintro ⟨⟩, ?_⟩
    have hc : c = enter [] (s.after (finishEvent s.priv.state.bytesPerChunk
        s.priv.state.bytesPerBuffer accumLength answers s.priv)).stop := by
      simp only [c, FwIsoIrMultiple.goOn, Ctx.perform, heq, hret, Act.bind]
    rw [hc]
    exact running_stop _ _

theorem consumed_requeue (c : Ctx FwIsoIrMultiple) (self : FwIsoIrMultiple) (n : Nat)
    (answers : Nat → QueueAnswer) (it : FwIsoIrMultiple) (ret : Ret) :
    let r := registerChunks n self
    consumed (c.after ⟨it, ret, r.effects ++ (r.state.state.queueChunks answers).effects⟩).trace =
      consumed c.trace := by
  refine consumed_after c _ fun e he count => ?_
  rcases List.mem_append.mp he with he | he
  · obtain ⟨p, rfl⟩ := registerChunks_effects n e he
    nofun
  · rcases ((registerChunks n self).state.state.queueChunks_cases answers).1 e he with
      rfl | ⟨_, _, _, rfl⟩ <;> nofun

/-- An event, step by step: the handler returns, and as many chunks as have been walked over are
registered and queued. -/
theorem Started.moves {c : Ctx FwIsoIrMultiple} {i : Interrupt} (h : Started c.priv)
    (hfits : i.Fits c.priv) :
    let a := (c.priv.frames i.env.buffer i.completed).sum
    let n := (c.priv.prevOffset.toNat + a) / c.priv.state.bytesPerChunk.toNat -
      c.priv.prevOffset.toNat / c.priv.state.bytesPerChunk.toNat
    let c' := run exec ⟨c, []⟩ i.moves
    ∃ s : Ctx FwIsoIrMultiple, Started s.priv ∧ Asked (c.priv.handled i) s.priv ∧
      s.effects = c.effects ++
        [.interrupted (UInt32.ofNat (c.priv.frames i.env.buffer i.completed).length)] ∧
      let r := registerChunks n s.priv
      let q := r.state.state.queueChunks i.env.queueIso
      (c'.state = s.after ⟨{ r.state with
            prevOffset := (s.priv.prevOffset + UInt32.ofNat a) % s.priv.state.bytesPerBuffer
            state := q.state }, .success, r.effects ++ q.effects⟩ ∧
          c'.stack = [] ∧ SameSetup c.priv.state q.state ∧ Started c'.state.priv ∧
          c'.state.priv.prevOffset.toNat = (c.priv.prevOffset.toNat + a) %
            (c.priv.state.bytesPerChunk.toNat * c.priv.state.chunksPerBuffer.toNat) ∧
          consumed c'.state.trace = consumed c.trace + a) ∨
        q.ret ≠ .success ∧ c'.state.priv.state.running = false := by
  intro a n c'
  obtain ⟨s, hhandling, hasked, hconsumed, heffects⟩ := h.handling hfits
  have hs : Started s.priv := (h.handled i).asked hasked
  obtain ⟨hstate, hprev⟩ : s.priv.state = c.priv.state ∧ s.priv.prevOffset = c.priv.prevOffset :=
    hasked.setup
  obtain ⟨hsum, hle⟩ := h.chunks_le i.env.buffer hfits.completed_le
  have haccum : (UInt32.ofNat a).toNat = a := by
    rw [UInt32.toNat_ofNat', Nat.mod_eq_of_lt (by omega)]
  have hquad : a % 4 = 0 := Nat.mod_eq_zero_of_dvd
    (List.dvd_sum fun n hn => Nat.dvd_of_mod_eq_zero (hfits.quadlets n hn))
  have hmoves : c' = enter [] (FwIsoIrMultiple.goOn s.priv.state.bytesPerChunk
      s.priv.state.bytesPerBuffer (UInt32.ofNat a) i.env.queueIso s) := by
    simp only [c', Interrupt.moves, run_append, hhandling]
    rfl
  have hgoOn := hs.goOn (UInt32.ofNat a) (n := n) (by rw [haccum]; exact hquad)
    (by rw [haccum, hprev]; exact hsum) (by rw [haccum, hstate, hprev])
    (by rw [hstate]; exact hle) i.env.queueIso
  rw [← hmoves] at hgoOn
  refine ⟨s, hs, hasked, heffects, ?_⟩
  rcases hgoOn with ⟨hstack, hend, _, hsame, hnext⟩ | hstopped
  case inr => exact .inr hstopped
  refine .inl ⟨hend, hstack, hstate ▸ hsame, hnext, ?_, ?_⟩
  · rw [hend]
    simp only [Ctx.after_priv]
    rw [UInt32.toNat_mod, UInt32.toNat_add, haccum, hprev, Nat.mod_eq_of_lt (a := _ + _) hsum,
      hstate, h.bytesPerBuffer]
  · rw [hend, consumed_requeue, hconsumed]

/-- **An event** as a whole: the complete frames have been consumed, or the context has stopped. -/
theorem Started.event {c : Ctx FwIsoIrMultiple} {i : Interrupt} (h : Started c.priv)
    (hfits : i.Fits c.priv) :
    let a := (c.priv.frames i.env.buffer i.completed).sum
    let c' := run exec ⟨c, []⟩ i.moves
    c'.stack = [] ∧ Started c'.state.priv ∧ SameSetup c.priv.state c'.state.priv.state ∧
        c'.state.priv.concatFrames.map Block.size = c.priv.concatFrames.map Block.size ∧
        c'.state.priv.prevOffset.toNat = (c.priv.prevOffset.toNat + a) %
          (c.priv.state.bytesPerChunk.toNat * c.priv.state.chunksPerBuffer.toNat) ∧
        consumed c'.state.trace = consumed c.trace + a ∨
      c'.state.priv.state.running = false := by
  intro a c'
  obtain ⟨s, _, hasked, _, ⟨hend, hstack, hsame, hnext, hprev, hconsumed⟩ | ⟨_, hstopped⟩⟩ :=
    h.moves hfits
  case inr => exact .inr hstopped
  refine .inl ⟨hstack, hnext, ?_, ?_, hprev, hconsumed⟩
  · rw [hend]
    exact hsame
  · obtain ⟨_, hpriv, hconcat⟩ := hasked
    rw [hend]
    simp only [Ctx.after_priv, registerChunks_concatFrames]
    rw [hpriv]
    exact hconcat

end FwIsoIrMultiple

end Hinoko
