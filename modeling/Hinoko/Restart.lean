import Hinoko.Fidelity

/-!
# Restarting an IT context

With payloads of one length, that of a chunk, the writer and the queue stay together
through any number of starts and stops, as long as each stop finds the writer at the
start of the buffer: stopping takes the queue there, and leaves the writer where it
is.

* `Standing`: the places of the pending packets are those where they were written.
* `placed_of_run`: every request designates the places where its packets were
  written, and the cursors agree after every run.
* `placed_fails`: after a stop in the middle of the buffer they do not.
-/

namespace Hinoko

open Reentrant

namespace FwIsoIt

/-- Where the payload of a packet that is registered goes. -/
def writtenAt : Effect × FwIsoIt → Option Nat
  | (.packet _ _, self) => some self.writePos
  | _ => none

def written (t : List (Effect × FwIsoIt)) : List Nat := t.filterMap writtenAt

/-- A packet that is not skipped and whose payload is not that of a whole chunk. -/
def partialPayload : Effect × FwIsoIt → Bool
  | (.packet skip payload, self) =>
    ¬ skip ∧ payload.length ≠ self.state.bytesPerChunk.toNat
  | _ => false

def WholePayloads (t : List (Effect × FwIsoIt)) : Prop := ∀ x ∈ t, partialPayload x = false

def StopsAtStart (t : List (Effect × FwIsoIt)) : Prop :=
  ∀ x ∈ t, x.1 = .stopIso → x.2.writePos = 0

instance (t : List (Effect × FwIsoIt)) : Decidable (WholePayloads t) :=
  inferInstanceAs (Decidable (∀ x ∈ t, partialPayload x = false))

instance (t : List (Effect × FwIsoIt)) : Decidable (StopsAtStart t) :=
  inferInstanceAs (Decidable (∀ x ∈ t, x.1 = .stopIso → x.2.writePos = 0))

/-- The request designates the places where its packets were written. -/
def designatesWritten (before : List (Effect × FwIsoIt)) (self : FwIsoIt) (arg : QueueIso)
    (packets : List UInt8) : Bool :=
  designated true arg packets = self.ofRequest (written before) arg packets

def Placed (t : List (Effect × FwIsoIt)) : Prop := EveryRequest designatesWritten t

/-- The two cursors meet at a chunk of a buffer that is going to be mapped. -/
structure Meets (it : FwIsoIt) (bytesPerChunk bytesPerBuffer : Nat) : Prop where
  offset_le : it.offset.toNat ≤ bytesPerBuffer
  curr_lt : it.state.currOffset.toNat < bytesPerBuffer
  agree : it.offset.toNat % bytesPerBuffer = it.state.currOffset.toNat
  dvd : bytesPerChunk ∣ it.state.currOffset.toNat

/-- Where an operation may be called: header and buffer have the sizes that callers are promised
to use, the buffer can be mapped, and a new buffer finds the cursors together. -/
def Op.Allowed : Op → Ctx FwIsoIt → Prop
  | .allocate _ _ _ headerSize _, _ => headerSize.toNat ≤ 255
  | .mapBuffer bytes payloads env mem, c =>
    (∃ id, env.mmap = .ok id) ∧ ((c.priv.mapBuffer bytes payloads env mem).ret = .success →
      bytes.toNat ≤ 65535 ∧ bytes.toNat * payloads.toNat < 2 ^ 31 ∧
        Meets c.priv bytes.toNat (bytes.toNat * payloads.toNat))
  | _, _ => True

/-! ### Places -/

theorem written_append (t t' : List (Effect × FwIsoIt)) :
    written (t ++ t') = written t ++ written t' := List.filterMap_append

theorem written_quiet {es : List Effect} (h : payloads es = []) (self : FwIsoIt) :
    written (es.map fun e => (e, self)) = [] := by
  refine List.filterMap_eq_nil_iff.mpr fun x hx => ?_
  obtain ⟨e, he, rfl⟩ := List.mem_map.mp hx
  have hnone := List.filterMap_eq_nil_iff.mp h e he
  cases e <;> first
    | rfl
    | cases hnone

/-- The places of the pending packets are those where they were written. -/
structure Standing (it : FwIsoIt) (t : List (Effect × FwIsoIt)) : Prop where
  aligned : Aligned it (t.map Prod.fst)
  dvd : it.state.bytesPerChunk.toNat ∣ it.state.currOffset.toNat
  whole : ∀ n ∈ payloadLengths (it.pending (t.map Prod.fst)),
    n = it.state.bytesPerChunk.toNat ∨ n = 0
  places : Ring.places it.ringSize it.state.currOffset.toNat
      (payloadLengths (it.pending (t.map Prod.fst))) =
    (written t).rtake it.state.registeredChunkCount.toNat

namespace Standing

variable {self : FwIsoIt} {t : List (Effect × FwIsoIt)}

theorem chunk_dvd_ring (h : Standing self t) :
    self.state.bytesPerChunk.toNat ∣ self.ringSize := by
  rw [ringSize, h.aligned.mapped.bytesPerBuffer]
  exact Nat.dvd_mul_right _ _

theorem dvd_writePos (h : Standing self t) :
    self.state.bytesPerChunk.toNat ∣ self.writePos := by
  rw [h.aligned.agree, Nat.dvd_mod_iff h.chunk_dvd_ring]
  refine Nat.dvd_add h.dvd (List.dvd_sum fun n hn => ?_)
  rcases h.whole n hn with rfl | rfl
  · exact Nat.dvd_refl _
  · exact Nat.dvd_zero _

theorem fit (h : Standing self t) {n : Nat}
    (hn : n = self.state.bytesPerChunk.toNat ∨ n = 0) : self.writePos + n ≤ self.ringSize := by
  have hfits : Ring.Fits self.ringSize self.writePos [n] :=
    Ring.fits_of_dvd h.chunk_dvd_ring [n] _ h.aligned.writePos_lt h.dvd_writePos (by simpa using hn)
  exact hfits.1

/-- **A request designates the places where its packets were written.** -/
theorem placed (h : Standing self t) {answers : Nat → QueueAnswer} {arg : QueueIso}
    {packets : List UInt8} {answer : QueueAnswer}
    (he : .queueIso arg packets answer ∈ (self.state.queueChunks answers).effects) :
    designated true arg packets = self.ofRequest (written t) arg packets := by
  obtain ⟨front, batch, back, hsplit, hearlier, hbatch, hplaces⟩ := h.aligned.request he
  have hw := h.places
  rw [hsplit, List.append_assoc, payloadLengths_append,
    Ring.places_append _ _ _ _ h.aligned.curr_lt, payloadLengths_append,
    Ring.places_append _ _ _ _ (Nat.mod_lt _ h.aligned.ring_pos)] at hw
  rw [hplaces, ofRequest, hearlier, hbatch, ← hw, List.drop_left' (by simp),
    List.take_left' (by simp)]

theorem quiet {es : List Effect} {self' : FwIsoIt} (h : Standing self t)
    (hquiet : ∀ e ∈ es, e.Quiet) (hnone : payloads es = []) :
    Standing self (t ++ es.map fun e => (e, self')) := by
  have hes : (t ++ es.map fun e => (e, self')).map Prod.fst = t.map Prod.fst ++ es := by
    rw [List.map_append, List.map_map, Function.comp_def, List.map_id']
  have hpending : self.pending (t.map Prod.fst ++ es) = self.pending (t.map Prod.fst) := by
    simp only [pending, held, chunksSinceMap_quiet hquiet]
  refine ⟨?_, h.dvd, ?_, ?_⟩
  · rw [hes]
    exact h.aligned.quiet hquiet hnone
  · rw [hes, hpending]
    exact h.whole
  · rw [hes, hpending, written_append, written_quiet hnone, List.append_nil]
    exact h.places

theorem caughtUp (haligned : Aligned self (t.map Prod.fst))
    (hcount : self.state.registeredChunkCount = 0)
    (hdvd : self.state.bytesPerChunk.toNat ∣ self.state.currOffset.toNat) : Standing self t := by
  have hpending : self.pending (t.map Prod.fst) = [] := by
    simp only [pending, held, hcount]
    exact List.rtake_zero _
  refine ⟨haligned, hdvd, ?_, ?_⟩
  · rw [hpending]
    simp
  · rw [hpending, hcount]
    exact (List.rtake_zero _).symm

theorem registered {o : Out FwIsoIt} {skip : Bool} {payload : List UInt8} {p : IsoPacket}
    (h : Standing self t) (hr : Registered self (t.map Prod.fst) o skip payload p)
    (hwhole : payload.length = self.state.bytesPerChunk.toNat ∨ payload.length = 0) :
    Standing o.state (t ++ o.effects.map fun e => (e, self)) := by
  have hes : (t ++ o.effects.map fun e => (e, self)).map Prod.fst =
      t.map Prod.fst ++ o.effects := by
    rw [List.map_append, List.map_map, Function.comp_def, List.map_id']
  have hcount : o.state.state.registeredChunkCount.toNat =
      self.state.registeredChunkCount.toNat + 1 := by
    rw [hr.count, h.aligned.store.stores.count_succ]
  have hw : written (t ++ o.effects.map fun e => (e, self)) = written t ++ [self.writePos] := by
    rw [hr.effects, written_append]
    rfl
  refine ⟨?_, ?_, ?_, ?_⟩
  · rw [hes]
    exact h.aligned.registered hr (h.fit hwhole)
  · rw [hr.bytesPerChunk, hr.currOffset]
    exact h.dvd
  · rw [hes, hr.pending, hr.bytesPerChunk, payloadLengths_append]
    intro n hn
    rcases List.mem_append.mp hn with hn | hn
    · exact h.whole n hn
    · rw [payloadLengths_cons, payloadLengths_nil, List.mem_singleton] at hn
      rw [hn, hr.length]
      exact hwhole
  · rw [hes, hr.pending, hr.ringSize, hr.currOffset, payloadLengths_append,
      Ring.places_append _ _ _ _ h.aligned.curr_lt, h.places, hw, hcount, List.rtake_concat_succ,
      ← h.aligned.agree]
    rfl

end Standing

/-! ### Runs -/

/-- What holds in every state of a run. -/
structure Restarts (it : FwIsoIt) (t : List (Effect × FwIsoIt)) : Prop where
  store : StoreInv .it it.state (t.map Prod.fst)
  header : it.state.headerSize.toNat ≤ 255
  standing : it.state.addr ≠ .null → Standing it t
  placed : Placed t

/-- The conditions on what a run has done so far. -/
structure Undisturbed (t : List (Effect × FwIsoIt)) : Prop where
  whole : WholePayloads t
  stops : StopsAtStart t
  unmaps : UnmappedEmpty t

theorem Undisturbed.append {t t' : List (Effect × FwIsoIt)} (h : Undisturbed (t ++ t')) :
    Undisturbed t ∧ Undisturbed t' :=
  ⟨⟨fun x hx => h.whole x (List.mem_append_left _ hx),
      fun x hx => h.stops x (List.mem_append_left _ hx),
      fun x hx => h.unmaps x (List.mem_append_left _ hx)⟩,
    ⟨fun x hx => h.whole x (List.mem_append_right _ hx),
      fun x hx => h.stops x (List.mem_append_right _ hx),
      fun x hx => h.unmaps x (List.mem_append_right _ hx)⟩⟩

def KeptPlaced (c : Ctx FwIsoIt) : Prop := Undisturbed c.trace → Restarts c.priv c.trace

theorem KeptPlaced.after {c : Ctx FwIsoIt} {o : Out FwIsoIt} (h : KeptPlaced c)
    (hstep : Restarts c.priv c.trace → Undisturbed (o.effects.map fun e => (e, c.priv)) →
      Restarts o.state (c.trace ++ o.effects.map fun e => (e, c.priv))) :
    KeptPlaced (c.after o) := by
  intro hcond
  obtain ⟨hold, hnew⟩ := hcond.append
  exact hstep (h hold) hnew

theorem effects_after (t : List (Effect × FwIsoIt)) (es : List Effect) (self : FwIsoIt) :
    (t ++ es.map fun e => (e, self)).map Prod.fst = t.map Prod.fst ++ es := by
  rw [List.map_append, List.map_map, Function.comp_def, List.map_id']

namespace Restarts

variable {self : FwIsoIt} {t : List (Effect × FwIsoIt)}

theorem refused {o : Out FwIsoIt} {self' : FwIsoIt} (h : Restarts self t)
    (hstate : o.state = self) (heffects : o.effects = []) :
    Restarts o.state (t ++ o.effects.map fun e => (e, self')) := by
  rw [hstate, heffects, List.map_nil, List.append_nil]
  exact h

theorem quiet {es : List Effect} {self' : FwIsoIt} (h : Restarts self t)
    (hquiet : ∀ e ∈ es, e.Quiet) (hnone : payloads es = [])
    (hreq : ∀ e ∈ es, ∀ arg packets answer, e ≠ .queueIso arg packets answer) :
    Restarts self (t ++ es.map fun e => (e, self')) := by
  refine ⟨?_, h.header, fun haddr => (h.standing haddr).quiet hquiet hnone,
    h.placed.append_of_none hreq⟩
  rw [effects_after]
  exact h.store.quiet hquiet

theorem unmapped {self' : FwIsoIt} {es : List Effect} {self'' : FwIsoIt} (h : Restarts self t)
    (haddr : self'.state.addr = .null) (hheader : self'.state.headerSize.toNat ≤ 255)
    (hstore : StoreInv .it self'.state (t.map Prod.fst ++ es))
    (hreq : ∀ e ∈ es, ∀ arg packets answer, e ≠ .queueIso arg packets answer) :
    Restarts self' (t ++ es.map fun e => (e, self'')) := by
  refine ⟨?_, hheader, fun hne => absurd haddr hne, h.placed.append_of_none hreq⟩
  rw [effects_after]
  exact hstore

theorem registerPacket (h : Restarts self t) (tags syncCode : UInt32) (header payload : ArrayArg)
    (irq : Bool)
    (hnew : Undisturbed ((self.registerPacket tags syncCode header payload irq).effects.map
      fun e => (e, self))) :
    Restarts (self.registerPacket tags syncCode header payload irq).state
      (t ++ (self.registerPacket tags syncCode header payload irq).effects.map
        fun e => (e, self)) := by
  have heffects := self.registerPacket_effects tags syncCode header payload irq
  by_cases haddr : self.state.addr = .null
  · obtain ⟨hstate, he⟩ := registerPacket_of_unmapped haddr tags syncCode header payload irq
    exact h.refused hstate he
  have hstanding := h.standing haddr
  rcases registerPacket_registered hstanding.aligned.mapped h.store hstanding.aligned.offset_le tags
    syncCode header payload irq with ⟨hstate, he⟩ | ⟨skip, p, hr⟩
  · exact h.refused hstate he
  · have hwhole : payload.bytes.length = self.state.bytesPerChunk.toNat ∨
        payload.bytes.length = 0 := by
      have hx := hnew.whole (.packet skip payload.bytes, self)
        (List.mem_map.mpr ⟨_, by rw [hr.effects]; simp, rfl⟩)
      cases hs : skip with
      | false => exact .inl (by simpa [partialPayload, hs] using hx)
      | true => exact .inr (by rw [hr.empty hs]; rfl)
    refine ⟨?_, by rw [hr.headerSize]; exact h.header, fun _ => hstanding.registered hr hwhole,
      h.placed.append_of_none fun e he arg packets answer => ?_⟩
    · rw [effects_after]
      exact hr.store
    · rcases heffects e he with ⟨_, rfl⟩ | ⟨_, _, rfl⟩ <;> simp

theorem placed_queueChunks (h : Restarts self t) (haddr : self.state.addr ≠ .null)
    (answers : Nat → QueueAnswer) :
    Placed (t ++ (self.state.queueChunks answers).effects.map fun e => (e, self)) := by
  refine EveryRequest.append h.placed fun i arg packets answer he => ?_
  rw [designatesWritten, decide_eq_true_eq, written_append,
    written_quiet (payloads_take (payloads_queueChunks self.state answers) i), List.append_nil]
  exact (h.standing haddr).placed (List.mem_of_getElem? he)

theorem queueChunks (h : Restarts self t) (answers : Nat → QueueAnswer) :
    Restarts (FwIsoIt.queueChunks answers self).state
      (t ++ (FwIsoIt.queueChunks answers self).effects.map fun e => (e, self)) := by
  by_cases haddr : self.state.addr = .null
  · have he := h.store.queueChunks_empty (h.store.unmapped haddr) answers
    refine h.refused ?_ ?_ <;> simp only [FwIsoIt.queueChunks, Out.map_state, Out.map_effects, he]
  have hstanding := h.standing haddr
  have haligned := hstanding.aligned.queueChunks answers
  have hnone := payloads_queueChunks self.state answers
  have hplaced := h.placed_queueChunks haddr answers
  simp only [FwIsoIt.queueChunks, Out.map_state, Out.map_effects] at haligned ⊢
  refine ⟨?_, ?_, fun _ => ?_, hplaced⟩
  · rw [effects_after]
    exact haligned.store
  · rcases hstanding.aligned.queueChunks_cases answers with ⟨hstate, _⟩ | ⟨_, x, hx, hstate⟩ <;>
      (rw [hstate]; exact h.header)
  · rcases hstanding.aligned.queueChunks_cases answers with ⟨hstate, _⟩ | ⟨_, x, hx, hstate⟩
    · rw [hstate]
      exact hstanding.quiet (self.state.queueChunks_quiet answers) hnone
    · rw [hstate] at haligned ⊢
      refine Standing.caughtUp (by rw [effects_after]; exact haligned) rfl ?_
      simp only [hx]
      exact hstanding.dvd_writePos

theorem setRunning (h : Restarts self t) (running : Bool) :
    Restarts { self with state := { self.state with running := running } } t := by
  have hstore : StoreInv .it { self.state with running := running } (t.map Prod.fst ++ []) :=
    h.store.frame rfl rfl rfl rfl rfl rfl rfl (by simp)
  rw [List.append_nil] at hstore
  refine ⟨hstore, h.header, fun haddr => ?_, h.placed⟩
  have hstanding := h.standing haddr
  exact ⟨hstanding.aligned.setRunning running, hstanding.dvd, hstanding.whole, hstanding.places⟩

theorem start (h : Restarts self t) (cycleMatch : Option (UInt16 × UInt16)) (env : StartEnv) :
    Restarts (self.start cycleMatch env).state
      (t ++ (self.start cycleMatch env).effects.map fun e => (e, self)) := by
  have hq := h.queueChunks env.queueIso
  rcases self.start_cases cycleMatch env with
    ⟨hstate, he⟩ | ⟨_, ⟨hstate, he⟩ | ⟨arg, accepted, running, he, hstate⟩⟩
  · exact h.refused hstate he
  · rw [hstate, he]
    exact hq
  · rw [hstate, he, List.map_append, ← List.append_assoc]
    exact (hq.quiet (by simp [Effect.Quiet]) rfl (by simp)).setRunning running

theorem stop (h : Restarts self t)
    (hnew : Undisturbed ((Ctx.onState FwIsoCtxState.stop self).effects.map fun e => (e, self))) :
    Restarts (Ctx.onState FwIsoCtxState.stop self).state
      (t ++ (Ctx.onState FwIsoCtxState.stop self).effects.map fun e => (e, self)) := by
  cases hrun : self.state.running with
  | false =>
    rw [onState_stop_of_not_running hrun]
    exact h.refused rfl rfl
  | true =>
    have hstore := h.store.stop
    rw [FwIsoCtxState.stop_of_running hrun] at hstore
    rw [onState_stop_of_running hrun] at hnew ⊢
    by_cases haddr : self.state.addr = .null
    · exact h.unmapped haddr h.header hstore (by simp)
    · have hstanding := h.standing haddr
      have hpos : self.writePos = 0 := hnew.stops (.stopIso, self) (by simp) rfl
      have haligned := hstanding.aligned.stop fun _ => hpos
      rw [onState_stop_of_running hrun] at haligned
      refine ⟨?_, h.header, fun _ => ?_, h.placed.append_of_none (by simp)⟩
      · rw [effects_after]
        exact hstore
      · exact Standing.caughtUp (by rw [effects_after]; exact haligned) rfl (Nat.dvd_zero _)

theorem unmapBuffer (h : Restarts self t)
    (hnew : Undisturbed (self.unmapBuffer.effects.map fun e => (e, self))) :
    Restarts self.unmapBuffer.state (t ++ self.unmapBuffer.effects.map fun e => (e, self)) := by
  refine h.unmapped rfl h.header (h.store.unmapBuffer fun haddr => ?_) fun e he => ?_
  · refine hnew.unmaps (.munmap self.state.bytesPerBuffer, self) ?_ rfl
    simp [FwIsoIt.unmapBuffer, FwIsoCtxState.unmapBuffer, haddr]
  · simp only [FwIsoIt.unmapBuffer, FwIsoCtxState.unmapBuffer, Out.map_effects] at he
    split at he
    · simp at he
    · rw [List.mem_singleton.mp he]
      simp

theorem release (h : Restarts self t) (haddr : self.state.addr = .null) :
    Restarts self.release.state (t ++ self.release.effects.map fun e => (e, self)) := by
  refine h.unmapped haddr h.header (h.store.release haddr) fun e he => ?_
  simp only [FwIsoIt.release, FwIsoCtxState.release, Out.map_effects] at he
  split at he
  · rw [List.mem_singleton.mp he]
    simp
  · simp at he

theorem allocate (h : Restarts self t) (path : Option String)
    (scode channel headerSize : UInt32) (env : AllocateEnv) (hheader : headerSize.toNat ≤ 255) :
    Restarts (self.allocate path scode channel headerSize env).state
      (t ++ (self.allocate path scode channel headerSize env).effects.map fun e => (e, self)) := by
  simp only [FwIsoIt.allocate]
  split
  · exact h.refused rfl rfl
  have hstore : StoreInv .it (self.state.allocate path .it scode channel headerSize env).state _ :=
    h.store.allocate
  rcases self.state.allocate_cases path .it scode channel headerSize env with
    hr | ⟨hfd, hsetup, hout⟩
  · refine h.refused ?_ hr.effects
    rw [Out.map_state, hr.state]
  have hreq : ∀ e ∈ (self.state.allocate path .it scode channel headerSize env).effects,
      ∀ arg packets answer, e ≠ .queueIso arg packets answer := by
    rintro _ he arg packets answer rfl
    exact hsetup _ he
  rcases hout with ⟨_, hstate⟩ | ⟨_, fd, handle, hstate⟩
  · rw [hstate] at hstore
    simp only [Out.map_state, hstate]
    exact h.unmapped (h.store.unallocated hfd) h.header hstore hreq
  · rw [hstate] at hstore
    simp only [Out.map_state, hstate]
    exact h.unmapped (h.store.unallocated hfd) hheader hstore hreq

/-- **A new buffer** that finds the cursors together. -/
theorem mapBuffer (h : Restarts self t) (bytesPerChunk chunksPerBuffer : UInt32) (env : MapEnv)
    (mem : ByteMem) {id : Nat} (hid : env.mmap = .ok id)
    (hmeets : (self.mapBuffer bytesPerChunk chunksPerBuffer env mem).ret = .success →
      bytesPerChunk.toNat ≤ 65535 ∧ bytesPerChunk.toNat * chunksPerBuffer.toNat < 2 ^ 31 ∧
        Meets self bytesPerChunk.toNat (bytesPerChunk.toNat * chunksPerBuffer.toNat)) :
    Restarts (self.mapBuffer bytesPerChunk chunksPerBuffer env mem).state
      (t ++ (self.mapBuffer bytesPerChunk chunksPerBuffer env mem).effects.map
        fun e => (e, self)) := by
  have hstore := h.store.mapBuffer bytesPerChunk chunksPerBuffer hid
  simp only [FwIsoIt.mapBuffer, Out.map_ret] at hmeets ⊢
  rcases self.state.mapBuffer_cases bytesPerChunk chunksPerBuffer env with
    hr | ⟨⟨hbpc, hcpb, hfd, haddr⟩, he, ⟨errno, herr, _⟩ | ⟨id', _, hret, hstate⟩⟩
  · refine h.refused ?_ hr.effects
    have hne : (self.state.mapBuffer bytesPerChunk chunksPerBuffer env).ret ≠ .success := by
      intro hret
      have hfalse := hr.ret
      rw [hret] at hfalse
      exact hfalse.elim
    rw [Out.map_state, hr.state, if_neg hne]
  · rw [hid] at herr
    cases herr
  obtain ⟨hbytes, hbuffer, hmeets⟩ := hmeets hret
  have hlen := h.store.unmapped haddr
  have hcount := h.store.count_eq_zero hlen
  have hmapped := Mapped.of_mapBuffer hfd (h.store.mode hfd) h.header hbytes hbuffer hret
  have hring := hmapped.bytesPerBuffer
  rw [hstate] at hstore hmapped hring
  simp only [Out.map_state, Out.map_effects, hstate]
  have haligned : Aligned { self with
      state := { self.state with
        data := gMallocN env.dataBlock env.dataFill chunksPerBuffer self.state.datumSize
        allocDataLength := chunksPerBuffer * self.state.datumSize
        addr := .mapped id'
        bytesPerChunk := bytesPerChunk
        chunksPerBuffer := chunksPerBuffer }
      mem := if (self.state.mapBuffer bytesPerChunk chunksPerBuffer env).ret = .success then mem
        else self.mem }
      (t.map Prod.fst ++ (self.state.mapBuffer bytesPerChunk chunksPerBuffer env).effects) := by
    refine Aligned.of_meet hmapped hstore hcount ?_ ?_
    · rw [ringSize, hring]
      exact hmeets.offset_le
    · rw [writePos, ringSize, hring]
      exact hmeets.agree.symm
  refine ⟨?_, h.header, fun _ => ?_, h.placed.append_of_none (by simp [he])⟩
  · rw [effects_after]
    exact hstore
  · exact Standing.caughtUp (by rw [effects_after]; exact haligned) hcount hmeets.dvd

end Restarts

theorem KeptPlaced.note {c : Ctx FwIsoIt} {e : Effect} (h : KeptPlaced c) (hquiet : e.Quiet)
    (hnone : payloadOf e = none) (hreq : ∀ arg packets answer, e ≠ .queueIso arg packets answer) :
    KeptPlaced (c.note e) :=
  h.after (o := ⟨c.priv, .success, [e]⟩) fun hr _ =>
    hr.quiet (by simpa using hquiet) (by simp [payloads, hnone]) (by simpa using hreq)

theorem KeptPlaced.stop {c : Ctx FwIsoIt} (h : KeptPlaced c) :
    KeptPlaced (c.after (Ctx.onState FwIsoCtxState.stop c.priv)) :=
  h.after fun hr hnew => hr.stop hnew

theorem KeptPlaced.stopped {c : Ctx FwIsoIt} (h : KeptPlaced c) : KeptPlaced (c.note .stopped) :=
  h.note trivial rfl (by simp)

theorem KeptPlaced.unmapBuffer {c : Ctx FwIsoIt} (h : KeptPlaced c) :
    KeptPlaced (c.after c.priv.unmapBuffer) ∧
      (c.after c.priv.unmapBuffer).priv.state.addr = .null :=
  ⟨h.after fun hr hnew => hr.unmapBuffer hnew, rfl⟩

theorem keptPlaced_exec (op : Op) (c : Ctx FwIsoIt) (hop : op.Allowed c) (h : KeptPlaced c) :
    (exec op c).Keeps KeptPlaced fun _ => KeptPlaced := by
  cases op with
  | allocate path scode channel headerSize env =>
    exact h.after fun hr _ => hr.allocate path scode channel headerSize env hop
  | mapBuffer bytes payloads env mem =>
    obtain ⟨⟨id, hid⟩, hmeets⟩ := hop
    exact h.after fun hr _ => hr.mapBuffer bytes payloads env mem hid hmeets
  | registerPacket tags syncCode header payload irq =>
    exact h.after fun hr hnew => hr.registerPacket tags syncCode header payload irq hnew
  | start cycleMatch env => exact h.after fun hr _ => hr.start cycleMatch env
  | stop => exact Ctx.stop_keeps (fun _ hc => hc.stop) (fun _ hc => hc.stopped) h
  | unmapBuffer =>
    exact Ctx.unmapBuffer_keeps (fun _ hc => hc.stop) (fun _ hc => hc.stopped)
      (fun _ hc => hc.unmapBuffer.1) h
  | release =>
    refine Ctx.release_keeps (Q := fun c => KeptPlaced c ∧ c.priv.state.addr = .null)
      (fun _ hc => hc.stop) (fun _ hc => hc.stopped) (fun _ hc => hc.unmapBuffer)
      (fun _ hc => hc.1.after fun hr _ => hr.release hc.2) h
  | dispatch w =>
    refine Ctx.dispatch_keeps (fun _ hc => hc.stop) (fun _ hc => hc.stopped)
      (fun ev env c hc => ?_) w h
    cases ev with
    | isoInterrupt ev =>
      refine ⟨hc.note trivial rfl (by simp), fun c' hc' => ?_⟩
      exact hc'.after fun hr _ => hr.queueChunks env.queueIso
    | isoInterruptMc ev => exact hc
    | other => exact hc

theorem keptPlaced_new : KeptPlaced ⟨new, []⟩ := fun _ =>
  ⟨.init, by decide, fun haddr => absurd rfl haddr, everyRequest_nil⟩

/-- **Every request designates the places where its packets were written**, and the writer stands
behind what is registered but not queued, in every state of every run with payloads of one length
where each stop finds the writer at the start of the buffer. -/
theorem placed_of_run (ms : List (Move Op))
    (hms : Guarded exec Op.Allowed ⟨⟨new, []⟩, []⟩ ms) :
    let c := (run exec ⟨⟨new, []⟩, []⟩ ms).state
    WholePayloads c.trace → StopsAtStart c.trace → UnmappedEmpty c.trace →
      Placed c.trace ∧ (c.priv.state.addr ≠ .null → c.priv.writePos =
        (c.priv.state.currOffset.toNat +
          ((c.priv.unsent c.effects).map List.length).sum) % c.priv.ringSize) := by
  intro c hwhole hstops hunmaps
  have hkept := run_keeps_of_guarded keptPlaced_exec ms hms ⟨keptPlaced_new, by simp⟩
  have h : Restarts c.priv c.trace := hkept.state ⟨hwhole, hstops, hunmaps⟩
  refine ⟨h.placed, fun haddr => ?_⟩
  have haligned := (h.standing haddr).aligned
  rw [haligned.agree, haligned.lengths]
  rfl

/-! ### A stop in the middle of the buffer -/

def mapped : List (Move Op) :=
  [.call (.allocate (some "/dev/fw0") 0 0 0 grantAllocate),
    .call (.mapBuffer 4 2 grantMap fun _ => 0)]

def whole : Move Op := register [1, 2, 3, 4] short_first

def restarted (before after : Nat) : List (Move Op) :=
  mapped ++ List.replicate before whole ++
    [.call (.start none (grantStart before)), .call .stop, .resume] ++
    List.replicate after whole ++ [.call (.start none (grantStart after))]

/-- **A stop in the middle of the buffer parts the cursors**: the packet that is registered after
it is written where the writer stands, and the request designates the start of the buffer. -/
theorem placed_fails :
    let c := (run exec ⟨⟨new, []⟩, []⟩ (restarted 1 1)).state
    WholePayloads c.trace ∧ UnmappedEmpty c.trace ∧ ¬ Placed c.trace ∧
      c.priv.writePos ≠ (c.priv.state.currOffset.toNat +
        ((c.priv.unsent c.effects).map List.length).sum) % c.priv.ringSize := by
  refine ⟨by decide +kernel, by decide +kernel, fun h => ?_, by decide +kernel⟩
  exact absurd (h 12) (by decide +kernel)

theorem guarded_restarted : Guarded exec Op.Allowed ⟨⟨new, []⟩, []⟩ (restarted 2 1) := by
  refine ⟨show (0 : UInt32).toNat ≤ 255 by decide, ⟨⟨⟨_, rfl⟩, fun _ =>
    ⟨by decide, by decide, ?_⟩⟩, ?_⟩⟩
  · exact ⟨by decide +kernel, by decide +kernel, by decide +kernel, by decide +kernel⟩
  · exact ⟨trivial, trivial, trivial, trivial, trivial, trivial, trivial⟩

theorem placed_restarted :
    let c := (run exec ⟨⟨new, []⟩, []⟩ (restarted 2 1)).state
    Placed c.trace ∧ (c.priv.state.addr ≠ .null → c.priv.writePos =
      (c.priv.state.currOffset.toNat +
        ((c.priv.unsent c.effects).map List.length).sum) % c.priv.ringSize) :=
  placed_of_run (restarted 2 1) guarded_restarted (by decide +kernel) (by decide +kernel)
    (by decide +kernel)

end FwIsoIt

end Hinoko
