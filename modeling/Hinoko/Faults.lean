import Hinoko.Handover
import Hinoko.Reassembly
import Hinoko.Records
import Hinoko.Reporting

/-!
# Operations that come to an end

An operation of a context can read or write where there is no memory, divide by zero, or go round
for ever.  Each of that has its own condition.  Here they are put together: what an application,
the kernel and the hardware have to keep to, so that no operation of a context ends in a fault.

* `Intact`: the store holds its packets, and every payload fits into the buffer.
* `Ret.Confined`: an answer that is no fault, but for a division by zero.
* `getPayload_confined`, `getPayload_ne_crashed`: no payload that may be asked for is a fault.
* `faultless_of_run`: no operation of any run ends in a fault.
-/

namespace Hinoko

open Reentrant

/-! ### The state -/

/-- The answer is no fault, unless it is a division by zero. -/
def Ret.Confined (ret : Ret) : Prop := ∀ fault, ret = .crashed fault → fault = .divByZero

theorem Ret.confined_success : Ret.success.Confined := fun _ h => by cases h

theorem Ret.IsFalse.confined {ret : Ret} (h : ret.IsFalse) : ret.Confined :=
  fun fault hret => absurd hret (h.ne_crashed fault)

/-- The store holds its packets, and every payload fits into the buffer. -/
structure Intact (kind : FwIsoCtxMode) (st : FwIsoCtxState) (es : List Effect) : Prop where
  store : StoreInv kind st es
  chunk : st.bytesPerChunk.toNat ≤ st.bytesPerBuffer.toNat
  fits : ∀ p ∈ held st es, p.payloadLength ≤ st.bytesPerBuffer.toNat

/-- A packet says no more bytes than a chunk has. -/
theorem payloadLength_datum_le {st : FwIsoCtxState} {skip : Bool} {tags syncCode : UInt32}
    {header : ArrayArg} {payloadLength : UInt32} (irq : Bool)
    (hacc : st.acceptsChunk skip tags syncCode header payloadLength = true) :
    (st.datum skip tags syncCode header payloadLength irq).payloadLength ≤
      st.bytesPerChunk.toNat := by
  rw [payloadLength_datum]
  refine (Nat.mod_le _ _).trans ?_
  simp only [FwIsoCtxState.acceptsChunk, decide_eq_true_eq] at hacc
  obtain ⟨_, _, hmode⟩ := hacc
  split
  next hit =>
    rw [if_pos hit] at hmode
    split at hmode
    · rw [hmode.1]
      exact Nat.zero_le _
    · exact UInt32.le_iff_toNat_le.mp hmode.2
  next => exact Nat.le_refl _

namespace Intact

variable {kind : FwIsoCtxMode} {st : FwIsoCtxState} {es : List Effect}

theorem of_empty (h : StoreInv kind st es) (hcount : st.registeredChunkCount = 0)
    (hchunk : st.bytesPerChunk.toNat ≤ st.bytesPerBuffer.toNat) : Intact kind st es := by
  refine ⟨h, hchunk, fun p hp => ?_⟩
  rw [held, hcount, UInt32.toNat_zero, List.rtake_zero] at hp
  cases hp

theorem init : Intact kind {} [] := of_empty .init rfl (Nat.le_refl _)

theorem frame {st' : FwIsoCtxState} {es' : List Effect} (h : Intact kind st es)
    (hstore : StoreInv kind st' (es ++ es')) (hbytes : st'.bytesPerChunk = st.bytesPerChunk)
    (hchunks : st'.chunksPerBuffer = st.chunksPerBuffer)
    (hcount : st'.registeredChunkCount = st.registeredChunkCount) (hquiet : ∀ e ∈ es', e.Quiet) :
    Intact kind st' (es ++ es') := by
  have hbuffer : st'.bytesPerBuffer = st.bytesPerBuffer := by
    rw [FwIsoCtxState.bytesPerBuffer, hbytes, hchunks]
    rfl
  refine ⟨hstore, ?_, fun p hp => ?_⟩
  · rw [hbytes, hbuffer]
    exact h.chunk
  · rw [held, hcount, chunksSinceMap_quiet hquiet] at hp
    rw [hbuffer]
    exact h.fits p hp

theorem quiet {es' : List Effect} (h : Intact kind st es) (hquiet : ∀ e ∈ es', e.Quiet) :
    Intact kind st (es ++ es') :=
  h.frame (h.store.quiet hquiet) rfl rfl rfl hquiet

theorem refused {o : Out FwIsoCtxState} (h : Intact kind st es) (hr : Refused st o) :
    Intact kind o.state (es ++ o.effects) := by
  rw [hr.state, hr.effects, List.append_nil]
  exact h

theorem count_of_null (h : Intact kind st es) (haddr : st.addr = .null) :
    st.registeredChunkCount = 0 :=
  h.store.count_eq_zero (h.store.unmapped haddr)

theorem allocate {path : Option String} {scode channel headerSize : UInt32} {env : AllocateEnv}
    (h : Intact kind st es) :
    let o := st.allocate path kind scode channel headerSize env
    Intact kind o.state (es ++ o.effects) ∧ o.ret.Confined := by
  refine ⟨?_, fun fault hfault =>
    absurd hfault (st.allocate_ne_crashed path kind scode channel headerSize env fault)⟩
  have hstore : StoreInv kind (st.allocate path kind scode channel headerSize env).state _ :=
    h.store.allocate
  rcases st.allocate_cases path kind scode channel headerSize env with
    hr | ⟨hfd, _, ⟨_, hstate⟩ | ⟨_, _, _, hstate⟩⟩
  · exact h.refused hr
  · rw [hstate] at hstore ⊢
    exact of_empty hstore (h.count_of_null (h.store.unallocated hfd)) h.chunk
  · rw [hstate] at hstore ⊢
    exact of_empty hstore (h.count_of_null (h.store.unallocated hfd)) h.chunk

/-- Mapping begins with an empty store, also when `mmap` fails. -/
theorem mapBuffer {bytes chunks : UInt32} {env : MapEnv} (h : Intact kind st es)
    (hproduct : bytes.toNat * chunks.toNat < 4294967296) :
    let o := st.mapBuffer bytes chunks env
    Intact kind o.state (es ++ o.effects) ∧ o.ret.Confined := by
  refine ⟨?_, fun fault hfault => absurd hfault (st.mapBuffer_ne_crashed bytes chunks env fault)⟩
  rcases st.mapBuffer_cases bytes chunks env with
    hr | ⟨⟨_, hchunks, hfd, haddr⟩, _, ⟨_, _, _, hstate⟩ | ⟨id, hmmap, _, hstate⟩⟩
  · exact h.refused hr
  · have hcount := h.count_of_null haddr
    rw [hstate]
    refine of_empty (.empty (fun _ => h.store.mode hfd) (fun hneg => ?_) (h.store.unmapped haddr)
      hcount fun _ hpos => gMallocN_of_pos _ _ hpos) hcount h.chunk
    exact absurd hneg (by simpa using hfd)
  · have hstore := h.store.mapBuffer bytes chunks hmmap
    rw [hstate] at hstore ⊢
    refine of_empty hstore (h.count_of_null haddr) ?_
    have hpos : 0 < chunks.toNat := UInt32.lt_iff_toNat_lt.mp (UInt32.pos_iff_ne_zero.mpr hchunks)
    simp only [FwIsoCtxState.bytesPerBuffer]
    rw [UInt32.toNat_mul, Nat.mod_eq_of_lt hproduct]
    exact Nat.le_mul_of_pos_right _ hpos

theorem unmapBuffer (h : Intact kind st es) (hempty : st.addr ≠ .null → st.dataLength = 0) :
    Intact kind st.unmapBuffer.state (es ++ st.unmapBuffer.effects) := by
  have hcount : st.registeredChunkCount = 0 := by
    by_cases haddr : st.addr = .null
    · exact h.count_of_null haddr
    · exact h.store.count_eq_zero (hempty haddr)
  exact of_empty (h.store.unmapBuffer hempty) hcount h.chunk

theorem release (h : Intact kind st es) (haddr : st.addr = .null) :
    Intact kind st.release.state (es ++ st.release.effects) :=
  of_empty (h.store.release haddr) (h.count_of_null haddr) h.chunk

/-- **A registered packet fits**, and there is memory for it. -/
theorem registerChunk {skip : Bool} {tags syncCode : UInt32} {header : ArrayArg}
    {payloadLength : UInt32} {irq : Bool} (h : Intact kind st es)
    (hstore : StoreInv kind (st.registerChunk skip tags syncCode header payloadLength irq).state
      (es ++ (st.registerChunk skip tags syncCode header payloadLength irq).effects)) :
    let o := st.registerChunk skip tags syncCode header payloadLength irq
    Intact kind o.state (es ++ o.effects) ∧ o.ret.Confined := by
  have hsame := SameSetup.registerChunk st skip tags syncCode header payloadLength irq
  rcases h.store.registerChunk_cases skip tags syncCode header payloadLength irq with
    hr | ⟨⟨hacc, _⟩, block, _, ho⟩
  · exact ⟨h.refused hr, hr.ret.confined⟩
  · have hle := (payloadLength_datum_le irq hacc).trans h.chunk
    simp only [ho] at hstore hsame ⊢
    refine ⟨⟨hstore, ?_, fun p hp => ?_⟩, Ret.confined_success⟩
    · rw [hsame.bytesPerChunk, hsame.bytesPerBuffer]
      exact h.chunk
    · rw [h.store.held_chunk rfl] at hp
      rw [hsame.bytesPerBuffer]
      rcases List.mem_append.mp hp with hp | hp
      · exact h.fits p hp
      · rw [List.mem_singleton.mp hp]
        exact hle

/-- Queueing without a buffer divides by zero, unless there is nothing to queue. -/
theorem queueChunks_confined (h : Intact kind st es) (answers : Nat → QueueAnswer) :
    (st.queueChunks answers).ret.Confined := by
  intro fault hfault
  by_cases hbuffer : st.bytesPerBuffer = 0
  · have hrounds : ∀ ps fault, (st.rounds answers ps).2 = .crashed fault → fault = .divByZero := by
      intro ps fault hfault
      rw [FwIsoCtxState.rounds, FwIsoCtxState.queueFuel, Nat.mul_succ] at hfault
      cases ps with
      | nil => cases hfault
      | cons p ps =>
        simp only [queueRounds, hbuffer, if_true] at hfault
        split at hfault
        · cases hfault
        · exact (RoundsEnd.crashed.inj hfault).symm
    rw [queueChunks_eq answers h.store.stores h.store.sized] at hfault
    simp only at hfault
    split at hfault
    next hend =>
      cases hfault
      exact hrounds _ _ hend
    · cases hfault
    · cases hfault
  · exact absurd hfault
      (queueChunks_returns answers h.store.stores h.store.sized hbuffer h.fits fault)

theorem queueChunks (h : Intact kind st es) (answers : Nat → QueueAnswer) :
    Intact kind (st.queueChunks answers).state (es ++ (st.queueChunks answers).effects) := by
  have hstore : StoreInv kind (st.queueChunks answers).state _ := h.store.queueChunks
  rcases (st.queueChunks_cases answers).2 with ⟨hstate, _⟩ | ⟨_, x, hstate⟩
  · rw [hstate]
    exact h.quiet (st.queueChunks_quiet answers)
  · rw [hstate] at hstore ⊢
    exact of_empty hstore rfl h.chunk

theorem start {cycleMatch : Option (UInt16 × UInt16)} {syncCode tags : UInt32} {env : StartEnv}
    (h : Intact kind st es) :
    let o := st.start cycleMatch syncCode tags env
    Intact kind o.state (es ++ o.effects) ∧ o.ret.Confined := by
  have hq := h.queueChunks env.queueIso
  rcases st.start_cases cycleMatch syncCode tags env with
    hr | ⟨_, ⟨_, ho⟩ | ⟨_, ⟨errno, _, ho⟩ | ⟨_, ho⟩⟩⟩
  · exact ⟨h.refused hr, hr.ret.confined⟩
  · simp only [ho]
    exact ⟨hq, h.queueChunks_confined env.queueIso⟩
  · simp only [ho, ← List.append_assoc]
    exact ⟨hq.quiet (by simp [Effect.Quiet]), Ret.IsFalse.confined trivial⟩
  · simp only [ho, ← List.append_assoc]
    have hquiet : ∀ e ∈ [Effect.startIso (st.startArg cycleMatch syncCode tags) true], e.Quiet := by
      simp [Effect.Quiet]
    exact ⟨hq.frame (hq.store.frame rfl rfl rfl rfl rfl rfl rfl hquiet) rfl rfl rfl hquiet,
      Ret.confined_success⟩

theorem stop (h : Intact kind st es) : Intact kind st.stop.state (es ++ st.stop.effects) := by
  have hstore : StoreInv kind st.stop.state (es ++ st.stop.effects) := h.store.stop
  cases hrun : st.running with
  | false =>
    rw [FwIsoCtxState.stop_of_not_running hrun, List.append_nil]
    exact h
  | true =>
    rw [FwIsoCtxState.stop_of_running hrun] at hstore ⊢
    exact of_empty hstore rfl h.chunk

end Intact

/-! ### Operations of the interface -/

section Kind

variable {π : Type} [FwIsoCtx π] {kind : FwIsoCtxMode} {c : Ctx π}

def IntactKept (kind : FwIsoCtxMode) (c : Ctx π) : Prop :=
  UnmappedEmpty c.trace → Intact kind (FwIsoCtx.state c.priv) c.effects

def Faultless (kind : FwIsoCtxMode) (ret : Ret) (c : Ctx π) : Prop :=
  IntactKept kind c ∧ (UnmappedEmpty c.trace → ret.Confined)

def KeepsIntact (kind : FwIsoCtxMode) (self : π) (o : Out π) : Prop :=
  ∀ es, Intact kind (FwIsoCtx.state self) es →
    Intact kind (FwIsoCtx.state o.state) (es ++ o.effects) ∧ o.ret.Confined

theorem Refused.keepsIntact {self : π} {o : Out π} (hr : Refused self o) :
    KeepsIntact kind self o := by
  intro es h
  rw [hr.state, hr.effects, List.append_nil]
  exact ⟨h, hr.ret.confined⟩

theorem keepsIntact_stop (self : π) :
    KeepsIntact kind self (Ctx.onState FwIsoCtxState.stop self) := by
  intro es h
  simp only [Ctx.onState, Out.map_state, Out.map_effects, Out.map_ret, FwIsoCtx.state_setState]
  refine ⟨h.stop, ?_⟩
  rw [FwIsoCtxState.stop]
  split <;> exact Ret.confined_success

namespace IntactKept

theorem perform (h : IntactKept kind c) {f : π → Out π} (hf : KeepsIntact kind c.priv (f c.priv)) :
    (c.perform f).Keeps (IntactKept kind) (Faultless kind) := by
  refine ⟨fun htrace => ?_, fun htrace => (hf c.effects (h htrace.of_append)).2⟩
  rw [Ctx.after_effects]
  exact (hf c.effects (h htrace.of_append)).1

theorem success (h : IntactKept kind c) : Faultless kind .success c :=
  ⟨h, fun _ => Ret.confined_success⟩

theorem isFalse (h : IntactKept kind c) {ret : Ret} (hret : ret.IsFalse) : Faultless kind ret c :=
  ⟨h, fun _ => hret.confined⟩

theorem note {e : Effect} (he : e.Quiet) (h : IntactKept kind c) : IntactKept kind (c.note e) := by
  intro htrace
  rw [Ctx.note_effects]
  exact (h htrace.of_append).quiet (by simpa using he)

theorem withPriv (h : IntactKept kind c) {self : π}
    (hself : FwIsoCtx.state self = FwIsoCtx.state c.priv) :
    IntactKept kind { c with priv := self } := by
  intro htrace
  show Intact kind (FwIsoCtx.state self) c.effects
  rw [hself]
  exact h htrace

theorem afterStop (h : IntactKept kind c) :
    IntactKept kind (c.after (Ctx.onState FwIsoCtxState.stop c.priv)) :=
  (h.perform (keepsIntact_stop c.priv)).1

theorem stop (h : IntactKept kind c) : c.stop.Keeps (IntactKept kind) (Faultless kind) := by
  simp only [Ctx.stop]
  split
  · exact ⟨h.afterStop.note trivial, fun c' hc' => hc'.success⟩
  · exact h.afterStop.success

theorem afterUnmap (hends : EndsMapping π) (h : IntactKept kind c) :
    IntactKept kind (c.after (FwIsoCtx.unmapBuffer c.priv)) ∧
      (FwIsoCtx.state (c.after (FwIsoCtx.unmapBuffer c.priv)).priv).addr = .null := by
  refine ⟨fun htrace => ?_, ?_⟩
  · rw [Ctx.after_effects, Ctx.after_priv, hends.unmap_state, hends.unmap_effects]
    refine (h htrace.of_append).unmapBuffer fun haddr => ?_
    refine htrace (.munmap (FwIsoCtx.state c.priv).bytesPerBuffer, c.priv)
      (List.mem_append_right _ (List.mem_map.mpr ⟨_, ?_, rfl⟩)) rfl
    rw [hends.unmap_effects, FwIsoCtxState.unmapBuffer, if_neg haddr]
    exact List.mem_singleton.mpr rfl
  · rw [Ctx.after_priv, hends.unmap_state]
    rfl

theorem unmapBuffer (hends : EndsMapping π)
    (hret : ∀ p : π, (FwIsoCtx.unmapBuffer p).ret = .success) (h : IntactKept kind c) :
    c.unmapBuffer.Keeps (IntactKept kind) (Faultless kind) := by
  refine Act.Keeps.bind (Q := Faultless kind) (fun _ c hc => ?_) h.stop
  rw [Ctx.perform, hret]
  exact (hc.1.afterUnmap hends).1.success

theorem release (hends : EndsMapping π)
    (hret : ∀ p : π, (FwIsoCtx.release p).ret = .success) (h : IntactKept kind c) :
    c.release.Keeps (IntactKept kind) (Faultless kind) := by
  have hunmapped : c.unmapBuffer.Keeps (IntactKept kind) fun _ c =>
      IntactKept kind c ∧ (FwIsoCtx.state c.priv).addr = .null :=
    Ctx.unmapBuffer_keeps (fun _ hc => hc.afterStop) (fun _ hc => hc.note trivial)
      (fun _ hc => hc.afterUnmap hends) h
  refine Act.Keeps.bind (fun _ c hc => ?_) hunmapped
  rw [Ctx.perform, hret]
  refine success fun htrace => ?_
  rw [Ctx.after_effects, Ctx.after_priv, hends.release_state, hends.release_effects]
  exact (hc.1 htrace.of_append).release hc.2

theorem dispatch {w : Wakeup} (h : IntactKept kind c) (hevent : ∀ ev env, w = .event ev env →
      (FwIsoCtx.handleEvent ev env c).Keeps (IntactKept kind) (Faultless kind)) :
    (c.dispatch w).Keeps (IntactKept kind) (Faultless kind) := by
  cases w with
  | ioErr => exact h.success
  | again => exact h.success
  | readError errno => exact h.stop
  | event ev env =>
    refine Act.Keeps.bind (fun ret c hc => ?_) (hevent ev env rfl)
    cases ret with
    | success => exact hc
    | crashed fault => exact hc
    | failure error => exact hc.1.stop
    | rejected => exact hc.1.stop

end IntactKept

/-- **No answer is a fault** where every operation keeps the store intact, and nothing divides by
zero: before the context is set up, and from then on. -/
theorem answer_ne_crashed {ο : Type} {exec : ο → Ctx π → Act (Ctx π) Ret} {g : ο → Ctx π → Prop}
    {V J : Ctx π → Prop} {U : π → Prop} {R : Ret → Ctx π → Prop}
    (hR : ∀ ret c, R ret c → Faultless kind ret c ∧ J c)
    (hkeeps : ∀ op c, g op c → J c → (exec op c).Keeps J R)
    (hbefore : ∀ op c, g op c → V c → Ctx.AtOnce (fun c => V c ∨ U c.priv) (exec op c))
    (hafter : ∀ op c, g op c → U c.priv → (exec op c).Keeps (fun c => U c.priv) (Undivided U))
    (hJ : J c) (hV : V c) {ms : List (Move ο)} {m : Move ο}
    (hg : Guarded exec g ⟨c, []⟩ (ms ++ [m]))
    (htrace : UnmappedEmpty (step exec (run exec ⟨c, []⟩ ms) m).state.trace) (fault : Fault) :
    answer exec (run exec ⟨c, []⟩ ms) m ≠ some (.crashed fault) := by
  intro ha
  have hanswer := answer_of_guarded (fun ret c h => (hR ret c h).2) hkeeps hJ hg ha
  -- all that is left is a division, and nothing divides by zero
  obtain rfl := (hR _ _ hanswer).1.2 htrace fault rfl
  exact answer_of_phases (P := (· ≠ .crashed .divByZero)) (fun _ _ h => h) hbefore hafter hV hg ha
    rfl

end Kind

/-! ### IT contexts -/

namespace FwIsoIt

/-- What the application has to keep to: sizes whose product is a guint, lengths that fit into the
control word, payloads that end below `2^32` as the writer counts, and no packet as long as a failed
mapping passes for one. -/
def Op.Bounded : Op → Ctx FwIsoIt → Prop
  | .mapBuffer bytes payloads _ _, _ => bytes.toNat * payloads.toNat < 4294967296
  | .registerPacket _ _ header payload _, c =>
    (header.length.toNat ≤ 255 ∧ payload.length.toNat < 16777216) ∧
      c.priv.offset.toNat + payload.length.toNat < 4294967296 ∧ c.priv.state.addr ≠ .mapFailed
  | _, _ => True

def Op.Careful (op : Op) (c : Ctx FwIsoIt) : Prop := op.Divides c ∧ op.Bounded c

theorem keepsIntact_registerPacket (self : FwIsoIt) (tags syncCode : UInt32)
    {header payload : ArrayArg} (irq : Bool) (hheader : header.length.toNat ≤ 255)
    (hpayload : payload.length.toNat < 16777216)
    (hoffset : self.offset.toNat + payload.length.toNat < 4294967296)
    (haddr : self.state.addr ≠ .mapFailed) :
    KeepsIntact .it self (self.registerPacket tags syncCode header payload irq) := by
  rcases self.registerPacket_cases tags syncCode header payload irq with hr | ⟨⟨hacc, hacc'⟩, hout⟩
  · exact hr.keepsIntact
  intro es h
  set skip : Bool := decide (header.length = 0 ∧ payload.length = 0) with hskip
  have hskip' : skip = true → header.length = 0 := fun hs => (of_decide_eq_true hs).1
  have hlen (hmode : self.state.mode = .it) :
      (self.state.datum skip tags syncCode header payload.length irq).header.length =
        header.length.toNat := length_header_datum hmode hskip' hacc
  have hstore : StoreInv .it
      (self.state.registerChunk skip tags syncCode header payload.length irq).state
      (es ++ (self.state.registerChunk skip tags syncCode header payload.length irq).effects) :=
    StoreInv.registerChunk h.store hlen fun hmode hchunk =>
      sized_datum hmode hchunk (hlen hmode) hheader hpayload
  obtain ⟨hintact, hret⟩ := Intact.registerChunk h hstore
  rcases hout with ⟨_, ho⟩ | ⟨hsuccess, ⟨hnone, ho⟩ | ⟨self', hw, ho⟩⟩
  · rw [ho]
    exact ⟨hintact, hret⟩
  · -- a chunk has been registered, so there is a mapping to write the payload to
    obtain ⟨id, hid⟩ : ∃ id, self.state.addr = .mapped id := by
      rcases h.store.registerChunk_cases skip tags syncCode header payload.length irq with
        hr | ⟨⟨_, _, _, hnull⟩, _⟩
      · exact absurd hsuccess hr.ret.ne_success
      · cases hmapped : self.state.addr with
        | null => exact absurd hmapped hnull
        | mapFailed => exact absurd hmapped haddr
        | mapped id => exact ⟨id, rfl⟩
    have hsame := SameSetup.registerChunk self.state skip tags syncCode header payload.length irq
    obtain ⟨_, hw⟩ := (writePayload_isSome_iff { self with state := (self.state.registerChunk skip
      tags syncCode header payload.length irq).state } (hsame.addr.trans hid)
      (length_bytes_of_accepts hacc')).mpr (.inr hoffset)
    cases hnone.symm.trans hw
  · rw [ho]
    refine ⟨?_, Ret.confined_success⟩
    show Intact .it self'.state _
    rw [writePayload_state hw, ← List.append_assoc]
    exact hintact.quiet (by simp [Effect.Quiet])

theorem handleEvent_faultless (ev : CdevEvent) (env : EventEnv) {c : Ctx FwIsoIt}
    (h : IntactKept .it c) :
    (handleEvent ev env c).Keeps (IntactKept .it) (Faultless .it) := by
  cases ev with
  | isoInterrupt ev =>
    refine ⟨h.note trivial, fun c' hc' => hc'.perform fun es hes => ?_⟩
    exact ⟨Intact.queueChunks hes env.queueIso, Intact.queueChunks_confined hes env.queueIso⟩
  | isoInterruptMc ev => exact h.isFalse trivial
  | other => exact h.isFalse trivial

theorem exec_faultless {op : Op} {c : Ctx FwIsoIt} (hop : op.Bounded c) (h : IntactKept .it c) :
    (exec op c).Keeps (IntactKept .it) (Faultless .it) := by
  cases op with
  | allocate path scode channel headerSize env =>
    refine h.perform (f := (·.allocate path scode channel headerSize env)) ?_
    simp only [allocate]
    split
    · exact Refused.keepsIntact ⟨rfl, rfl, trivial⟩
    · exact fun es hes => Intact.allocate hes
  | mapBuffer bytes payloads env mem =>
    exact h.perform (f := (·.mapBuffer bytes payloads env mem))
      fun es hes => Intact.mapBuffer hes hop
  | registerPacket tags syncCode header payload irq =>
    exact h.perform (f := (·.registerPacket tags syncCode header payload irq))
      (keepsIntact_registerPacket c.priv tags syncCode irq hop.1.1 hop.1.2 hop.2.1 hop.2.2)
  | start cycleMatch env =>
    refine h.perform (f := (·.start cycleMatch env)) ?_
    simp only [start]
    split
    · exact Refused.keepsIntact ⟨rfl, rfl, trivial⟩
    · exact fun es hes => Intact.start hes
  | stop => exact h.stop
  | unmapBuffer => exact h.unmapBuffer endsMapping fun _ => rfl
  | release => exact h.release endsMapping fun _ => rfl
  | dispatch w => exact h.dispatch fun ev env _ => handleEvent_faultless ev env h

end FwIsoIt

/-! ### Single-channel IR contexts -/

namespace FwIsoIrSingle

/-- What the application has to keep to: sizes whose product is a guint, and payloads of packets of
the event, or of none that the check lets pass. -/
def Op.Bounded : Op → Ctx FwIsoIrSingle → Prop
  | .mapBuffer bytes payloads _, _ => bytes.toNat * payloads.toNat < 4294967296
  | .getPayload index, c => ∀ ev, c.priv.ev = some ev →
    index < ev.headerLength / c.priv.headerSize ∨ ev.headerLength < index * c.priv.headerSize
  | _, _ => True

def Op.Careful (op : Op) (c : Ctx FwIsoIrSingle) : Prop := op.Divides c ∧ op.Bounded c

/-- All that can go wrong with the payload of a packet of the event is a division by zero. -/
theorem getPayload_confined {c : Ctx FwIsoIrSingle} (h : Grounded c.priv) {index : UInt32}
    (hop : (Op.getPayload index).Bounded c) : (c.priv.getPayload index).ret.Confined := by
  intro fault hfault
  rw [Payload.ret_eq_crashed, getPayload] at hfault
  split at hfault
  · cases hfault
  next ev hev =>
  split at hfault
  · cases hfault
  next haccepts =>
  have hindex := (hop ev hev).resolve_right haccepts
  have hleast : 4 ≤ c.priv.headerSize := by
    refine h.sensible.resolve_left fun hzero => ?_
    rw [hzero, UInt32.div_zero] at hindex
    exact UInt32.not_lt_zero hindex
  simp only [if_neg (header_inside hleast hindex).2] at hfault
  split at hfault
  · exact (Payload.crashed.inj hfault).symm
  · cases hfault

theorem keepsIntact_finishEvent (self : FwIsoIrSingle) (count : UInt32)
    (answers : Nat → QueueAnswer) :
    KeepsIntact .irSingle self (finishEvent count answers self) := by
  intro es hes
  simp only [finishEvent]
  split
  · rw [List.append_nil]
    exact ⟨hes, fun _ hfault => (Ret.crashed.inj hfault).symm⟩
  · exact ⟨Intact.queueChunks hes answers, Intact.queueChunks_confined hes answers⟩

theorem handleEvent_faultless (ev : CdevEvent) (env : EventEnv) {c : Ctx FwIsoIrSingle}
    (h : IntactKept .irSingle c) :
    (handleEvent ev env c).Keeps (IntactKept .irSingle) (Faultless .irSingle) := by
  cases ev with
  | isoInterrupt ev =>
    simp only [handleEvent]
    split
    · exact ⟨h, fun _ _ hfault => (Ret.crashed.inj hfault).symm⟩
    · exact ⟨IntactKept.note trivial (h.withPriv rfl), fun c' hc' =>
        hc'.perform (keepsIntact_finishEvent c'.priv _ env.queueIso)⟩
  | isoInterruptMc ev => exact h.isFalse trivial
  | other => exact h.isFalse trivial

theorem exec_faultless {op : Op} {c : Ctx FwIsoIrSingle} (hop : op.Bounded c)
    (hground : Grounded c.priv) (h : IntactKept .irSingle c) :
    (exec op c).Keeps (IntactKept .irSingle) (Faultless .irSingle) := by
  cases op with
  | allocate path channel headerSize env =>
    refine h.perform (f := (·.allocate path channel headerSize env)) ?_
    simp only [allocate]
    split
    · exact Refused.keepsIntact ⟨rfl, rfl, trivial⟩
    split
    · exact Refused.keepsIntact ⟨rfl, rfl, trivial⟩
    · exact fun es hes => Intact.allocate hes
  | mapBuffer bytes payloads env =>
    exact h.perform (f := (·.mapBuffer bytes payloads env))
      fun es hes => Intact.mapBuffer hes hop
  | registerPacket irq =>
    exact h.perform (f := (·.registerPacket irq))
      fun es hes => Intact.registerChunk hes (hes.store.registerIrChunk (by decide))
  | start cycleMatch syncCode tags env =>
    refine h.perform (f := (·.start cycleMatch syncCode tags env)) ?_
    simp only [start]
    split
    · exact Refused.keepsIntact ⟨rfl, rfl, trivial⟩
    split
    · exact Refused.keepsIntact ⟨rfl, rfl, trivial⟩
    · exact fun es hes => Intact.start (show Intact .irSingle c.priv.state es from hes)
  | getPayload index =>
    rw [exec_getPayload]
    exact ⟨h, fun _ => getPayload_confined hground hop⟩
  | stop => exact h.stop
  | unmapBuffer => exact h.unmapBuffer endsMapping fun _ => rfl
  | release => exact h.release endsMapping fun _ => rfl
  | dispatch w => exact h.dispatch fun ev env _ => handleEvent_faultless ev env h

end FwIsoIrSingle

/-! ### Multiple-channel IR contexts -/

namespace FwIsoIrMultiple

/-- What the application and the hardware have to keep to: sizes whose product is a guint, for each
event a mapped buffer and an array with room for its packets, and for each payload an event under
the mapping there is, and a packet that can be put together. -/
def Op.Bounded : Op → Ctx FwIsoIrMultiple → Prop
  | .mapBuffer bytes chunks _, _ => ((bytes + 3) / 4 * 4).toNat * chunks.toNat < 4294967296
  | .getPayload index, c => c.priv.ctxPayloadCount ≤ index ∨ Fresh c ∧
    ∀ array, c.priv.ctxPayloads = some array → c.priv.Assembles (array.entries index.toNat)
  | .dispatch (.event (.isoInterruptMc ev) env), c => (∃ id, c.priv.state.addr = .mapped id) ∧
    ({ c.priv with mem := env.buffer }.eventStores ev.completed).length ≤ c.priv.capacity
  | _, _ => True

def Op.Careful (op : Op) (c : Ctx FwIsoIrMultiple) : Prop :=
  op.Divides c ∧ op.Bounded c ∧ op.Pads c ∧ op.MapsOnce c

/-- What is known of a context beside its store: where parsing starts, what has been recorded, and
what has been allocated for the mapping. -/
structure Sound (c : Ctx FwIsoIrMultiple) : Prop where
  aligned : Aligned c.priv
  backed : Backed c
  furnished : Furnished c.priv

theorem Sound.exec {op : Op} {c : Ctx FwIsoIrMultiple} (hpads : op.Pads c) (hmaps : op.MapsOnce c)
    (h : Sound c) : (exec op c).Keeps Sound fun _ => Sound := by
  have hkeeps := ((Aligned.exec op c hpads h.aligned).and (h.backed.exec op)).and
    (Furnished.exec op c hmaps h.furnished)
  refine hkeeps.congr (fun c => ⟨fun hc => ⟨hc.1.1, hc.1.2, hc.2⟩, fun hc => ?_⟩)
    fun _ _ hc => ⟨hc.1.1, hc.1.2, hc.2⟩
  exact ⟨⟨hc.aligned, hc.backed⟩, hc.furnished⟩

theorem getPayload_fault {self : FwIsoIrMultiple} {index : UInt32} {fault : Fault}
    (hfault : (self.getPayload index).2 = .crashed fault) : fault = .outOfBounds := by
  simp only [getPayload] at hfault
  repeat' split at hfault
  all_goals first | exact (Payload.crashed.inj hfault).symm | cases hfault

/-- **A payload is put together inside its block.** -/
theorem getPayload_ne_crashed {c : Ctx FwIsoIrMultiple} (h : Sound c) {index : UInt32}
    (hop : (Op.getPayload index).Bounded c) (fault : Fault) :
    (c.priv.getPayload index).2 ≠ .crashed fault := by
  intro hfault
  rcases hop with hbeyond | ⟨hfresh, hassembles⟩
  · have hnot := UInt32.not_lt.mpr hbeyond
    simp only [getPayload, hnot, not_false_eq_true, if_true, if_false] at hfault
    split at hfault <;> cases hfault
  · by_cases hindex : index < c.priv.ctxPayloadCount
    · obtain ⟨id, array, haddr, harray, hroom, _, hoffset⟩ := h.backed hfresh index hindex
      obtain ⟨_, block, hblock, hsize⟩ := h.furnished.mapped id haddr
      obtain rfl := getPayload_fault hfault
      have hlong := (getPayload_crashed_iff harray hindex hroom haddr hblock).mp hfault
      have hcopied := (copied_le_iff hoffset).mpr (hassembles array harray)
      omega
    · simp only [getPayload, hindex, not_false_eq_true, if_true, if_false] at hfault
      split at hfault <;> cases hfault

variable {self : FwIsoIrMultiple} {accumEnd : UInt32}

theorem quadletAt_inside {id : Nat} (hid : self.state.addr = .mapped id) {offset : UInt32}
    (hin : offset.toNat + 4 ≤ self.state.bytesPerBuffer.toNat) :
    self.quadletAt offset = some (self.mem.le32At offset.toNat) := by
  rw [quadletAt, hid, self.state.readFrame_fst _ (by omega)]
  exact if_pos hin

/-- **The loop reads and stores inside**, where the packets are padded and the array has room for
them. -/
theorem parse_inside (h : Aligned self) {id : Nat} (hid : self.state.addr = .mapped id)
    (hbuffer : self.state.bytesPerBuffer ≠ 0) : ∀ (fuel : Nat) {accumLength : UInt32} {n : Nat},
    accumLength.toNat % 4 = 0 →
    (∀ packet ∈ self.stores accumEnd fuel accumLength, packet.length.toNat % 4 = 0) →
    n + (self.stores accumEnd fuel accumLength).length ≤ self.capacity →
    self.parse accumEnd fuel accumLength n ≠ .error .outOfBounds := by
  intro fuel
  induction fuel with
  | zero => exact fun _ _ _ h => by cases h
  | succ fuel ih =>
    intro accumLength n hquad hpadded hroom hfault
    have hvisited : ∀ packet ∈ self.visited accumEnd (fuel + 1) accumLength, _ :=
      h.visited hbuffer (fuel + 1) hquad hpadded
    rw [parse] at hfault
    simp only [FwIsoIrMultiple.visited, stores, if_neg hbuffer] at hvisited hpadded hroom hfault
    split at hfault
    · cases hfault
    next hlong =>
    simp only [if_neg hlong] at hvisited hpadded hroom
    have hread : self.quadletAt ((self.prevOffset + accumLength) % self.state.bytesPerBuffer) = _ :=
      quadletAt_inside hid (hvisited (self.packetAt accumLength) List.mem_cons_self).1
    have hlength : ieee1394IsoHeaderToDataLength (self.mem.le32At ((self.prevOffset +
        accumLength) % self.state.bytesPerBuffer).toNat) + 8 =
      (self.packetAt accumLength).length := rfl
    simp only [hread] at hfault
    rw [hlength] at hfault
    split at hfault
    · cases hfault
    next hcut =>
    rw [if_neg hcut] at hpadded hroom
    rw [List.length_cons] at hroom
    rw [if_neg (by omega)] at hfault
    split at hfault
    next hrest =>
      cases hfault
      have hpacket := hpadded _ List.mem_cons_self
      have hsum := toNat_add_mod_four accumLength (self.packetAt accumLength).length
      exact ih (by omega) (fun p hp => hpadded p (List.mem_cons_of_mem _ hp)) (by omega) hrest
    · cases hfault

theorem parseEvent_fault (h : Aligned self) {id : Nat} (hid : self.state.addr = .mapped id)
    {completed : UInt32} (hpadded : self.Padded completed)
    (hroom : (self.eventStores completed).length ≤ self.capacity) {fault : Fault}
    (hfault : self.parseEvent completed = .error fault) : fault = .divByZero := by
  by_cases hbuffer : self.state.bytesPerBuffer = 0
  · rw [parseEvent, parse] at hfault
    simp only [hbuffer, if_true] at hfault
    split at hfault
    · cases hfault
    · exact (Except.error.inj hfault).symm
  · obtain rfl := parse_fault hbuffer _ (Nat.zero_le _) (Nat.lt_succ_self _) hfault
    exact absurd hfault (parse_inside h hid hbuffer _ rfl hpadded (by rwa [Nat.zero_add]))

theorem keepsIntact_registerChunks : ∀ (n : Nat) (self : FwIsoIrMultiple),
    KeepsIntact .irMultiple self (registerChunks n self) := by
  intro n
  induction n with
  | zero =>
    intro self es h
    simp only [registerChunks, List.append_nil]
    exact ⟨h, Ret.confined_success⟩
  | succ n ih =>
    intro self es h
    have hfirst : Intact .irMultiple self.registerChunk.state.state
        (es ++ self.registerChunk.effects) ∧ self.registerChunk.ret.Confined :=
      Intact.registerChunk h (StoreInv.registerIrChunk h.store (by decide))
    simp only [registerChunks]
    split
    · rw [← List.append_assoc]
      exact ih _ _ hfirst.1
    · exact hfirst

theorem keepsIntact_finishEvent (self : FwIsoIrMultiple)
    (bytesPerChunk bytesPerBuffer accumLength : UInt32) (answers : Nat → QueueAnswer) :
    KeepsIntact .irMultiple self
      (finishEvent bytesPerChunk bytesPerBuffer accumLength answers self) := by
  intro es h
  simp only [finishEvent]
  split
  · rw [List.append_nil]
    exact ⟨h, fun _ hfault => (Ret.crashed.inj hfault).symm⟩
  have hreg := keepsIntact_registerChunks
    (((self.prevOffset + accumLength) / bytesPerChunk).toNat -
      (self.prevOffset / bytesPerChunk).toNat) self es h
  split
  · split
    · exact ⟨hreg.1, fun _ hfault => (Ret.crashed.inj hfault).symm⟩
    · rw [← List.append_assoc]
      exact ⟨Intact.queueChunks hreg.1 answers, Intact.queueChunks_confined hreg.1 answers⟩
  · exact hreg

theorem keepsIntact_start (self : FwIsoIrMultiple) (cycleMatch : Option (UInt16 × UInt16))
    (syncCode tags chunksPerIrq : UInt32) (env : StartEnv) :
    KeepsIntact .irMultiple self (self.start cycleMatch syncCode tags chunksPerIrq env) := by
  simp only [start]
  split
  · exact Refused.keepsIntact ⟨rfl, rfl, trivial⟩
  split
  · exact Refused.keepsIntact ⟨rfl, rfl, trivial⟩
  split
  · exact Refused.keepsIntact ⟨rfl, rfl, trivial⟩
  intro es h
  have hreg := keepsIntact_registerChunks self.state.chunksPerBuffer.toNat
    { self with chunksPerIrq := chunksPerIrq, accumulatedChunkCount := 0 } es h
  split
  · rw [← List.append_assoc]
    exact Intact.start hreg.1
  · exact hreg

theorem keepsIntact_mapBuffer (self : FwIsoIrMultiple) {bytes chunks : UInt32}
    (env : MapMultipleEnv)
    (hproduct : ((bytes + 3) / 4 * 4).toNat * chunks.toNat < 4294967296) :
    KeepsIntact .irMultiple self (self.mapBuffer bytes chunks env) := by
  obtain ⟨hstate, hret, heffects⟩ := self.mapBuffer_state bytes chunks env
  intro es h
  rw [hret, heffects, show FwIsoCtx.state (self.mapBuffer bytes chunks env).state = _ from hstate]
  exact Intact.mapBuffer h hproduct

theorem handleEvent_faultless (ev : CdevEvent) (env : EventEnv) {c : Ctx FwIsoIrMultiple}
    (hop : (Op.dispatch (.event ev env)).Bounded c) (hpads : (Op.dispatch (.event ev env)).Pads c)
    (halign : Aligned c.priv) (h : IntactKept .irMultiple c) :
    (handleEvent ev env c).Keeps (IntactKept .irMultiple) (Faultless .irMultiple) := by
  cases ev with
  | isoInterrupt ev => exact h.isFalse trivial
  | isoInterruptMc ev =>
    obtain ⟨⟨id, hid⟩, hroom⟩ := hop
    have hmem : Aligned { c.priv with mem := env.buffer } :=
      halign.congr (halign.ground.congr halign.ground.state rfl rfl rfl) rfl
    simp only [handleEvent]
    split
    next fault hfault =>
      refine ⟨h, fun _ fault' hret => ?_⟩
      obtain rfl := Ret.crashed.inj hret
      exact parseEvent_fault hmem hid hpads hroom hfault
    · exact ⟨IntactKept.note trivial (h.withPriv rfl), fun c' hc' =>
        hc'.perform (keepsIntact_finishEvent c'.priv _ _ _ env.queueIso)⟩
  | other => exact h.isFalse trivial

theorem allocate_faultless (path : Option String) (channels : List UInt8) (env : AllocateEnv)
    (setIsoChannels : Except Nat UInt64) (bigEndian : Bool) {c : Ctx FwIsoIrMultiple}
    (h : IntactKept .irMultiple c) :
    (allocate path channels env setIsoChannels bigEndian c).Keeps (IntactKept .irMultiple)
      (Faultless .irMultiple) := by
  simp only [allocate]
  split
  · exact h.isFalse trivial
  split
  · exact h.isFalse trivial
  refine Act.Keeps.bind (fun ret c hc => ?_)
    (h.perform (f := allocateState path env) fun es hes => Intact.allocate hes)
  cases ret with
  | success =>
    have hnote : IntactKept .irMultiple (c.note (.setIsoChannels (channelMask channels))) :=
      hc.1.note trivial
    have hrelease := hnote.release endsMapping fun _ => rfl
    cases setIsoChannels with
    | error errno => exact Act.Keeps.bind (fun _ _ hc => hc.1.isFalse trivial) hrelease
    | ok mask =>
      simp only
      split
      · exact Act.Keeps.bind (fun _ _ hc => hc.1.isFalse trivial) hrelease
      · exact (hnote.withPriv rfl).success
  | failure error => exact hc
  | rejected => exact hc
  | crashed fault => exact hc

theorem exec_faultless {op : Op} {c : Ctx FwIsoIrMultiple} (hop : op.Bounded c)
    (hpads : op.Pads c) (hsound : Sound c) (h : IntactKept .irMultiple c) :
    (exec op c).Keeps (IntactKept .irMultiple) (Faultless .irMultiple) := by
  cases op with
  | allocate path channels env set bigEndian =>
    exact allocate_faultless path channels env set bigEndian h
  | mapBuffer bytes chunks env =>
    exact h.perform (f := (·.mapBuffer bytes chunks env)) (keepsIntact_mapBuffer c.priv env hop)
  | start cycleMatch syncCode tags irq env =>
    exact h.perform (f := (·.start cycleMatch syncCode tags irq env))
      (keepsIntact_start c.priv cycleMatch syncCode tags irq env)
  | getPayload index =>
    refine h.perform (f := askPayload index) fun es hes => ?_
    rw [show FwIsoCtx.state (askPayload index c.priv).state = _ from
      c.priv.state_getPayload index, askPayload, List.append_nil]
    exact ⟨hes, fun fault hfault =>
      absurd (Payload.ret_eq_crashed.mp hfault) (getPayload_ne_crashed hsound hop fault)⟩
  | stop => exact h.stop
  | unmapBuffer => exact h.unmapBuffer endsMapping fun _ => rfl
  | release => exact h.release endsMapping fun _ => rfl
  | dispatch w =>
    refine h.dispatch fun ev env hw => ?_
    subst hw
    exact handleEvent_faultless ev env hop hpads hsound.aligned h

end FwIsoIrMultiple

/-! ### Runs -/

/-- **No operation ends in a fault**, in any run of any kind of context whose operations find what
they rely on, and in which no buffer is unmapped while there is something in the store. -/
theorem faultless_of_run (its : List (Move FwIsoIt.Op)) (it : Move FwIsoIt.Op)
    (irSingles : List (Move FwIsoIrSingle.Op)) (irSingle : Move FwIsoIrSingle.Op)
    (irMultiples : List (Move FwIsoIrMultiple.Op)) (irMultiple : Move FwIsoIrMultiple.Op)
    (fault : Fault) :
    (Guarded FwIsoIt.exec FwIsoIt.Op.Careful ⟨⟨.new, []⟩, []⟩ (its ++ [it]) →
      let c := run FwIsoIt.exec ⟨⟨.new, []⟩, []⟩ its
      UnmappedEmpty (step FwIsoIt.exec c it).state.trace →
        answer FwIsoIt.exec c it ≠ some (.crashed fault)) ∧
    (Guarded FwIsoIrSingle.exec FwIsoIrSingle.Op.Careful ⟨⟨.new, []⟩, []⟩
        (irSingles ++ [irSingle]) →
      let c := run FwIsoIrSingle.exec ⟨⟨.new, []⟩, []⟩ irSingles
      UnmappedEmpty (step FwIsoIrSingle.exec c irSingle).state.trace →
        answer FwIsoIrSingle.exec c irSingle ≠ some (.crashed fault)) ∧
    (Guarded FwIsoIrMultiple.exec FwIsoIrMultiple.Op.Careful ⟨⟨.new, []⟩, []⟩
        (irMultiples ++ [irMultiple]) →
      let c := run FwIsoIrMultiple.exec ⟨⟨.new, []⟩, []⟩ irMultiples
      UnmappedEmpty (step FwIsoIrMultiple.exec c irMultiple).state.trace →
        answer FwIsoIrMultiple.exec c irMultiple ≠ some (.crashed fault)) := by
  refine ⟨fun hg htrace => ?_, fun hg htrace => ?_, fun hg htrace => ?_⟩
  · have hnew : Unstarted (⟨.new, []⟩ : Ctx FwIsoIt) :=
      ⟨⟨.inl rfl, rfl, rfl⟩, fun _ => List.not_mem_nil⟩
    exact answer_ne_crashed (fun _ _ h => ⟨h, h.1⟩)
      (fun _ _ hop h => FwIsoIt.exec_faultless hop.2 h)
      (fun _ _ hop h => FwIsoIt.exec_atOnce hop.1 h)
      (fun _ _ hop h => FwIsoIt.exec_undivided hop.1 h) (fun _ => Intact.init) hnew hg htrace fault
  · have hnew : FwIsoIrSingle.Fresh ⟨.new, []⟩ :=
      ⟨⟨⟨.inl rfl, rfl, rfl⟩, fun _ => List.not_mem_nil⟩, rfl, fun hfd => absurd hfd (by decide)⟩
    have hkeeps (op : FwIsoIrSingle.Op) (c : Ctx FwIsoIrSingle) (hop : op.Careful c)
        (h : IntactKept .irSingle c ∧ FwIsoIrSingle.Grounded c.priv) :
        (FwIsoIrSingle.exec op c).Keeps
          (fun c => IntactKept .irSingle c ∧ FwIsoIrSingle.Grounded c.priv)
          fun ret c => Faultless .irSingle ret c ∧ FwIsoIrSingle.Grounded c.priv :=
      (FwIsoIrSingle.exec_faultless hop.2 h.2 h.1).and (FwIsoIrSingle.Grounded.exec op c h.2)
    exact answer_ne_crashed (fun _ _ h => ⟨h.1, h.1.1, h.2⟩) hkeeps
      (fun _ _ hop h => FwIsoIrSingle.exec_atOnce hop.1 h)
      (fun _ _ hop h => FwIsoIrSingle.exec_undivided hop.1 h)
      ⟨fun _ => Intact.init, .init⟩ hnew hg htrace fault
  · have hnew : Unstarted (⟨.new, []⟩ : Ctx FwIsoIrMultiple) :=
      ⟨⟨.inl rfl, rfl, rfl⟩, fun _ => List.not_mem_nil⟩
    -- what parsing and the payloads rely on is an invariant of its own
    have hkeeps (op : FwIsoIrMultiple.Op) (c : Ctx FwIsoIrMultiple) (hop : op.Careful c)
        (h : IntactKept .irMultiple c ∧ FwIsoIrMultiple.Sound c) : (FwIsoIrMultiple.exec op c).Keeps
          (fun c => IntactKept .irMultiple c ∧ FwIsoIrMultiple.Sound c)
          fun ret c => Faultless .irMultiple ret c ∧ FwIsoIrMultiple.Sound c :=
      (FwIsoIrMultiple.exec_faultless hop.2.1 hop.2.2.1 h.2 h.1).and
        (h.2.exec hop.2.2.1 hop.2.2.2)
    have hground : FwIsoIrMultiple.Grounded .new := ⟨.init, rfl, rfl⟩
    have hsound : FwIsoIrMultiple.Sound ⟨.new, []⟩ :=
      ⟨⟨hground, rfl⟩, fun ⟨_, _, h⟩ => absurd h List.not_mem_nil,
        hground, fun _ hid => absurd hid Addr.noConfusion⟩
    exact answer_ne_crashed (fun _ _ h => ⟨h.1, h.1.1, h.2⟩) hkeeps
      (fun _ _ hop h => FwIsoIrMultiple.exec_atOnce hop.1 h)
      (fun _ _ hop h => FwIsoIrMultiple.exec_undivided hop.1 h)
      ⟨fun _ => Intact.init, hsound⟩ hnew hg htrace fault

def FwIsoIrMultiple.insideEvent : List (Move FwIsoIrMultiple.Op) :=
  FwIsoIrMultiple.sixteenByTwo ++
    [.call (.dispatch (.event (.isoInterruptMc ⟨16⟩) FwIsoIrMultiple.onePacket)),
      .call (.getPayload 0)]

/-- The theorem at a context of each kind: one that starts, one that registers the next packet
behind an event, and one that goes on with an event. -/
theorem faultless_started :
    answer FwIsoIt.exec (run FwIsoIt.exec ⟨⟨.new, []⟩, []⟩ itWithPacket)
        (.call (.start none (grantStart 1))) ≠ some (.crashed .outOfBounds) ∧
      answer FwIsoIrSingle.exec (run FwIsoIrSingle.exec ⟨⟨.new, []⟩, []⟩ irSingleRunning)
        (.call (.registerPacket false)) ≠ some (.crashed .outOfBounds) ∧
      answer FwIsoIrMultiple.exec (run FwIsoIrMultiple.exec ⟨⟨.new, []⟩, []⟩
        FwIsoIrMultiple.insideEvent) .resume ≠ some (.crashed .outOfBounds) := by
  obtain ⟨hit, hirSingle, hirMultiple⟩ := faultless_of_run itWithPacket
    (.call (.start none (grantStart 1))) irSingleRunning (.call (.registerPacket false))
    FwIsoIrMultiple.insideEvent .resume .outOfBounds
  have hunmapped : (step FwIsoIrMultiple.exec ⟨⟨.new, []⟩, []⟩ (.call (.allocate (some "/dev/fw0")
    [1] grantAllocate (.ok 2) false))).state.priv.state.addr = .null := by decide +kernel
  refine ⟨hit ⟨⟨trivial, trivial⟩, ⟨?_, ?_⟩, ⟨trivial, ⟨?_, ?_⟩, ?_, ?_⟩, ⟨?_, trivial⟩, trivial⟩ ?_,
    hirSingle ⟨⟨trivial, trivial⟩, ⟨?_, ?_⟩, ⟨trivial, trivial⟩, ⟨trivial, trivial⟩, ⟨?_, trivial⟩,
      ⟨⟨⟨0xffffffff, 0, 0, 0⟩, ?_⟩, trivial⟩, ⟨trivial, trivial⟩, trivial⟩ ?_,
    hirMultiple ⟨⟨trivial, trivial, trivial, trivial⟩, ⟨?_, ?_, trivial, ?_⟩,
      ⟨trivial, trivial, trivial, trivial⟩,
      ⟨⟨⟨0xffffffff, 0, 0, 0⟩, ?_⟩, ⟨⟨1, ?_⟩, ?_⟩, ?_, trivial⟩,
      ⟨trivial, ?_, trivial, trivial⟩, trivial⟩ ?_⟩
  · exact fun h => absurd h (by decide)
  · show 4 * 2 < 4294967296
    decide
  · decide
  · decide
  · decide +kernel
  · decide +kernel
  · exact fun h => absurd h (by decide +kernel)
  · decide +kernel
  · exact fun h => absurd h (by decide)
  · show 8 * 2 < 4294967296
    decide
  · exact fun h => absurd h (by decide +kernel)
  · decide +kernel
  · decide +kernel
  · exact fun h => absurd h (by decide)
  · show 16 * 2 < 4294967296
    decide
  · exact hunmapped
  · decide +kernel
  · decide +kernel
  · decide +kernel
  · show ∀ packet ∈ _, _
    decide +kernel
  · -- the handler asks while the mapping is that of the event
    have hfresh : ∃ x ∈ sinceMapping (run FwIsoIrMultiple.exec ⟨⟨.new, []⟩, []⟩
        FwIsoIrMultiple.insideEvent).state.trace, x.1 = .interrupted 1 := by decide +kernel
    obtain ⟨⟨_, it⟩, hmem, rfl⟩ := hfresh
    refine .inr ⟨⟨1, it, hmem⟩, fun array harray => ?_⟩
    obtain rfl := Option.some.inj harray
    exact .inl (by decide +kernel)
  · decide +kernel

end Hinoko
