import Hinoko.Store

/-!
# The life of a context

The functions of the three kinds of context keep the invariant of the store, in any
order and with calls from the handlers of signals, as long as no buffer is unmapped
while there is something in the store.

* `StoreKept`: the invariant of runs, under that condition on the run so far.
* `storeSound_of_run`: the store is sound after every run.
* `storeSound_fails`: unmapping leaves `data_length` behind, and reading goes wrong.
-/

namespace Hinoko

open Reentrant

/-! ### Any kind -/

section Kind

variable {π : Type} [FwIsoCtx π] {kind : FwIsoCtxMode}

/-- No buffer has been unmapped while there was something in the store. -/
def UnmappedEmpty (trace : List (Effect × π)) : Prop :=
  ∀ x ∈ trace, x.1.isMunmap → (FwIsoCtx.state x.2).dataLength = 0

instance (trace : List (Effect × π)) : Decidable (UnmappedEmpty trace) :=
  inferInstanceAs (Decidable (∀ x ∈ trace, x.1.isMunmap → (FwIsoCtx.state x.2).dataLength = 0))

def StoreKept (kind : FwIsoCtxMode) (c : Ctx π) : Prop :=
  UnmappedEmpty c.trace → StoreInv kind (FwIsoCtx.state c.priv) c.effects

def KeepsStore (kind : FwIsoCtxMode) (f : π → Out π) : Prop :=
  ∀ self es, StoreInv kind (FwIsoCtx.state self) es →
    StoreInv kind (FwIsoCtx.state (f self).state) (es ++ (f self).effects)

theorem UnmappedEmpty.of_append {trace trace' : List (Effect × π)}
    (h : UnmappedEmpty (trace ++ trace')) : UnmappedEmpty trace :=
  fun x hx => h x (List.mem_append_left _ hx)

theorem StoreKept.after {f : π → Out π} (hf : KeepsStore kind f) {c : Ctx π}
    (h : StoreKept kind c) :
    StoreKept kind (c.after (f c.priv)) := by
  intro htrace
  rw [Ctx.after_effects]
  exact hf c.priv c.effects (h htrace.of_append)

theorem StoreKept.note {c : Ctx π} {e : Effect} (he : e.Quiet) (h : StoreKept kind c) :
    StoreKept kind (c.note e) := by
  intro htrace
  rw [Ctx.note_effects]
  exact (h htrace.of_append).quiet (by simpa using he)

theorem StoreKept.withPriv {c : Ctx π} {self : π}
    (hself : FwIsoCtx.state self = FwIsoCtx.state c.priv) (h : StoreKept kind c) :
    StoreKept kind { c with priv := self } := by
  intro htrace
  show StoreInv kind (FwIsoCtx.state self) c.effects
  rw [hself]
  exact h htrace

theorem keepsStore_stop : KeepsStore kind (Ctx.onState FwIsoCtxState.stop : π → Out π) := by
  intro self es h
  simp only [Ctx.onState, Out.map_state, Out.map_effects, FwIsoCtx.state_setState]
  exact h.stop

/-- What the functions of a kind that end a mapping do to the state. -/
structure EndsMapping (π : Type) [FwIsoCtx π] : Prop where
  unmap_state : ∀ self : π, FwIsoCtx.state (FwIsoCtx.unmapBuffer self).state =
    (FwIsoCtx.state self).unmapBuffer.state
  unmap_effects : ∀ self : π,
    (FwIsoCtx.unmapBuffer self).effects = (FwIsoCtx.state self).unmapBuffer.effects
  release_state : ∀ self : π, FwIsoCtx.state (FwIsoCtx.release self).state =
    (FwIsoCtx.state self).release.state
  release_effects : ∀ self : π,
    (FwIsoCtx.release self).effects = (FwIsoCtx.state self).release.effects

theorem StoreKept.unmapBuffer (hends : EndsMapping π) {c : Ctx π} (h : StoreKept kind c) :
    StoreKept kind (c.after (FwIsoCtx.unmapBuffer c.priv)) ∧
      (FwIsoCtx.state (c.after (FwIsoCtx.unmapBuffer c.priv)).priv).addr = .null := by
  refine ⟨fun htrace => ?_, ?_⟩
  · rw [Ctx.after_effects, Ctx.after_priv, hends.unmap_state, hends.unmap_effects]
    refine (h htrace.of_append).unmapBuffer fun haddr => ?_
    refine htrace (.munmap (FwIsoCtx.state c.priv).bytesPerBuffer, c.priv)
      (List.mem_append_right _ (List.mem_map.mpr ⟨_, ?_, rfl⟩)) rfl
    rw [hends.unmap_effects, FwIsoCtxState.unmapBuffer, if_neg haddr]
    simp
  · rw [Ctx.after_priv, hends.unmap_state]
    rfl

theorem StoreKept.release (hends : EndsMapping π) {c : Ctx π}
    (h : StoreKept kind c ∧ (FwIsoCtx.state c.priv).addr = .null) :
    StoreKept kind (c.after (FwIsoCtx.release c.priv)) := by
  intro htrace
  rw [Ctx.after_effects, Ctx.after_priv, hends.release_state, hends.release_effects]
  exact (h.1 htrace.of_append).release h.2

theorem keepsStore_release (hends : EndsMapping π) {c : Ctx π} (h : StoreKept kind c) :
    c.release.Keeps (StoreKept kind) fun _ => StoreKept kind :=
  Ctx.release_keeps (fun _ hc => hc.after keepsStore_stop) (fun _ hc => hc.note trivial)
    (fun _ hc => hc.unmapBuffer hends) (fun _ hc => StoreKept.release hends hc) h

theorem keepsStore_unmapBuffer (hends : EndsMapping π) {c : Ctx π} (h : StoreKept kind c) :
    c.unmapBuffer.Keeps (StoreKept kind) fun _ => StoreKept kind :=
  Ctx.unmapBuffer_keeps (fun _ hc => hc.after keepsStore_stop) (fun _ hc => hc.note trivial)
    (fun _ hc => (hc.unmapBuffer hends).1) h

theorem keepsStore_ctxStop {c : Ctx π} (h : StoreKept kind c) :
    c.stop.Keeps (StoreKept kind) fun _ => StoreKept kind :=
  Ctx.stop_keeps (fun _ hc => hc.after keepsStore_stop) (fun _ hc => hc.note trivial) h

theorem keepsStore_dispatch
    (hevent : ∀ ev env (c : Ctx π), StoreKept kind c →
      (FwIsoCtx.handleEvent ev env c).Keeps (StoreKept kind) fun _ => StoreKept kind)
    (w : Wakeup) {c : Ctx π} (h : StoreKept kind c) :
    (c.dispatch w).Keeps (StoreKept kind) fun _ => StoreKept kind :=
  Ctx.dispatch_keeps (fun _ hc => hc.after keepsStore_stop) (fun _ hc => hc.note trivial) hevent w h

end Kind

/-- A call that changes nothing keeps everything. -/
theorem StoreInv.refused {kind : FwIsoCtxMode} {π : Type} [FwIsoCtx π] {self : π}
    {es : List Effect} {o : Out π} (h : StoreInv kind (FwIsoCtx.state self) es)
    (hr : Refused self o) : StoreInv kind (FwIsoCtx.state o.state) (es ++ o.effects) := by
  rw [hr.state, hr.effects, List.append_nil]
  exact h

/-! ### IT contexts -/

namespace FwIsoIt

/-- The buffer can be mapped, and every packet's lengths fit into the control word: a header of
at most 255 bytes, and a payload that stays below the bits of the header's length. -/
def Op.Plain : Op → Prop
  | .mapBuffer _ _ env _ => ∃ id, env.mmap = .ok id
  | .registerPacket _ _ header payload _ =>
    header.length.toNat ≤ 255 ∧ payload.length.toNat < 16777216
  | _ => True

theorem endsMapping : EndsMapping FwIsoIt :=
  ⟨fun _ => rfl, fun _ => rfl, fun _ => rfl, fun _ => rfl⟩

theorem sized_datum {st : FwIsoCtxState} {skip : Bool} {tags syncCode : UInt32}
    {header : ArrayArg} {payloadLength : UInt32} {irq : Bool} (hmode : st.mode = .it)
    (hacc : st.acceptsChunk skip tags syncCode header payloadLength = true)
    (hheader : (st.datum skip tags syncCode header payloadLength irq).header.length =
      header.length.toNat)
    (hlen : header.length.toNat ≤ 255) (hpl : payloadLength.toNat < 16777216) :
    Sized st (st.datum skip tags syncCode header payloadLength irq) := by
  rw [sized_iff, if_pos hmode, headerLength_datum irq hmode hacc hpl, hheader]
  omega

theorem length_header_datum {st : FwIsoCtxState} {skip : Bool} {tags syncCode : UInt32}
    {header : ArrayArg} {payloadLength : UInt32} {irq : Bool} (hmode : st.mode = .it)
    (hskip : skip = true → header.length = 0) (hacc : acceptsArray header = true) :
    (st.datum skip tags syncCode header payloadLength irq).header.length =
      header.length.toNat := by
  cases hs : skip with
  | false => simp [FwIsoCtxState.datum, hmode, length_bytes_of_accepts hacc]
  | true => simp [FwIsoCtxState.datum, hskip hs]

theorem keepsStore_registerPacket (tags syncCode : UInt32) {header payload : ArrayArg}
    (irq : Bool) (hheader : header.length.toNat ≤ 255)
    (hpayload : payload.length.toNat < 16777216) :
    KeepsStore .it fun self : FwIsoIt => self.registerPacket tags syncCode header payload irq := by
  intro self es h
  rcases self.registerPacket_cases tags syncCode header payload irq with
    hr | ⟨⟨hacc, _⟩, hout⟩
  · exact h.refused hr
  · set skip : Bool := decide (header.length = 0 ∧ payload.length = 0) with hskip
    have hskip' : skip = true → header.length = 0 := fun hs => (of_decide_eq_true hs).1
    have hreg : StoreInv .it
        (self.state.registerChunk skip tags syncCode header payload.length irq).state
        (es ++ (self.state.registerChunk skip tags syncCode header payload.length irq).effects) :=
      StoreInv.registerChunk h (fun hmode => length_header_datum hmode hskip' hacc)
        fun hmode hchunk => sized_datum hmode hchunk (length_header_datum hmode hskip' hacc)
          hheader hpayload
    beta_reduce
    rcases hout with ⟨_, ho⟩ | ⟨_, ⟨_, ho⟩ | ⟨self', hw, ho⟩⟩
    · rw [ho]
      exact hreg
    · rw [ho]
      exact hreg
    · rw [ho]
      show StoreInv .it self'.state _
      rw [writePayload_state hw, ← List.append_assoc]
      exact hreg.quiet (by simp [Effect.Quiet])

theorem keepsStore_handleEvent (ev : CdevEvent) (env : EventEnv) (c : Ctx FwIsoIt)
    (h : StoreKept .it c) :
    (handleEvent ev env c).Keeps (StoreKept .it) fun _ => StoreKept .it := by
  cases ev with
  | isoInterrupt ev =>
    refine ⟨h.note trivial, fun c' hc' => StoreKept.after (f := queueChunks env.queueIso) ?_ hc'⟩
    exact fun self es hself => StoreInv.queueChunks hself
  | isoInterruptMc ev => exact h
  | other => exact h

theorem keepsStore_exec {op : Op} (hop : op.Plain) (c : Ctx FwIsoIt) (h : StoreKept .it c) :
    (exec op c).Keeps (StoreKept .it) fun _ => StoreKept .it := by
  cases op with
  | allocate path scode channel headerSize env =>
    refine StoreKept.after (f := (·.allocate path scode channel headerSize env)) ?_ h
    intro self es hself
    simp only [allocate]
    split
    · exact hself.refused ⟨rfl, rfl, trivial⟩
    · exact StoreInv.allocate hself
  | mapBuffer bytes payloads env mem =>
    obtain ⟨id, hid⟩ := hop
    exact StoreKept.after (f := (·.mapBuffer bytes payloads env mem))
      (fun self es hself => StoreInv.mapBuffer _ _ hself hid) h
  | registerPacket tags syncCode header payload irq =>
    exact h.after (keepsStore_registerPacket tags syncCode irq hop.1 hop.2)
  | start cycleMatch env =>
    refine StoreKept.after (f := (·.start cycleMatch env)) ?_ h
    intro self es hself
    simp only [start]
    split
    · exact hself.refused ⟨rfl, rfl, trivial⟩
    · exact StoreInv.start hself
  | stop => exact keepsStore_ctxStop h
  | unmapBuffer => exact keepsStore_unmapBuffer endsMapping h
  | release => exact keepsStore_release endsMapping h
  | dispatch w => exact keepsStore_dispatch keepsStore_handleEvent w h

end FwIsoIt

/-! ### IR contexts -/

theorem header_datum_of_ir {st : FwIsoCtxState} {payloadLength : UInt32} {irq : Bool} :
    (st.datum false 0 0 .null payloadLength irq).header = [] := by
  simp [FwIsoCtxState.datum, ArrayArg.null, ArrayArg.bytes]

theorem StoreInv.registerIrChunk {kind : FwIsoCtxMode} {st : FwIsoCtxState} {es : List Effect}
    {irq : Bool} (h : StoreInv kind st es) (hkind : kind ≠ .it) :
    StoreInv kind (st.registerChunk false 0 0 .null 0 irq).state
      (es ++ (st.registerChunk false 0 0 .null 0 irq).effects) :=
  h.registerChunk (fun _ => by rw [header_datum_of_ir]; rfl) fun hmode _ => by
    rw [sized_iff, header_datum_of_ir, hmode, if_neg hkind]
    rfl

namespace FwIsoIrSingle

def Op.Plain : Op → Prop
  | .mapBuffer _ _ env => ∃ id, env.mmap = .ok id
  | _ => True

theorem endsMapping : EndsMapping FwIsoIrSingle :=
  ⟨fun _ => rfl, fun _ => rfl, fun _ => rfl, fun _ => rfl⟩

theorem keepsStore_handleEvent (ev : CdevEvent) (env : EventEnv) (c : Ctx FwIsoIrSingle)
    (h : StoreKept .irSingle c) :
    (handleEvent ev env c).Keeps (StoreKept .irSingle) fun _ => StoreKept .irSingle := by
  cases ev with
  | isoInterrupt ev =>
    simp only [handleEvent]
    split
    · exact h
    · refine ⟨StoreKept.note trivial (h.withPriv rfl), fun c' hc' =>
        StoreKept.after (f := finishEvent (ev.headerLength / c.priv.headerSize)
            env.queueIso) ?_ hc'⟩
      intro self es hself
      simp only [finishEvent]
      split
      · rw [List.append_nil]
        exact hself
      · exact StoreInv.queueChunks hself
  | isoInterruptMc ev => exact h
  | other => exact h

theorem keepsStore_exec {op : Op} (hop : op.Plain) (c : Ctx FwIsoIrSingle)
    (h : StoreKept .irSingle c) :
    (exec op c).Keeps (StoreKept .irSingle) fun _ => StoreKept .irSingle := by
  cases op with
  | allocate path channel headerSize env =>
    refine StoreKept.after (f := (·.allocate path channel headerSize env)) ?_ h
    intro self es hself
    simp only [allocate]
    split
    · exact hself.refused ⟨rfl, rfl, trivial⟩
    split
    · exact hself.refused ⟨rfl, rfl, trivial⟩
    · exact StoreInv.allocate hself
  | mapBuffer bytes payloads env =>
    obtain ⟨id, hid⟩ := hop
    exact StoreKept.after (f := (·.mapBuffer bytes payloads env))
      (fun self es hself => StoreInv.mapBuffer _ _ hself hid) h
  | registerPacket irq =>
    exact StoreKept.after (f := (·.registerPacket irq))
      (fun self es hself => StoreInv.registerIrChunk hself (by decide)) h
  | start cycleMatch syncCode tags env =>
    refine StoreKept.after (f := (·.start cycleMatch syncCode tags env)) ?_ h
    intro self es hself
    simp only [start]
    split
    · exact hself.refused ⟨rfl, rfl, trivial⟩
    split
    · exact hself.refused ⟨rfl, rfl, trivial⟩
    · exact StoreInv.start (show StoreInv .irSingle self.state es from hself)
  | getPayload index =>
    rw [exec_getPayload]
    exact h
  | stop => exact keepsStore_ctxStop h
  | unmapBuffer => exact keepsStore_unmapBuffer endsMapping h
  | release => exact keepsStore_release endsMapping h
  | dispatch w => exact keepsStore_dispatch keepsStore_handleEvent w h

end FwIsoIrSingle

namespace FwIsoIrMultiple

def Op.Plain : Op → Prop
  | .mapBuffer _ _ env => ∃ id, env.mmap = .ok id
  | _ => True

theorem endsMapping : EndsMapping FwIsoIrMultiple :=
  ⟨fun _ => rfl, fun _ => rfl, fun _ => rfl, fun _ => rfl⟩

theorem keepsStore_registerChunks : ∀ n : Nat, KeepsStore .irMultiple (registerChunks n) := by
  intro n
  induction n with
  | zero =>
    intro self es h
    simp only [registerChunks, List.append_nil]
    exact h
  | succ n ih =>
    intro self es h
    have hfirst : StoreInv .irMultiple self.registerChunk.state.state
        (es ++ self.registerChunk.effects) := StoreInv.registerIrChunk h (by decide)
    simp only [registerChunks]
    split
    · rw [← List.append_assoc]
      exact ih _ _ hfirst
    · exact hfirst

theorem keepsStore_finishEvent (bytesPerChunk bytesPerBuffer accumLength : UInt32)
    (answers : Nat → QueueAnswer) :
    KeepsStore .irMultiple (finishEvent bytesPerChunk bytesPerBuffer accumLength answers) := by
  intro self es h
  simp only [finishEvent]
  split
  · rw [List.append_nil]
    exact h
  have hreg := keepsStore_registerChunks (((self.prevOffset + accumLength) / bytesPerChunk).toNat -
    (self.prevOffset / bytesPerChunk).toNat) self es h
  split
  · split
    · exact hreg
    · rw [← List.append_assoc]
      exact StoreInv.queueChunks hreg
  · exact hreg

theorem keepsStore_start (cycleMatch : Option (UInt16 × UInt16))
    (syncCode tags chunksPerIrq : UInt32) (env : StartEnv) : KeepsStore .irMultiple
      fun self : FwIsoIrMultiple => self.start cycleMatch syncCode tags chunksPerIrq env := by
  intro self es h
  simp only [start]
  split
  · exact h.refused ⟨rfl, rfl, trivial⟩
  split
  · exact h.refused ⟨rfl, rfl, trivial⟩
  split
  · exact h.refused ⟨rfl, rfl, trivial⟩
  have hreg := keepsStore_registerChunks self.state.chunksPerBuffer.toNat
    { self with chunksPerIrq := chunksPerIrq, accumulatedChunkCount := 0 } es h
  split
  · rw [← List.append_assoc]
    exact StoreInv.start hreg
  · exact hreg

theorem keepsStore_mapBuffer {bytesPerChunk chunksPerBuffer : UInt32} {env : MapMultipleEnv}
    {id : Nat} (hid : env.mmap = .ok id) : KeepsStore .irMultiple
      fun self : FwIsoIrMultiple => self.mapBuffer bytesPerChunk chunksPerBuffer env := by
  intro self es h
  have hmap := StoreInv.mapBuffer ((bytesPerChunk + 3) / 4 * 4) chunksPerBuffer h hid
  simp only [mapBuffer]
  split
  · exact hmap
  · exact hmap

theorem keepsStore_handleEvent (ev : CdevEvent) (env : EventEnv) (c : Ctx FwIsoIrMultiple)
    (h : StoreKept .irMultiple c) :
    (handleEvent ev env c).Keeps (StoreKept .irMultiple) fun _ => StoreKept .irMultiple := by
  cases ev with
  | isoInterrupt ev => exact h
  | isoInterruptMc ev =>
    simp only [handleEvent]
    split
    · exact h
    · exact ⟨StoreKept.note trivial (h.withPriv rfl),
        fun c' hc' => hc'.after (keepsStore_finishEvent _ _ _ _)⟩
  | other => exact h

theorem keepsStore_allocate (path : Option String) (channels : List UInt8) (env : AllocateEnv)
    (setIsoChannels : Except Nat UInt64) (bigEndian : Bool) (c : Ctx FwIsoIrMultiple)
    (h : StoreKept .irMultiple c) : (allocate path channels env setIsoChannels bigEndian c).Keeps
      (StoreKept .irMultiple) fun _ => StoreKept .irMultiple := by
  refine allocate_keeps (fun c hc => ?_) (fun c hc => hc.note trivial)
    (fun c hc => keepsStore_release endsMapping hc) (fun c chs hc => hc.withPriv rfl) h
  exact StoreKept.after (f := allocateState path env) (fun _ _ hself => StoreInv.allocate hself) hc

theorem state_getPayload (self : FwIsoIrMultiple) (index : UInt32) :
    (self.getPayload index).1.state = self.state := by
  simp only [getPayload]
  repeat' split
  all_goals rfl

theorem keepsStore_exec {op : Op} (hop : op.Plain) (c : Ctx FwIsoIrMultiple)
    (h : StoreKept .irMultiple c) :
    (exec op c).Keeps (StoreKept .irMultiple) fun _ => StoreKept .irMultiple := by
  cases op with
  | allocate path channels env set bigEndian =>
    exact keepsStore_allocate path channels env set bigEndian c h
  | mapBuffer bytes chunks env =>
    obtain ⟨id, hid⟩ := hop
    exact h.after (keepsStore_mapBuffer hid)
  | start cycleMatch syncCode tags irq env =>
    exact h.after (keepsStore_start cycleMatch syncCode tags irq env)
  | getPayload index =>
    refine StoreKept.after (f := askPayload index) ?_ h
    intro self es hself
    show StoreInv .irMultiple (self.getPayload index).1.state _
    rw [state_getPayload, askPayload, List.append_nil]
    exact hself
  | stop => exact keepsStore_ctxStop h
  | unmapBuffer => exact keepsStore_unmapBuffer endsMapping h
  | release => exact keepsStore_release endsMapping h
  | dispatch w => exact keepsStore_dispatch keepsStore_handleEvent w h

end FwIsoIrMultiple

/-! ### Runs -/

theorem FwIsoIrSingle.storeInv_of_run {ms : List (Move Op)}
    (hms : ∀ op, .call op ∈ ms → op.Plain) :
    let c := (run exec ⟨⟨new, []⟩, []⟩ ms).state
    UnmappedEmpty c.trace → StoreInv .irSingle c.priv.state c.effects :=
  run_keeps_of_init (I := StoreKept .irSingle) (s := ⟨new, []⟩) ms
    (fun _ => StoreInv.init) fun op hop c hc => keepsStore_exec (hms op hop) c hc

/-- **The store is sound in every run**, of every kind of context, in which no buffer is unmapped
while there is something in the store. -/
theorem storeSound_of_run (its : List (Move FwIsoIt.Op)) (irSingles : List (Move FwIsoIrSingle.Op))
    (irMultiples : List (Move FwIsoIrMultiple.Op)) :
    ((∀ op, .call op ∈ its → op.Plain) →
      let c := (run FwIsoIt.exec ⟨⟨FwIsoIt.new, []⟩, []⟩ its).state
      UnmappedEmpty c.trace → StoreSound c.priv.state c.effects) ∧
    ((∀ op, .call op ∈ irSingles → op.Plain) →
      let c := (run FwIsoIrSingle.exec ⟨⟨FwIsoIrSingle.new, []⟩, []⟩ irSingles).state
      UnmappedEmpty c.trace → StoreSound c.priv.state c.effects) ∧
    ((∀ op, .call op ∈ irMultiples → op.Plain) →
      let c := (run FwIsoIrMultiple.exec ⟨⟨FwIsoIrMultiple.new, []⟩, []⟩ irMultiples).state
      UnmappedEmpty c.trace → StoreSound c.priv.state c.effects) := by
  refine ⟨fun hms => ?_, fun hms => ?_, fun hms => ?_⟩
  · have h := run_keeps_of_init (I := StoreKept .it) (s := ⟨FwIsoIt.new, []⟩) its
      (fun _ => StoreInv.init) fun op hop c hc => FwIsoIt.keepsStore_exec (hms op hop) c hc
    exact fun htrace => (h htrace).sound
  · exact fun htrace => (FwIsoIrSingle.storeInv_of_run hms htrace).sound
  · have h := run_keeps_of_init (I := StoreKept .irMultiple) (s := ⟨FwIsoIrMultiple.new, []⟩)
      irMultiples (fun _ => StoreInv.init) fun op hop c hc =>
        FwIsoIrMultiple.keepsStore_exec (hms op hop) c hc
    exact fun htrace => (h htrace).sound

/-! ### A store left behind -/

def grantAllocate : AllocateEnv := ⟨.ok 3, none, .ok 0⟩
def grantMap : MapEnv := ⟨1, fun _ => 0, .ok 1⟩
def grantStart (count : Nat) : StartEnv := ⟨fun _ => .accepted count, none⟩

namespace FwIsoIrSingle

def registerTwo : List (Move Op) :=
  [.call (.allocate (some "/dev/fw0") 0 4 grantAllocate), .call (.mapBuffer 8 2 grantMap),
    .call (.registerPacket false), .call (.registerPacket false)]

def mapSmaller : List (Move Op) :=
  registerTwo ++ [.call .unmapBuffer, .call (.mapBuffer 8 1 grantMap)]

theorem plain_mapSmaller : ∀ op, .call op ∈ mapSmaller → op.Plain := by
  intro op hop
  simp only [mapSmaller, registerTwo, List.cons_append, List.nil_append, List.mem_cons,
    Move.call.injEq, List.not_mem_nil, or_false] at hop
  rcases hop with rfl | rfl | rfl | rfl | rfl | rfl <;>
    first
    | trivial
    | exact ⟨1, rfl⟩

end FwIsoIrSingle

/-- **Unmapping leaves the counters of the store behind**: with a smaller buffer the next start
reads outside of it. -/
theorem storeSound_fails :
    (∀ op, .call op ∈ FwIsoIrSingle.mapSmaller → op.Plain) ∧
      let c := (run FwIsoIrSingle.exec ⟨⟨.new, []⟩, []⟩ FwIsoIrSingle.mapSmaller).state
      ¬ StoreSound c.priv.state c.effects ∧
        (c.priv.start none 0 0 (grantStart 2)).ret = .crashed .outOfBounds := by
  refine ⟨FwIsoIrSingle.plain_mapSmaller, fun h => ?_, by decide +kernel⟩
  exact absurd h.room (by decide +kernel)

/-- The theorem at a run of each kind that leaves packets in the store. -/
theorem storeSound_registered :
    (let c := (run FwIsoIt.exec ⟨⟨.new, []⟩, []⟩
        [.call (.allocate (some "/dev/fw0") 0 0 0 grantAllocate),
          .call (.mapBuffer 4 2 grantMap fun _ => 0),
          .call (.registerPacket 0 0 .null .null false)]).state
     c.priv.state.dataLength = 4 ∧ StoreSound c.priv.state c.effects) ∧
    (let c := (run FwIsoIrSingle.exec ⟨⟨.new, []⟩, []⟩ FwIsoIrSingle.registerTwo).state
     c.priv.state.dataLength = 8 ∧ StoreSound c.priv.state c.effects) ∧
    (let c := (run FwIsoIrMultiple.exec ⟨⟨.new, []⟩, []⟩
        [.call (.allocate (some "/dev/fw0") [1] grantAllocate (.ok 2) false),
          .call (.mapBuffer 16 2 ⟨grantMap, 2, fun _ => 0, 3, fun _ => ⟨0, 0⟩⟩),
          .call (.start none 0 0 0 ⟨fun _ => .failed 5, none⟩)]).state
     c.priv.state.dataLength = 8 ∧ StoreSound c.priv.state c.effects) := by
  refine ⟨⟨by decide +kernel, (storeSound_of_run _ [] []).1 ?_ (by decide +kernel)⟩,
    ⟨by decide +kernel, (storeSound_of_run [] _ []).2.1 ?_ (by decide +kernel)⟩,
    ⟨by decide +kernel, (storeSound_of_run [] [] _).2.2 ?_ (by decide +kernel)⟩⟩
  · intro op hop
    simp only [List.mem_cons, Move.call.injEq, List.not_mem_nil, or_false] at hop
    rcases hop with rfl | rfl | rfl
    · trivial
    · exact ⟨1, rfl⟩
    · exact ⟨by decide, by decide⟩
  · exact fun op hop => FwIsoIrSingle.plain_mapSmaller op (List.mem_append_left _ hop)
  · intro op hop
    simp only [List.mem_cons, Move.call.injEq, List.not_mem_nil, or_false] at hop
    rcases hop with rfl | rfl | rfl
    · trivial
    · exact ⟨1, rfl⟩
    · trivial

end Hinoko
