import Hinoko.Calls
import Hinoko.Lib.Recording
import Hinoko.Lib.Beside
import Hinoko.Lib.Heap

/-!
# The heap of a context

The blocks that `g_malloc_n` hands out to a context, and that `free` gets back: the store of the
state, and for a multiple-channel IR context the buffer `concat_frames` and the array
`ctx_payloads`.  The operations run beside a heap, which names the blocks.

* `OnHeap.unmapBuffer`: unmapping gives back the store and `concat_frames`, and nothing gives back
  `ctx_payloads`.
* `SameBlocks`: what every other function leaves alone.
* `heap_of_run`: no block is given back twice; IT and single-channel IR contexts lose none; a
  multiple-channel IR context loses what `map_buffer` writes over, and nothing else.
* `leftover_of_run`: what is left on the heap at the end of a life.
-/

namespace Hinoko

open Reentrant

def blockIds (block : Option Block) : List Nat := (block.map Block.id).toList

/-- The blocks of an object beside the store of its state. -/
class HasBlocks (π : Type) where
  /-- those that `unmap_buffer` gives back -/
  freed : π → List Nat
  /-- those that it does not -/
  kept : π → List Nat

instance : HasBlocks FwIsoIt := ⟨fun _ => [], fun _ => []⟩

instance : HasBlocks FwIsoIrSingle := ⟨fun _ => [], fun _ => []⟩

instance : HasBlocks FwIsoIrMultiple where
  freed self := blockIds self.concatFrames
  kept self := (self.ctxPayloads.map PayloadArray.id).toList

/-- What `unmap_buffer` gives back, the store first. -/
def freedBlocks {π : Type} [FwIsoCtx π] [HasBlocks π] (p : π) : List Nat :=
  blockIds (FwIsoCtx.state p).data ++ HasBlocks.freed p

def heldBlocks {π : Type} [FwIsoCtx π] [HasBlocks π] (p : π) : List Nat :=
  freedBlocks p ++ HasBlocks.kept p

/-! ### Operations -/

/-- The heap after `g_malloc_n`: there is no block for nothing. -/
def gMallocNHeap (count size : UInt32) (h : Heap) : Heap :=
  if count.toNat * size.toNat = 0 then h else h.malloc

/-- The heap after `fw_iso_ctx_state_map_buffer`. -/
def FwIsoCtxState.mapHeap (st : FwIsoCtxState) (bytesPerChunk chunksPerBuffer : UInt32)
    (h : Heap) : Heap :=
  if bytesPerChunk = 0 then h
  else if chunksPerBuffer = 0 then h
  else if st.fd < 0 then h
  else if st.addr ≠ .null then h
  else gMallocNHeap chunksPerBuffer st.datumSize h

namespace OnHeap

variable {π : Type} [FwIsoCtx π] [HasBlocks π]

def quiet (x : Act (Ctx π) Ret) (h : Heap) : Act (Ctx π × Heap) Ret :=
  x.beside (fun ret h => (ret, h)) h

/-- `hinoko_fw_iso_ctx_unmap_buffer`. -/
def unmapBuffer (y : Ctx π × Heap) : Act (Ctx π × Heap) Ret :=
  (quiet y.1.stop y.2).bind fun _ y =>
    .done (FwIsoCtx.unmapBuffer y.1.priv).ret
      (y.1.after (FwIsoCtx.unmapBuffer y.1.priv), y.2.freeAll (freedBlocks y.1.priv))

/-- `hinoko_fw_iso_ctx_release`. -/
def release (y : Ctx π × Heap) : Act (Ctx π × Heap) Ret :=
  (unmapBuffer y).bind fun _ y => quiet (y.1.perform FwIsoCtx.release) y.2

end OnHeap

namespace FwIsoIt

def execOnHeap : Op → Ctx FwIsoIt × Heap → Act (Ctx FwIsoIt × Heap) Ret
  | .mapBuffer bytes payloads env mem, (c, h) =>
    (c.perform (·.mapBuffer bytes payloads { env with dataBlock := h.next } mem)).beside
      (fun ret h => (ret, c.priv.state.mapHeap bytes payloads h)) h
  | .unmapBuffer, y => OnHeap.unmapBuffer y
  | .release, y => OnHeap.release y
  | op, (c, h) => OnHeap.quiet (exec op c) h

end FwIsoIt

namespace FwIsoIrSingle

def execOnHeap : Op → Ctx FwIsoIrSingle × Heap → Act (Ctx FwIsoIrSingle × Heap) Ret
  | .mapBuffer bytes payloads env, (c, h) =>
    (c.perform (·.mapBuffer bytes payloads { env with dataBlock := h.next })).beside
      (fun ret h => (ret, c.priv.state.mapHeap bytes payloads h)) h
  | .unmapBuffer, y => OnHeap.unmapBuffer y
  | .release, y => OnHeap.release y
  | op, (c, h) => OnHeap.quiet (exec op c) h

end FwIsoIrSingle

namespace FwIsoIrMultiple

def sizeofCtxPayload : UInt32 := 8

/-- `hinoko_fw_iso_ir_multiple_map_buffer`: `concat_frames` comes first, whether there is a place
for it or not, and `ctx_payloads` last. -/
def mapBufferOnHeap (bytesPerChunk chunksPerBuffer : UInt32) (env : MapMultipleEnv)
    (y : Ctx FwIsoIrMultiple × Heap) : Act (Ctx FwIsoIrMultiple × Heap) Ret :=
  let bytes := (bytesPerChunk + 3) / 4 * 4
  let concatHeap := gMallocNHeap 4 bytes y.2
  let dataHeap := y.1.priv.state.mapHeap bytes chunksPerBuffer concatHeap
  let env : MapMultipleEnv := { env with
    concatBlock := y.2.next, dataBlock := concatHeap.next, payloadsBlock := dataHeap.next }
  let o := y.1.priv.mapBuffer bytesPerChunk chunksPerBuffer env
  .done o.ret (y.1.after o,
    if o.ret = .success then
      gMallocNHeap (o.state.state.bytesPerChunk * o.state.state.chunksPerBuffer / 8 / 2)
        sizeofCtxPayload dataHeap
    else dataHeap)

/-- `hinoko_fw_iso_ir_multiple_allocate`. -/
def allocateOnHeap (path : Option String) (channels : List UInt8) (env : AllocateEnv)
    (setIsoChannels : Except Nat UInt64) (bigEndian : Bool) (y : Ctx FwIsoIrMultiple × Heap) :
    Act (Ctx FwIsoIrMultiple × Heap) Ret :=
  if channels = [] then .done .rejected y
  else if channels.any (63 < ·) then .done .rejected y
  else
    let o := (y.1.priv.state.allocate path .irMultiple 0 0 0 env).map fun st =>
      { y.1.priv with state := st }
    let c := y.1.after o
    match o.ret with
    | .success =>
      let c := c.note (.setIsoChannels (channelMask channels))
      match setIsoChannels with
      | .error errno =>
        (OnHeap.release (c, y.2)).bind fun _ y =>
          .done (.failure (.ioctl .setIsoChannels errno)) y
      | .ok mask =>
        if mask = 0 then
          (OnHeap.release (c, y.2)).bind fun _ y => .done (.failure (.coded .noIsocChannel)) y
        else
          .done .success ({ c with
            priv := { c.priv with channels := some (channelsOfMask bigEndian mask) } }, y.2)
    | ret => .done ret (c, y.2)

def execOnHeap : Op → Ctx FwIsoIrMultiple × Heap → Act (Ctx FwIsoIrMultiple × Heap) Ret
  | .allocate path channels env set bigEndian, y =>
    allocateOnHeap path channels env set bigEndian y
  | .mapBuffer bytes chunks env, y => mapBufferOnHeap bytes chunks env y
  | .unmapBuffer, y => OnHeap.unmapBuffer y
  | .release, y => OnHeap.release y
  | op, (c, h) => OnHeap.quiet (exec op c) h

/-- How many blocks an operation loses: `map_buffer` writes over `concat_frames`, and over
`ctx_payloads` when it succeeds. -/
def overwritten (op : Op) (y : Ctx FwIsoIrMultiple × Heap) : Nat :=
  match op with
  | .mapBuffer bytes chunks env =>
    (blockIds y.1.priv.concatFrames).length +
      if (y.1.priv.mapBuffer bytes chunks env).ret = .success then
        (HasBlocks.kept y.1.priv).length
      else 0
  | _ => 0

end FwIsoIrMultiple

/-! ### What leaves the blocks alone -/

structure SameStore (st st' : FwIsoCtxState) : Prop where
  data : blockIds st'.data = blockIds st.data
  addr : st'.addr = st.addr

namespace SameStore

variable {a b c st : FwIsoCtxState}

theorem refl (st : FwIsoCtxState) : SameStore st st := ⟨rfl, rfl⟩

theorem trans (h : SameStore a b) (h' : SameStore b c) : SameStore a c :=
  ⟨h'.data.trans h.data, h'.addr.trans h.addr⟩

theorem of_refused {o : Out FwIsoCtxState} (h : Refused st o) : SameStore st o.state := by
  rw [h.state]
  exact refl st

theorem allocate (st : FwIsoCtxState) (path : Option String) (mode : FwIsoCtxMode)
    (scode channel headerSize : UInt32) (env : AllocateEnv) :
    SameStore st (st.allocate path mode scode channel headerSize env).state := by
  rcases st.allocate_cases path mode scode channel headerSize env with
    hr | ⟨_, _, ⟨_, hstate⟩ | ⟨_, fd, handle, hstate⟩⟩
  · exact of_refused hr
  · rw [hstate]
    exact ⟨rfl, rfl⟩
  · rw [hstate]
    exact ⟨rfl, rfl⟩

theorem registerChunk (st : FwIsoCtxState) (skip : Bool) (tags syncCode : UInt32)
    (header : ArrayArg) (payloadLength : UInt32) (irq : Bool) :
    SameStore st (st.registerChunk skip tags syncCode header payloadLength irq).state := by
  rcases st.registerChunk_cases skip tags syncCode header payloadLength irq with
    hr | ⟨_, ⟨_, ho⟩ | ⟨block, hdata, ho⟩⟩
  · exact of_refused hr
  · rw [ho]
    exact refl st
  · rw [ho]
    refine ⟨?_, rfl⟩
    rw [hdata]
    rfl

theorem queueChunks (st : FwIsoCtxState) (answers : Nat → QueueAnswer) :
    SameStore st (st.queueChunks answers).state := by
  rcases (st.queueChunks_cases answers).2 with ⟨hstate, _⟩ | ⟨_, x, hstate⟩
  · rw [hstate]
    exact refl st
  · rw [hstate]
    exact ⟨rfl, rfl⟩

theorem start (st : FwIsoCtxState) (cycleMatch : Option (UInt16 × UInt16))
    (syncCode tags : UInt32) (env : StartEnv) :
    SameStore st (st.start cycleMatch syncCode tags env).state := by
  have hqueue := queueChunks st env.queueIso
  rcases st.start_cases cycleMatch syncCode tags env with
    hr | ⟨_, ⟨_, ho⟩ | ⟨_, ⟨errno, _, ho⟩ | ⟨_, ho⟩⟩⟩
  · exact of_refused hr
  · rw [ho]
    exact hqueue
  · rw [ho]
    exact ⟨hqueue.data, hqueue.addr⟩
  · rw [ho]
    exact ⟨hqueue.data, hqueue.addr⟩

theorem stop (st : FwIsoCtxState) : SameStore st st.stop.state := by
  by_cases hrun : st.running = true
  · rw [FwIsoCtxState.stop_of_running hrun]
    exact ⟨rfl, rfl⟩
  · rw [FwIsoCtxState.stop_of_not_running (Bool.not_eq_true _ ▸ hrun)]
    exact refl st

end SameStore

structure SameBlocks {π : Type} [FwIsoCtx π] [HasBlocks π] (p p' : π) : Prop where
  store : SameStore (FwIsoCtx.state p) (FwIsoCtx.state p')
  freed : HasBlocks.freed p' = HasBlocks.freed p
  kept : HasBlocks.kept p' = HasBlocks.kept p

namespace SameBlocks

variable {π : Type} [FwIsoCtx π] [HasBlocks π] {a b c : π}

theorem refl (p : π) : SameBlocks p p := ⟨.refl _, rfl, rfl⟩

theorem trans (h : SameBlocks a b) (h' : SameBlocks b c) : SameBlocks a c :=
  ⟨h.store.trans h'.store, h'.freed.trans h.freed, h'.kept.trans h.kept⟩

theorem held (h : SameBlocks a b) : heldBlocks b = heldBlocks a := by
  rw [heldBlocks, freedBlocks, h.store.data, h.freed, h.kept, heldBlocks, freedBlocks]

end SameBlocks

def Ctx.SameBlocks {π : Type} [FwIsoCtx π] [HasBlocks π] (c c' : Ctx π) : Prop :=
  Hinoko.SameBlocks c.priv c'.priv

/-- What the functions of the interface do to the blocks. -/
structure Accounted (π : Type) [FwIsoCtx π] [HasBlocks π] : Prop where
  setState : ∀ (p : π) {st : FwIsoCtxState}, SameStore (FwIsoCtx.state p) st →
    SameBlocks p (FwIsoCtx.setState p st)
  freed : ∀ p : π, freedBlocks (FwIsoCtx.unmapBuffer p).state = []
  kept : ∀ p : π, HasBlocks.kept (FwIsoCtx.unmapBuffer p).state = HasBlocks.kept p
  release : ∀ p : π, SameBlocks p (FwIsoCtx.release p).state
  handleEvent : ∀ (ev : CdevEvent) (env : EventEnv) (c : Ctx π),
    (FwIsoCtx.handleEvent ev env c).Paced Ctx.SameBlocks Ctx.SameBlocks c

namespace Accounted

variable {π : Type} [FwIsoCtx π] [HasBlocks π]

theorem stop (acc : Accounted π) (c : Ctx π) : c.stop.Paced Ctx.SameBlocks Ctx.SameBlocks c := by
  have hstop : SameBlocks c.priv (Ctx.onState FwIsoCtxState.stop c.priv).state :=
    acc.setState c.priv (.stop _)
  cases hrun : (FwIsoCtx.state c.priv).running with
  | false =>
    rw [Ctx.stop_idle hrun]
    exact hstop
  | true =>
    rw [Ctx.stop_running hrun]
    exact ⟨hstop, fun c => .refl c.priv⟩

theorem dispatch (acc : Accounted π) (w : Wakeup) (c : Ctx π) :
    (c.dispatch w).Paced Ctx.SameBlocks Ctx.SameBlocks c :=
  Ctx.paced_dispatch (T := Ctx.SameBlocks) (fun c => .refl c.priv) (fun _ _ _ => .trans) acc.stop
    acc.handleEvent w c

end Accounted

/-! ### Accounts -/

/-- A context and its heap, with `n` blocks lost. -/
structure Accounts {π : Type} [FwIsoCtx π] [HasBlocks π] (n : Nat) (y : Ctx π × Heap) : Prop where
  unmapped : (FwIsoCtx.state y.1.priv).addr = .null → blockIds (FwIsoCtx.state y.1.priv).data = []
  owned : ∃ lost, lost.length = n ∧ Heap.Owned (heldBlocks y.1.priv) lost y.2

namespace Accounts

variable {π : Type} [FwIsoCtx π] [HasBlocks π] {n : Nat} {c c' : Ctx π} {h : Heap}

theorem same (ha : Accounts n (c, h)) (hsame : c.SameBlocks c') : Accounts n (c', h) := by
  refine ⟨fun haddr => ?_, ?_⟩
  · show blockIds (FwIsoCtx.state c'.priv).data = []
    rw [hsame.store.data]
    exact ha.unmapped (hsame.store.addr.symm.trans haddr)
  · obtain ⟨lost, hlength, hlost⟩ := ha.owned
    refine ⟨lost, hlength, ?_⟩
    show Heap.Owned (heldBlocks c'.priv) lost h
    rw [hsame.held]
    exact hlost

theorem unmapBuffer (acc : Accounted π) (ha : Accounts n (c, h)) :
    Accounts n (c.after (FwIsoCtx.unmapBuffer c.priv), h.freeAll (freedBlocks c.priv)) := by
  have hfreed := acc.freed c.priv
  refine ⟨fun _ => (List.append_eq_nil_iff.mp hfreed).1, ?_⟩
  obtain ⟨lost, hlength, hlost⟩ := ha.owned
  refine ⟨lost, hlength, ?_⟩
  show Heap.Owned (heldBlocks (FwIsoCtx.unmapBuffer c.priv).state) lost _
  rw [heldBlocks, hfreed, acc.kept, List.nil_append]
  exact Heap.Owned.freeAll _ hlost

end Accounts

namespace OnHeap

variable {π : Type} [FwIsoCtx π] [HasBlocks π]

abbrev Keeps (π : Type) [FwIsoCtx π] [HasBlocks π] : Ctx π × Heap → Ctx π × Heap → Prop :=
  KeepsAccount Accounts

theorem keeps_trans (a b c : Ctx π × Heap) (h : Keeps π a b) (h' : Keeps π b c) : Keeps π a c :=
  fun n ha => h' n (h n ha)

theorem quiet_paced {x : Act (Ctx π) Ret} {c : Ctx π}
    (hx : x.Paced Ctx.SameBlocks Ctx.SameBlocks c) (h : Heap) :
    (quiet x h).Paced (Keeps π) (Keeps π) (c, h) :=
  hx.beside (fun _ _ _ hsame _ ha => ha.same hsame) (fun _ _ _ _ hsame _ ha => ha.same hsame) h

theorem unmapBuffer_paced (acc : Accounted π) (y : Ctx π × Heap) :
    (unmapBuffer y).Paced (Keeps π) (Keeps π) y := by
  obtain ⟨c, h⟩ := y
  refine (quiet_paced (acc.stop c) h).andThen keeps_trans keeps_trans ?_
  intro _ _ y _
  exact fun n ha => ha.unmapBuffer acc

theorem release_paced (acc : Accounted π) (y : Ctx π × Heap) :
    (release y).Paced (Keeps π) (Keeps π) y := by
  refine (unmapBuffer_paced acc y).andThen keeps_trans keeps_trans ?_
  intro _ _ y _
  obtain ⟨c, h⟩ := y
  exact quiet_paced (x := c.perform FwIsoCtx.release) (acc.release c.priv) h

/-! ### The end -/

/-- The object is finalized: the context is released, when no handler is connected any more. -/
def finalize (y : Ctx π × Heap) : Ctx π × Heap := (release y).inert.2

def Leaves (n : Nat) (ids : List Nat) (y : Ctx π × Heap) : Prop :=
  Accounts n y ∧ HasBlocks.kept y.1.priv = ids

theorem quiet_leaves {x : Act (Ctx π) Ret} {c : Ctx π} {h : Heap} {n : Nat} {ids : List Nat}
    (hx : x.Paced Ctx.SameBlocks Ctx.SameBlocks c) (hy : Leaves n ids (c, h)) :
    (quiet x h).Keeps (Leaves n ids) fun _ => Leaves n ids := by
  have hsame : ∀ (c c' : Ctx π) (h : Heap), c.SameBlocks c' → Leaves n ids (c, h) →
      Leaves n ids (c', h) := by
    intro c c' h hsame hy
    exact ⟨hy.1.same hsame, hsame.kept.trans hy.2⟩
  exact hx.beside_keeps (J := fun c h => Leaves n ids (c, h)) hsame (fun _ _ _ hJ => hJ) hy

theorem release_leaves (acc : Accounted π) {y : Ctx π × Heap} {n : Nat} {ids : List Nat}
    (hy : Leaves n ids y) :
    (release y).Keeps (Leaves n ids) fun _ y => Leaves n ids y ∧ freedBlocks y.1.priv = [] := by
  obtain ⟨c, h⟩ := y
  have hunmap : (unmapBuffer (c, h)).Keeps (Leaves n ids) fun _ y =>
      Leaves n ids y ∧ freedBlocks y.1.priv = [] := by
    refine Act.Keeps.bind (fun _ y hy => ?_) (quiet_leaves (acc.stop c) hy)
    exact ⟨⟨hy.1.unmapBuffer acc, (acc.kept y.1.priv).trans hy.2⟩, acc.freed y.1.priv⟩
  refine Act.Keeps.bind (fun _ y hy => ?_) hunmap
  have hsame := acc.release y.1.priv
  refine ⟨⟨hy.1.1.same hsame, hsame.kept.trans hy.1.2⟩, ?_⟩
  show freedBlocks (FwIsoCtx.release y.1.priv).state = []
  rw [freedBlocks, hsame.store.data, hsame.freed]
  exact hy.2

/-- **What is left on the heap** is what has been lost, and what is not given back. -/
theorem length_live_finalize (acc : Accounted π) {y : Ctx π × Heap} {n : Nat}
    (hy : Accounts n y) :
    (finalize y).2.live.length = n + (HasBlocks.kept y.1.priv).length ∧
      (finalize y).2.faults = 0 := by
  obtain ⟨⟨haccounts, hkept⟩, hfreed⟩ :=
    (release_leaves acc (show Leaves n (HasBlocks.kept y.1.priv) y from ⟨hy, rfl⟩)).inert
  obtain ⟨lost, hlength, howned⟩ := haccounts.owned
  refine ⟨?_, howned.faults⟩
  show (release y).inert.2.2.live.length = _
  rw [howned.length_live, heldBlocks, hfreed, hkept, hlength, List.nil_append, Nat.add_comm]

/-! ### Covering -/

omit [FwIsoCtx π] [HasBlocks π] in
theorem quiet_covers (x : Act (Ctx π) Ret) (h : Heap) : (quiet x h).Covers x :=
  Act.covers_beside _ x h

theorem unmapBuffer_covers (y : Ctx π × Heap) : (unmapBuffer y).Covers y.1.unmapBuffer := by
  apply Act.Covers.bind _ (quiet_covers y.1.stop y.2)
  intro _ _ c h
  exact ⟨_, _, rfl⟩

theorem release_covers (y : Ctx π × Heap) : (release y).Covers y.1.release := by
  apply Act.Covers.bind _ (unmapBuffer_covers y)
  intro _ _ c h
  exact quiet_covers (c.perform FwIsoCtx.release) h

end OnHeap

/-! ### Mapping -/

theorem owned_gMallocN {held lost : List Nat} {h : Heap} (ho : Heap.Owned held lost h)
    (fill : ByteMem) (count size : UInt32) :
    Heap.Owned (blockIds (gMallocN h.next fill count size) ++ held) lost
      (gMallocNHeap count size h) := by
  rw [gMallocN, gMallocNHeap]
  split
  · exact ho
  · exact ho.malloc

theorem FwIsoCtxState.owned_mapBuffer {st : FwIsoCtxState} {held lost : List Nat} {h : Heap}
    (hunmapped : st.addr = .null → blockIds st.data = [])
    (ho : Heap.Owned (blockIds st.data ++ held) lost h) (bytesPerChunk chunksPerBuffer : UInt32)
    (env : MapEnv) (hfresh : env.dataBlock = h.next) :
    let o := st.mapBuffer bytesPerChunk chunksPerBuffer env
    (o.state.addr = .null → blockIds o.state.data = []) ∧
      Heap.Owned (blockIds o.state.data ++ held) lost
        (st.mapHeap bytesPerChunk chunksPerBuffer h) := by
  simp only [mapBuffer, mapHeap]
  split
  · exact ⟨hunmapped, ho⟩
  split
  · exact ⟨hunmapped, ho⟩
  split
  · exact ⟨hunmapped, ho⟩
  split
  · exact ⟨hunmapped, ho⟩
  next haddr =>
    rw [hunmapped (Decidable.not_not.mp haddr), List.nil_append] at ho
    have hnew := owned_gMallocN ho env.dataFill chunksPerBuffer st.datumSize
    rw [← hfresh] at hnew
    cases env.mmap with
    | error errno => exact ⟨fun hnull => (by cases hnull), hnew⟩
    | ok id => exact ⟨fun hnull => (by cases hnull), hnew⟩

/-- Which blocks there are has no part in the answer. -/
theorem FwIsoCtxState.ret_mapBuffer_congr (st : FwIsoCtxState)
    (bytesPerChunk chunksPerBuffer : UInt32) {env env' : MapEnv} (hmmap : env.mmap = env'.mmap) :
    (st.mapBuffer bytesPerChunk chunksPerBuffer env).ret =
      (st.mapBuffer bytesPerChunk chunksPerBuffer env').ret := by
  simp only [mapBuffer, hmmap]
  split
  · rfl
  split
  · rfl
  split
  · rfl
  split
  · rfl
  · cases env'.mmap <;> rfl

/-! ### IT contexts -/

namespace FwIsoIt

theorem accounted : Accounted FwIsoIt where
  setState _ _ hstore := ⟨hstore, rfl, rfl⟩
  freed _ := rfl
  kept _ := rfl
  release _ := ⟨⟨rfl, rfl⟩, rfl, rfl⟩
  handleEvent ev env c := by
    cases ev with
    | isoInterrupt ev =>
      exact ⟨.refl c.priv, fun c => ⟨.queueChunks c.priv.state env.queueIso, rfl, rfl⟩⟩
    | isoInterruptMc ev => exact .refl c.priv
    | other => exact .refl c.priv

theorem sameBlocks_registerPacket (self : FwIsoIt) (tags syncCode : UInt32)
    (header payload : ArrayArg) (irq : Bool) :
    SameBlocks self (self.registerPacket tags syncCode header payload irq).state := by
  have hchunk := SameStore.registerChunk self.state
    (header.length = 0 ∧ payload.length = 0 : Bool) tags syncCode header payload.length irq
  rcases self.registerPacket_cases tags syncCode header payload irq with
    hr | ⟨_, ⟨_, ho⟩ | ⟨_, ⟨_, ho⟩ | ⟨self', hw, ho⟩⟩⟩
  · rw [hr.state]
    exact .refl self
  · rw [ho]
    exact ⟨hchunk, rfl, rfl⟩
  · rw [ho]
    exact ⟨hchunk, rfl, rfl⟩
  · rw [ho]
    refine ⟨?_, rfl, rfl⟩
    show SameStore self.state self'.state
    rw [writePayload_state hw]
    exact hchunk

theorem execOnHeap_paced (op : Op) (y : Ctx FwIsoIt × Heap) :
    (execOnHeap op y).Paced (OnHeap.Keeps FwIsoIt) (OnHeap.Keeps FwIsoIt) y := by
  obtain ⟨c, h⟩ := y
  cases op with
  | allocate path scode channel headerSize env =>
    refine OnHeap.quiet_paced (x := exec (.allocate path scode channel headerSize env) c) ?_ h
    show SameBlocks c.priv (c.priv.allocate path scode channel headerSize env).state
    rw [FwIsoIt.allocate]
    split
    · exact .refl c.priv
    · exact ⟨.allocate c.priv.state path .it scode channel headerSize env, rfl, rfl⟩
  | mapBuffer bytes payloads env mem =>
    intro n ha
    obtain ⟨lost, hlength, hlost⟩ := ha.owned
    rw [heldBlocks, freedBlocks, List.append_assoc] at hlost
    obtain ⟨hunmapped, howned⟩ := FwIsoCtxState.owned_mapBuffer ha.unmapped hlost bytes payloads
      { env with dataBlock := h.next } rfl
    refine ⟨hunmapped, lost, hlength, ?_⟩
    rw [← List.append_assoc] at howned
    exact howned
  | registerPacket tags syncCode header payload irq =>
    exact OnHeap.quiet_paced (x := exec (.registerPacket tags syncCode header payload irq) c)
      (sameBlocks_registerPacket c.priv tags syncCode header payload irq) h
  | start cycleMatch env =>
    refine OnHeap.quiet_paced (x := exec (.start cycleMatch env) c) ?_ h
    show SameBlocks c.priv (c.priv.start cycleMatch env).state
    rw [FwIsoIt.start]
    split
    · exact .refl c.priv
    · exact ⟨.start c.priv.state cycleMatch 0 0 env, rfl, rfl⟩
  | stop => exact OnHeap.quiet_paced (accounted.stop c) h
  | unmapBuffer => exact OnHeap.unmapBuffer_paced accounted (c, h)
  | release => exact OnHeap.release_paced accounted (c, h)
  | dispatch w => exact OnHeap.quiet_paced (accounted.dispatch w c) h

theorem execOnHeap_covers (op : Op) (y : Ctx FwIsoIt × Heap) :
    ∃ op₀, (execOnHeap op y).Covers (exec op₀ y.1) := by
  obtain ⟨c, h⟩ := y
  cases op with
  | mapBuffer bytes payloads env mem =>
    exact ⟨.mapBuffer bytes payloads { env with dataBlock := h.next } mem,
      Act.covers_beside _ _ h⟩
  | unmapBuffer => exact ⟨.unmapBuffer, OnHeap.unmapBuffer_covers (c, h)⟩
  | release => exact ⟨.release, OnHeap.release_covers (c, h)⟩
  | allocate path scode channel headerSize env =>
    exact ⟨.allocate path scode channel headerSize env, OnHeap.quiet_covers _ h⟩
  | registerPacket tags syncCode header payload irq =>
    exact ⟨.registerPacket tags syncCode header payload irq, OnHeap.quiet_covers _ h⟩
  | start cycleMatch env => exact ⟨.start cycleMatch env, OnHeap.quiet_covers _ h⟩
  | stop => exact ⟨.stop, OnHeap.quiet_covers _ h⟩
  | dispatch w => exact ⟨.dispatch w, OnHeap.quiet_covers _ h⟩

end FwIsoIt

/-! ### Single-channel IR contexts -/

namespace FwIsoIrSingle

theorem sameBlocks_finishEvent (self : FwIsoIrSingle) (count : UInt32)
    (answers : Nat → QueueAnswer) : SameBlocks self (finishEvent count answers self).state := by
  simp only [finishEvent]
  split
  · exact ⟨.refl self.state, rfl, rfl⟩
  · exact ⟨.queueChunks self.state answers, rfl, rfl⟩

theorem accounted : Accounted FwIsoIrSingle where
  setState _ _ hstore := ⟨hstore, rfl, rfl⟩
  freed _ := rfl
  kept _ := rfl
  release _ := ⟨⟨rfl, rfl⟩, rfl, rfl⟩
  handleEvent ev env c := by
    cases ev with
    | isoInterrupt ev =>
      simp only [FwIsoCtx.handleEvent, handleEvent]
      split
      · exact .refl c.priv
      · exact ⟨⟨.refl c.priv.state, rfl, rfl⟩, fun c =>
          sameBlocks_finishEvent c.priv _ env.queueIso⟩
    | isoInterruptMc ev => exact .refl c.priv
    | other => exact .refl c.priv

theorem execOnHeap_paced (op : Op) (y : Ctx FwIsoIrSingle × Heap) :
    (execOnHeap op y).Paced (OnHeap.Keeps FwIsoIrSingle) (OnHeap.Keeps FwIsoIrSingle) y := by
  obtain ⟨c, h⟩ := y
  cases op with
  | allocate path channel headerSize env =>
    refine OnHeap.quiet_paced (x := exec (.allocate path channel headerSize env) c) ?_ h
    show SameBlocks c.priv (c.priv.allocate path channel headerSize env).state
    simp only [FwIsoIrSingle.allocate]
    split
    · exact .refl c.priv
    split
    · exact .refl c.priv
    · exact ⟨.allocate c.priv.state path .irSingle 0 channel headerSize env, rfl, rfl⟩
  | mapBuffer bytes payloads env =>
    intro n ha
    obtain ⟨lost, hlength, hlost⟩ := ha.owned
    rw [heldBlocks, freedBlocks, List.append_assoc] at hlost
    obtain ⟨hunmapped, howned⟩ := FwIsoCtxState.owned_mapBuffer ha.unmapped hlost bytes payloads
      { env with dataBlock := h.next } rfl
    refine ⟨hunmapped, lost, hlength, ?_⟩
    rw [← List.append_assoc] at howned
    exact howned
  | registerPacket irq =>
    exact OnHeap.quiet_paced (x := exec (.registerPacket irq) c)
      ⟨.registerChunk c.priv.state false 0 0 .null 0 irq, rfl, rfl⟩ h
  | start cycleMatch syncCode tags env =>
    refine OnHeap.quiet_paced (x := exec (.start cycleMatch syncCode tags env) c) ?_ h
    show SameBlocks c.priv (c.priv.start cycleMatch syncCode tags env).state
    simp only [FwIsoIrSingle.start]
    split
    · exact .refl c.priv
    split
    · exact .refl c.priv
    · exact ⟨.start c.priv.state cycleMatch syncCode tags env, rfl, rfl⟩
  | getPayload index =>
    exact OnHeap.quiet_paced (x := exec (.getPayload index) c) (.refl c.priv) h
  | stop => exact OnHeap.quiet_paced (accounted.stop c) h
  | unmapBuffer => exact OnHeap.unmapBuffer_paced accounted (c, h)
  | release => exact OnHeap.release_paced accounted (c, h)
  | dispatch w => exact OnHeap.quiet_paced (accounted.dispatch w c) h

theorem execOnHeap_covers (op : Op) (y : Ctx FwIsoIrSingle × Heap) :
    ∃ op₀, (execOnHeap op y).Covers (exec op₀ y.1) := by
  obtain ⟨c, h⟩ := y
  cases op with
  | mapBuffer bytes payloads env =>
    exact ⟨.mapBuffer bytes payloads { env with dataBlock := h.next }, Act.covers_beside _ _ h⟩
  | unmapBuffer => exact ⟨.unmapBuffer, OnHeap.unmapBuffer_covers (c, h)⟩
  | release => exact ⟨.release, OnHeap.release_covers (c, h)⟩
  | allocate path channel headerSize env =>
    exact ⟨.allocate path channel headerSize env, OnHeap.quiet_covers _ h⟩
  | registerPacket irq => exact ⟨.registerPacket irq, OnHeap.quiet_covers _ h⟩
  | start cycleMatch syncCode tags env =>
    exact ⟨.start cycleMatch syncCode tags env, OnHeap.quiet_covers _ h⟩
  | getPayload index => exact ⟨.getPayload index, OnHeap.quiet_covers _ h⟩
  | stop => exact ⟨.stop, OnHeap.quiet_covers _ h⟩
  | dispatch w => exact ⟨.dispatch w, OnHeap.quiet_covers _ h⟩

end FwIsoIrSingle

/-! ### Multiple-channel IR contexts -/

namespace FwIsoIrMultiple

theorem sameBlocks_registerChunk (self : FwIsoIrMultiple) :
    SameBlocks self self.registerChunk.state :=
  ⟨.registerChunk self.state false 0 0 .null 0 _, rfl, rfl⟩

theorem sameBlocks_registerChunks : ∀ (n : Nat) (self : FwIsoIrMultiple),
    SameBlocks self (registerChunks n self).state := by
  intro n
  induction n with
  | zero => exact fun self => .refl self
  | succ n ih =>
    intro self
    have hchunk := sameBlocks_registerChunk self
    simp only [registerChunks]
    split
    · exact hchunk.trans (ih self.registerChunk.state)
    · exact hchunk

theorem sameBlocks_start (self : FwIsoIrMultiple) (cycleMatch : Option (UInt16 × UInt16))
    (syncCode tags chunksPerIrq : UInt32) (env : StartEnv) :
    SameBlocks self (self.start cycleMatch syncCode tags chunksPerIrq env).state := by
  simp only [start]
  split
  · exact .refl self
  split
  · exact .refl self
  split
  · exact .refl self
  have hfirst : SameBlocks self
      { self with chunksPerIrq := chunksPerIrq, accumulatedChunkCount := 0 } :=
    ⟨.refl self.state, rfl, rfl⟩
  have hchunks := hfirst.trans (sameBlocks_registerChunks self.state.chunksPerBuffer.toNat _)
  split
  · exact hchunks.trans ⟨.start _ cycleMatch syncCode tags env, rfl, rfl⟩
  · exact hchunks

theorem sameBlocks_finishEvent (self : FwIsoIrMultiple)
    (bytesPerChunk bytesPerBuffer accumLength : UInt32) (answers : Nat → QueueAnswer) :
    SameBlocks self
      (finishEvent bytesPerChunk bytesPerBuffer accumLength answers self).state := by
  simp only [finishEvent]
  split
  · exact .refl self
  have hchunks := sameBlocks_registerChunks
    (((self.prevOffset + accumLength) / bytesPerChunk).toNat -
      (self.prevOffset / bytesPerChunk).toNat) self
  split
  · split
    · exact hchunks
    · exact hchunks.trans ⟨.queueChunks _ answers, rfl, rfl⟩
  · exact hchunks

theorem sameBlocks_store (self : FwIsoIrMultiple) (mem : ByteMem) (records : List CtxPayload) :
    SameBlocks self ({ self with mem := mem }.store records) := by
  refine ⟨.refl self.state, rfl, ?_⟩
  show ((self.ctxPayloads.map _).map PayloadArray.id).toList = _
  rw [Option.map_map]
  rfl

theorem sameBlocks_getPayload (self : FwIsoIrMultiple) (index : UInt32) :
    SameBlocks self (self.getPayload index).1 := by
  have hconcat : ∀ {block : Block} (bytes : ByteMem), self.concatFrames = some block →
      SameBlocks self { self with concatFrames := some { block with bytes := bytes } } := by
    intro block bytes hblock
    refine ⟨.refl self.state, ?_, rfl⟩
    show [block.id] = blockIds self.concatFrames
    rw [hblock]
    rfl
  simp only [getPayload]
  split
  · exact .refl self
  split
  · exact .refl self
  split
  · exact .refl self
  split
  · split
    next block _ hblock =>
      split
      · exact .refl self
      split
      · exact hconcat _ hblock
      split
      · exact .refl self
      · exact hconcat _ hblock
    · exact .refl self
  · exact .refl self

theorem accounted : Accounted FwIsoIrMultiple where
  setState _ _ hstore := ⟨hstore, rfl, rfl⟩
  freed _ := rfl
  kept _ := rfl
  release _ := ⟨⟨rfl, rfl⟩, rfl, rfl⟩
  handleEvent ev env c := by
    cases ev with
    | isoInterrupt ev => exact .refl c.priv
    | isoInterruptMc ev =>
      simp only [FwIsoCtx.handleEvent, handleEvent]
      split
      · exact .refl c.priv
      next accumLength records _ =>
        exact ⟨sameBlocks_store c.priv env.buffer records, fun c =>
          sameBlocks_finishEvent c.priv _ _ _ env.queueIso⟩
    | other => exact .refl c.priv

theorem owned_payloads {held lost : List Nat} {h : Heap} (ho : Heap.Owned held lost h)
    (count : UInt32) (fill : Nat → CtxPayload) :
    let array : Option PayloadArray :=
      if count.toNat = 0 then none else some ⟨h.next, count.toNat, fill⟩
    Heap.Owned ((array.map PayloadArray.id).toList ++ held) lost
      (gMallocNHeap count sizeofCtxPayload h) := by
  have h8 : sizeofCtxPayload.toNat = 8 := rfl
  rw [gMallocNHeap, h8]
  by_cases hcount : count.toNat = 0
  · simp only [hcount, Nat.zero_mul, if_true]
    exact ho
  · have hbytes : ¬ count.toNat * 8 = 0 := by omega
    simp only [hcount, hbytes, if_false]
    exact ho.malloc

/-- **Mapping** gives up `concat_frames`, and `ctx_payloads` when it succeeds. -/
theorem owned_mapBuffer {self : FwIsoIrMultiple} {lost : List Nat} {h : Heap}
    (hunmapped : self.state.addr = .null → blockIds self.state.data = [])
    (ho : Heap.Owned (heldBlocks self) lost h) (bytesPerChunk chunksPerBuffer : UInt32)
    (env : MapMultipleEnv) {concatHeap dataHeap : Heap}
    (hconcat : gMallocNHeap 4 ((bytesPerChunk + 3) / 4 * 4) h = concatHeap)
    (hdata : self.state.mapHeap ((bytesPerChunk + 3) / 4 * 4) chunksPerBuffer concatHeap = dataHeap)
    (hconcatBlock : env.concatBlock = h.next) (hdataBlock : env.dataBlock = concatHeap.next)
    (hpayloadsBlock : env.payloadsBlock = dataHeap.next) :
    let o := self.mapBuffer bytesPerChunk chunksPerBuffer env
    (o.state.state.addr = .null → blockIds o.state.state.data = []) ∧
      ∃ lost', lost'.length = lost.length + ((blockIds self.concatFrames).length +
          if o.ret = .success then (HasBlocks.kept self).length else 0) ∧
        Heap.Owned (heldBlocks o.state) lost' (if o.ret = .success then
          gMallocNHeap (o.state.state.bytesPerChunk * o.state.state.chunksPerBuffer / 8 / 2)
            sizeofCtxPayload dataHeap
        else dataHeap) := by
  -- the old buffer is written over
  have hlost : Heap.Owned (blockIds self.state.data ++ HasBlocks.kept self)
      (blockIds self.concatFrames ++ lost) h := by
    refine (ho.congr ?_).lose
    rw [← List.append_assoc]
    exact List.perm_append_comm.append_right _
  have hframes := (owned_gMallocN hlost env.concatFill 4 ((bytesPerChunk + 3) / 4 * 4)).congr
    (List.perm_append_comm_assoc ..)
  rw [hconcat, ← hconcatBlock] at hframes
  obtain ⟨hunmapped', hstore⟩ := FwIsoCtxState.owned_mapBuffer hunmapped hframes
    ((bytesPerChunk + 3) / 4 * 4) chunksPerBuffer env.toMapEnv hdataBlock
  rw [hdata] at hstore
  generalize ho' : self.state.mapBuffer ((bytesPerChunk + 3) / 4 * 4) chunksPerBuffer
    env.toMapEnv = o at hunmapped' hstore
  by_cases hret : o.ret = .success
  · -- so is the old array
    have hkept : Heap.Owned (blockIds o.state.data ++
        blockIds (gMallocN env.concatBlock env.concatFill 4 ((bytesPerChunk + 3) / 4 * 4)))
        (HasBlocks.kept self ++ (blockIds self.concatFrames ++ lost)) dataHeap := by
      refine (hstore.congr ?_).lose
      rw [← List.append_assoc]
      exact List.perm_append_comm
    have harray := (owned_payloads hkept
      (o.state.bytesPerChunk * o.state.chunksPerBuffer / 8 / 2) env.payloadsFill).congr
        List.perm_append_comm
    rw [← hpayloadsBlock] at harray
    simp only [mapBuffer, ho', hret, Out.map_ret, if_true]
    refine ⟨hunmapped', _, ?_, harray⟩
    rw [List.length_append, List.length_append]
    omega
  · have hmap : self.mapBuffer bytesPerChunk chunksPerBuffer env = o.map fun st => { self with
        state := st
        concatFrames :=
          gMallocN env.concatBlock env.concatFill 4 ((bytesPerChunk + 3) / 4 * 4) } := by
      simp only [mapBuffer, ho']
    rw [hmap]
    simp only [Out.map_ret, hret, if_false, Nat.add_zero]
    rw [← List.append_assoc] at hstore
    refine ⟨hunmapped', _, ?_, hstore⟩
    rw [List.length_append, Nat.add_comm]

theorem mapBufferOnHeap_adds (bytesPerChunk chunksPerBuffer : UInt32) (env : MapMultipleEnv)
    (y : Ctx FwIsoIrMultiple × Heap) :
    ∃ ret y', mapBufferOnHeap bytesPerChunk chunksPerBuffer env y = .done ret y' ∧
      ∀ n, Accounts n y →
        Accounts (n + overwritten (.mapBuffer bytesPerChunk chunksPerBuffer env) y) y' := by
  refine ⟨_, _, rfl, fun n ha => ?_⟩
  obtain ⟨hunmapped, lost, rfl, hlost⟩ := ha
  obtain ⟨hunmapped', lost', hlength, hlost'⟩ := owned_mapBuffer hunmapped hlost bytesPerChunk
    chunksPerBuffer { env with concatBlock := _, dataBlock := _, payloadsBlock := _ }
    rfl rfl rfl rfl rfl
  refine ⟨hunmapped', lost', ?_, hlost'⟩
  rw [hlength, overwritten, (mapBuffer_state ..).2.1, (mapBuffer_state ..).2.1]
  rw [FwIsoCtxState.ret_mapBuffer_congr]
  rfl

theorem allocateOnHeap_paced (path : Option String) (channels : List UInt8) (env : AllocateEnv)
    (setIsoChannels : Except Nat UInt64) (bigEndian : Bool) (y : Ctx FwIsoIrMultiple × Heap) :
    (allocateOnHeap path channels env setIsoChannels bigEndian y).Paced
      (OnHeap.Keeps FwIsoIrMultiple) (OnHeap.Keeps FwIsoIrMultiple) y := by
  obtain ⟨c, h⟩ := y
  simp only [allocateOnHeap]
  split
  · exact fun _ => id
  split
  · exact fun _ => id
  have hstate : ∀ {c' : Ctx FwIsoIrMultiple}, SameBlocks c.priv c'.priv →
      OnHeap.Keeps FwIsoIrMultiple (c, h) (c', h) := fun hsame _ ha => ha.same hsame
  have hallocated : SameBlocks c.priv { c.priv with
      state := (c.priv.state.allocate path .irMultiple 0 0 0 env).state } :=
    ⟨.allocate c.priv.state path .irMultiple 0 0 0 env, rfl, rfl⟩
  have hrelease : ∀ (c' : Ctx FwIsoIrMultiple) (ret : Ret), SameBlocks c.priv c'.priv →
      ((OnHeap.release (c', h)).bind fun _ y => .done ret y).Paced
        (OnHeap.Keeps FwIsoIrMultiple) (OnHeap.Keeps FwIsoIrMultiple) (c, h) := by
    intro c' ret hsame
    have hpaced := (OnHeap.release_paced accounted (c', h)).andThen OnHeap.keeps_trans
      OnHeap.keeps_trans (f := fun _ y => .done ret y) fun _ _ _ _ _ => id
    exact hpaced.behind OnHeap.keeps_trans OnHeap.keeps_trans (hstate hsame)
  split
  · split
    · exact hrelease _ _ hallocated
    · split
      · exact hrelease _ _ hallocated
      · exact hstate (hallocated.trans ⟨.refl _, rfl, rfl⟩)
  · exact hstate hallocated

theorem allocateOnHeap_covers (path : Option String) (channels : List UInt8) (env : AllocateEnv)
    (setIsoChannels : Except Nat UInt64) (bigEndian : Bool) (y : Ctx FwIsoIrMultiple × Heap) :
    (allocateOnHeap path channels env setIsoChannels bigEndian y).Covers
      (allocate path channels env setIsoChannels bigEndian y.1) := by
  obtain ⟨c, h⟩ := y
  have hrelease : ∀ (c : Ctx FwIsoIrMultiple) (ret : Ret),
      ((OnHeap.release (c, h)).bind fun _ y => .done ret y).Covers
        (c.release.bind fun _ c => .done ret c) := by
    intro c ret
    apply Act.Covers.bind _ (OnHeap.release_covers (c, h))
    intro _ _ c h
    exact ⟨ret, h, rfl⟩
  simp only [allocateOnHeap, allocate]
  split
  · exact ⟨_, _, rfl⟩
  split
  · exact ⟨_, _, rfl⟩
  simp only [Ctx.perform, Act.bind, Out.map_ret]
  generalize (c.priv.state.allocate path .irMultiple 0 0 0 env).ret = ret
  cases ret with
  | success =>
    cases setIsoChannels with
    | error errno => exact hrelease _ _
    | ok mask =>
      dsimp only
      split
      · exact hrelease _ _
      · exact ⟨_, _, rfl⟩
  | failure error => exact ⟨_, _, rfl⟩
  | rejected => exact ⟨_, _, rfl⟩
  | crashed fault => exact ⟨_, _, rfl⟩

theorem execOnHeap_paced (op : Op) (y : Ctx FwIsoIrMultiple × Heap) :
    overwritten op y = 0 ∧ (execOnHeap op y).Paced (OnHeap.Keeps FwIsoIrMultiple)
        (OnHeap.Keeps FwIsoIrMultiple) y ∨
      ∃ ret y', execOnHeap op y = .done ret y' ∧
        ∀ n, Accounts n y → Accounts (n + overwritten op y) y' := by
  obtain ⟨c, h⟩ := y
  cases op with
  | allocate path channels env set bigEndian =>
    exact .inl ⟨rfl, allocateOnHeap_paced path channels env set bigEndian (c, h)⟩
  | mapBuffer bytes chunks env => exact .inr (mapBufferOnHeap_adds bytes chunks env (c, h))
  | start cycleMatch syncCode tags irq env =>
    exact .inl ⟨rfl, OnHeap.quiet_paced (x := exec (.start cycleMatch syncCode tags irq env) c)
      (sameBlocks_start c.priv cycleMatch syncCode tags irq env) h⟩
  | getPayload index =>
    exact .inl ⟨rfl, OnHeap.quiet_paced (x := exec (.getPayload index) c)
      (sameBlocks_getPayload c.priv index) h⟩
  | stop => exact .inl ⟨rfl, OnHeap.quiet_paced (accounted.stop c) h⟩
  | unmapBuffer => exact .inl ⟨rfl, OnHeap.unmapBuffer_paced accounted (c, h)⟩
  | release => exact .inl ⟨rfl, OnHeap.release_paced accounted (c, h)⟩
  | dispatch w => exact .inl ⟨rfl, OnHeap.quiet_paced (accounted.dispatch w c) h⟩

theorem execOnHeap_covers (op : Op) (y : Ctx FwIsoIrMultiple × Heap) :
    ∃ op₀, (execOnHeap op y).Covers (exec op₀ y.1) := by
  obtain ⟨c, h⟩ := y
  cases op with
  | allocate path channels env set bigEndian =>
    exact ⟨.allocate path channels env set bigEndian,
      allocateOnHeap_covers path channels env set bigEndian (c, h)⟩
  | mapBuffer bytes chunks env => exact ⟨.mapBuffer bytes chunks _, _, _, rfl⟩
  | start cycleMatch syncCode tags irq env =>
    exact ⟨.start cycleMatch syncCode tags irq env, OnHeap.quiet_covers _ h⟩
  | getPayload index => exact ⟨.getPayload index, OnHeap.quiet_covers _ h⟩
  | stop => exact ⟨.stop, OnHeap.quiet_covers _ h⟩
  | unmapBuffer => exact ⟨.unmapBuffer, OnHeap.unmapBuffer_covers (c, h)⟩
  | release => exact ⟨.release, OnHeap.release_covers (c, h)⟩
  | dispatch w => exact ⟨.dispatch w, OnHeap.quiet_covers _ h⟩

end FwIsoIrMultiple

/-! ### Runs -/

theorem accounts_of_paced {π ο : Type} [FwIsoCtx π] [HasBlocks π] (new : π)
    {execOnHeap : ο → Ctx π × Heap → Act (Ctx π × Heap) Ret}
    (hexec : ∀ op y, (execOnHeap op y).Paced (OnHeap.Keeps π) (OnHeap.Keeps π) y)
    (hnew : Accounts 0 ((⟨new, []⟩, {}) : Ctx π × Heap)) (ms : List (Move ο)) :
    Accounts 0 (run execOnHeap ⟨(⟨new, []⟩, {}), []⟩ ms).state :=
  run_paced (fun _ _ => id) OnHeap.keeps_trans ms (fun op _ => hexec op)
    (c := ⟨(⟨new, []⟩, {}), []⟩) (fun _ hk => absurd hk List.not_mem_nil) 0 hnew

theorem Accounts.owned_of_zero {π : Type} [FwIsoCtx π] [HasBlocks π] {y : Ctx π × Heap}
    (ha : Accounts 0 y) : Heap.Owned (heldBlocks y.1.priv) [] y.2 := by
  obtain ⟨lost, hlength, howned⟩ := ha.owned
  rw [List.eq_nil_of_length_eq_zero hlength] at howned
  exact howned

theorem FwIsoIt.accounts_of_run (ms : List (Move Op)) :
    Accounts 0 (run execOnHeap ⟨(⟨new, []⟩, {}), []⟩ ms).state :=
  accounts_of_paced new execOnHeap_paced ⟨fun _ => rfl, [], rfl, .init⟩ ms

theorem FwIsoIrSingle.accounts_of_run (ms : List (Move Op)) :
    Accounts 0 (run execOnHeap ⟨(⟨new, []⟩, {}), []⟩ ms).state :=
  accounts_of_paced new execOnHeap_paced ⟨fun _ => rfl, [], rfl, .init⟩ ms

theorem FwIsoIrMultiple.accounts_of_run (ms : List (Move Op)) :
    Accounts (tally execOnHeap overwritten ⟨(⟨new, []⟩, {}), []⟩ ms)
      (run execOnHeap ⟨(⟨new, []⟩, {}), []⟩ ms).state := by
  have hnew : Accounts 0 ((⟨new, []⟩, {}) : Ctx FwIsoIrMultiple × Heap) :=
    ⟨fun _ => rfl, [], rfl, .init⟩
  have haccounts := tally_of_run execOnHeap_paced ms (c := ⟨(⟨new, []⟩, {}), []⟩) hnew
    fun k hk => absurd hk List.not_mem_nil
  rwa [Nat.zero_add] at haccounts

/-- **The blocks of a context in a run**: no block is given back that is not there.  IT and
single-channel IR contexts hold what is there; a multiple-channel IR context holds all but what
`map_buffer` has written over. -/
theorem heap_of_run :
    (∀ ms : List (Move FwIsoIt.Op),
      let y := (run FwIsoIt.execOnHeap ⟨(⟨.new, []⟩, {}), []⟩ ms).state
      (∃ ns, y.1 = (run FwIsoIt.exec ⟨⟨.new, []⟩, []⟩ ns).state) ∧
        Heap.Owned (heldBlocks y.1.priv) [] y.2) ∧
    (∀ ms : List (Move FwIsoIrSingle.Op),
      let y := (run FwIsoIrSingle.execOnHeap ⟨(⟨.new, []⟩, {}), []⟩ ms).state
      (∃ ns, y.1 = (run FwIsoIrSingle.exec ⟨⟨.new, []⟩, []⟩ ns).state) ∧
        Heap.Owned (heldBlocks y.1.priv) [] y.2) ∧
    ∀ ms : List (Move FwIsoIrMultiple.Op),
      let y := (run FwIsoIrMultiple.execOnHeap ⟨(⟨.new, []⟩, {}), []⟩ ms).state
      (∃ ns, y.1 = (run FwIsoIrMultiple.exec ⟨⟨.new, []⟩, []⟩ ns).state) ∧
        ∃ lost, lost.length = tally FwIsoIrMultiple.execOnHeap FwIsoIrMultiple.overwritten
            ⟨(⟨.new, []⟩, {}), []⟩ ms ∧
          Heap.Owned (heldBlocks y.1.priv) lost y.2 := by
  refine ⟨fun ms => ⟨?_, ?_⟩, fun ms => ⟨?_, ?_⟩, fun ms => ⟨?_, ?_⟩⟩
  · exact covered_of_init (fun op y => .inl (FwIsoIt.execOnHeap_covers op y)) ms _ _
  · exact (FwIsoIt.accounts_of_run ms).owned_of_zero
  · exact covered_of_init (fun op y => .inl (FwIsoIrSingle.execOnHeap_covers op y)) ms _ _
  · exact (FwIsoIrSingle.accounts_of_run ms).owned_of_zero
  · exact covered_of_init (fun op y => .inl (FwIsoIrMultiple.execOnHeap_covers op y)) ms _ _
  · exact (FwIsoIrMultiple.accounts_of_run ms).owned

/-- **What a context leaves behind** at the end of its life, whatever has been done in it: IT and
single-channel IR contexts leave nothing; a multiple-channel IR context leaves what `map_buffer` has
written over, and the last `ctx_payloads`. -/
theorem leftover_of_run :
    (∀ ms : List (Move FwIsoIt.Op),
      let y := (run FwIsoIt.execOnHeap ⟨(⟨.new, []⟩, {}), []⟩ ms).state
      (OnHeap.finalize y).2.live = [] ∧ (OnHeap.finalize y).2.faults = 0) ∧
    (∀ ms : List (Move FwIsoIrSingle.Op),
      let y := (run FwIsoIrSingle.execOnHeap ⟨(⟨.new, []⟩, {}), []⟩ ms).state
      (OnHeap.finalize y).2.live = [] ∧ (OnHeap.finalize y).2.faults = 0) ∧
    ∀ ms : List (Move FwIsoIrMultiple.Op),
      let y := (run FwIsoIrMultiple.execOnHeap ⟨(⟨.new, []⟩, {}), []⟩ ms).state
      (OnHeap.finalize y).2.live.length = tally FwIsoIrMultiple.execOnHeap
            FwIsoIrMultiple.overwritten ⟨(⟨.new, []⟩, {}), []⟩ ms +
          (if y.1.priv.ctxPayloads.isSome then 1 else 0) ∧
        (OnHeap.finalize y).2.faults = 0 := by
  refine ⟨fun ms => ?_, fun ms => ?_, fun ms => ?_⟩
  · have hleft := OnHeap.length_live_finalize FwIsoIt.accounted (FwIsoIt.accounts_of_run ms)
    exact ⟨List.eq_nil_of_length_eq_zero hleft.1, hleft.2⟩
  · have hleft := OnHeap.length_live_finalize FwIsoIrSingle.accounted
      (FwIsoIrSingle.accounts_of_run ms)
    exact ⟨List.eq_nil_of_length_eq_zero hleft.1, hleft.2⟩
  · have hleft := OnHeap.length_live_finalize FwIsoIrMultiple.accounted
      (FwIsoIrMultiple.accounts_of_run ms)
    refine ⟨hleft.1.trans (congrArg _ ?_), hleft.2⟩
    show (Option.map PayloadArray.id _).toList.length = _
    rw [Option.length_toList, Option.isSome_map]

/-- The first array is lost with the second mapping, and the second one stays behind. -/
example :
    let map : FwIsoIrMultiple.Op :=
      .mapBuffer 16 2 ⟨⟨0, fun _ => 0, .ok 0⟩, 0, fun _ => 0, 0, fun _ => ⟨0, 0⟩⟩
    let y := (run FwIsoIrMultiple.execOnHeap ⟨(⟨.new, []⟩, {}), []⟩
      [.call (.allocate (some "/dev/fw0") [0] ⟨.ok 3, none, .ok 0⟩ (.ok 1) false),
        .call map, .call .unmapBuffer, .call map]).state
    (OnHeap.finalize y).2.live = [5, 2] := by
  decide

end Hinoko
