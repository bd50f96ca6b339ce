import Hinoko.Atomic
import Hinoko.Encoding
import Hinoko.Interrupts
import Hinoko.Lib.Pulse
import Hinoko.Lib.Recording

/-!
# The cadence of interrupts

A multiple-channel context counts the calls of `fw_iso_ir_multiple_register_chunk` since it was
started, to let every `chunks_per_irq`-th schedule an interrupt.  The count is cut down to its
remainder before it gets too large.

The calls do not show in the state, and those that are refused not in the effects either.  So they
are recorded: `startCalls` and `finishCalls` list the objects at which a start and an event call the
function.

* `countsOn_finishEvent`: one event goes on counting where the object stands.
* `cadence_of_run`: from a start to the next one, every `chunks_per_irq`-th call schedules an
  interrupt.
-/

namespace Hinoko

open Reentrant Bitfield

namespace FwIsoIrMultiple

/-! ### Calls -/

def Schedules (self : FwIsoIrMultiple) : Prop :=
  0 < self.chunksPerIrq ∧ (self.accumulatedChunkCount + 1) % self.chunksPerIrq = 0

instance (self : FwIsoIrMultiple) : Decidable self.Schedules :=
  inferInstanceAs (Decidable (_ ∧ _))

theorem registerChunk_eq (self : FwIsoIrMultiple) : self.registerChunk =
    (self.state.registerChunk false 0 0 .null 0 self.Schedules).map fun st => { self with
      state := st
      accumulatedChunkCount := nextCount self.chunksPerIrq self.accumulatedChunkCount } := rfl

/-- The objects at which `registerChunks` calls `registerChunk`, also the one that is refused. -/
def registerCalls : Nat → FwIsoIrMultiple → List FwIsoIrMultiple
  | 0, _ => []
  | n + 1, self =>
    match self.registerChunk.ret with
    | .success => self :: registerCalls n self.registerChunk.state
    | _ => [self]

def startCalls (self : FwIsoIrMultiple) (cycleMatch : Option (UInt16 × UInt16))
    (syncCode chunksPerIrq : UInt32) : List FwIsoIrMultiple :=
  if ¬ FwIsoCtxState.acceptsCycleMatch cycleMatch then []
  else if 15 < syncCode then []
  else if self.state.chunksPerBuffer ≤ chunksPerIrq then []
  else
    registerCalls self.state.chunksPerBuffer.toNat
      { self with chunksPerIrq := chunksPerIrq, accumulatedChunkCount := 0 }

def finishCalls (bytesPerChunk accumLength : UInt32) (self : FwIsoIrMultiple) :
    List FwIsoIrMultiple :=
  if bytesPerChunk = 0 then []
  else
    let chunkPos := self.prevOffset / bytesPerChunk
    let chunkEnd := (self.prevOffset + accumLength) / bytesPerChunk
    registerCalls (chunkEnd.toNat - chunkPos.toNat) self

/-- The calls that an operation makes before it first waits. -/
def callsAtOnce : Op → Ctx FwIsoIrMultiple → List FwIsoIrMultiple
  | .start cycleMatch syncCode _ irq _, c => c.priv.startCalls cycleMatch syncCode irq
  | _, _ => []

/-- The calls that an operation, called in the first state, makes when it goes on in the second. -/
def callsOnResume : Op → Ctx FwIsoIrMultiple → Ctx FwIsoIrMultiple → List FwIsoIrMultiple
  | .dispatch (.event (.isoInterruptMc ev) env), c, c' =>
    match { c.priv with mem := env.buffer }.parseEvent ev.completed with
    | .error _ => []
    | .ok (accumLength, _) => c'.priv.finishCalls c.priv.state.bytesPerChunk accumLength
  | _, _, _ => []

def recordedExec : Op → Ctx FwIsoIrMultiple × List FwIsoIrMultiple →
    Act (Ctx FwIsoIrMultiple × List FwIsoIrMultiple) Ret :=
  recording exec callsAtOnce callsOnResume

def chunksOf (es : List Effect) : List IsoPacket :=
  es.filterMap fun
    | .chunk packet => some packet
    | _ => none

/-! ### One call after the other -/

/-- The calls go through the counts, one after the other. -/
def Threads (irq : UInt32) : UInt32 → List FwIsoIrMultiple → UInt32 → Prop
  | count, [], count' => count' = count
  | count, self :: calls, count' => self.chunksPerIrq = irq ∧ self.accumulatedChunkCount = count ∧
      Threads irq (nextCount irq count) calls count'

theorem Threads.append {irq : UInt32} : ∀ {calls calls' : List FwIsoIrMultiple}
    {count count' count'' : UInt32}, Threads irq count calls count' →
      Threads irq count' calls' count'' → Threads irq count (calls ++ calls') count'' := by
  intro calls
  induction calls with
  | nil =>
    intro calls' count count' count'' h h'
    rwa [← show count' = count from h]
  | cons self calls ih => exact fun h h' => ⟨h.1, h.2.1, ih h.2.2 h'⟩

theorem Threads.getElem {irq : UInt32} : ∀ {calls : List FwIsoIrMultiple} {count count' : UInt32},
    Threads irq count calls count' → ∀ k (hk : k < calls.length), calls[k].chunksPerIrq = irq ∧
      calls[k].accumulatedChunkCount = (nextCount irq)^[k] count := by
  intro calls
  induction calls with
  | nil => exact fun _ k hk => absurd hk (Nat.not_lt_zero k)
  | cons self calls ih =>
    intro count count' h k hk
    cases k with
    | zero => exact ⟨h.1, h.2.1⟩
    | succ k => exact ih h.2.2 k (Nat.lt_of_succ_lt_succ hk)

theorem threads_registerCalls : ∀ (n : Nat) (self : FwIsoIrMultiple),
    Threads self.chunksPerIrq self.accumulatedChunkCount (registerCalls n self)
      (registerChunks n self).state.accumulatedChunkCount := by
  intro n
  induction n with
  | zero => exact fun self => rfl
  | succ n ih =>
    intro self
    cases hret : self.registerChunk.ret with
    | success =>
      simp only [registerCalls, registerChunks, hret]
      exact ⟨rfl, rfl, ih self.registerChunk.state⟩
    | _ =>
      simp only [registerCalls, registerChunks, hret]
      exact ⟨rfl, rfl, rfl⟩

theorem chunksOf_append (es es' : List Effect) :
    chunksOf (es ++ es') = chunksOf es ++ chunksOf es' :=
  List.filterMap_append ..

theorem chunksOf_of_none {es : List Effect} (h : ∀ e ∈ es, ∀ packet, e ≠ .chunk packet) :
    chunksOf es = [] := by
  refine List.filterMap_eq_nil_iff.mpr fun e he => ?_
  cases e with
  | chunk packet => exact absurd rfl (h _ he packet)
  | _ => rfl

/-- Every chunk that the loop puts into the store comes from one of its calls. -/
theorem chunksOf_registerChunks : ∀ (n : Nat) (self : FwIsoIrMultiple),
    chunksOf (registerChunks n self).effects =
      (registerCalls n self).flatMap fun self => chunksOf self.registerChunk.effects := by
  intro n
  induction n with
  | zero => exact fun self => rfl
  | succ n ih =>
    intro self
    cases hret : self.registerChunk.ret with
    | success =>
      simp only [registerCalls, registerChunks, hret]
      rw [chunksOf_append, ih, List.flatMap_cons]
    | _ =>
      simp only [registerCalls, registerChunks, hret]
      rw [List.flatMap_singleton]

/-! ### Stretches -/

/-- What comes between: the calls go on from the count of the first state to that of the second, and
every chunk comes from one of them. -/
structure CountsOn (c : Ctx FwIsoIrMultiple) (calls : List FwIsoIrMultiple)
    (c' : Ctx FwIsoIrMultiple) : Prop where
  chunksPerIrq : c'.priv.chunksPerIrq = c.priv.chunksPerIrq
  threads : Threads c.priv.chunksPerIrq c.priv.accumulatedChunkCount calls
    c'.priv.accumulatedChunkCount
  chunks : chunksOf c'.effects = chunksOf c.effects ++
    calls.flatMap fun self => chunksOf self.registerChunk.effects

namespace CountsOn

theorem refl (c : Ctx FwIsoIrMultiple) : CountsOn c [] c := ⟨rfl, rfl, (List.append_nil _).symm⟩

theorem trans (a b c : Ctx FwIsoIrMultiple) (calls calls' : List FwIsoIrMultiple)
    (h : CountsOn a calls b) (h' : CountsOn b calls' c) : CountsOn a (calls ++ calls') c := by
  refine ⟨h'.chunksPerIrq.trans h.chunksPerIrq, h.threads.append ?_, ?_⟩
  · rw [← h.chunksPerIrq]
    exact h'.threads
  · rw [h'.chunks, h.chunks, List.flatMap_append, List.append_assoc]

theorem after {c : Ctx FwIsoIrMultiple} {o : Out FwIsoIrMultiple}
    (hirq : o.state.chunksPerIrq = c.priv.chunksPerIrq)
    (hcount : o.state.accumulatedChunkCount = c.priv.accumulatedChunkCount)
    (hnone : ∀ e ∈ o.effects, ∀ packet, e ≠ .chunk packet) : CountsOn c [] (c.after o) := by
  refine ⟨hirq, hcount, ?_⟩
  rw [Ctx.after_effects, chunksOf_append, chunksOf_of_none hnone]
  rfl

theorem note {c : Ctx FwIsoIrMultiple} {e : Effect} {p : FwIsoIrMultiple}
    (hirq : p.chunksPerIrq = c.priv.chunksPerIrq)
    (hcount : p.accumulatedChunkCount = c.priv.accumulatedChunkCount)
    (hnone : ∀ packet, e ≠ .chunk packet) :
    CountsOn c [] (({ c with priv := p } : Ctx FwIsoIrMultiple).note e) := by
  have hone : chunksOf [e] = [] := chunksOf_of_none fun e' he' => by
    rw [List.mem_singleton.mp he']
    exact hnone
  refine ⟨hirq, hcount, ?_⟩
  rw [Ctx.note_effects, chunksOf_append, hone]
  rfl

theorem stop (c : Ctx FwIsoIrMultiple) :
    CountsOn c [] (c.after (Ctx.onState FwIsoCtxState.stop c.priv)) :=
  after rfl rfl fun e he packet => by
    rw [c.priv.state.stop_effects e he]
    rintro ⟨⟩

theorem unmapBuffer (c : Ctx FwIsoIrMultiple) :
    CountsOn c [] (c.after (FwIsoCtx.unmapBuffer c.priv)) :=
  after rfl rfl fun e he packet => by
    rw [c.priv.state.unmapBuffer_effects e he]
    rintro ⟨⟩

theorem release (c : Ctx FwIsoIrMultiple) : CountsOn c [] (c.after (FwIsoCtx.release c.priv)) :=
  after rfl rfl fun e he packet => by
    rw [c.priv.state.release_effects e he]
    rintro ⟨⟩

theorem mapBuffer (bytes chunks : UInt32) (env : MapMultipleEnv) (c : Ctx FwIsoIrMultiple) :
    CountsOn c [] (c.after (c.priv.mapBuffer bytes chunks env)) := by
  have hsame : (c.priv.mapBuffer bytes chunks env).state.chunksPerIrq = c.priv.chunksPerIrq ∧
      (c.priv.mapBuffer bytes chunks env).state.accumulatedChunkCount =
        c.priv.accumulatedChunkCount := by
    simp only [FwIsoIrMultiple.mapBuffer]
    split <;> exact ⟨rfl, rfl⟩
  refine after hsame.1 hsame.2 fun e he packet => ?_
  rw [(c.priv.mapBuffer_state bytes chunks env).2.2] at he
  rcases c.priv.state.mapBuffer_cases ((bytes + 3) / 4 * 4) chunks env.toMapEnv with
    hr | ⟨_, heffects, _⟩
  · rw [hr.effects] at he
    cases he
  · rw [heffects, List.mem_singleton] at he
    rw [he]
    rintro ⟨⟩

theorem getPayload (index : UInt32) (c : Ctx FwIsoIrMultiple) :
    CountsOn c [] (c.after (askPayload index c.priv)) := by
  obtain ⟨concat, hasked, _⟩ := asked_getPayload c.priv index
  refine after ?_ ?_ fun e he => absurd he List.not_mem_nil
  · rw [askPayload, hasked]
  · rw [askPayload, hasked]

theorem allocateState (path : Option String) (env : AllocateEnv) (c : Ctx FwIsoIrMultiple) :
    CountsOn c [] (c.after (allocateState path env c.priv)) :=
  after rfl rfl fun e he packet => by
    rintro rfl
    exact c.priv.state.allocate_effects path .irMultiple 0 0 0 env _ he

theorem registers {c : Ctx FwIsoIrMultiple} (n : Nat) {o : Out FwIsoIrMultiple} {es : List Effect}
    (hirq : o.state.chunksPerIrq = (registerChunks n c.priv).state.chunksPerIrq)
    (hcount : o.state.accumulatedChunkCount =
      (registerChunks n c.priv).state.accumulatedChunkCount)
    (heffects : o.effects = (registerChunks n c.priv).effects ++ es)
    (hnone : ∀ e ∈ es, ∀ packet, e ≠ .chunk packet) :
    CountsOn c (registerCalls n c.priv) (c.after o) := by
  obtain ⟨_, st, count, hsame⟩ := registerChunks_same n c.priv
  refine ⟨?_, ?_, ?_⟩
  · rw [Ctx.after_priv, hirq, hsame]
  · rw [Ctx.after_priv, hcount]
    exact threads_registerCalls n c.priv
  · rw [Ctx.after_effects, heffects, chunksOf_append, chunksOf_append, chunksOf_registerChunks,
      chunksOf_of_none hnone, List.append_nil]

end CountsOn

theorem queueChunks_ne_chunk (st : FwIsoCtxState) (answers : Nat → QueueAnswer) :
    ∀ e ∈ (st.queueChunks answers).effects, ∀ packet, e ≠ .chunk packet := by
  intro e he packet
  rcases (st.queueChunks_cases answers).1 e he with rfl | ⟨_, _, _, rfl⟩ <;> rintro ⟨⟩

theorem start_ne_chunk (st : FwIsoCtxState) (cycleMatch : Option (UInt16 × UInt16))
    (syncCode tags : UInt32) (env : StartEnv) :
    ∀ e ∈ (st.start cycleMatch syncCode tags env).effects, ∀ packet, e ≠ .chunk packet := by
  intro e he packet
  rcases st.start_effects cycleMatch syncCode tags env e he with he | ⟨accepted, rfl⟩
  · exact queueChunks_ne_chunk st env.queueIso e he packet
  · rintro ⟨⟩

/-- **One event goes on counting** where the object stands, whatever happened since its signal. -/
theorem countsOn_finishEvent (bytesPerChunk bytesPerBuffer accumLength : UInt32)
    (answers : Nat → QueueAnswer) (c : Ctx FwIsoIrMultiple) :
    CountsOn c (c.priv.finishCalls bytesPerChunk accumLength)
      (c.after (finishEvent bytesPerChunk bytesPerBuffer accumLength answers c.priv)) := by
  have hnil : ∀ e ∈ ([] : List Effect), ∀ packet, e ≠ .chunk packet := fun _ he =>
    absurd he List.not_mem_nil
  rw [finishCalls, finishEvent]
  split
  · exact .after rfl rfl hnil
  dsimp only
  split
  · split
    · exact .registers _ rfl rfl (List.append_nil _).symm hnil
    · exact .registers _ rfl rfl rfl (queueChunks_ne_chunk _ answers)
  · exact .registers _ rfl rfl (List.append_nil _).symm hnil

/-! ### Operations -/

def Silent (x : Act (Ctx FwIsoIrMultiple) Ret) (c : Ctx FwIsoIrMultiple) : Prop :=
  x.Paced (fun a b => CountsOn a [] b) (fun a b => CountsOn a [] b) c

theorem Silent.behind {c c' : Ctx FwIsoIrMultiple} (h : CountsOn c [] c')
    {x : Act (Ctx FwIsoIrMultiple) Ret} (hx : Silent x c') : Silent x c :=
  Act.Paced.behind (L := fun a b => CountsOn a [] b) (fun _ _ _ h h' => .trans _ _ _ _ _ h h')
    (fun _ _ _ h h' => .trans _ _ _ _ _ h h') h hx

theorem Silent.bind {c : Ctx FwIsoIrMultiple} {x : Act (Ctx FwIsoIrMultiple) Ret}
    {f : Ret → Ctx FwIsoIrMultiple → Act (Ctx FwIsoIrMultiple) Ret} (hx : Silent x c)
    (hf : ∀ ret c, Silent (f ret c) c) : Silent (x.bind f) c :=
  Act.Paced.bind (fun ret _ c' h => (hf ret c').behind h) hx

theorem silent_stop (c : Ctx FwIsoIrMultiple) : Silent c.stop c := by
  simp only [Ctx.stop]
  split
  · exact ⟨.trans _ _ _ _ _ (.stop c) (.note rfl rfl fun _ => Effect.noConfusion),
      fun c' => .refl c'⟩
  · exact .stop c

theorem silent_unmapBuffer (c : Ctx FwIsoIrMultiple) : Silent c.unmapBuffer c :=
  (silent_stop c).bind fun _ c => .unmapBuffer c

theorem silent_release (c : Ctx FwIsoIrMultiple) : Silent c.release c :=
  (silent_unmapBuffer c).bind fun _ c => .release c

theorem silent_allocate (path : Option String) (channels : List UInt8) (env : AllocateEnv)
    (set : Except Nat UInt64) (bigEndian : Bool) (c : Ctx FwIsoIrMultiple) :
    Silent (allocate path channels env set bigEndian c) c := by
  have hfailed : ∀ (ret : Ret) (c : Ctx FwIsoIrMultiple),
      Silent (c.release.bind fun _ c => .done ret c) c := fun ret c =>
    (silent_release c).bind fun _ c => .refl c
  simp only [allocate]
  split
  · exact .refl c
  split
  · exact .refl c
  refine Silent.bind (x := c.perform (allocateState path env)) (.allocateState path env c)
    fun ret c => ?_
  cases ret with
  | success =>
    have hnote : CountsOn c [] (c.note (.setIsoChannels (channelMask channels))) :=
      .note rfl rfl fun _ => Effect.noConfusion
    cases set with
    | error errno => exact (hfailed _ _).behind hnote
    | ok mask =>
      simp only
      split
      · exact (hfailed _ _).behind hnote
      · exact ⟨rfl, rfl, hnote.chunks⟩
  | failure error => exact .refl c
  | rejected => exact .refl c
  | crashed fault => exact .refl c

theorem silent_answer (ret : Ret) (c : Ctx FwIsoIrMultiple) :
    Silent (match ret with
      | .success => .done .success c
      | .crashed fault => .done (.crashed fault) c
      | _ => c.stop) c := by
  cases ret with
  | success => exact .refl c
  | crashed fault => exact .refl c
  | failure error => exact silent_stop c
  | rejected => exact silent_stop c

theorem dispatch_pacedBy (w : Wakeup) (c : Ctx FwIsoIrMultiple) :
    (c.dispatch w).PacedBy CountsOn (callsOnResume (.dispatch w) c) c := by
  have hsilent : ∀ {x : Act (Ctx FwIsoIrMultiple) Ret}, Silent x c →
      x.PacedBy CountsOn (fun _ => []) c := fun hx => Act.Paced.pacedBy .refl hx
  cases w with
  | ioErr => exact hsilent (x := .done .success c) (.refl c)
  | again => exact hsilent (x := .done .success c) (.refl c)
  | readError errno => exact hsilent (silent_stop c)
  | event ev env =>
    cases ev with
    | isoInterrupt ev => exact hsilent (silent_stop c)
    | other => exact hsilent (silent_stop c)
    | isoInterruptMc ev =>
      simp only [Ctx.dispatch, FwIsoCtx.handleEvent, handleEvent]
      cases hparse : { c.priv with mem := env.buffer }.parseEvent ev.completed with
      | error fault =>
        have hcalls : callsOnResume (.dispatch (.event (.isoInterruptMc ev) env)) c =
            fun _ => [] := funext fun c' => by simp only [callsOnResume, hparse]
        rw [hcalls]
        exact hsilent (x := .done (.crashed fault) c) (.refl c)
      | ok parsed =>
        obtain ⟨accumLength, records⟩ := parsed
        have hcalls : callsOnResume (.dispatch (.event (.isoInterruptMc ev) env)) c =
            fun c' => c'.priv.finishCalls c.priv.state.bytesPerChunk accumLength :=
          funext fun c' => by simp only [callsOnResume, hparse]
        rw [hcalls]
        exact ⟨.note rfl rfl fun _ => Effect.noConfusion, fun c' =>
          ⟨_, countsOn_finishEvent _ _ accumLength env.queueIso c', silent_answer _ _⟩⟩

/-- Starting again begins a new count. -/
def Op.IsStart : Op → Prop
  | .start _ _ _ _ _ => True
  | _ => False

/-- **Every other operation** counts on from where the object stands. -/
theorem exec_pacedBy (op : Op) (hop : ¬ op.IsStart) (c : Ctx FwIsoIrMultiple) :
    callsAtOnce op c = [] ∧ (exec op c).PacedBy CountsOn (callsOnResume op c) c := by
  have hsilent : ∀ {x : Act (Ctx FwIsoIrMultiple) Ret}, Silent x c →
      x.PacedBy CountsOn (fun _ => []) c := fun hx => Act.Paced.pacedBy .refl hx
  cases op with
  | allocate path channels env set bigEndian =>
    exact ⟨rfl, hsilent (silent_allocate path channels env set bigEndian c)⟩
  | mapBuffer bytes chunks env => exact ⟨rfl, .mapBuffer bytes chunks env c⟩
  | start cycleMatch syncCode tags irq env => exact absurd trivial hop
  | getPayload index => exact ⟨rfl, .getPayload index c⟩
  | stop => exact ⟨rfl, hsilent (silent_stop c)⟩
  | unmapBuffer => exact ⟨rfl, hsilent (silent_unmapBuffer c)⟩
  | release => exact ⟨rfl, hsilent (silent_release c)⟩
  | dispatch w => exact ⟨rfl, dispatch_pacedBy w c⟩

theorem recordedExec_paced (op : Op) (hop : ¬ op.IsStart)
    (r : Ctx FwIsoIrMultiple × List FwIsoIrMultiple) :
    (recordedExec op r).Paced (Extends CountsOn) (Extends CountsOn) r := by
  obtain ⟨hnone, hpaced⟩ := exec_pacedBy op hop r.1
  rw [recordedExec, recording, hnone, List.append_nil]
  exact Act.recordResume_paced .trans r.2 hpaced

/-- A start that gets past its checks counts from 0. -/
theorem countsOn_start {cycleMatch : Option (UInt16 × UInt16)}
    {syncCode tags chunksPerIrq : UInt32} {env : StartEnv} (c : Ctx FwIsoIrMultiple)
    (hsuccess : (c.priv.start cycleMatch syncCode tags chunksPerIrq env).ret = .success) :
    let c₀ := { c with priv := { c.priv with
      chunksPerIrq := chunksPerIrq, accumulatedChunkCount := 0 } }
    CountsOn c₀ (c.priv.startCalls cycleMatch syncCode chunksPerIrq)
      (c.after (c.priv.start cycleMatch syncCode tags chunksPerIrq env)) := by
  intro c₀
  rw [startCalls]
  rw [start] at hsuccess ⊢
  split at hsuccess
  · cases hsuccess
  next hcycle =>
  split at hsuccess
  · cases hsuccess
  next hsync =>
  split at hsuccess
  · cases hsuccess
  next hirq =>
  rw [if_neg hcycle, if_neg hsync, if_neg hirq, if_neg hcycle, if_neg hsync, if_neg hirq]
  -- the trace has the object as it was before, which does not matter for its effects
  have hsame : ∀ {calls : List FwIsoIrMultiple} {o : Out FwIsoIrMultiple},
      CountsOn c₀ calls (c₀.after o) → CountsOn c₀ calls (c.after o) := fun {calls o} h => by
    have hchunks := h.chunks
    rw [Ctx.after_effects] at hchunks
    refine ⟨h.chunksPerIrq, h.threads, ?_⟩
    rw [Ctx.after_effects]
    exact hchunks
  dsimp only
  split
  · exact hsame (.registers _ rfl rfl rfl (start_ne_chunk _ cycleMatch syncCode tags env))
  · exact hsame (.registers _ rfl rfl (List.append_nil _).symm fun _ he =>
      absurd he List.not_mem_nil)

/-! ### The count -/

/-- **The count does not wrap**, and it goes on like a counter that is cut down to its remainder. -/
theorem nextCount_toNat {irq count : UInt32} (hirq : 0 < irq)
    (hlt : count.toNat < max irq.toNat gMaxInt.toNat) :
    (count + 1).toNat = count.toNat + 1 ∧
      (nextCount irq count).toNat = Pulse.tick irq.toNat gMaxInt.toNat count.toNat := by
  have hmax : gMaxInt.toNat = 2147483647 := rfl
  have hbound := irq.toNat_lt
  have hone : (count + 1).toNat = count.toNat + 1 := by
    rw [UInt32.toNat_add, UInt32.toNat_one]
    omega
  refine ⟨hone, ?_⟩
  rw [nextCount, if_neg (UInt32.pos_iff_ne_zero.mp hirq), Pulse.tick]
  simp only [UInt32.le_iff_toNat_le, hone]
  split
  · rw [UInt32.toNat_mod, hone]
  · exact hone

theorem nextCount_iterate {irq : UInt32} (hirq : 0 < irq) (k : Nat) :
    ((nextCount irq)^[k] 0).toNat % irq.toNat = k % irq.toNat ∧
      ((nextCount irq)^[k] 0).toNat < max irq.toNat gMaxInt.toNat := by
  have hpos : 0 < irq.toNat := UInt32.lt_iff_toNat_lt.mp hirq
  induction k with
  | zero => exact ⟨rfl, lt_max_of_lt_left hpos⟩
  | succ k ih =>
    obtain ⟨hmod, hlt⟩ := ih
    rw [Function.iterate_succ_apply', (nextCount_toNat hirq hlt).2]
    refine ⟨?_, Pulse.tick_lt hpos⟩
    rw [Pulse.tick_mod, Nat.add_mod, hmod, ← Nat.add_mod]

/-- One more does not wrap; a context without interrupts does not count. -/
theorem toNat_iterate_add_one (irq : UInt32) (k : Nat) :
    ((nextCount irq)^[k] 0 + 1).toNat = ((nextCount irq)^[k] 0).toNat + 1 := by
  by_cases hzero : irq = 0
  · rw [Function.iterate_fixed (by rw [nextCount, if_pos hzero])]
    rfl
  · have hirq : 0 < irq := UInt32.pos_iff_ne_zero.mpr hzero
    exact (nextCount_toNat hirq (nextCount_iterate hirq k).2).1

theorem schedules_iff {self : FwIsoIrMultiple} {irq : UInt32} {k : Nat}
    (hirq : self.chunksPerIrq = irq)
    (hcount : self.accumulatedChunkCount = (nextCount irq)^[k] 0) :
    self.Schedules ↔ 0 < irq ∧ irq.toNat ∣ k + 1 := by
  rw [Schedules, hirq]
  refine and_congr_right fun hpos => ?_
  obtain ⟨hmod, hlt⟩ := nextCount_iterate hpos k
  rw [← hcount] at hmod hlt
  rw [← UInt32.toNat_inj, UInt32.toNat_mod, (nextCount_toNat hpos hlt).1, UInt32.toNat_zero,
    Nat.dvd_iff_mod_eq_zero, Nat.add_mod, hmod, ← Nat.add_mod]

/-- A chunk of at most 65532 bytes says whether it schedules an interrupt. -/
theorem interrupt_of_chunk {self : FwIsoIrMultiple} {packet : IsoPacket}
    (hmem : .chunk packet ∈ self.registerChunk.effects)
    (hbytes : self.state.bytesPerChunk ≤ 65532) :
    field packet.control.toNat 16 1 = 1 ↔ self.Schedules := by
  rw [registerChunk_eq, Out.map_effects] at hmem
  rcases self.state.registerChunk_cases false 0 0 .null 0 self.Schedules with
    hr | ⟨_, ⟨_, ho⟩ | ⟨block, _, ho⟩⟩
  · rw [hr.effects] at hmem
    cases hmem
  · rw [ho] at hmem
    cases hmem
  · rw [ho, List.mem_singleton] at hmem
    obtain rfl := Effect.chunk.inj hmem
    have hpl : (if self.state.mode = .it then 0 else self.state.bytesPerChunk : UInt32).toNat <
        65536 := by
      rw [UInt32.le_iff_toNat_le, show (65532 : UInt32).toNat = 65532 from rfl] at hbytes
      split
      · decide
      · omega
    rw [control_datum, field_interrupt _ _ _ _ _ _ hpl]
    by_cases hschedules : self.Schedules <;> simp [hschedules]

/-! ### Runs -/

/-- Of the calls, counted from 1, every `irq`-th schedules an interrupt, or none where that is 0;
the chunks that are accepted say so; the count never wraps; and of `irq` calls in a row one
schedules. -/
structure Cadence (irq : UInt32) (calls : List FwIsoIrMultiple) : Prop where
  schedules : ∀ k (hk : k < calls.length), calls[k].Schedules ↔ 0 < irq ∧ irq.toNat ∣ k + 1
  interrupt : ∀ k (hk : k < calls.length), ∀ packet,
    .chunk packet ∈ calls[k].registerChunk.effects → calls[k].state.bytesPerChunk ≤ 65532 →
      (field packet.control.toNat 16 1 = 1 ↔ 0 < irq ∧ irq.toNat ∣ k + 1)
  unwrapped : ∀ self ∈ calls,
    (self.accumulatedChunkCount + 1).toNat = self.accumulatedChunkCount.toNat + 1
  window : 0 < irq → ∀ n, n + irq.toNat ≤ calls.length →
    ((calls.drop n).take irq.toNat).countP (fun self => self.Schedules) = 1

theorem Threads.cadence {irq count : UInt32} {calls : List FwIsoIrMultiple}
    (h : Threads irq 0 calls count) : Cadence irq calls := by
  have hschedules : ∀ k (hk : k < calls.length),
      calls[k].Schedules ↔ 0 < irq ∧ irq.toNat ∣ k + 1 := fun k hk =>
    schedules_iff (h.getElem k hk).1 (h.getElem k hk).2
  refine ⟨hschedules, fun k hk packet hmem hbytes => ?_, fun self hself => ?_,
    fun hirq n hn => ?_⟩
  · exact (interrupt_of_chunk hmem hbytes).trans (hschedules k hk)
  · obtain ⟨k, hk, rfl⟩ := List.mem_iff_getElem.mp hself
    rw [(h.getElem k hk).2]
    exact toNat_iterate_add_one irq k
  · refine Pulse.countP_window (UInt32.lt_iff_toNat_lt.mp hirq) (fun k hk => ?_) hn
    rw [decide_eq_true_iff, hschedules k hk, and_iff_right hirq]

theorem recordedExec_erases (op : Op) (r : Ctx FwIsoIrMultiple × List FwIsoIrMultiple) :
    (recordedExec op r).Erases (exec op r.1) :=
  Act.erases_recordResume _ _ _

theorem recordedExec_stack (ms : List (Move Op)) :
    ∀ k ∈ (run recordedExec ⟨(⟨new, []⟩, []), []⟩ ms).stack, ∀ r,
      (k r).Paced (Extends CountsOn) (Extends CountsOn) r := by
  refine stack_paced_of_run (Extends.refl .refl) (fun op r => ?_) ms fun k hk =>
    absurd hk List.not_mem_nil
  by_cases hop : op.IsStart
  · cases op with
    | start cycleMatch syncCode tags irq env => exact .inr ⟨_, _, rfl⟩
    | _ => exact hop.elim
  · exact .inl (recordedExec_paced op hop r)

/-- **From a start to the next one**, however long that is and whatever happens meanwhile, every
`chunksPerIrq`-th call schedules an interrupt. -/
theorem cadence_of_run (ms₁ ms₂ : List (Move Op)) (cycleMatch : Option (UInt16 × UInt16))
    (syncCode tags chunksPerIrq : UInt32) (env : StartEnv)
    (hsuccess : answer exec (run exec ⟨⟨new, []⟩, []⟩ ms₁)
      (.call (.start cycleMatch syncCode tags chunksPerIrq env)) = some .success)
    (hnext : ∀ op, .call op ∈ ms₂ → ¬ op.IsStart) :
    let ms := .call (.start cycleMatch syncCode tags chunksPerIrq env) :: ms₂
    let before := run recordedExec ⟨(⟨new, []⟩, []), []⟩ ms₁
    let after := run recordedExec before ms
    after.state.1 = (run exec ⟨⟨new, []⟩, []⟩ (ms₁ ++ ms)).state ∧
      ∃ calls, after.state.2 = before.state.2 ++ calls ∧
        chunksOf after.state.1.effects = chunksOf before.state.1.effects ++
          (calls.flatMap fun self => chunksOf self.registerChunk.effects) ∧
        Cadence chunksPerIrq calls := by
  intro ms before after
  have herased : Erased before (run exec ⟨⟨new, []⟩, []⟩ ms₁) :=
    erased_of_run recordedExec_erases ms₁ ⟨rfl, .nil⟩
  refine ⟨?_, ?_⟩
  · rw [run_append]
    exact (erased_of_run recordedExec_erases ms herased).state
  have hret : (before.state.1.priv.start cycleMatch syncCode tags chunksPerIrq env).ret =
      .success := by
    rw [herased.state]
    exact Option.some.inj hsuccess
  obtain ⟨calls, hlog, hcounts⟩ := run_paced (Extends.refl CountsOn.refl)
    (Extends.trans CountsOn.trans) ms₂ (fun op hop => recordedExec_paced op (hnext op hop))
    (c := step recordedExec before (.call (.start cycleMatch syncCode tags chunksPerIrq env)))
    (recordedExec_stack ms₁)
  have hall := CountsOn.trans _ _ _ _ _ (countsOn_start before.state.1 hret) hcounts
  refine ⟨_, ?_, hall.chunks, hall.threads.cadence⟩
  exact hlog.trans (List.append_assoc ..)

def chunkEvent : List (Move Op) :=
  [.call (.dispatch (.event (.isoInterruptMc ⟨16⟩) ⟨fun _ => 0, fun _ => .accepted 1⟩)), .resume]

/-- The theorem at a start that registers two chunks, and an event that registers a third one. -/
theorem cadence_threeCalls : ∃ calls, calls.length = 3 ∧ Cadence 1 calls ∧
    (run recordedExec ⟨(⟨new, []⟩, []), []⟩ (irMultipleMapped ++
      .call (.start none 0 0 1 (grantStart 2)) :: chunkEvent)).state.2 = calls := by
  obtain ⟨_, calls, hlog, _, hcadence⟩ := cadence_of_run irMultipleMapped chunkEvent none 0 0 1
    (grantStart 2) (by decide +kernel) (by simp [chunkEvent, Op.IsStart])
  have hbefore : (run recordedExec ⟨(⟨new, []⟩, []), []⟩ irMultipleMapped).state.2 = [] :=
    List.eq_nil_of_length_eq_zero (by decide +kernel)
  rw [hbefore, List.nil_append, ← run_append] at hlog
  refine ⟨calls, ?_, hcadence, hlog⟩
  rw [← hlog]
  decide +kernel

end FwIsoIrMultiple

end Hinoko
