import Hinoko.Division

/-!
# Stopping in the middle of an event

An event of a multiple-channel context is handled in two halves, with the interrupted signal
between them.  The second half registers and queues as many chunks as the first has walked
over, also when the handler of the signal has stopped the context, or started it again.

* `finishEvent_kept`, `finishEvent_disturbs`: when the second half leaves the context as the
  handler has left it.
* `Tidy`: what holds in the handler once it has stopped the context.
* `stoppedInside_iff`: the second half respects the stop exactly if there is nothing to
  register, or no place for it.
-/

namespace Hinoko

open Reentrant

namespace FwIsoCtxState

theorem queueLoop_requests {st : FwIsoCtxState} (answers : Nat → QueueAnswer) (fuel i : Nat)
    {dataOffset : UInt32} (bufOffset chunkCount : UInt32) (hlt : dataOffset < st.dataLength) :
    let q := st.queueLoop answers (fuel + 1) i dataOffset bufOffset chunkCount
    (∃ fault, q.2 = .crashed fault) ∨ ∃ arg packets answer, .queueIso arg packets answer ∈ q.1 := by
  simp only [queueLoop, if_pos hlt]
  split
  next fault _ => exact .inl ⟨fault, rfl⟩
  next b _ =>
    split
    · exact .inr ⟨_, _, _, List.mem_singleton.mpr rfl⟩
    · split
      · exact .inl ⟨_, rfl⟩
      · exact .inr ⟨_, _, _, List.mem_cons_self⟩

theorem queueChunks_requests {st : FwIsoCtxState} {answers : Nat → QueueAnswer}
    (hlen : st.dataLength ≠ 0) (hret : (st.queueChunks answers).ret = .success) :
    ∃ arg packets answer, .queueIso arg packets answer ∈ (st.queueChunks answers).effects := by
  have hpos : (0 : UInt32) < st.dataLength := by
    rw [UInt32.lt_iff_toNat_lt, UInt32.toNat_zero]
    exact Nat.pos_of_ne_zero fun h => hlen (UInt32.toNat_inj.mp h)
  have hfuel : st.queueFuel = (3 * st.dataLength.toNat + 2) + 1 := by
    rw [queueFuel]
    omega
  have hloop := queueLoop_requests answers (3 * st.dataLength.toNat + 2) 0 st.currOffset 0 hpos
  rw [← hfuel] at hloop
  simp only [queueChunks] at hret ⊢
  rcases hloop with ⟨fault, hfault⟩ | ⟨arg, packets, answer, hmem⟩
  · simp only [hfault] at hret
    cases hret
  · refine ⟨arg, packets, answer, ?_⟩
    split
    · exact hmem
    · exact hmem
    · split
      · exact hmem
      · exact List.mem_append_left _ hmem

end FwIsoCtxState

namespace FwIsoIrMultiple

variable {self : FwIsoIrMultiple}

def walked (self : FwIsoIrMultiple) (bytesPerChunk accumLength : UInt32) : Nat :=
  ((self.prevOffset + accumLength) / bytesPerChunk).toNat -
    (self.prevOffset / bytesPerChunk).toNat

theorem registerChunk_of_refuses (h : self.state.RefusesChunk) :
    self.registerChunk.state.state = self.state ∧ self.registerChunk.effects = [] ∧
      self.registerChunk.ret ≠ .success := by
  have hfalse := (self.state.registerChunk_isFalse_iff (0 < self.chunksPerIrq ∧
    (self.accumulatedChunkCount + 1) % self.chunksPerIrq = 0)).mpr h
  simp only [registerChunk, Out.map_state, Out.map_effects, Out.map_ret]
  rcases self.state.registerChunk_cases false 0 0 .null 0 (0 < self.chunksPerIrq ∧
    (self.accumulatedChunkCount + 1) % self.chunksPerIrq = 0) with hr | ⟨_, ⟨_, ho⟩ | ⟨_, _, ho⟩⟩
  · refine ⟨hr.state, hr.effects, fun hret => ?_⟩
    rw [hret] at hfalse
    exact hfalse
  · rw [ho] at hfalse
    exact hfalse.elim
  · rw [ho] at hfalse
    exact hfalse.elim

theorem registerChunk_of_room (h : Grounded self) (hroom : ¬ self.state.RefusesChunk) :
    self.registerChunk.ret = .success := by
  have hfalse := mt (self.state.registerChunk_isFalse_iff (0 < self.chunksPerIrq ∧
    (self.accumulatedChunkCount + 1) % self.chunksPerIrq = 0)).mp hroom
  simp only [registerChunk, Out.map_ret]
  rcases self.state.registerChunk_cases false 0 0 .null 0 (0 < self.chunksPerIrq ∧
    (self.accumulatedChunkCount + 1) % self.chunksPerIrq = 0) with
    hr | ⟨⟨_, halloc, _, haddr⟩, ⟨hnone, _⟩ | ⟨_, _, ho⟩⟩
  · exact absurd hr.ret hfalse
  · obtain ⟨block, hblock, _⟩ := h.state.live haddr (by omega)
    rw [hnone] at hblock
    cases hblock
  · rw [ho]

theorem finishEvent_eq {bytesPerChunk : UInt32} (hchunk : bytesPerChunk ≠ 0)
    (bytesPerBuffer accumLength : UInt32) (answers : Nat → QueueAnswer) :
    finishEvent bytesPerChunk bytesPerBuffer accumLength answers self =
      let o := registerChunks (self.walked bytesPerChunk accumLength) self
      match o.ret with
      | .success =>
        if bytesPerBuffer = 0 then ⟨o.state, .crashed .divByZero, o.effects⟩
        else
          let q := o.state.state.queueChunks answers
          ⟨{ o.state with
            prevOffset := (o.state.prevOffset + accumLength) % bytesPerBuffer
            state := q.state }, q.ret, o.effects ++ q.effects⟩
      | ret => ⟨o.state, ret, o.effects⟩ := by
  simp only [finishEvent, hchunk, if_false]
  rfl

/-- **The second half leaves the state alone** if there is nothing to register, or no place. -/
theorem finishEvent_kept (h : Grounded self) (hlen : self.state.dataLength = 0)
    (bytesPerChunk bytesPerBuffer accumLength : UInt32) (answers : Nat → QueueAnswer)
    (hkept : self.walked bytesPerChunk accumLength = 0 ∨ self.state.RefusesChunk) :
    let o := finishEvent bytesPerChunk bytesPerBuffer accumLength answers self
    o.effects = [] ∧ o.state.state = self.state := by
  have hempty := (h.state.storeInv hlen).queueChunks_empty hlen answers
  by_cases hchunk : bytesPerChunk = 0
  · simp only [finishEvent, hchunk, if_true, and_self]
  rw [finishEvent_eq hchunk]
  cases hn : self.walked bytesPerChunk accumLength with
  | zero =>
    simp only [registerChunks]
    split
    · exact ⟨rfl, rfl⟩
    · simp only [hempty, List.append_nil, and_self]
  | succ n =>
    rw [hn] at hkept
    obtain ⟨hstate, heffects, hne⟩ := registerChunk_of_refuses
      (hkept.resolve_left (Nat.succ_ne_zero n))
    have hfirst : registerChunks (n + 1) self = self.registerChunk := by
      rw [registerChunks]
      split
      next hret => exact absurd hret hne
      · rfl
    simp only [hfirst]
    exact ⟨heffects, hstate⟩

/-- **The second half takes chunks of its own** if there is a place for the first. -/
theorem finishEvent_disturbs (h : Grounded self) (hlen : self.state.dataLength = 0)
    (bytesPerChunk bytesPerBuffer accumLength : UInt32) (answers : Nat → QueueAnswer)
    (hwalked : self.walked bytesPerChunk accumLength ≠ 0) (hroom : ¬ self.state.RefusesChunk) :
    let o := finishEvent bytesPerChunk bytesPerBuffer accumLength answers self
    (∃ arg packets answer, .queueIso arg packets answer ∈ o.effects) ∨
      o.state.state.dataLength ≠ 0 := by
  have hchunk : bytesPerChunk ≠ 0 := by
    rintro rfl
    exact hwalked (by simp [walked])
  have hlt : self.walked bytesPerChunk accumLength < 4294967296 :=
    Nat.lt_of_le_of_lt (Nat.sub_le _ _) (UInt32.toNat_lt _)
  obtain ⟨n, hn⟩ := Nat.exists_eq_succ_of_ne_zero hwalked
  have hgrounded := h.registerChunks (self.walked bytesPerChunk accumLength)
  have hcount : (registerChunks (self.walked bytesPerChunk accumLength)
      self).state.state.registeredChunkCount ≠ 0 := by
    have hret := registerChunk_of_room h hroom
    have hone : self.registerChunk.state.state.registeredChunkCount = 1 := by
      rcases (registerChunk_cases self).2.2.2 with ⟨_, hcount⟩ | ⟨hne, _⟩
      · rw [hcount, (h.state.storeInv hlen).count_eq_zero hlen]
        rfl
      · exact absurd hret hne
    obtain ⟨k, hk, _, hcount, _⟩ := registerChunks_cases n self.registerChunk.state
    simp only [hn, registerChunks, hret]
    rw [hcount, hone, ← UInt32.toNat_inj.ne, UInt32.toNat_add, UInt32.toNat_ofNat']
    have h1 : (1 : UInt32).toNat = 1 := rfl
    rw [h1, UInt32.toNat_zero]
    omega
  have hregistered : (registerChunks (self.walked bytesPerChunk accumLength)
      self).state.state.dataLength ≠ 0 := fun h0 =>
    hcount ((hgrounded.state.storeInv h0).count_eq_zero h0)
  rw [finishEvent_eq hchunk]
  simp only
  split
  next hret =>
    split
    · exact .inr hregistered
    · rcases (FwIsoCtxState.queueChunks_cases _ answers).2 with ⟨hstate, _⟩ | ⟨hsuccess, _⟩
      · right
        rw [hstate]
        exact hregistered
      · obtain ⟨arg, packets, answer, hmem⟩ :=
          FwIsoCtxState.queueChunks_requests hregistered hsuccess
        exact .inl ⟨arg, packets, answer, List.mem_append_right _ hmem⟩
  · exact .inr hregistered

/-- Where the next event goes on, if no chunk has been walked over. -/
theorem finishEvent_prevOffset {bytesPerChunk bytesPerBuffer : UInt32} (hchunk : bytesPerChunk ≠ 0)
    (hbuffer : bytesPerBuffer ≠ 0) (accumLength : UInt32) (answers : Nat → QueueAnswer)
    (hwalked : self.walked bytesPerChunk accumLength = 0) :
    (finishEvent bytesPerChunk bytesPerBuffer accumLength answers self).state.prevOffset =
      (self.prevOffset + accumLength) % bytesPerBuffer := by
  rw [finishEvent_eq hchunk, hwalked]
  simp only [registerChunks, hbuffer, if_false]

theorem finishEvent_prevOffset_of_refuses (bytesPerChunk bytesPerBuffer accumLength : UInt32)
    (answers : Nat → QueueAnswer) (hwalked : self.walked bytesPerChunk accumLength ≠ 0)
    (h : self.state.RefusesChunk) :
    (finishEvent bytesPerChunk bytesPerBuffer accumLength answers self).state.prevOffset =
      self.prevOffset := by
  have hchunk : bytesPerChunk ≠ 0 := by
    rintro rfl
    exact hwalked (by simp [walked])
  obtain ⟨n, hn⟩ := Nat.exists_eq_succ_of_ne_zero hwalked
  obtain ⟨_, _, hne⟩ := registerChunk_of_refuses h
  rw [finishEvent_eq hchunk, hn]
  simp only [registerChunks]
  rfl

end FwIsoIrMultiple

/-! ### The handler -/

def Effect.Rests : Effect → Prop
  | .queueIso _ _ _ => False
  | .stopIso => False
  | _ => True

theorem Effect.Setup.rests {e : Effect} (h : e.Setup) : e.Rests := by
  cases e <;> trivial

/-- Nothing has been queued since the last stop. -/
def QuietSinceStop (es : List Effect) : Prop :=
  ∃ before after, es = before ++ .stopIso :: after ∧
    ∀ arg packets answer, .queueIso arg packets answer ∉ after

theorem QuietSinceStop.append {es es' : List Effect} (h : QuietSinceStop es)
    (hrests : ∀ e ∈ es', e.Rests) : QuietSinceStop (es ++ es') := by
  obtain ⟨before, after, rfl, hquiet⟩ := h
  refine ⟨before, after ++ es', by simp, fun arg packets answer hmem => ?_⟩
  rcases List.mem_append.mp hmem with hmem | hmem
  · exact hquiet arg packets answer hmem
  · exact hrests _ hmem

theorem QuietSinceStop.right {es es' : List Effect} (h : QuietSinceStop (es ++ es'))
    (hnot : .stopIso ∉ es') (arg : QueueIso) (packets : List UInt8) (answer : QueueAnswer) :
    .queueIso arg packets answer ∉ es' := by
  obtain ⟨before, after, heq, hquiet⟩ := h
  rcases List.append_eq_append_iff.mp heq with ⟨middle, rfl, hright⟩ | ⟨middle, rfl, hright⟩
  · exact absurd (by rw [hright]; simp) hnot
  · cases middle with
    | nil => exact absurd (by rw [← List.nil_append es', ← hright]; simp) hnot
    | cons e middle =>
      obtain ⟨_, rfl⟩ := List.cons.inj hright
      exact fun hmem => hquiet arg packets answer (List.mem_append_right _ hmem)

namespace FwIsoIrMultiple

/-- An operation that neither starts the context nor handles an event of it. -/
def Op.Idle : Op → Ctx FwIsoIrMultiple → Prop
  | .start _ _ _ _ _, _ => False
  | .dispatch w, _ => ∀ ev env, w ≠ .event ev env
  | _, _ => True

/-- An operation of the handler: when it starts the context, it succeeds. -/
def Op.Handles : Op → Ctx FwIsoIrMultiple → Prop
  | .start cycleMatch syncCode tags chunksPerIrq env, c =>
    (c.priv.start cycleMatch syncCode tags chunksPerIrq env).ret = .success
  | op, c => op.Idle c

structure Aside (c c' : Ctx FwIsoIrMultiple) : Prop where
  books : SameBooks c.priv.state c'.priv.state
  effects : ∃ es, c'.effects = c.effects ++ es ∧ ∀ e ∈ es, e.Rests

theorem Aside.after {c : Ctx FwIsoIrMultiple} {o : Out FwIsoIrMultiple}
    (hbooks : SameBooks c.priv.state o.state.state) (hrests : ∀ e ∈ o.effects, e.Rests) :
    Aside c (c.after o) :=
  ⟨hbooks, o.effects, c.after_effects o, hrests⟩

theorem Aside.note (c : Ctx FwIsoIrMultiple) {e : Effect} (he : e.Rests) : Aside c (c.note e) := by
  refine ⟨⟨rfl, rfl, rfl, rfl⟩, [e], c.note_effects e, fun e' he' => ?_⟩
  rw [List.mem_singleton.mp he']
  exact he

theorem aside_allocate (path : Option String) (env : AllocateEnv) (c : Ctx FwIsoIrMultiple) :
    Aside c (c.after (allocateState path env c.priv)) := by
  have hcases := c.priv.state.allocate_cases path .irMultiple 0 0 0 env
  refine .after ?_ fun e he => ?_
  · simp only [allocateState, Out.map_state]
    rcases hcases with hr | ⟨_, _, ⟨_, hstate⟩ | ⟨_, _, _, hstate⟩⟩
    · rw [hr.state]
      exact ⟨rfl, rfl, rfl, rfl⟩
    · rw [hstate]
      exact ⟨rfl, rfl, rfl, rfl⟩
    · rw [hstate]
      exact ⟨rfl, rfl, rfl, rfl⟩
  · rcases hcases with hr | ⟨_, hsetup, _⟩
    · rw [allocateState, Out.map_effects, hr.effects] at he
      cases he
    · exact (hsetup e he).rests

theorem aside_mapBuffer (bytes chunks : UInt32) (env : MapMultipleEnv) (c : Ctx FwIsoIrMultiple) :
    Aside c (c.after (c.priv.mapBuffer bytes chunks env)) := by
  obtain ⟨hstate, _, heffects⟩ := c.priv.mapBuffer_state bytes chunks env
  have hcases := c.priv.state.mapBuffer_cases ((bytes + 3) / 4 * 4) chunks env.toMapEnv
  refine .after ?_ fun e he => ?_
  · rw [hstate]
    rcases hcases with hr | ⟨_, _, ⟨_, _, _, ho⟩ | ⟨_, _, _, ho⟩⟩
    · rw [hr.state]
      exact ⟨rfl, rfl, rfl, rfl⟩
    · rw [ho]
      exact ⟨rfl, rfl, rfl, rfl⟩
    · rw [ho]
      exact ⟨rfl, rfl, rfl, rfl⟩
  · rw [heffects] at he
    rcases hcases with hr | ⟨_, hmmap, _⟩
    · rw [hr.effects] at he
      cases he
    · rw [hmmap] at he
      rw [List.mem_singleton.mp he]
      trivial

theorem aside_unmapBuffer (c : Ctx FwIsoIrMultiple) :
    Aside c (c.after (FwIsoCtx.unmapBuffer c.priv)) := by
  refine .after ⟨rfl, rfl, rfl, rfl⟩ fun e he => ?_
  change e ∈ c.priv.state.unmapBuffer.effects at he
  simp only [FwIsoCtxState.unmapBuffer] at he
  split at he
  · cases he
  · rw [List.mem_singleton.mp he]
    trivial

theorem aside_release (c : Ctx FwIsoIrMultiple) :
    Aside c (c.after (FwIsoCtx.release c.priv)) := by
  refine .after ⟨rfl, rfl, rfl, rfl⟩ fun e he => ?_
  change e ∈ c.priv.state.release.effects at he
  simp only [FwIsoCtxState.release] at he
  split at he
  · rw [List.mem_singleton.mp he]
    trivial
  · cases he

/-- **An idle operation keeps** what stopping keeps and what does not depend on more than the
bookkeeping. -/
theorem idle_keeps {I : Ctx FwIsoIrMultiple → Prop}
    (hstop : ∀ c, I c → I (c.after (Ctx.onState FwIsoCtxState.stop c.priv)))
    (haside : ∀ c c', Aside c c' → I c → I c') {op : Op} {c : Ctx FwIsoIrMultiple}
    (hop : op.Idle c) (hc : I c) : (exec op c).Keeps I fun _ => I := by
  have hnote : ∀ c, I c → I (c.note .stopped) := fun c => haside c _ (.note c trivial)
  have hunmap : ∀ c, I c → I (c.after (FwIsoCtx.unmapBuffer c.priv)) :=
    fun c => haside c _ (aside_unmapBuffer c)
  have hrelease : ∀ c, I c → c.release.Keeps I fun _ => I := fun c hc =>
    Ctx.release_keeps hstop hnote hunmap (fun c => haside c _ (aside_release c)) hc
  cases op with
  | allocate path channels env set bigEndian =>
    exact allocate_keeps (fun c => haside c _ (aside_allocate path env c))
      (fun c => haside c _ (.note c trivial)) hrelease
      (fun c chs => haside c _ ⟨⟨rfl, rfl, rfl, rfl⟩, [], (List.append_nil _).symm, nofun⟩) hc
  | mapBuffer bytes chunks env => exact haside c _ (aside_mapBuffer bytes chunks env c) hc
  | start cycleMatch syncCode tags irq env => exact hop.elim
  | getPayload index =>
    refine haside c _ (.after ?_ nofun) hc
    simp only [askPayload, c.priv.state_getPayload index]
    exact ⟨rfl, rfl, rfl, rfl⟩
  | stop => exact Ctx.stop_keeps hstop hnote hc
  | unmapBuffer => exact Ctx.unmapBuffer_keeps hstop hnote hunmap hc
  | release => exact hrelease c hc
  | dispatch w =>
    cases w with
    | ioErr => exact hc
    | again => exact hc
    | readError errno => exact Ctx.stop_keeps hstop hnote hc
    | event ev env => exact absurd rfl (hop ev env)

structure Halted (c : Ctx FwIsoIrMultiple) : Prop where
  running : c.priv.state.running = false
  dataLength : c.priv.state.dataLength = 0
  registeredChunkCount : c.priv.state.registeredChunkCount = 0
  currOffset : c.priv.state.currOffset = 0

theorem Halted.stop {c : Ctx FwIsoIrMultiple} (h : Halted c) :
    Halted (c.after (Ctx.onState FwIsoCtxState.stop c.priv)) := by
  have hstop : c.priv.state.stop.state = c.priv.state :=
    congrArg Out.state (FwIsoCtxState.stop_of_not_running h.running)
  obtain ⟨hrun, hlen, hcount, hcurr⟩ := h
  refine ⟨?_, ?_, ?_, ?_⟩ <;>
    simpa only [Ctx.after_priv, Ctx.onState, Out.map_state, FwIsoCtx.state, FwIsoCtx.setState,
      hstop]

theorem Halted.aside {c c' : Ctx FwIsoIrMultiple} (haside : Aside c c') (h : Halted c) :
    Halted c' :=
  ⟨haside.books.running.trans h.running, haside.books.dataLength.trans h.dataLength,
    haside.books.registeredChunkCount.trans h.registeredChunkCount,
    haside.books.currOffset.trans h.currOffset⟩

/-- What holds in the handler once it has stopped the context. -/
structure Tidy (c : Ctx FwIsoIrMultiple) : Prop where
  dataLength : c.priv.state.dataLength = 0
  registeredChunkCount : c.priv.state.registeredChunkCount = 0
  idle : c.priv.state.running = false →
    c.priv.state.currOffset = 0 ∧ QuietSinceStop c.effects

/-- The context has not been stopped since it had done `es`, or it is tidy. -/
def Since (es : List Effect) (c : Ctx FwIsoIrMultiple) : Prop :=
  c.priv.state.running = true ∧ (∃ es', c.effects = es ++ es' ∧ .stopIso ∉ es') ∨
    (∃ es', c.effects = es ++ es') ∧ Tidy c

theorem onState_stop_of_running {self : FwIsoIrMultiple} (h : self.state.running = true) :
    Ctx.onState FwIsoCtxState.stop self = ⟨{ self with state := { self.state with
      running := false, registeredChunkCount := 0, dataLength := 0, currOffset := 0 } },
      .success, [.stopIso]⟩ := by
  rw [Ctx.onState, show (FwIsoCtx.state self).stop = _ from FwIsoCtxState.stop_of_running h]
  rfl

theorem onState_stop_of_not_running {self : FwIsoIrMultiple} (h : self.state.running = false) :
    Ctx.onState FwIsoCtxState.stop self = ⟨self, .success, []⟩ := by
  rw [Ctx.onState, show (FwIsoCtx.state self).stop = _ from FwIsoCtxState.stop_of_not_running h]
  rfl

namespace Since

variable {es : List Effect} {c c' : Ctx FwIsoIrMultiple}

theorem stop (h : Since es c) : Since es (c.after (Ctx.onState FwIsoCtxState.stop c.priv)) := by
  have hgrown : ∃ es', c.effects = es ++ es' := by
    rcases h with ⟨_, es', heffects, _⟩ | ⟨hgrown, _⟩
    · exact ⟨es', heffects⟩
    · exact hgrown
  obtain ⟨es', heffects⟩ := hgrown
  cases hrun : c.priv.state.running with
  | false =>
    rcases h with ⟨htrue, _⟩ | ⟨_, htidy⟩
    · rw [hrun] at htrue
      cases htrue
    · have hsame : (c.after ⟨c.priv, .success, []⟩).effects = c.effects := by
        rw [Ctx.after_effects, List.append_nil]
      rw [onState_stop_of_not_running hrun]
      refine .inr ⟨⟨es', hsame.trans heffects⟩, htidy.dataLength, htidy.registeredChunkCount,
        fun hidle => ?_⟩
      rw [hsame]
      exact htidy.idle hidle
  | true =>
    rw [onState_stop_of_running hrun]
    refine .inr ⟨⟨es' ++ [.stopIso], ?_⟩, rfl, rfl, fun _ => ⟨rfl, c.effects, [], ?_, nofun⟩⟩
    · rw [Ctx.after_effects, heffects, List.append_assoc]
    · rw [Ctx.after_effects]

theorem aside (haside : Aside c c') (h : Since es c) : Since es c' := by
  obtain ⟨hbooks, es'', heffects', hrests⟩ := haside
  rcases h with ⟨hrun, es', heffects, hnot⟩ | ⟨⟨es', heffects⟩, htidy⟩
  · refine .inl ⟨hbooks.running.trans hrun, es' ++ es'', ?_, fun hmem => ?_⟩
    · rw [heffects', heffects, List.append_assoc]
    · rcases List.mem_append.mp hmem with hmem | hmem
      · exact hnot hmem
      · exact hrests _ hmem
  · refine .inr ⟨⟨es' ++ es'', ?_⟩, hbooks.dataLength.trans htidy.dataLength,
      hbooks.registeredChunkCount.trans htidy.registeredChunkCount, fun hidle => ?_⟩
    · rw [heffects', heffects, List.append_assoc]
    · obtain ⟨hcurr, hquiet⟩ := htidy.idle (hbooks.running.symm.trans hidle)
      refine ⟨hbooks.currOffset.trans hcurr, ?_⟩
      rw [heffects']
      exact hquiet.append hrests

end Since

/-- A start that succeeds leaves no chunk in the store, and parses from the start of the buffer. -/
theorem cleared_of_start {self : FwIsoIrMultiple} {cycleMatch : Option (UInt16 × UInt16)}
    {syncCode tags chunksPerIrq : UInt32} {env : StartEnv}
    (h : (self.start cycleMatch syncCode tags chunksPerIrq env).ret = .success) :
    let s := (self.start cycleMatch syncCode tags chunksPerIrq env).state
    s.prevOffset = 0 ∧ s.state.running = true ∧ s.state.dataLength = 0 ∧
      s.state.registeredChunkCount = 0 := by
  obtain ⟨_, _, hstart, ho⟩ := start_of_success h
  obtain ⟨hq, _, _, hs⟩ := FwIsoCtxState.start_of_success hstart
  simp only [ho, hs]
  rcases (FwIsoCtxState.queueChunks_cases _ env.queueIso).2 with
    ⟨_, ⟨_, he⟩ | ⟨_, he⟩⟩ | ⟨_, x, hstate⟩
  · rw [he] at hq
    cases hq
  · rw [he] at hq
    cases hq
  · rw [hstate]
    exact ⟨trivial, trivial, rfl, rfl⟩

theorem since_handles {es : List Effect} {op : Op} {c : Ctx FwIsoIrMultiple} (hop : op.Handles c)
    (h : Since es c) : (exec op c).Keeps (Since es) fun _ => Since es := by
  have hidle : op.Idle c → (exec op c).Keeps (Since es) fun _ => Since es :=
    fun hop => idle_keeps (fun _ hc => hc.stop) (fun _ _ haside hc => hc.aside haside) hop h
  cases op with
  | start cycleMatch syncCode tags irq env =>
    obtain ⟨_, hrun, hlen, hcount⟩ := cleared_of_start hop
    have hgrown : ∃ es', c.effects = es ++ es' := by
      rcases h with ⟨_, es', heffects, _⟩ | ⟨hgrown, _⟩
      · exact ⟨es', heffects⟩
      · exact hgrown
    obtain ⟨es', heffects⟩ := hgrown
    refine .inr ⟨⟨es' ++ (c.priv.start cycleMatch syncCode tags irq env).effects, ?_⟩, hlen, hcount,
      fun hfalse => ?_⟩
    · rw [Ctx.after_effects, heffects, List.append_assoc]
    · rw [show (c.priv.start cycleMatch syncCode tags irq env).state.state.running = false from
        hfalse] at hrun
      cases hrun
  | allocate path channels env set bigEndian => exact hidle hop
  | mapBuffer bytes chunks env => exact hidle hop
  | getPayload index => exact hidle hop
  | stop => exact hidle hop
  | unmapBuffer => exact hidle hop
  | release => exact hidle hop
  | dispatch w => exact hidle hop

/-! ### The second half -/

/-- An event of a running context, in whose handler the context is stopped: the signal finds `c₁`,
the handler leaves `c₂`, and `k` goes on from there.  `accumLength` is the length of the complete
packets. -/
structure StopsInside (c : Ctx FwIsoIrMultiple) (ev : IsoInterruptMc) (env : EventEnv)
    (accumLength : UInt32) (c₁ c₂ : Ctx FwIsoIrMultiple)
    (k : Ctx FwIsoIrMultiple → Act (Ctx FwIsoIrMultiple) Ret) : Prop where
  running : c.priv.state.running = true
  parses : ∃ records, ({ c.priv with mem := env.buffer } : FwIsoIrMultiple).parseEvent
    ev.completed = .ok (accumLength, records)
  emits : handleEvent (.isoInterruptMc ev) env c = .emit c₁ k
  handles : ∃ ms, Guarded exec Op.Handles ⟨c₁, []⟩ ms ∧ run exec ⟨c₁, []⟩ ms = ⟨c₂, []⟩
  stops : .stopIso ∈ c₂.effects.drop c₁.effects.length

/-- The next start that succeeds parses from where it queues. -/
def CursorsMeet (c : Ctx FwIsoIrMultiple) : Prop :=
  ∀ ms, Guarded exec Op.Idle ⟨c, []⟩ ms →
    ∀ (cycleMatch : Option (UInt16 × UInt16)) (syncCode tags chunksPerIrq : UInt32)
      (env : StartEnv),
    let self := (run exec ⟨c, []⟩ ms).state.priv
    (self.start cycleMatch syncCode tags chunksPerIrq env).ret = .success →
      (self.start cycleMatch syncCode tags chunksPerIrq env).state.prevOffset =
        self.state.currOffset

structure StaysStopped (c : Ctx FwIsoIrMultiple) : Prop where
  requests : QuietSinceStop c.effects
  dataLength : c.priv.state.dataLength = 0
  registeredChunkCount : c.priv.state.registeredChunkCount = 0
  currOffset : c.priv.state.currOffset = 0
  cursors : CursorsMeet c

/-- The context `c'` is as the start has left it in `c`. -/
structure StaysStarted (c c' : Ctx FwIsoIrMultiple) : Prop where
  requests : ∃ es, c'.effects = c.effects ++ es ∧
    ∀ arg packets answer, .queueIso arg packets answer ∉ es
  books : SameBooks c.priv.state c'.priv.state
  prevOffset : c'.priv.prevOffset = c.priv.prevOffset

theorem Halted.cursorsMeet {c : Ctx FwIsoIrMultiple} (h : Halted c) : CursorsMeet c := by
  intro ms hg cycleMatch syncCode tags chunksPerIrq env self hret
  have hsound : Sound Halted (run exec ⟨c, []⟩ ms) :=
    run_keeps_of_guarded (fun op c hop hc => idle_keeps (fun _ hc => hc.stop)
      (fun _ _ haside hc => hc.aside haside) hop hc) ms hg ⟨h, nofun⟩
  rw [(cleared_of_start hret).1, hsound.state.currOffset]

theorem finishEvent_effects (bytesPerChunk bytesPerBuffer accumLength : UInt32)
    (answers : Nat → QueueAnswer) :
    .stopIso ∉ (finishEvent bytesPerChunk bytesPerBuffer accumLength answers self).effects := by
  have hchunks : .stopIso ∉ (registerChunks (self.walked bytesPerChunk accumLength)
      self).effects := fun hmem => by
    obtain ⟨_, hp⟩ := registerChunks_effects _ _ hmem
    cases hp
  by_cases hchunk : bytesPerChunk = 0
  · simp only [finishEvent, hchunk, if_true]
    exact List.not_mem_nil
  rw [finishEvent_eq hchunk]
  simp only
  split
  · split
    · exact hchunks
    · intro hmem
      rcases List.mem_append.mp hmem with hmem | hmem
      · exact hchunks hmem
      · rcases (FwIsoCtxState.queueChunks_cases _ answers).1 _ hmem with hq | ⟨_, _, _, hq⟩ <;>
          cases hq
  · exact hchunks

theorem StopsInside.left {c c₁ c₂ : Ctx FwIsoIrMultiple} {ev : IsoInterruptMc} {env : EventEnv}
    {accumLength : UInt32} {k : Ctx FwIsoIrMultiple → Act (Ctx FwIsoIrMultiple) Ret}
    (h : StopsInside c ev env accumLength c₁ c₂ k) (hgrounded : Grounded c.priv) :
    Grounded c₂.priv ∧ Tidy c₂ ∧
      k c₂ = c₂.perform (finishEvent c.priv.state.bytesPerChunk c.priv.state.bytesPerBuffer
        accumLength env.queueIso) := by
  obtain ⟨hrun, ⟨records, hparse⟩, hemit, ⟨handler, hhandler, hleft⟩, hstop⟩ := h
  simp only [handleEvent, hparse] at hemit
  obtain ⟨hc₁, rfl⟩ := Act.emit.inj hemit
  have hfirst : Grounded c₁.priv := by
    subst hc₁
    have hmem : Grounded { c.priv with mem := env.buffer } :=
      hgrounded.congr hgrounded.state rfl rfl rfl
    exact hmem.stored records
  have hsince : Since c₁.effects c₁ := by
    refine .inl ⟨?_, [], (List.append_nil _).symm, List.not_mem_nil⟩
    subst hc₁
    exact hrun
  have hlast := run_keeps_of_init (I := fun c : Ctx FwIsoIrMultiple => Grounded c.priv) handler
    hfirst fun op _ c hc => Grounded.exec op c hc
  have hsound := run_keeps_of_guarded (fun _ _ hop hc => since_handles hop hc) handler hhandler
    ⟨hsince, List.forall_mem_nil _⟩
  rw [hleft] at hlast hsound
  refine ⟨hlast, ?_, rfl⟩
  rcases hsound.state with ⟨_, es, heffects, hnot⟩ | ⟨_, htidy⟩
  · rw [heffects, List.drop_left] at hstop
    exact absurd hstop hnot
  · exact htidy

variable {c : Ctx FwIsoIrMultiple} {bytesPerChunk bytesPerBuffer : UInt32}

theorem staysStopped_iff (hgrounded : Grounded c.priv) (htidy : Tidy c)
    (hidle : c.priv.state.running = false) (accumLength : UInt32) (answers : Nat → QueueAnswer) :
    StaysStopped (c.after (finishEvent bytesPerChunk bytesPerBuffer accumLength answers c.priv)) ↔
      c.priv.walked bytesPerChunk accumLength = 0 ∨ c.priv.state.RefusesChunk := by
  obtain ⟨hcurr, hquiet⟩ := htidy.idle hidle
  refine ⟨fun h => ?_, fun h => ?_⟩
  · by_contra hnot
    obtain ⟨hwalked, hroom⟩ := not_or.mp hnot
    rcases finishEvent_disturbs hgrounded htidy.dataLength bytesPerChunk bytesPerBuffer accumLength
      answers hwalked hroom with ⟨arg, packets, answer, hmem⟩ | hlen
    · have hrequests := h.requests
      rw [Ctx.after_effects] at hrequests
      exact hrequests.right (finishEvent_effects _ _ _ _) arg packets answer hmem
    · exact hlen h.dataLength
  · obtain ⟨heffects, hstate⟩ := finishEvent_kept hgrounded htidy.dataLength bytesPerChunk
      bytesPerBuffer accumLength answers h
    have hhalted : Halted (c.after (finishEvent bytesPerChunk bytesPerBuffer accumLength answers
        c.priv)) := by
      refine ⟨?_, ?_, ?_, ?_⟩ <;> rw [Ctx.after_priv, hstate]
      · exact hidle
      · exact htidy.dataLength
      · exact htidy.registeredChunkCount
      · exact hcurr
    refine ⟨?_, hhalted.dataLength, hhalted.registeredChunkCount, hhalted.currOffset,
      hhalted.cursorsMeet⟩
    rw [Ctx.after_effects, heffects, List.append_nil]
    exact hquiet

theorem staysStarted_iff (hgrounded : Grounded c.priv) (htidy : Tidy c)
    (hchunk : bytesPerChunk ≠ 0) (hbuffer : bytesPerBuffer ≠ 0) (accumLength : UInt32)
    (answers : Nat → QueueAnswer) :
    StaysStarted c (c.after (finishEvent bytesPerChunk bytesPerBuffer accumLength answers
        c.priv)) ↔
      c.priv.walked bytesPerChunk accumLength = 0 ∧
          (c.priv.prevOffset + accumLength) % bytesPerBuffer = c.priv.prevOffset ∨
        c.priv.walked bytesPerChunk accumLength ≠ 0 ∧ c.priv.state.RefusesChunk := by
  refine ⟨fun h => ?_, fun h => ?_⟩
  · by_cases hwalked : c.priv.walked bytesPerChunk accumLength = 0
    · refine .inl ⟨hwalked, ?_⟩
      rw [← finishEvent_prevOffset hchunk hbuffer accumLength answers hwalked]
      exact h.prevOffset
    · refine .inr ⟨hwalked, ?_⟩
      by_contra hroom
      rcases finishEvent_disturbs hgrounded htidy.dataLength bytesPerChunk bytesPerBuffer
        accumLength answers hwalked hroom with ⟨arg, packets, answer, hmem⟩ | hlen
      · obtain ⟨es, heffects, hnone⟩ := h.requests
        rw [Ctx.after_effects, List.append_cancel_left_eq] at heffects
        rw [heffects] at hmem
        exact hnone arg packets answer hmem
      · exact hlen (h.books.dataLength.trans htidy.dataLength)
  · have hkept : c.priv.walked bytesPerChunk accumLength = 0 ∨ c.priv.state.RefusesChunk :=
      h.imp And.left And.right
    obtain ⟨heffects, hstate⟩ := finishEvent_kept hgrounded htidy.dataLength bytesPerChunk
      bytesPerBuffer accumLength answers hkept
    refine ⟨⟨[], ?_, nofun⟩, ?_, ?_⟩
    · rw [Ctx.after_effects, heffects]
    · rw [Ctx.after_priv, hstate]
      exact ⟨rfl, rfl, rfl, rfl⟩
    · rcases h with ⟨hwalked, hprev⟩ | ⟨hwalked, hrefuses⟩
      · exact (finishEvent_prevOffset hchunk hbuffer accumLength answers hwalked).trans hprev
      · exact finishEvent_prevOffset_of_refuses _ _ _ _ hwalked hrefuses

/-- **When the second half of an event respects that the handler has stopped the context.** -/
theorem stoppedInside_iff (ms : List (Move Op)) {c c₁ c₂ : Ctx FwIsoIrMultiple}
    {ev : IsoInterruptMc} {env : EventEnv} {accumLength : UInt32}
    {k : Ctx FwIsoIrMultiple → Act (Ctx FwIsoIrMultiple) Ret}
    (hg : Guarded exec Op.Divides ⟨⟨new, []⟩, []⟩ ms)
    (hc : (run exec ⟨⟨new, []⟩, []⟩ ms).state = c)
    (h : StopsInside c ev env accumLength c₁ c₂ k) :
    let walked := c₂.priv.walked c.priv.state.bytesPerChunk accumLength
    ∃ ret c₃, k c₂ = .done ret c₃ ∧
      (c₂.priv.state.running = false →
        (StaysStopped c₃ ↔ walked = 0 ∨ c₂.priv.state.RefusesChunk)) ∧
      (c₂.priv.state.running = true →
        (StaysStarted c₂ c₃ ↔
          walked = 0 ∧ (c₂.priv.prevOffset + accumLength) % c.priv.state.bytesPerBuffer =
            c₂.priv.prevOffset ∨
          walked ≠ 0 ∧ c₂.priv.state.RefusesChunk)) := by
  have hdivisible : c.priv.Divisible := by
    subst hc
    exact divisible_of_running ms hg h.running
  obtain ⟨hgrounded, htidy, hk⟩ := h.left (hc ▸ grounded_of_run ms)
  refine ⟨_, _, hk, fun hidle => ?_, fun _ => ?_⟩
  · exact staysStopped_iff hgrounded htidy hidle accumLength env.queueIso
  · exact staysStarted_iff hgrounded htidy (FwIsoCtxState.bytesPerChunk_ne_zero hdivisible)
      hdivisible accumLength env.queueIso

/-! ### Handlers that stop -/

def sixteenByTwo : List (Move Op) := irMultipleMapped ++ [.call (.start none 0 0 1 (grantStart 2))]

/-- The handler of an event stops the context, whose stopped signal has a handler as well. -/
def stopInside (completed : UInt32) (env : EventEnv) : List (Move Op) :=
  sixteenByTwo ++ [.call (.dispatch (.event (.isoInterruptMc ⟨completed⟩) env)), .call .stop,
    .resume]

def onePacket : EventEnv := ⟨fun n => if n = 2 then 8 else 0, fun _ => .accepted 2⟩

/-- **A stop in the handler is not respected**: the chunk is registered and queued again after
`FW_CDEV_IOC_STOP_ISO`, and the next start goes on behind it; a context that the handler starts
again parses from the second chunk on. -/
theorem stoppedInside_fails :
    (let c := (run exec ⟨⟨new, []⟩, []⟩ (stopInside 16 onePacket ++ [.resume])).state
     ¬ StaysStopped c ∧ c.priv.state.running = false ∧ c.priv.state.currOffset = 16 ∧
       (c.priv.start none 0 0 1 (grantStart 2)).ret = .success ∧
       (c.priv.start none 0 0 1 (grantStart 2)).state.prevOffset = 0) ∧
    (let restarted := stopInside 16 onePacket ++ [.call (.start none 0 0 1 (grantStart 2))]
     (run exec ⟨⟨new, []⟩, []⟩ restarted).state.priv.prevOffset = 0 ∧
       (run exec ⟨⟨new, []⟩, []⟩ (restarted ++ [.resume])).state.priv.prevOffset = 16) := by
  refine ⟨⟨fun h => ?_, by decide +kernel, by decide +kernel, by decide +kernel,
    by decide +kernel⟩, by decide +kernel, by decide +kernel⟩
  exact absurd h.currOffset (by decide +kernel)

def halfPacket : EventEnv := ⟨fun _ => 0, fun _ => .accepted 2⟩

theorem stop_emits {c : Ctx FwIsoIrMultiple} (hrun : c.priv.state.running = true) :
    c.stop = .emit ((c.after (Ctx.onState FwIsoCtxState.stop c.priv)).note .stopped)
      fun c => .done .success c := by
  have hstate : (FwIsoCtx.state c.priv).running = true := hrun
  simp only [Ctx.stop, onState_stop_of_running hrun, hstate, Ctx.after_priv]
  rfl

/-- The theorem at a packet that ends in its own chunk. -/
theorem stoppedInside_early :
    let c := (run exec ⟨⟨new, []⟩, []⟩ sixteenByTwo).state
    ∃ c₁ k, handleEvent (.isoInterruptMc ⟨8⟩) halfPacket c = .emit c₁ k ∧
      c₁.priv.ctxPayloadCount = 1 ∧
      ∃ ret c₃, k (run exec ⟨c₁, []⟩ [.call .stop, .resume]).state = .done ret c₃ ∧
        StaysStopped c₃ := by
  intro c
  have hrun : c.priv.state.running = true := by decide +kernel
  have hparse : ({ c.priv with mem := halfPacket.buffer } : FwIsoIrMultiple).parseEvent 8 =
      .ok (8, [⟨0, 8⟩]) := by
    decide +kernel
  have hemit : ∃ c₁ k, handleEvent (.isoInterruptMc ⟨8⟩) halfPacket c = .emit c₁ k ∧
      c₁.priv.state = c.priv.state ∧ c₁.priv.prevOffset = c.priv.prevOffset ∧
      c₁.priv.ctxPayloadCount = 1 := by
    simp only [handleEvent, hparse]
    exact ⟨_, _, rfl, rfl, rfl, rfl⟩
  obtain ⟨c₁, k, hemit, hstate, hprev, hcount⟩ := hemit
  have hfound : c₁.priv.state.running = true := hstate ▸ hrun
  generalize hc₂ : (c₁.after (Ctx.onState FwIsoCtxState.stop c₁.priv)).note .stopped = c₂
  have hleft : run exec ⟨c₁, []⟩ [.call .stop, .resume] = ⟨c₂, []⟩ := by
    simp only [run_cons, run_nil, step, exec, stop_emits hfound, enter, hc₂]
  rw [onState_stop_of_running hfound] at hc₂
  have hinside : StopsInside c ⟨8⟩ halfPacket 8 c₁ c₂ k := by
    refine ⟨hrun, ⟨[⟨0, 8⟩], hparse⟩, hemit,
      ⟨[.call .stop, .resume], ⟨trivial, trivial⟩, hleft⟩, ?_⟩
    rw [← hc₂, Ctx.note_effects, Ctx.after_effects, List.append_assoc, List.drop_left]
    exact List.mem_cons_self
  have hguard : Guarded exec Op.Divides ⟨⟨new, []⟩, []⟩ sixteenByTwo :=
    ⟨trivial, fun h => absurd h (by decide), trivial, trivial⟩
  obtain ⟨ret, c₃, hk, hidle, _⟩ := stoppedInside_iff sixteenByTwo hguard rfl hinside
  refine ⟨c₁, k, hemit, hcount, ret, c₃, ?_, (hidle ?_).mpr (.inl ?_)⟩
  · rw [hleft]
    exact hk
  · rw [← hc₂]
    rfl
  · -- The stop in the handler leaves `prev_offset` at the start of the chunk.
    have hzero : c₂.priv.prevOffset = 0 := by
      rw [← hc₂]
      exact hprev.trans (by decide +kernel)
    have hchunk : c.priv.state.bytesPerChunk = 16 := by decide +kernel
    rw [walked, hzero, hchunk]
    decide

end FwIsoIrMultiple

end Hinoko
