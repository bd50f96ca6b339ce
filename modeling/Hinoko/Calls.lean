import Hinoko.Division
import Hinoko.Lib.Labelled

/-!
# What a context has done

An operation of a context is made of the functions of the embedded state, one after the other, of
what the kinds do to their own fields, and of the signals.  So a property of the state and of what
has been done needs to be looked at once for each function of the state, and holds in every run of
every kind.

* `Traced`: a relation between the states before and after, and what was done between, that the
  functions of the state keep to.
* `Obeys`: a property of a context that such steps, and the signals, keep; it holds in every run
  (`obeys_of_run`, for each kind).
* `Advances`: a relation between a context and what becomes of it, for such steps and the signals;
  it holds along every stretch of an operation (`exec_advances`, for each kind).
-/

namespace Hinoko

open Reentrant

/-- What is done between two states keeps to `R`, by each function of the state and by one after the
other; what comes first leaves the mapping alone. -/
structure Traced (R : FwIsoCtxState → FwIsoCtxState → List Effect → Prop) : Prop where
  refl : ∀ st, R st st []
  trans : ∀ {a b c es fs}, R a b es → b.addr = a.addr → R b c fs → R a c (es ++ fs)
  allocate : ∀ (st : FwIsoCtxState) path mode scode channel headerSize env,
    R st (st.allocate path mode scode channel headerSize env).state
      (st.allocate path mode scode channel headerSize env).effects
  mapBuffer : ∀ (st : FwIsoCtxState) bytesPerChunk chunksPerBuffer env,
    R st (st.mapBuffer bytesPerChunk chunksPerBuffer env).state
      (st.mapBuffer bytesPerChunk chunksPerBuffer env).effects
  unmapBuffer : ∀ st : FwIsoCtxState, R st st.unmapBuffer.state st.unmapBuffer.effects
  release : ∀ st : FwIsoCtxState, st.addr = .null → R st st.release.state st.release.effects
  registerChunk : ∀ (st : FwIsoCtxState) skip tags syncCode header payloadLength irq,
    R st (st.registerChunk skip tags syncCode header payloadLength irq).state
      (st.registerChunk skip tags syncCode header payloadLength irq).effects
  packet : ∀ (st : FwIsoCtxState) skip payload, st.addr ≠ .null → R st st [.packet skip payload]
  queueChunks : ∀ (st : FwIsoCtxState) answers,
    R st (st.queueChunks answers).state (st.queueChunks answers).effects
  start : ∀ (st : FwIsoCtxState) cycleMatch syncCode tags env,
    R st (st.start cycleMatch syncCode tags env).state
      (st.start cycleMatch syncCode tags env).effects

/-- A relation between a context and what becomes of it, for steps of `R` and for the signals. -/
structure Advances {π : Type} [FwIsoCtx π]
    (R : FwIsoCtxState → FwIsoCtxState → List Effect → Prop) (T : Ctx π → Ctx π → Prop) : Prop where
  refl : ∀ c, T c c
  trans : ∀ a b c, T a b → T b c → T a c
  after : ∀ (c : Ctx π) {o : Out π},
    R (FwIsoCtx.state c.priv) (FwIsoCtx.state o.state) o.effects → T c (c.after o)
  congr : ∀ (c : Ctx π) {p : π}, FwIsoCtx.state p = FwIsoCtx.state c.priv →
    T c { c with priv := p }
  stopped : ∀ c : Ctx π, (FwIsoCtx.state c.priv).running = true →
    T c ((c.after (Ctx.onState FwIsoCtxState.stop c.priv)).note .stopped)
  interrupted : ∀ (c : Ctx π) count, T c (c.note (.interrupted count))
  setIsoChannels : ∀ (c : Ctx π) channels, 0 ≤ (FwIsoCtx.state c.priv).fd →
    T c (c.note (.setIsoChannels channels))

/-- A property of a context that steps of `R` keep, and the signals. -/
structure Obeys {π : Type} [FwIsoCtx π]
    (R : FwIsoCtxState → FwIsoCtxState → List Effect → Prop) (I : Ctx π → Prop) : Prop where
  after : ∀ {c : Ctx π} {o : Out π}, I c →
    R (FwIsoCtx.state c.priv) (FwIsoCtx.state o.state) o.effects → I (c.after o)
  congr : ∀ {c : Ctx π} {p : π}, I c → FwIsoCtx.state p = FwIsoCtx.state c.priv →
    I { c with priv := p }
  stopped : ∀ {c : Ctx π}, I c → (FwIsoCtx.state c.priv).running = true →
    I ((c.after (Ctx.onState FwIsoCtxState.stop c.priv)).note .stopped)
  interrupted : ∀ {c : Ctx π} count, I c → I (c.note (.interrupted count))
  setIsoChannels : ∀ {c : Ctx π} channels, I c → 0 ≤ (FwIsoCtx.state c.priv).fd →
    I (c.note (.setIsoChannels channels))

theorem Obeys.advances {π : Type} [FwIsoCtx π]
    {R : FwIsoCtxState → FwIsoCtxState → List Effect → Prop} {I : Ctx π → Prop} (o : Obeys R I) :
    Advances R fun c c' => I c → I c' where
  refl _ := id
  trans _ _ _ h h' hc := h' (h hc)
  after _ _ h hc := o.after hc h
  congr _ _ h hc := o.congr hc h
  stopped _ h hc := o.stopped hc h
  interrupted _ count hc := o.interrupted count hc
  setIsoChannels _ channels h hc := o.setIsoChannels channels hc h

/-! ### Operations -/

theorem Ctx.paced_perform_bind {π β : Type} {T L : Ctx π → Ctx π → Prop} {c : Ctx π} {f : π → Out π}
    {g : Ret → Ctx π → Act (Ctx π) β}
    (h : (g (f c.priv).ret (c.after (f c.priv))).Paced T L c) :
    ((c.perform f).bind g).Paced T L c := h

theorem Ctx.paced_dispatch {π : Type} [FwIsoCtx π] {T : Ctx π → Ctx π → Prop} (hrefl : ∀ c, T c c)
    (htrans : ∀ a b c, T a b → T b c → T a c) (hstop : ∀ c : Ctx π, c.stop.Paced T T c)
    (hevent : ∀ (ev : CdevEvent) (env : EventEnv) (c : Ctx π),
      (FwIsoCtx.handleEvent ev env c).Paced T T c) (w : Wakeup) (c : Ctx π) :
    (c.dispatch w).Paced T T c := by
  cases w with
  | ioErr => exact hrefl c
  | again => exact hrefl c
  | readError errno => exact hstop c
  | event ev env =>
    refine (hevent ev env c).andThen htrans htrans fun ret _ c _ => ?_
    cases ret with
    | success => exact hrefl c
    | failure error => exact hstop c
    | rejected => exact hstop c
    | crashed fault => exact hrefl c

theorem Ctx.stop_running {π : Type} [FwIsoCtx π] {c : Ctx π}
    (hrunning : (FwIsoCtx.state c.priv).running = true) :
    c.stop = .emit ((c.after (onState FwIsoCtxState.stop c.priv)).note .stopped)
      fun c => .done .success c := by
  have hstate : (FwIsoCtx.state (c.after (onState FwIsoCtxState.stop c.priv)).priv).running =
      false := by
    simp only [after_priv, onState, Out.map_state, FwIsoCtx.state_setState,
      FwIsoCtxState.stop_of_running hrunning]
  simp only [stop, hstate, hrunning, ne_eq, Bool.false_eq_true, not_false_eq_true, if_true]

/-- A kind of context takes its state down with the functions of the state. -/
structure TakesDown (π : Type) [FwIsoCtx π] : Prop where
  unmapBuffer : ∀ p : π, (FwIsoCtx.unmapBuffer p).map FwIsoCtx.state =
    (FwIsoCtx.state p).unmapBuffer
  release : ∀ p : π, (FwIsoCtx.release p).map FwIsoCtx.state = (FwIsoCtx.state p).release

namespace TakesDown

variable {π : Type} [FwIsoCtx π] {R : FwIsoCtxState → FwIsoCtxState → List Effect → Prop}

theorem state_unmapBuffer (d : TakesDown π) (p : π) :
    FwIsoCtx.state (FwIsoCtx.unmapBuffer p).state = (FwIsoCtx.state p).unmapBuffer.state := by
  rw [← d.unmapBuffer p]
  rfl

theorem state_release (d : TakesDown π) (p : π) :
    FwIsoCtx.state (FwIsoCtx.release p).state = (FwIsoCtx.state p).release.state := by
  rw [← d.release p]
  rfl

theorem traced_unmapBuffer (d : TakesDown π) (r : Traced R) (p : π) : R (FwIsoCtx.state p)
    (FwIsoCtx.state (FwIsoCtx.unmapBuffer p).state) (FwIsoCtx.unmapBuffer p).effects := by
  have h := r.unmapBuffer (FwIsoCtx.state p)
  rw [← d.unmapBuffer p] at h
  exact h

theorem traced_release (d : TakesDown π) (r : Traced R) (p : π)
    (haddr : (FwIsoCtx.state p).addr = .null) : R (FwIsoCtx.state p)
      (FwIsoCtx.state (FwIsoCtx.release p).state) (FwIsoCtx.release p).effects := by
  have h := r.release (FwIsoCtx.state p) haddr
  rw [← d.release p] at h
  exact h

end TakesDown

namespace Advances

variable {π : Type} [FwIsoCtx π] {R : FwIsoCtxState → FwIsoCtxState → List Effect → Prop}
  {T : Ctx π → Ctx π → Prop}

theorem idle (a : Advances R T) (r : Traced R) {c : Ctx π}
    (hrun : (FwIsoCtx.state c.priv).running = false) :
    T c (c.after (Ctx.onState FwIsoCtxState.stop c.priv)) := by
  refine a.after c ?_
  rw [Ctx.onState, FwIsoCtxState.stop_of_not_running hrun]
  simpa using r.refl _

theorem stop (a : Advances R T) (r : Traced R) (c : Ctx π) : c.stop.Paced T T c := by
  cases hrun : (FwIsoCtx.state c.priv).running with
  | false =>
    rw [Ctx.stop_idle hrun]
    exact a.idle r hrun
  | true =>
    rw [Ctx.stop_running hrun]
    exact ⟨a.stopped c hrun, a.refl⟩

theorem unmapBuffer (a : Advances R T) (r : Traced R) (d : TakesDown π) (c : Ctx π) :
    c.unmapBuffer.Paced T (fun c c' => T c c' ∧ (FwIsoCtx.state c'.priv).addr = .null) c := by
  rw [Ctx.unmapBuffer]
  refine (a.stop r c).andThen a.trans (fun c c' c'' h h' => ⟨a.trans c c' c'' h h'.1, h'.2⟩) ?_
  intro _ _ c _
  refine ⟨a.after c (d.traced_unmapBuffer r c.priv), ?_⟩
  rw [Ctx.after_priv, d.state_unmapBuffer]
  rfl

theorem release (a : Advances R T) (r : Traced R) (d : TakesDown π) (c : Ctx π) :
    c.release.Paced T T c := by
  rw [Ctx.release]
  refine (a.unmapBuffer r d c).andThen (fun c c' c'' h => a.trans c c' c'' h.1)
    (fun c c' c'' h => a.trans c c' c'' h.1) ?_
  exact fun _ _ c h => a.after c (d.traced_release r c.priv h.2)

theorem dispatch (a : Advances R T) (r : Traced R)
    (hevent : ∀ (ev : CdevEvent) (env : EventEnv) (c : Ctx π),
      (FwIsoCtx.handleEvent ev env c).Paced T T c) (w : Wakeup) (c : Ctx π) :
    (c.dispatch w).Paced T T c :=
  Ctx.paced_dispatch a.refl a.trans (a.stop r) hevent w c

end Advances

variable {R : FwIsoCtxState → FwIsoCtxState → List Effect → Prop}

/-! ### IT contexts -/

namespace FwIsoIt

variable {I : Ctx FwIsoIt → Prop} {T : Ctx FwIsoIt → Ctx FwIsoIt → Prop}

theorem takesDown : TakesDown FwIsoIt := ⟨fun _ => rfl, fun _ => rfl⟩

theorem traced_registerPacket (r : Traced R) (self : FwIsoIt) (tags syncCode : UInt32)
    (header payload : ArrayArg) (irq : Bool) :
    R self.state (self.registerPacket tags syncCode header payload irq).state.state
      (self.registerPacket tags syncCode header payload irq).effects := by
  have hsame := SameSetup.registerChunk self.state
    (header.length = 0 ∧ payload.length = 0 : Bool) tags syncCode header payload.length irq
  have hchunk := r.registerChunk self.state
    (header.length = 0 ∧ payload.length = 0 : Bool) tags syncCode header payload.length irq
  rcases self.registerPacket_cases tags syncCode header payload irq with
    hr | ⟨_, ⟨_, ho⟩ | ⟨hret, ⟨_, ho⟩ | ⟨self', hw, ho⟩⟩⟩
  · rw [hr.state, hr.effects]
    exact r.refl _
  · rw [ho]
    exact hchunk
  · rw [ho]
    exact hchunk
  · rw [ho]
    simp only [writePayload_state hw]
    refine r.trans hchunk hsame.addr (r.packet _ _ _ (hsame.addr.trans_ne ?_))
    rcases self.state.registerChunk_cases (header.length = 0 ∧ payload.length = 0 : Bool) tags
      syncCode header payload.length irq with hr | ⟨⟨_, _, _, haddr⟩, _⟩
    · exact absurd hret hr.ret.ne_success
    · exact haddr

theorem exec_advances (r : Traced R) (a : Advances R T) (op : Op) (c : Ctx FwIsoIt) :
    (exec op c).Paced T T c := by
  cases op with
  | allocate path scode channel headerSize env =>
    refine a.after c (o := c.priv.allocate path scode channel headerSize env) ?_
    rw [FwIsoIt.allocate]
    split
    · exact r.refl _
    · exact r.allocate c.priv.state path .it scode channel headerSize env
  | mapBuffer bytes payloads env mem =>
    exact a.after c (o := c.priv.mapBuffer bytes payloads env mem)
      (r.mapBuffer c.priv.state bytes payloads env)
  | registerPacket tags syncCode header payload irq =>
    exact a.after c (traced_registerPacket r c.priv tags syncCode header payload irq)
  | start cycleMatch env =>
    refine a.after c (o := c.priv.start cycleMatch env) ?_
    rw [FwIsoIt.start]
    split
    · exact r.refl _
    · exact r.start c.priv.state cycleMatch 0 0 env
  | stop => exact a.stop r c
  | unmapBuffer => exact (a.unmapBuffer r takesDown c).mono fun _ _ h => h.1
  | release => exact a.release r takesDown c
  | dispatch w =>
    refine a.dispatch r (fun ev env c => ?_) w c
    cases ev with
    | isoInterrupt ev =>
      exact ⟨a.interrupted c _, fun c' => a.after c' (r.queueChunks _ env.queueIso)⟩
    | isoInterruptMc ev => exact a.refl c
    | other => exact a.refl c

theorem obeys_of_run (r : Traced R) (o : Obeys R I) (hnew : I ⟨new, []⟩) (ms : List (Move Op)) :
    I (run exec ⟨⟨new, []⟩, []⟩ ms).state :=
  run_keeps_of_init ms hnew fun op _ c hc => (exec_advances r o.advances op c).keeps hc

end FwIsoIt

/-! ### Single-channel IR contexts -/

namespace FwIsoIrSingle

variable {I : Ctx FwIsoIrSingle → Prop} {T : Ctx FwIsoIrSingle → Ctx FwIsoIrSingle → Prop}

theorem takesDown : TakesDown FwIsoIrSingle := ⟨fun _ => rfl, fun _ => rfl⟩

theorem traced_finishEvent (r : Traced R) (self : FwIsoIrSingle) (count : UInt32)
    (answers : Nat → QueueAnswer) :
    R self.state (finishEvent count answers self).state.state
      (finishEvent count answers self).effects := by
  simp only [finishEvent]
  split
  · exact r.refl _
  · exact r.queueChunks _ answers

theorem exec_advances (r : Traced R) (a : Advances R T) (op : Op) (c : Ctx FwIsoIrSingle) :
    (exec op c).Paced T T c := by
  cases op with
  | allocate path channel headerSize env =>
    refine a.after c (o := c.priv.allocate path channel headerSize env) ?_
    simp only [FwIsoIrSingle.allocate]
    split
    · exact r.refl _
    split
    · exact r.refl _
    · exact r.allocate c.priv.state path .irSingle 0 channel headerSize env
  | mapBuffer bytes payloads env =>
    exact a.after c (o := c.priv.mapBuffer bytes payloads env)
      (r.mapBuffer c.priv.state bytes payloads env)
  | registerPacket irq =>
    exact a.after c (o := c.priv.registerPacket irq)
      (r.registerChunk c.priv.state false 0 0 .null 0 irq)
  | start cycleMatch syncCode tags env =>
    refine a.after c (o := c.priv.start cycleMatch syncCode tags env) ?_
    simp only [FwIsoIrSingle.start]
    split
    · exact r.refl _
    split
    · exact r.refl _
    · exact r.start c.priv.state cycleMatch syncCode tags env
  | getPayload index => exact a.after c (o := askPayload index c.priv) (r.refl _)
  | stop => exact a.stop r c
  | unmapBuffer => exact (a.unmapBuffer r takesDown c).mono fun _ _ h => h.1
  | release => exact a.release r takesDown c
  | dispatch w =>
    refine a.dispatch r (fun ev env c => ?_) w c
    cases ev with
    | isoInterrupt ev =>
      simp only [FwIsoCtx.handleEvent, handleEvent]
      split
      · exact a.refl c
      · have hpriv : T c ⟨{ c.priv with ev := some ev }, c.trace⟩ := a.congr c rfl
        exact ⟨a.trans _ _ _ hpriv (a.interrupted _ _), fun c' =>
          a.after c' (traced_finishEvent r c'.priv _ env.queueIso)⟩
    | isoInterruptMc ev => exact a.refl c
    | other => exact a.refl c

theorem obeys_of_run (r : Traced R) (o : Obeys R I) (hnew : I ⟨new, []⟩) (ms : List (Move Op)) :
    I (run exec ⟨⟨new, []⟩, []⟩ ms).state :=
  run_keeps_of_init ms hnew fun op _ c hc => (exec_advances r o.advances op c).keeps hc

end FwIsoIrSingle

/-! ### Multiple-channel IR contexts -/

namespace FwIsoIrMultiple

variable {I : Ctx FwIsoIrMultiple → Prop} {T : Ctx FwIsoIrMultiple → Ctx FwIsoIrMultiple → Prop}

theorem takesDown : TakesDown FwIsoIrMultiple := ⟨fun _ => rfl, fun _ => rfl⟩

theorem traced_registerChunks (r : Traced R) : ∀ (n : Nat) (self : FwIsoIrMultiple),
    R self.state (registerChunks n self).state.state (registerChunks n self).effects ∧
      SameSetup self.state (registerChunks n self).state.state := by
  intro n
  induction n with
  | zero => exact fun self => ⟨r.refl _, .refl _⟩
  | succ n ih =>
    intro self
    have hchunk : R self.state self.registerChunk.state.state self.registerChunk.effects :=
      r.registerChunk self.state false 0 0 .null 0 _
    have hsame : SameSetup self.state self.registerChunk.state.state :=
      SameSetup.registerChunk self.state false 0 0 .null 0 _
    simp only [registerChunks]
    split
    · obtain ⟨hrest, hsame'⟩ := ih self.registerChunk.state
      exact ⟨r.trans hchunk hsame.addr hrest, hsame.trans hsame'⟩
    · exact ⟨hchunk, hsame⟩

theorem traced_start (r : Traced R) (self : FwIsoIrMultiple)
    (cycleMatch : Option (UInt16 × UInt16)) (syncCode tags chunksPerIrq : UInt32)
    (env : StartEnv) :
    R self.state (self.start cycleMatch syncCode tags chunksPerIrq env).state.state
      (self.start cycleMatch syncCode tags chunksPerIrq env).effects := by
  simp only [start]
  split
  · exact r.refl _
  split
  · exact r.refl _
  split
  · exact r.refl _
  obtain ⟨hchunks, hsame⟩ := traced_registerChunks r self.state.chunksPerBuffer.toNat
    { self with chunksPerIrq := chunksPerIrq, accumulatedChunkCount := 0 }
  split
  · exact r.trans hchunks hsame.addr (r.start _ cycleMatch syncCode tags env)
  · exact hchunks

theorem traced_finishEvent (r : Traced R) (self : FwIsoIrMultiple)
    (bytesPerChunk bytesPerBuffer accumLength : UInt32) (answers : Nat → QueueAnswer) :
    R self.state
      (finishEvent bytesPerChunk bytesPerBuffer accumLength answers self).state.state
      (finishEvent bytesPerChunk bytesPerBuffer accumLength answers self).effects := by
  simp only [finishEvent]
  split
  · exact r.refl _
  obtain ⟨hchunks, hsame⟩ := traced_registerChunks r
    (((self.prevOffset + accumLength) / bytesPerChunk).toNat -
      (self.prevOffset / bytesPerChunk).toNat) self
  split
  · split
    · exact hchunks
    · exact r.trans hchunks hsame.addr (r.queueChunks _ answers)
  · exact hchunks

theorem traced_mapBuffer (r : Traced R) (self : FwIsoIrMultiple)
    (bytesPerChunk chunksPerBuffer : UInt32) (env : MapMultipleEnv) :
    R self.state (self.mapBuffer bytesPerChunk chunksPerBuffer env).state.state
      (self.mapBuffer bytesPerChunk chunksPerBuffer env).effects := by
  simp only [mapBuffer]
  split
  · exact r.mapBuffer _ _ _ _
  · exact r.mapBuffer _ _ _ _

/-- Allocating listens to channels only on a context that there is. -/
theorem allocate_advances (r : Traced R) (a : Advances R T) (path : Option String)
    (channels : List UInt8) (env : AllocateEnv) (setIsoChannels : Except Nat UInt64)
    (bigEndian : Bool) (c : Ctx FwIsoIrMultiple) :
    (allocate path channels env setIsoChannels bigEndian c).Paced T T c := by
  simp only [allocate]
  split
  · exact a.refl c
  split
  · exact a.refl c
  have hallocated : T c (c.after (allocateState path env c.priv)) :=
    a.after c (r.allocate c.priv.state path .irMultiple 0 0 0 env)
  have hopened : (allocateState path env c.priv).ret = .success →
      0 ≤ (c.after (allocateState path env c.priv)).priv.state.fd := by
    intro hret
    obtain ⟨fd, handle, hstate⟩ := FwIsoCtxState.allocate_of_success hret
    show 0 ≤ (c.priv.state.allocate path .irMultiple 0 0 0 env).state.fd
    rw [hstate]
    exact Int.natCast_nonneg fd
  refine Ctx.paced_perform_bind (f := allocateState path env) ?_
  generalize c.after (allocateState path env c.priv) = c' at hallocated hopened ⊢
  generalize (allocateState path env c.priv).ret = ret at hopened ⊢
  cases ret with
  | success =>
    have hnote : T c (c'.note (.setIsoChannels (channelMask channels))) :=
      a.trans _ _ _ hallocated (a.setIsoChannels c' _ (hopened rfl))
    have hrelease : ∀ f : Ret → Ctx FwIsoIrMultiple → Ret, ((c'.note (.setIsoChannels
        (channelMask channels))).release.bind fun ret c => .done (f ret c) c).Paced T T c := by
      intro f
      refine ((a.release r takesDown _).andThen a.trans a.trans ?_).behind a.trans a.trans hnote
      exact fun _ _ c _ => a.refl c
    dsimp only
    cases setIsoChannels with
    | error errno => exact hrelease fun _ _ => _
    | ok mask =>
      dsimp only
      split
      · exact hrelease fun _ _ => _
      · exact a.trans _ _ _ hnote (a.congr _ rfl)
  | failure error => exact hallocated
  | rejected => exact hallocated
  | crashed fault => exact hallocated

theorem exec_advances (r : Traced R) (a : Advances R T) (op : Op) (c : Ctx FwIsoIrMultiple) :
    (exec op c).Paced T T c := by
  cases op with
  | allocate path channels env set bigEndian =>
    exact allocate_advances r a path channels env set bigEndian c
  | mapBuffer bytes chunks env => exact a.after c (traced_mapBuffer r c.priv bytes chunks env)
  | start cycleMatch syncCode tags irq env =>
    exact a.after c (traced_start r c.priv cycleMatch syncCode tags irq env)
  | getPayload index =>
    refine a.after c (o := askPayload index c.priv) ?_
    show R c.priv.state (c.priv.getPayload index).1.state []
    rw [c.priv.state_getPayload index]
    exact r.refl _
  | stop => exact a.stop r c
  | unmapBuffer => exact (a.unmapBuffer r takesDown c).mono fun _ _ h => h.1
  | release => exact a.release r takesDown c
  | dispatch w =>
    refine a.dispatch r (fun ev env c => ?_) w c
    cases ev with
    | isoInterrupt ev => exact a.refl c
    | isoInterruptMc ev =>
      simp only [FwIsoCtx.handleEvent, handleEvent]
      split
      · exact a.refl c
      next accumLength records _ =>
        have hpriv : T c ⟨{ c.priv with mem := env.buffer }.store records, c.trace⟩ :=
          a.congr c rfl
        exact ⟨a.trans _ _ _ hpriv (a.interrupted _ _), fun c' =>
          a.after c' (traced_finishEvent r c'.priv _ _ _ env.queueIso)⟩
    | other => exact a.refl c

theorem obeys_of_run (r : Traced R) (o : Obeys R I) (hnew : I ⟨new, []⟩) (ms : List (Move Op)) :
    I (run exec ⟨⟨new, []⟩, []⟩ ms).state :=
  run_keeps_of_init ms hnew fun op _ c hc => (exec_advances r o.advances op c).keeps hc

end FwIsoIrMultiple

end Hinoko
