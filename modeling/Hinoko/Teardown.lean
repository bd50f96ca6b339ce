import Hinoko.Atomic
import Hinoko.Interrupts
import Hinoko.Lib.Labelled

/-!
# Teardown

`release` unmaps the buffer, and unmapping stops the context, which emits the stopped signal.
A handler of it may start the context again, and then the teardown takes the buffer and the
descriptor away from a context that runs.

* `Alive`: a context that runs has a mapping, and one that has a mapping has a descriptor.
* `Level`, `Counts`: the stopped signal is emitted as often as a context stops running.
* `alive_of_run`: the order of the life cycle, in any run in which no handler leaves a context
  running that is being torn down.
-/

namespace Hinoko

open Reentrant

/-- The order of the life cycle, without failed mappings. -/
structure Alive (st : FwIsoCtxState) : Prop where
  mapped : st.running = true → ∃ id, st.addr = .mapped id
  allocated : (∃ id, st.addr = .mapped id) → 0 ≤ st.fd
  succeeded : st.addr ≠ .mapFailed

namespace Alive

variable {st st' : FwIsoCtxState}

theorem of_same (h : Alive st) (hsame : SameSetup st st') : Alive st' := by
  refine ⟨?_, ?_, ?_⟩
  · rw [hsame.running, hsame.addr]
    exact h.mapped
  · rw [hsame.addr, hsame.fd]
    exact h.allocated
  · rw [hsame.addr]
    exact h.succeeded

theorem of_unallocated (h : Alive st) (hfd : st.fd < 0) :
    st.running = false ∧ ¬ ∃ id, st.addr = .mapped id := by
  have hnone : ¬ ∃ id, st.addr = .mapped id := fun hmapped => by
    have hup := h.allocated hmapped
    omega
  refine ⟨?_, hnone⟩
  cases hrun : st.running with
  | false => rfl
  | true => exact absurd (h.mapped hrun) hnone

theorem allocate (h : Alive st) (path : Option String) (mode : FwIsoCtxMode)
    (scode channel headerSize : UInt32) (env : AllocateEnv) :
    Alive (st.allocate path mode scode channel headerSize env).state := by
  rcases st.allocate_cases path mode scode channel headerSize env with
    hr | ⟨hfd, _, ⟨_, hstate⟩ | ⟨_, _, _, hstate⟩⟩
  · rw [hr.state]
    exact h
  · obtain ⟨hrun, hnone⟩ := h.of_unallocated hfd
    rw [hstate]
    exact ⟨fun hup => absurd (hrun.symm.trans hup) (by decide), fun hmapped => absurd hmapped hnone,
      h.succeeded⟩
  · obtain ⟨hrun, hnone⟩ := h.of_unallocated hfd
    rw [hstate]
    exact ⟨fun hup => absurd (hrun.symm.trans hup) (by decide), fun hmapped => absurd hmapped hnone,
      h.succeeded⟩

theorem mapBuffer (h : Alive st) (bytesPerChunk chunksPerBuffer : UInt32) {env : MapEnv}
    (hok : ∃ id, env.mmap = .ok id) :
    Alive (st.mapBuffer bytesPerChunk chunksPerBuffer env).state := by
  obtain ⟨id, hok⟩ := hok
  rcases st.mapBuffer_cases bytesPerChunk chunksPerBuffer env with
    hr | ⟨⟨_, _, hfd, _⟩, _, ⟨_, herror, _⟩ | ⟨id', _, _, hstate⟩⟩
  · rw [hr.state]
    exact h
  · rw [hok] at herror
    cases herror
  · rw [hstate]
    exact ⟨fun _ => ⟨id', rfl⟩, fun _ => hfd, nofun⟩

theorem start (h : Alive st) (cycleMatch : Option (UInt16 × UInt16)) (syncCode tags : UInt32)
    (env : StartEnv) : Alive (st.start cycleMatch syncCode tags env).state := by
  have hq := h.of_same (SameSetup.queueChunks st env.queueIso)
  rcases st.start_cases cycleMatch syncCode tags env with
    hr | ⟨⟨_, haddr, _⟩, ⟨_, ho⟩ | ⟨_, ⟨_, _, ho⟩ | ⟨_, ho⟩⟩⟩
  · rw [hr.state]
    exact h
  · rw [ho]
    exact hq
  · rw [ho]
    exact hq
  · rw [ho]
    refine ⟨fun _ => ?_, hq.allocated, hq.succeeded⟩
    have hsame := (SameSetup.queueChunks st env.queueIso).addr
    cases haddr' : st.addr with
    | null => exact absurd haddr' haddr
    | mapFailed => exact absurd haddr' h.succeeded
    | mapped id => exact ⟨id, hsame.trans haddr'⟩

theorem stop (h : Alive st) : Alive st.stop.state ∧ st.stop.state.running = false := by
  cases hrun : st.running with
  | false =>
    rw [FwIsoCtxState.stop_of_not_running hrun]
    exact ⟨h, hrun⟩
  | true =>
    rw [FwIsoCtxState.stop_of_running hrun]
    exact ⟨⟨nofun, h.allocated, h.succeeded⟩, rfl⟩

theorem unmapBuffer (hidle : st.running = false) :
    Alive st.unmapBuffer.state ∧ st.unmapBuffer.state.addr = .null ∧
      st.unmapBuffer.state.running = false :=
  ⟨⟨fun hup => absurd (hidle.symm.trans hup) (by decide), nofun, nofun⟩, rfl, hidle⟩

theorem release (haddr : st.addr = .null) (hidle : st.running = false) :
    Alive st.release.state := by
  refine ⟨fun hup => absurd (hidle.symm.trans hup) (by decide), fun hmapped => ?_, fun
      hfailed => ?_⟩
  · obtain ⟨id, hmapped⟩ := hmapped
    cases haddr.symm.trans hmapped
  · cases haddr.symm.trans hfailed

end Alive

/-! ### What emits no signal -/

namespace FwIsoCtxState

variable (st : FwIsoCtxState)

theorem allocate_silent (path : Option String) (mode : FwIsoCtxMode)
    (scode channel headerSize : UInt32) (env : AllocateEnv) :
    (st.allocate path mode scode channel headerSize env).state.running = st.running ∧
      .stopped ∉ (st.allocate path mode scode channel headerSize env).effects := by
  rcases st.allocate_cases path mode scode channel headerSize env with
    hr | ⟨_, hsetup, hstate⟩
  · rw [hr.state, hr.effects]
    exact ⟨rfl, List.not_mem_nil⟩
  · refine ⟨?_, fun hmem => ?_⟩
    · rcases hstate with ⟨_, hstate⟩ | ⟨_, _, _, hstate⟩
      · rw [hstate]
      · rw [hstate]
    · exact hsetup _ hmem

theorem mapBuffer_silent (bytesPerChunk chunksPerBuffer : UInt32) (env : MapEnv) :
    (st.mapBuffer bytesPerChunk chunksPerBuffer env).state.running = st.running ∧
      .stopped ∉ (st.mapBuffer bytesPerChunk chunksPerBuffer env).effects := by
  rcases st.mapBuffer_cases bytesPerChunk chunksPerBuffer env with hr | ⟨_, heffects, hstate⟩
  · rw [hr.state, hr.effects]
    exact ⟨rfl, List.not_mem_nil⟩
  · refine ⟨?_, fun hmem => ?_⟩
    · rcases hstate with ⟨_, _, _, hstate⟩ | ⟨_, _, _, hstate⟩
      · rw [hstate]
      · rw [hstate]
    · rw [heffects] at hmem
      cases List.mem_singleton.mp hmem

theorem registerChunk_silent (skip : Bool) (tags syncCode : UInt32) (header : ArrayArg)
    (payloadLength : UInt32) (irq : Bool) :
    .stopped ∉ (st.registerChunk skip tags syncCode header payloadLength irq).effects :=
  fun hmem => by
    obtain ⟨_, hp⟩ := st.registerChunk_effects skip tags syncCode header payloadLength irq _ hmem
    cases hp

theorem queueChunks_silent (answers : Nat → QueueAnswer) :
    .stopped ∉ (st.queueChunks answers).effects := fun hmem => by
  rcases (st.queueChunks_cases answers).1 _ hmem with h | ⟨_, _, _, h⟩ <;> cases h

theorem start_silent (cycleMatch : Option (UInt16 × UInt16)) (syncCode tags : UInt32)
    (env : StartEnv) :
    (st.running = true → (st.start cycleMatch syncCode tags env).state.running = true) ∧
      .stopped ∉ (st.start cycleMatch syncCode tags env).effects := by
  have hq := st.queueChunks_silent env.queueIso
  have hrun := (SameSetup.queueChunks st env.queueIso).running
  have hboth : ∀ arg accepted,
      .stopped ∉ (st.queueChunks env.queueIso).effects ++ [.startIso arg accepted] :=
    fun arg accepted hmem => by
      rcases List.mem_append.mp hmem with hmem | hmem
      · exact hq hmem
      · cases List.mem_singleton.mp hmem
  rcases st.start_cases cycleMatch syncCode tags env with
    hr | ⟨_, ⟨_, ho⟩ | ⟨_, ⟨_, _, ho⟩ | ⟨_, ho⟩⟩⟩
  · rw [hr.state, hr.effects]
    exact ⟨id, List.not_mem_nil⟩
  · rw [ho]
    exact ⟨hrun.trans, hq⟩
  · rw [ho]
    exact ⟨hrun.trans, hboth _ _⟩
  · rw [ho]
    exact ⟨fun _ => rfl, hboth _ _⟩

theorem unmapBuffer_silent : .stopped ∉ st.unmapBuffer.effects := by
  simp only [unmapBuffer]
  split
  · exact List.not_mem_nil
  · exact fun hmem => by cases List.mem_singleton.mp hmem

theorem release_silent : .stopped ∉ st.release.effects := by
  simp only [release]
  split
  · exact fun hmem => by cases List.mem_singleton.mp hmem
  · exact List.not_mem_nil

end FwIsoCtxState

/-! ### The signal -/

def stoppedCount {π : Type} (c : Ctx π) : Nat := c.effects.count .stopped

def isRunning {π : Type} [FwIsoCtx π] (c : Ctx π) : Bool := (FwIsoCtx.state c.priv).running

/-- The context runs as before, and the signal has not been emitted. -/
structure Level {π : Type} [FwIsoCtx π] (c c' : Ctx π) : Prop where
  running : isRunning c' = isRunning c
  count : stoppedCount c' = stoppedCount c

namespace Level

variable {π : Type} [FwIsoCtx π] {a b c : Ctx π}

theorem refl (c : Ctx π) : Level c c := ⟨rfl, rfl⟩

theorem trans (h : Level a b) (h' : Level b c) : Level a c :=
  ⟨h'.running.trans h.running, h'.count.trans h.count⟩

theorem counts (h : Level a b) : Counts stoppedCount isRunning a b := by
  rw [Counts, h.count, h.running]
  simp only [and_not_self, if_false, Nat.add_zero]

theorem behind (h : Level a b) (h' : Counts stoppedCount isRunning b c) :
    Counts stoppedCount isRunning a c := by
  rw [Counts] at h' ⊢
  rw [h', h.count, h.running]

theorem after {o : Out π} (hrun : (FwIsoCtx.state o.state).running =
    (FwIsoCtx.state c.priv).running)
    (hnot : .stopped ∉ o.effects) : Level c (c.after o) := by
  refine ⟨hrun, ?_⟩
  rw [stoppedCount, Ctx.after_effects, List.count_append, List.count_eq_zero.mpr hnot, Nat.add_zero]
  rfl

theorem counts_after {o : Out π}
    (hrun : isRunning c = true → (FwIsoCtx.state o.state).running = true)
    (hnot : .stopped ∉ o.effects) : Counts stoppedCount isRunning c (c.after o) := by
  have hcount : stoppedCount (c.after o) = stoppedCount c := by
    rw [stoppedCount, Ctx.after_effects, List.count_append, List.count_eq_zero.mpr hnot,
      Nat.add_zero]
    rfl
  have hnone : ¬ (isRunning c = true ∧ ¬ isRunning (c.after o) = true) :=
    fun h => h.2 (hrun h.1)
  rw [Counts, hcount, if_neg hnone, Nat.add_zero]

theorem noted {p : π} (hrun : (FwIsoCtx.state p).running = (FwIsoCtx.state c.priv).running)
    {e : Effect} (he : e ≠ .stopped) : Level c (({ c with priv := p } : Ctx π).note e) := by
  have hnone : [e].count .stopped = 0 :=
    List.count_eq_zero.mpr fun hmem => he (List.mem_singleton.mp hmem).symm
  refine ⟨hrun, ?_⟩
  rw [stoppedCount, Ctx.note_effects, List.count_append, hnone, Nat.add_zero]
  rfl

end Level

namespace Ctx

variable {π : Type} [FwIsoCtx π]

theorem stop_paced (c : Ctx π) : c.stop.Paced (Counts stoppedCount isRunning) Level c := by
  simp only [stop]
  cases hrun : (FwIsoCtx.state c.priv).running with
  | false =>
    have hstop : onState FwIsoCtxState.stop c.priv =
        ⟨FwIsoCtx.setState c.priv (FwIsoCtx.state c.priv), .success, []⟩ := by
      rw [onState, FwIsoCtxState.stop_of_not_running hrun]
      rfl
    have hstate : (FwIsoCtx.state (c.after (onState FwIsoCtxState.stop c.priv)).priv).running =
        false := by
      rw [hstop, after_priv, FwIsoCtx.state_setState, hrun]
    rw [hstate, if_neg (by simp)]
    refine Level.after ?_ ?_
    · rw [hstop, FwIsoCtx.state_setState]
    · rw [hstop]
      exact List.not_mem_nil
  | true =>
    have hstop : (onState FwIsoCtxState.stop c.priv).effects = [.stopIso] ∧
        (FwIsoCtx.state (onState FwIsoCtxState.stop c.priv).state).running = false := by
      rw [onState, FwIsoCtxState.stop_of_running hrun, Out.map_effects, Out.map_state,
        FwIsoCtx.state_setState]
      exact ⟨rfl, rfl⟩
    rw [after_priv, hstop.2, if_pos (by decide)]
    refine ⟨?_, fun c' => Level.refl c'⟩
    have hbefore : isRunning c = true := hrun
    have hafter : isRunning ((c.after (onState FwIsoCtxState.stop c.priv)).note .stopped) =
        false := hstop.2
    rw [Counts, hbefore, hafter, stoppedCount, note_effects, after_effects, hstop.1]
    simp [List.count_append, stoppedCount]

theorem unmapBuffer_paced (hunmap : ∀ c : Ctx π, Level c (c.after (FwIsoCtx.unmapBuffer c.priv)))
    (c : Ctx π) : c.unmapBuffer.Paced (Counts stoppedCount isRunning) Level c :=
  c.stop_paced.bind fun _ _ c' h => h.trans (hunmap c')

theorem release_paced (hunmap : ∀ c : Ctx π, Level c (c.after (FwIsoCtx.unmapBuffer c.priv)))
    (hrelease : ∀ c : Ctx π, Level c (c.after (FwIsoCtx.release c.priv))) (c : Ctx π) :
    c.release.Paced (Counts stoppedCount isRunning) Level c :=
  (unmapBuffer_paced hunmap c).bind fun _ _ c' h => h.trans (hrelease c')

theorem dispatch_paced (hevent : ∀ ev env (c : Ctx π),
      (FwIsoCtx.handleEvent ev env c).Paced (Counts stoppedCount isRunning) Level c) (w : Wakeup)
    (c : Ctx π) : (c.dispatch w).Paced (Counts stoppedCount isRunning) Level c := by
  have hstop : ∀ {r s : Ctx π}, Level r s →
      s.stop.Paced (Counts stoppedCount isRunning) Level r := fun h =>
    Act.Paced.behind (fun _ _ _ h h' => h.behind h') (fun _ _ _ h h' => h.trans h') h
      (stop_paced _)
  cases w with
  | ioErr => exact .refl c
  | again => exact .refl c
  | readError errno => exact stop_paced c
  | event ev env =>
    refine (hevent ev env c).bind fun ret r s h => ?_
    cases ret with
    | success => exact h
    | crashed fault => exact h
    | failure error => exact hstop h
    | rejected => exact hstop h

/-! ### The order -/

/-- Stopping keeps the order, and what goes on only with a context that does not run has one that
does not run. -/
theorem stop_keepsIf {c : Ctx π} (h : Alive (FwIsoCtx.state c.priv)) :
    c.stop.KeepsIf (fun c => Alive (FwIsoCtx.state c.priv)) (fun c => isRunning c = false)
      fun _ c => Alive (FwIsoCtx.state c.priv) ∧ isRunning c = false := by
  have hstop : Alive (FwIsoCtx.state (c.after (onState FwIsoCtxState.stop c.priv)).priv) ∧
      isRunning (c.after (onState FwIsoCtxState.stop c.priv)) = false := by
    simp only [isRunning, after_priv, onState, Out.map_state, FwIsoCtx.state_setState]
    exact h.stop
  simp only [stop]
  split
  · exact ⟨hstop.1, fun c' hc' hidle => ⟨hc', hidle⟩⟩
  · exact hstop

theorem unmapBuffer_keepsIf (hunmap : ∀ p : π, FwIsoCtx.state (FwIsoCtx.unmapBuffer p).state =
      (FwIsoCtx.state p).unmapBuffer.state) {c : Ctx π} (h : Alive (FwIsoCtx.state c.priv)) :
    c.unmapBuffer.KeepsIf (fun c => Alive (FwIsoCtx.state c.priv)) (fun c => isRunning c = false)
      fun _ c => Alive (FwIsoCtx.state c.priv) ∧ (FwIsoCtx.state c.priv).addr = .null ∧
        isRunning c = false := by
  refine (stop_keepsIf h).bind fun _ c hc => ?_
  change Alive (FwIsoCtx.state (FwIsoCtx.unmapBuffer c.priv).state) ∧
    (FwIsoCtx.state (FwIsoCtx.unmapBuffer c.priv).state).addr = .null ∧
    (FwIsoCtx.state (FwIsoCtx.unmapBuffer c.priv).state).running = false
  rw [hunmap]
  exact Alive.unmapBuffer hc.2

theorem release_keepsIf (hunmap : ∀ p : π, FwIsoCtx.state (FwIsoCtx.unmapBuffer p).state =
      (FwIsoCtx.state p).unmapBuffer.state)
    (hrelease : ∀ p : π, FwIsoCtx.state (FwIsoCtx.release p).state =
      (FwIsoCtx.state p).release.state) {c : Ctx π} (h : Alive (FwIsoCtx.state c.priv)) :
    c.release.KeepsIf (fun c => Alive (FwIsoCtx.state c.priv)) (fun c => isRunning c = false)
      fun _ c => Alive (FwIsoCtx.state c.priv) := by
  refine (unmapBuffer_keepsIf hunmap h).bind fun _ c hc => ?_
  change Alive (FwIsoCtx.state (FwIsoCtx.release c.priv).state)
  rw [hrelease]
  exact Alive.release hc.2.1 hc.2.2

theorem alive_stop {c : Ctx π} (h : Alive (FwIsoCtx.state c.priv)) :
    Alive (FwIsoCtx.state (c.after (onState FwIsoCtxState.stop c.priv)).priv) := by
  simp only [after_priv, onState, Out.map_state, FwIsoCtx.state_setState]
  exact h.stop.1

theorem stop_alive (R : Ctx π → Prop) {c : Ctx π} (h : Alive (FwIsoCtx.state c.priv)) :
    c.stop.KeepsIf (fun c => Alive (FwIsoCtx.state c.priv)) R
      fun _ c => Alive (FwIsoCtx.state c.priv) :=
  (stop_keeps (I := fun c => Alive (FwIsoCtx.state c.priv)) (fun _ hc => alive_stop hc)
    (fun _ hc => hc) h).keepsIf R

theorem dispatch_alive (R : Ctx π → Prop) (hevent : ∀ ev env (c : Ctx π),
      Alive (FwIsoCtx.state c.priv) →
        (FwIsoCtx.handleEvent ev env c).Keeps (fun c => Alive (FwIsoCtx.state c.priv))
          fun _ c => Alive (FwIsoCtx.state c.priv)) (w : Wakeup) {c : Ctx π}
    (h : Alive (FwIsoCtx.state c.priv)) :
    (c.dispatch w).KeepsIf (fun c => Alive (FwIsoCtx.state c.priv)) R
      fun _ c => Alive (FwIsoCtx.state c.priv) :=
  (dispatch_keeps (I := fun c => Alive (FwIsoCtx.state c.priv)) (fun _ hc => alive_stop hc)
    (fun _ hc => hc) hevent w h).keepsIf R

end Ctx

/-! ### IT contexts -/

namespace FwIsoIt

/-- Every `mmap` succeeds. -/
def Op.Maps : Op → Ctx FwIsoIt → Prop
  | .mapBuffer _ _ env _, _ => ∃ id, env.mmap = .ok id
  | _, _ => True

/-- A teardown goes on with a context that does not run. -/
def Op.GoesOn : Op → Ctx FwIsoIt → Prop
  | .unmapBuffer, c => isRunning c = false
  | .release, c => isRunning c = false
  | _, _ => True

theorem level_unmapBuffer (c : Ctx FwIsoIt) : Level c (c.after (FwIsoCtx.unmapBuffer c.priv)) :=
  .after rfl c.priv.state.unmapBuffer_silent

theorem level_release (c : Ctx FwIsoIt) : Level c (c.after (FwIsoCtx.release c.priv)) :=
  .after rfl c.priv.state.release_silent

theorem handleEvent_paced (ev : CdevEvent) (env : EventEnv) (c : Ctx FwIsoIt) :
    (handleEvent ev env c).Paced (Counts stoppedCount isRunning) Level c := by
  cases ev with
  | isoInterrupt ev =>
    refine ⟨(Level.noted (c := c) (p := c.priv) (e := .interrupted _) rfl nofun).counts, fun c' =>
        .after ?_ ?_⟩
    · exact (SameSetup.queueChunks c'.priv.state env.queueIso).running
    · exact c'.priv.state.queueChunks_silent env.queueIso
  | isoInterruptMc ev => exact .refl c
  | other => exact .refl c

theorem exec_paced (op : Op) (c : Ctx FwIsoIt) :
    (exec op c).Paced (Counts stoppedCount isRunning) (Counts stoppedCount isRunning) c := by
  have hlevel : ∀ {x : Act (Ctx FwIsoIt) Ret},
      x.Paced (Counts stoppedCount isRunning) Level c →
      x.Paced (Counts stoppedCount isRunning) (Counts stoppedCount isRunning) c :=
    fun hx => hx.mono fun _ _ h => h.counts
  cases op with
  | allocate path scode channel headerSize env =>
    obtain ⟨hrun, hnot⟩ := c.priv.state.allocate_silent path .it scode channel headerSize env
    refine Level.counts (.after ?_ ?_)
    · simp only [allocate]
      split
      · rfl
      · exact hrun
    · simp only [allocate]
      split
      · exact List.not_mem_nil
      · exact hnot
  | mapBuffer bytes payloads env mem =>
    obtain ⟨hrun, hnot⟩ := c.priv.state.mapBuffer_silent bytes payloads env
    exact Level.counts (.after hrun hnot)
  | registerPacket tags syncCode header payload irq =>
    refine Level.counts (.after ?_ fun hmem => ?_)
    · exact (c.priv.registerPacket_same tags syncCode header payload irq).running
    · rcases c.priv.registerPacket_effects tags syncCode header payload irq _ hmem with
        ⟨_, h⟩ | ⟨_, _, h⟩ <;> cases h
  | start cycleMatch env =>
    obtain ⟨hrun, hnot⟩ := c.priv.state.start_silent cycleMatch 0 0 env
    refine Level.counts_after ?_ ?_
    · simp only [start]
      split
      · exact id
      · exact hrun
    · simp only [start]
      split
      · exact List.not_mem_nil
      · exact hnot
  | stop => exact hlevel (Ctx.stop_paced c)
  | unmapBuffer => exact hlevel (Ctx.unmapBuffer_paced level_unmapBuffer c)
  | release => exact hlevel (Ctx.release_paced level_unmapBuffer level_release c)
  | dispatch w => exact hlevel (Ctx.dispatch_paced handleEvent_paced w c)

theorem handleEvent_alive (ev : CdevEvent) (env : EventEnv) {c : Ctx FwIsoIt}
    (h : Alive c.priv.state) :
    (handleEvent ev env c).Keeps (fun c => Alive c.priv.state) fun _ c => Alive c.priv.state := by
  cases ev with
  | isoInterrupt ev =>
    exact ⟨h, fun c' hc' => hc'.of_same (SameSetup.queueChunks c'.priv.state env.queueIso)⟩
  | isoInterruptMc ev => exact h
  | other => exact h

theorem exec_alive {op : Op} {c : Ctx FwIsoIt} (hop : op.Maps c) (h : Alive c.priv.state) :
    (exec op c).KeepsIf (fun c => Alive c.priv.state) op.GoesOn
      fun _ c => Alive c.priv.state := by
  cases op with
  | allocate path scode channel headerSize env =>
    have halive := h.allocate path .it scode channel headerSize env
    simp only [exec, Ctx.perform, Act.KeepsIf, Ctx.after_priv, allocate]
    split
    · exact h
    · exact halive
  | mapBuffer bytes payloads env mem => exact h.mapBuffer bytes payloads hop
  | registerPacket tags syncCode header payload irq =>
    exact h.of_same (c.priv.registerPacket_same tags syncCode header payload irq)
  | start cycleMatch env =>
    have halive := h.start cycleMatch 0 0 env
    simp only [exec, Ctx.perform, Act.KeepsIf, Ctx.after_priv, start]
    split
    · exact h
    · exact halive
  | stop => exact Ctx.stop_alive _ h
  | unmapBuffer => exact (Ctx.unmapBuffer_keepsIf (fun _ => rfl) h).mono fun _ _ hc => hc.1
  | release => exact Ctx.release_keepsIf (fun _ => rfl) (fun _ => rfl) h
  | dispatch w => exact Ctx.dispatch_alive _ (fun ev env _ hc => handleEvent_alive ev env hc) w h

end FwIsoIt

/-! ### Single-channel IR contexts -/

namespace FwIsoIrSingle

def Op.Maps : Op → Ctx FwIsoIrSingle → Prop
  | .mapBuffer _ _ env, _ => ∃ id, env.mmap = .ok id
  | _, _ => True

def Op.GoesOn : Op → Ctx FwIsoIrSingle → Prop
  | .unmapBuffer, c => isRunning c = false
  | .release, c => isRunning c = false
  | _, _ => True

theorem level_unmapBuffer (c : Ctx FwIsoIrSingle) : Level c
    (c.after (FwIsoCtx.unmapBuffer c.priv)) :=
  .after rfl c.priv.state.unmapBuffer_silent

theorem level_release (c : Ctx FwIsoIrSingle) : Level c (c.after (FwIsoCtx.release c.priv)) :=
  .after rfl c.priv.state.release_silent

theorem finishEvent_same (self : FwIsoIrSingle) (count : UInt32) (answers : Nat → QueueAnswer) :
    SameSetup self.state (finishEvent count answers self).state.state ∧
      .stopped ∉ (finishEvent count answers self).effects := by
  simp only [finishEvent]
  split
  · exact ⟨.refl _, List.not_mem_nil⟩
  · exact ⟨SameSetup.queueChunks self.state answers, self.state.queueChunks_silent answers⟩

theorem handleEvent_paced (ev : CdevEvent) (env : EventEnv) (c : Ctx FwIsoIrSingle) :
    (handleEvent ev env c).Paced (Counts stoppedCount isRunning) Level c := by
  cases ev with
  | isoInterrupt ev =>
    simp only [handleEvent]
    split
    · exact .refl c
    · refine ⟨Level.counts (Level.noted (e := .interrupted _) ?_ (by rintro ⟨⟩)), fun c' => ?_⟩
      · rfl
      · exact .after (c'.priv.finishEvent_same _ _).1.running (c'.priv.finishEvent_same _ _).2
  | isoInterruptMc ev => exact .refl c
  | other => exact .refl c

theorem exec_paced (op : Op) (c : Ctx FwIsoIrSingle) :
    (exec op c).Paced (Counts stoppedCount isRunning) (Counts stoppedCount isRunning) c := by
  have hlevel : ∀ {x : Act (Ctx FwIsoIrSingle) Ret},
      x.Paced (Counts stoppedCount isRunning) Level c →
      x.Paced (Counts stoppedCount isRunning) (Counts stoppedCount isRunning) c :=
    fun hx => hx.mono fun _ _ h => h.counts
  cases op with
  | allocate path channel headerSize env =>
    obtain ⟨hrun, hnot⟩ := c.priv.state.allocate_silent path .irSingle 0 channel headerSize env
    refine Level.counts (.after ?_ ?_)
    · simp only [allocate]
      split
      · rfl
      split
      · rfl
      · exact hrun
    · simp only [allocate]
      split
      · exact List.not_mem_nil
      split
      · exact List.not_mem_nil
      · exact hnot
  | mapBuffer bytes payloads env =>
    obtain ⟨hrun, hnot⟩ := c.priv.state.mapBuffer_silent bytes payloads env
    exact Level.counts (.after hrun hnot)
  | registerPacket irq =>
    refine Level.counts (.after ?_ ?_)
    · exact (SameSetup.registerChunk c.priv.state false 0 0 .null 0 irq).running
    · exact c.priv.state.registerChunk_silent false 0 0 .null 0 irq
  | start cycleMatch syncCode tags env =>
    obtain ⟨hrun, hnot⟩ := c.priv.state.start_silent cycleMatch syncCode tags env
    refine Level.counts_after ?_ ?_
    · simp only [start]
      split
      · exact id
      split
      · exact id
      · exact hrun
    · simp only [start]
      split
      · exact List.not_mem_nil
      split
      · exact List.not_mem_nil
      · exact hnot
  | getPayload index =>
    rw [exec_getPayload]
    exact hlevel (.refl c)
  | stop => exact hlevel (Ctx.stop_paced c)
  | unmapBuffer => exact hlevel (Ctx.unmapBuffer_paced level_unmapBuffer c)
  | release => exact hlevel (Ctx.release_paced level_unmapBuffer level_release c)
  | dispatch w => exact hlevel (Ctx.dispatch_paced handleEvent_paced w c)

theorem handleEvent_alive (ev : CdevEvent) (env : EventEnv) {c : Ctx FwIsoIrSingle}
    (h : Alive c.priv.state) :
    (handleEvent ev env c).Keeps (fun c => Alive c.priv.state) fun _ c => Alive c.priv.state := by
  cases ev with
  | isoInterrupt ev =>
    simp only [handleEvent]
    split
    · exact h
    · exact ⟨h, fun c' hc' => hc'.of_same (c'.priv.finishEvent_same _ _).1⟩
  | isoInterruptMc ev => exact h
  | other => exact h

theorem exec_alive {op : Op} {c : Ctx FwIsoIrSingle} (hop : op.Maps c) (h : Alive c.priv.state) :
    (exec op c).KeepsIf (fun c => Alive c.priv.state) op.GoesOn
      fun _ c => Alive c.priv.state := by
  cases op with
  | allocate path channel headerSize env =>
    have halive := h.allocate path .irSingle 0 channel headerSize env
    simp only [exec, Ctx.perform, Act.KeepsIf, Ctx.after_priv, allocate]
    split
    · exact h
    split
    · exact h
    · exact halive
  | mapBuffer bytes payloads env => exact h.mapBuffer bytes payloads hop
  | registerPacket irq =>
    exact h.of_same (SameSetup.registerChunk c.priv.state false 0 0 .null 0 irq)
  | start cycleMatch syncCode tags env =>
    have halive := h.start cycleMatch syncCode tags env
    simp only [exec, Ctx.perform, Act.KeepsIf, Ctx.after_priv, start]
    split
    · exact h
    split
    · exact h
    · exact halive
  | getPayload index =>
    rw [exec_getPayload]
    exact h
  | stop => exact Ctx.stop_alive _ h
  | unmapBuffer => exact (Ctx.unmapBuffer_keepsIf (fun _ => rfl) h).mono fun _ _ hc => hc.1
  | release => exact Ctx.release_keepsIf (fun _ => rfl) (fun _ => rfl) h
  | dispatch w => exact Ctx.dispatch_alive _ (fun ev env _ hc => handleEvent_alive ev env hc) w h

end FwIsoIrSingle

/-! ### Multiple-channel IR contexts -/

namespace FwIsoIrMultiple

def Op.Maps : Op → Ctx FwIsoIrMultiple → Prop
  | .mapBuffer _ _ env, _ => ∃ id, env.mmap = .ok id
  | _, _ => True

/-- A teardown goes on with a context that does not run; allocating ends in one if it fails. -/
def Op.GoesOn : Op → Ctx FwIsoIrMultiple → Prop
  | .allocate _ _ _ _ _, c => isRunning c = false
  | .unmapBuffer, c => isRunning c = false
  | .release, c => isRunning c = false
  | _, _ => True

theorem level_unmapBuffer (c : Ctx FwIsoIrMultiple) :
    Level c (c.after (FwIsoCtx.unmapBuffer c.priv)) :=
  .after rfl c.priv.state.unmapBuffer_silent

theorem level_release (c : Ctx FwIsoIrMultiple) : Level c (c.after (FwIsoCtx.release c.priv)) :=
  .after rfl c.priv.state.release_silent

theorem registerChunks_silent (n : Nat) (self : FwIsoIrMultiple) :
    .stopped ∉ (registerChunks n self).effects := fun hmem => by
  obtain ⟨_, hp⟩ := registerChunks_effects n _ hmem
  cases hp

theorem finishEvent_silent (self : FwIsoIrMultiple)
    (bytesPerChunk bytesPerBuffer accumLength : UInt32) (answers : Nat → QueueAnswer) :
    .stopped ∉ (finishEvent bytesPerChunk bytesPerBuffer accumLength answers self).effects := by
  have hchunks := registerChunks_silent (((self.prevOffset + accumLength) / bytesPerChunk).toNat -
    (self.prevOffset / bytesPerChunk).toNat) self
  simp only [finishEvent]
  split
  · exact List.not_mem_nil
  split
  · split
    · exact hchunks
    · intro hmem
      rcases List.mem_append.mp hmem with hmem | hmem
      · exact hchunks hmem
      · exact FwIsoCtxState.queueChunks_silent _ _ hmem
  · exact hchunks

theorem handleEvent_paced (ev : CdevEvent) (env : EventEnv) (c : Ctx FwIsoIrMultiple) :
    (handleEvent ev env c).Paced (Counts stoppedCount isRunning) Level c := by
  cases ev with
  | isoInterrupt ev => exact .refl c
  | isoInterruptMc ev =>
    simp only [handleEvent]
    split
    · exact .refl c
    · refine ⟨Level.counts (Level.noted (e := .interrupted _) ?_ (by rintro ⟨⟩)), fun c' => ?_⟩
      · rfl
      · exact .after (c'.priv.finishEvent_same _ _ _ _).1.running
          (c'.priv.finishEvent_silent _ _ _ _)
  | other => exact .refl c

theorem start_silent (self : FwIsoIrMultiple) (cycleMatch : Option (UInt16 × UInt16))
    (syncCode tags chunksPerIrq : UInt32) (env : StartEnv) :
    (self.state.running = true →
      (self.start cycleMatch syncCode tags chunksPerIrq env).state.state.running = true) ∧
      .stopped ∉ (self.start cycleMatch syncCode tags chunksPerIrq env).effects := by
  have hchunks := registerChunks_silent self.state.chunksPerBuffer.toNat
    { self with chunksPerIrq := chunksPerIrq, accumulatedChunkCount := 0 }
  obtain ⟨hsame, _⟩ := registerChunks_same self.state.chunksPerBuffer.toNat
    { self with chunksPerIrq := chunksPerIrq, accumulatedChunkCount := 0 }
  obtain ⟨hrun, hnot⟩ := FwIsoCtxState.start_silent (registerChunks
    self.state.chunksPerBuffer.toNat
    { self with chunksPerIrq := chunksPerIrq, accumulatedChunkCount := 0 }).state.state
    cycleMatch syncCode tags env
  simp only [start]
  split
  · exact ⟨id, List.not_mem_nil⟩
  split
  · exact ⟨id, List.not_mem_nil⟩
  split
  · exact ⟨id, List.not_mem_nil⟩
  split
  · refine ⟨fun hup => hrun (hsame.running.trans hup), fun hmem => ?_⟩
    rcases List.mem_append.mp hmem with hmem | hmem
    · exact hchunks hmem
    · exact hnot hmem
  · exact ⟨hsame.running.trans, hchunks⟩

theorem allocate_paced (path : Option String) (channels : List UInt8) (env : AllocateEnv)
    (setIsoChannels : Except Nat UInt64) (bigEndian : Bool) (c : Ctx FwIsoIrMultiple) :
    (allocate path channels env setIsoChannels bigEndian c).Paced (Counts stoppedCount isRunning)
      Level c := by
  have hstate : Level c (c.after (allocateState path env c.priv)) := by
    obtain ⟨hrun, hnot⟩ := c.priv.state.allocate_silent path .irMultiple 0 0 0 env
    exact .after hrun hnot
  have hnote : ∀ (r s : Ctx FwIsoIrMultiple), Level r s →
      Level r (s.note (.setIsoChannels (channelMask channels))) := fun _ s h =>
    h.trans (Level.noted (c := s) (p := s.priv) (e := .setIsoChannels _) rfl nofun)
  have hrelease : ∀ (r s : Ctx FwIsoIrMultiple) (error : GError), Level r s →
      (s.release.bind fun _ c => .done (Ret.failure error) c).Paced (Counts stoppedCount isRunning)
        Level r := by
    intro r s error h
    have hpaced := (Ctx.release_paced level_unmapBuffer level_release s).behind
      (fun _ _ _ h h' => h.behind h') (fun _ _ _ h h' => h.trans h') h
    refine Act.Paced.bind (L := Level) (fun _ r s h => ?_) hpaced
    exact h
  simp only [allocate]
  split
  · exact .refl c
  split
  · exact .refl c
  refine Act.Paced.bind (L := Level) (fun ret r s h => ?_) hstate
  cases ret with
  | success =>
    cases setIsoChannels with
    | error errno => exact hrelease r _ _ (hnote r s h)
    | ok mask =>
      simp only
      split
      · exact hrelease r _ _ (hnote r s h)
      · exact (hnote r s h).trans ⟨rfl, rfl⟩
  | failure error => exact h
  | rejected => exact h
  | crashed fault => exact h

theorem exec_paced (op : Op) (c : Ctx FwIsoIrMultiple) :
    (exec op c).Paced (Counts stoppedCount isRunning) (Counts stoppedCount isRunning) c := by
  have hlevel : ∀ {x : Act (Ctx FwIsoIrMultiple) Ret},
      x.Paced (Counts stoppedCount isRunning) Level c →
      x.Paced (Counts stoppedCount isRunning) (Counts stoppedCount isRunning) c :=
    fun hx => hx.mono fun _ _ h => h.counts
  cases op with
  | allocate path channels env set bigEndian =>
    exact hlevel (allocate_paced path channels env set bigEndian c)
  | mapBuffer bytes chunks env =>
    obtain ⟨hrun, hnot⟩ := c.priv.state.mapBuffer_silent ((bytes + 3) / 4 * 4) chunks env.toMapEnv
    obtain ⟨hstate, _, heffects⟩ := c.priv.mapBuffer_state bytes chunks env
    refine Level.counts (.after ?_ ?_)
    · exact (congrArg FwIsoCtxState.running hstate).trans hrun
    · simp only [heffects]
      exact hnot
  | start cycleMatch syncCode tags irq env =>
    obtain ⟨hrun, hnot⟩ := c.priv.start_silent cycleMatch syncCode tags irq env
    exact Level.counts_after hrun hnot
  | getPayload index =>
    refine Level.counts (.after ?_ List.not_mem_nil)
    exact congrArg FwIsoCtxState.running (c.priv.state_getPayload index)
  | stop => exact hlevel (Ctx.stop_paced c)
  | unmapBuffer => exact hlevel (Ctx.unmapBuffer_paced level_unmapBuffer c)
  | release => exact hlevel (Ctx.release_paced level_unmapBuffer level_release c)
  | dispatch w => exact hlevel (Ctx.dispatch_paced handleEvent_paced w c)

theorem handleEvent_alive (ev : CdevEvent) (env : EventEnv) {c : Ctx FwIsoIrMultiple}
    (h : Alive c.priv.state) :
    (handleEvent ev env c).Keeps (fun c => Alive c.priv.state) fun _ c => Alive c.priv.state := by
  cases ev with
  | isoInterrupt ev => exact h
  | isoInterruptMc ev =>
    simp only [handleEvent]
    split
    · exact h
    · exact ⟨h, fun c' hc' => hc'.of_same (c'.priv.finishEvent_same _ _ _ _).1⟩
  | other => exact h

theorem start_alive {self : FwIsoIrMultiple} (h : Alive self.state)
    (cycleMatch : Option (UInt16 × UInt16)) (syncCode tags chunksPerIrq : UInt32)
    (env : StartEnv) : Alive (self.start cycleMatch syncCode tags chunksPerIrq
        env).state.state := by
  obtain ⟨hsame, _⟩ := registerChunks_same self.state.chunksPerBuffer.toNat
    { self with chunksPerIrq := chunksPerIrq, accumulatedChunkCount := 0 }
  simp only [start]
  split
  · exact h
  split
  · exact h
  split
  · exact h
  split
  · exact (h.of_same hsame).start cycleMatch syncCode tags env
  · exact h.of_same hsame

theorem release_alive {c : Ctx FwIsoIrMultiple} (h : Alive c.priv.state) :
    c.release.KeepsIf (fun c => Alive c.priv.state) (fun c => isRunning c = false)
      fun _ c => Alive c.priv.state :=
  Ctx.release_keepsIf (fun _ => rfl) (fun _ => rfl) h

theorem allocate_alive (path : Option String) (channels : List UInt8) (env : AllocateEnv)
    (setIsoChannels : Except Nat UInt64) (bigEndian : Bool) {c : Ctx FwIsoIrMultiple}
    (h : Alive c.priv.state) :
    (allocate path channels env setIsoChannels bigEndian c).KeepsIf (fun c => Alive c.priv.state)
      (fun c => isRunning c = false) fun _ c => Alive c.priv.state := by
  have hstate : (c.perform (allocateState path env)).KeepsIf (fun c => Alive c.priv.state)
      (fun c => isRunning c = false) fun _ c => Alive c.priv.state :=
    h.allocate path .irMultiple 0 0 0 env
  simp only [allocate]
  split
  · exact h
  split
  · exact h
  refine Act.KeepsIf.bind (fun ret c hc => ?_) hstate
  cases ret with
  | success =>
    cases setIsoChannels with
    | error errno => exact (release_alive (c := c.note _) hc).bind fun _ _ hc => hc
    | ok mask =>
      simp only
      split
      · exact (release_alive (c := c.note _) hc).bind fun _ _ hc => hc
      · exact hc
  | failure error => exact hc
  | rejected => exact hc
  | crashed fault => exact hc

theorem exec_alive {op : Op} {c : Ctx FwIsoIrMultiple} (hop : op.Maps c)
    (h : Alive c.priv.state) :
    (exec op c).KeepsIf (fun c => Alive c.priv.state) op.GoesOn
      fun _ c => Alive c.priv.state := by
  cases op with
  | allocate path channels env set bigEndian =>
    exact allocate_alive path channels env set bigEndian h
  | mapBuffer bytes chunks env =>
    obtain ⟨hstate, _, _⟩ := c.priv.mapBuffer_state bytes chunks env
    simp only [exec, Ctx.perform, Act.KeepsIf, Ctx.after_priv, hstate]
    exact h.mapBuffer _ chunks hop
  | start cycleMatch syncCode tags irq env => exact start_alive h cycleMatch syncCode tags irq env
  | getPayload index =>
    simp only [exec, Ctx.perform, Act.KeepsIf, Ctx.after_priv, askPayload,
      c.priv.state_getPayload index]
    exact h
  | stop => exact Ctx.stop_alive _ h
  | unmapBuffer => exact (Ctx.unmapBuffer_keepsIf (fun _ => rfl) h).mono fun _ _ hc => hc.1
  | release => exact release_alive h
  | dispatch w => exact Ctx.dispatch_alive _ (fun ev env _ hc => handleEvent_alive ev env hc) w h

end FwIsoIrMultiple

/-! ### Runs -/

/-- **The order of the life cycle, and the stopped signal**: where every mapping succeeds, and no
handler leaves a context running that is being torn down, a context that runs has a mapping and one
that has a mapping has a descriptor.  In any run at all the stopped signal is emitted as often as
the context stops running. -/
theorem alive_of_run (its : List (Move FwIsoIt.Op)) (irSingles : List (Move FwIsoIrSingle.Op))
    (irMultiples : List (Move FwIsoIrMultiple.Op)) :
    ((Watched FwIsoIt.exec FwIsoIt.Op.Maps FwIsoIt.Op.GoesOn [] ⟨⟨.new, []⟩, []⟩ its →
        Alive (run FwIsoIt.exec ⟨⟨.new, []⟩, []⟩ its).state.priv.state) ∧
      stoppedCount (run FwIsoIt.exec ⟨⟨.new, []⟩, []⟩ its).state =
        losses FwIsoIt.exec isRunning ⟨⟨.new, []⟩, []⟩ its) ∧
    ((Watched FwIsoIrSingle.exec FwIsoIrSingle.Op.Maps FwIsoIrSingle.Op.GoesOn []
          ⟨⟨.new, []⟩, []⟩ irSingles →
        Alive (run FwIsoIrSingle.exec ⟨⟨.new, []⟩, []⟩ irSingles).state.priv.state) ∧
      stoppedCount (run FwIsoIrSingle.exec ⟨⟨.new, []⟩, []⟩ irSingles).state =
        losses FwIsoIrSingle.exec isRunning ⟨⟨.new, []⟩, []⟩ irSingles) ∧
    ((Watched FwIsoIrMultiple.exec FwIsoIrMultiple.Op.Maps FwIsoIrMultiple.Op.GoesOn []
          ⟨⟨.new, []⟩, []⟩ irMultiples →
        Alive (run FwIsoIrMultiple.exec ⟨⟨.new, []⟩, []⟩ irMultiples).state.priv.state) ∧
      stoppedCount (run FwIsoIrMultiple.exec ⟨⟨.new, []⟩, []⟩ irMultiples).state =
        losses FwIsoIrMultiple.exec isRunning ⟨⟨.new, []⟩, []⟩ irMultiples) := by
  have hnew : Alive {} := ⟨nofun, nofun, nofun⟩
  refine ⟨⟨fun hw => ?_, ?_⟩, ⟨fun hw => ?_, ?_⟩, fun hw => ?_, ?_⟩
  · exact run_keeps_of_watched (I := fun c : Ctx FwIsoIt => Alive c.priv.state)
      (fun op c hop hc => FwIsoIt.exec_alive hop hc) its hw ⟨hnew, .nil⟩
  · exact (count_of_run FwIsoIt.exec_paced its (by simp)).trans (Nat.zero_add _)
  · exact run_keeps_of_watched (I := fun c : Ctx FwIsoIrSingle => Alive c.priv.state)
      (fun op c hop hc => FwIsoIrSingle.exec_alive hop hc) irSingles hw ⟨hnew, .nil⟩
  · exact (count_of_run FwIsoIrSingle.exec_paced irSingles (by simp)).trans (Nat.zero_add _)
  · exact run_keeps_of_watched (I := fun c : Ctx FwIsoIrMultiple => Alive c.priv.state)
      (fun op c hop hc => FwIsoIrMultiple.exec_alive hop hc) irMultiples hw ⟨hnew, .nil⟩
  · exact (count_of_run FwIsoIrMultiple.exec_paced irMultiples (by simp)).trans (Nat.zero_add _)

def unmapRunning : List (Move FwIsoIrMultiple.Op) :=
  irMultipleMapped ++ [.call (.start none 0 0 1 (grantStart 2)), .call .unmapBuffer]

/-- **A context that a handler starts again while it is unmapped** is left running without a
buffer. -/
theorem alive_fails :
    let c := (run FwIsoIrMultiple.exec ⟨⟨.new, []⟩, []⟩
      (unmapRunning ++ [.call (.start none 0 0 1 (grantStart 2)), .resume])).state
    c.priv.state.running = true ∧ c.priv.state.addr = .null ∧ ¬ Alive c.priv.state := by
  refine ⟨by decide +kernel, by decide +kernel, fun h => ?_⟩
  obtain ⟨id, hid⟩ := h.mapped (by decide +kernel)
  rw [show (run FwIsoIrMultiple.exec ⟨⟨.new, []⟩, []⟩ (unmapRunning ++
    [.call (.start none 0 0 1 (grantStart 2)), .resume])).state.priv.state.addr = .null by
    decide +kernel] at hid
  cases hid

/-- The theorem where the handler lets the context be. -/
theorem alive_unmapped :
    let c := (run FwIsoIrMultiple.exec ⟨⟨.new, []⟩, []⟩ (unmapRunning ++ [.resume])).state
    Alive c.priv.state ∧ stoppedCount c = 1 := by
  obtain ⟨_, _, halive, hcount⟩ := alive_of_run [] [] (unmapRunning ++ [.resume])
  refine ⟨halive ⟨trivial, ⟨1, rfl⟩, trivial, trivial, ?_, trivial⟩, hcount.trans ?_⟩
  · intro op hop
    obtain rfl : FwIsoIrMultiple.Op.unmapBuffer = op := Option.some.inj hop
    show isRunning _ = false
    decide +kernel
  · decide +kernel

end Hinoko
