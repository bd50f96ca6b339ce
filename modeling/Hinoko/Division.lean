import Hinoko.Atomic
import Hinoko.Interrupts

/-!
# Divisors

The functions of a context divide by the size of the buffer, of a chunk and of a header.
A context that has been mapped once has sizes that are not zero, and so it stays; before,
nothing is divided, unless a failed `mmap` makes the context look mapped.

* `Undivided`: an answer that is no division by zero, with divisors that are not zero.
* `FwIsoCtxState.Unmapped`: what holds before the first mapping.
* `divides_of_run`: no division by zero in any run in which no start finds what a failed
  `mmap` has left.
-/

namespace Hinoko

open Reentrant

/-! ### The state -/

namespace FwIsoCtxState

variable {st : FwIsoCtxState}

theorem bytesPerBuffer_same {st' : FwIsoCtxState} (hsame : SameSetup st st')
    (h : st.bytesPerBuffer ≠ 0) : st'.bytesPerBuffer ≠ 0 := by
  rw [hsame.bytesPerBuffer]
  exact h

theorem chunksPerBuffer_ne_zero (h : st.bytesPerBuffer ≠ 0) : st.chunksPerBuffer ≠ 0 := by
  intro hzero
  rw [bytesPerBuffer, hzero, UInt32.mul_zero] at h
  exact h rfl

theorem bytesPerChunk_ne_zero (h : st.bytesPerBuffer ≠ 0) : st.bytesPerChunk ≠ 0 := by
  intro hzero
  rw [bytesPerBuffer, hzero, UInt32.zero_mul] at h
  exact h rfl

theorem accumulate_ne_divByZero (st : FwIsoCtxState) (dataOffset : UInt32) : ∀ (fuel : Nat)
    (b : Batch), st.accumulate dataOffset fuel b ≠ .error .divByZero := by
  intro fuel
  induction fuel with
  | zero => intro b h; cases h
  | succ fuel ih =>
    intro b
    rw [accumulate]
    split
    · split
      · rintro ⟨⟩
      · simp only
        split
        · rintro ⟨⟩
        · exact ih _
    · rintro ⟨⟩

theorem queueLoop_ne_divByZero (hB : st.bytesPerBuffer ≠ 0) (answers : Nat → QueueAnswer) :
    ∀ (fuel i : Nat) (dataOffset bufOffset chunkCount : UInt32),
      (st.queueLoop answers fuel i dataOffset bufOffset chunkCount).2 ≠ .crashed .divByZero := by
  intro fuel
  induction fuel with
  | zero => intro i dataOffset bufOffset chunkCount h; cases h
  | succ fuel ih =>
    intro i dataOffset bufOffset chunkCount
    rw [queueLoop]
    split
    · split
      next fault hfault =>
        rintro ⟨⟩
        exact accumulate_ne_divByZero st dataOffset _ _ hfault
      next b _ =>
        simp only
        split
        · rintro ⟨⟩
        · exact ih _ _ _ _
    · rintro ⟨⟩

theorem queueChunks_ne_divByZero (hB : st.bytesPerBuffer ≠ 0) (answers : Nat → QueueAnswer) :
    (st.queueChunks answers).ret ≠ .crashed .divByZero := by
  have hne := queueLoop_ne_divByZero hB answers st.queueFuel 0 0 st.currOffset 0
  simp only [queueChunks]
  split
  next fault hfault =>
    rintro ⟨⟩
    exact hne hfault
  · rintro ⟨⟩
  · rintro ⟨⟩

theorem registerChunk_ne_divByZero (st : FwIsoCtxState) (skip : Bool) (tags syncCode : UInt32)
    (header : ArrayArg) (payloadLength : UInt32) (irq : Bool) :
    (st.registerChunk skip tags syncCode header payloadLength irq).ret ≠ .crashed .divByZero := by
  rcases st.registerChunk_cases skip tags syncCode header payloadLength irq with
    hr | ⟨_, ⟨_, ho⟩ | ⟨_, _, ho⟩⟩
  · exact hr.ret.ne_crashed _
  · rw [ho]
    nofun
  · rw [ho]
    nofun

theorem start_ne_divByZero (hB : st.bytesPerBuffer ≠ 0) (cycleMatch : Option (UInt16 × UInt16))
    (syncCode tags : UInt32) (env : StartEnv) :
    (st.start cycleMatch syncCode tags env).ret ≠ .crashed .divByZero := by
  have hq := queueChunks_ne_divByZero hB env.queueIso
  rcases st.start_cases cycleMatch syncCode tags env with
    hr | ⟨_, ⟨_, ho⟩ | ⟨_, ⟨_, _, ho⟩ | ⟨_, ho⟩⟩⟩
  · exact hr.ret.ne_crashed _
  · rw [ho]
    exact hq
  · rw [ho]
    nofun
  · rw [ho]
    nofun

/-- The calls that neither queue nor register do not crash. -/
theorem allocate_ne_crashed (st : FwIsoCtxState) (path : Option String) (mode : FwIsoCtxMode)
    (scode channel headerSize : UInt32) (env : AllocateEnv) (fault : Fault) :
    (st.allocate path mode scode channel headerSize env).ret ≠ .crashed fault := by
  rcases st.allocate_cases path mode scode channel headerSize env with
    hr | ⟨_, _, ⟨hfalse, _⟩ | ⟨hret, _⟩⟩
  · exact hr.ret.ne_crashed fault
  · exact hfalse.ne_crashed fault
  · rw [hret]
    nofun

theorem mapBuffer_ne_crashed (st : FwIsoCtxState) (bytesPerChunk chunksPerBuffer : UInt32)
    (env : MapEnv) (fault : Fault) :
    (st.mapBuffer bytesPerChunk chunksPerBuffer env).ret ≠ .crashed fault := by
  rcases st.mapBuffer_cases bytesPerChunk chunksPerBuffer env with
    hr | ⟨_, _, ⟨_, _, hret, _⟩ | ⟨_, _, hret, _⟩⟩
  · exact hr.ret.ne_crashed fault
  · rw [hret]
    nofun
  · rw [hret]
    nofun

structure Unmapped (st : FwIsoCtxState) : Prop where
  addr : st.addr = .null ∨ st.addr = .mapFailed
  running : st.running = false
  chunksPerBuffer : st.chunksPerBuffer = 0

/-- `mmap` maps nothing of no length. -/
def Mappable (bytesPerChunk chunksPerBuffer : UInt32) (env : MapEnv) : Prop :=
  bytesPerChunk * chunksPerBuffer = 0 → ∃ errno, env.mmap = .error errno

/-- The buffer is not what a failed `mmap` has left without any size. -/
def Startable (st : FwIsoCtxState) : Prop := st.addr = .mapFailed → st.bytesPerBuffer ≠ 0

theorem bytesPerBuffer_allocate (st : FwIsoCtxState) (path : Option String) (mode : FwIsoCtxMode)
    (scode channel headerSize : UInt32) (env : AllocateEnv) :
    (st.allocate path mode scode channel headerSize env).state.bytesPerBuffer =
      st.bytesPerBuffer := by
  rcases st.allocate_cases path mode scode channel headerSize env with
    hr | ⟨_, _, ⟨_, hstate⟩ | ⟨_, _, _, hstate⟩⟩
  · rw [hr.state]
  · rw [hstate]
    rfl
  · rw [hstate]
    rfl

theorem bytesPerBuffer_mapBuffer {bytesPerChunk chunksPerBuffer : UInt32} {env : MapEnv}
    (hmap : Mappable bytesPerChunk chunksPerBuffer env) (hB : st.bytesPerBuffer ≠ 0) :
    (st.mapBuffer bytesPerChunk chunksPerBuffer env).state.bytesPerBuffer ≠ 0 := by
  rcases st.mapBuffer_cases bytesPerChunk chunksPerBuffer env with
    hr | ⟨_, _, ⟨_, _, _, hstate⟩ | ⟨_, hok, _, hstate⟩⟩
  · rw [hr.state]
    exact hB
  · rw [hstate]
    exact hB
  · rw [hstate]
    intro hzero
    obtain ⟨_, herror⟩ := hmap hzero
    rw [hok] at herror
    cases herror

namespace Unmapped

/-- The first mapping leaves no sizes, or there is a buffer. -/
theorem mapBuffer (h : st.Unmapped) {bytesPerChunk chunksPerBuffer : UInt32} {env : MapEnv}
    (hmap : Mappable bytesPerChunk chunksPerBuffer env) :
    let o := st.mapBuffer bytesPerChunk chunksPerBuffer env
    o.state.fd = st.fd ∧ o.state.Unmapped ∨ 0 ≤ st.fd ∧ o.state.bytesPerBuffer ≠ 0 := by
  rcases st.mapBuffer_cases bytesPerChunk chunksPerBuffer env with
    hr | ⟨hchecks, _, ⟨_, _, _, hstate⟩ | ⟨_, hok, _, hstate⟩⟩
  · simp only [hr.state]
    exact .inl ⟨trivial, h⟩
  · simp only [hstate]
    exact .inl ⟨trivial, .inr rfl, h.running, h.chunksPerBuffer⟩
  · refine .inr ⟨hchecks.2.2.1, ?_⟩
    simp only [hstate]
    intro hzero
    obtain ⟨_, herror⟩ := hmap hzero
    rw [hok] at herror
    cases herror

theorem allocate (h : st.Unmapped) (path : Option String) (mode : FwIsoCtxMode)
    (scode channel headerSize : UInt32) (env : AllocateEnv) :
    (st.allocate path mode scode channel headerSize env).state.Unmapped := by
  rcases st.allocate_cases path mode scode channel headerSize env with
    hr | ⟨_, _, ⟨_, hstate⟩ | ⟨_, _, _, hstate⟩⟩
  · rw [hr.state]
    exact h
  · rw [hstate]
    exact ⟨h.addr, h.running, h.chunksPerBuffer⟩
  · rw [hstate]
    exact ⟨h.addr, h.running, h.chunksPerBuffer⟩

theorem of_same {st' : FwIsoCtxState} (h : st.Unmapped) (hsame : SameSetup st st') :
    st'.Unmapped := by
  refine ⟨?_, ?_, ?_⟩
  · rw [hsame.addr]
    exact h.addr
  · rw [hsame.running]
    exact h.running
  · rw [hsame.chunksPerBuffer]
    exact h.chunksPerBuffer

theorem bytesPerBuffer (h : st.Unmapped) : st.bytesPerBuffer = 0 := by
  rw [FwIsoCtxState.bytesPerBuffer, h.chunksPerBuffer, UInt32.mul_zero]

theorem start (h : st.Unmapped) (hstart : st.Startable) (cycleMatch : Option (UInt16 × UInt16))
    (syncCode tags : UInt32) (env : StartEnv) :
    Refused st (st.start cycleMatch syncCode tags env) := by
  rcases st.start_cases cycleMatch syncCode tags env with hr | ⟨⟨_, haddr, _⟩, _⟩
  · exact hr
  · exact absurd h.bytesPerBuffer (hstart (h.addr.resolve_left haddr))

theorem stop (h : st.Unmapped) : st.stop = ⟨st, .success, []⟩ := stop_of_not_running h.running

theorem unmapBuffer (h : st.Unmapped) : st.unmapBuffer.state.Unmapped :=
  ⟨.inl rfl, h.running, h.chunksPerBuffer⟩

theorem release (h : st.Unmapped) : st.release.state.Unmapped :=
  ⟨h.addr, h.running, h.chunksPerBuffer⟩

end Unmapped

end FwIsoCtxState

/-! ### Operations of the interface -/

def Undivided {π : Type} (U : π → Prop) (ret : Ret) (c : Ctx π) : Prop :=
  ret ≠ .crashed .divByZero ∧ U c.priv

/-- The kernel sends interrupts of a context that it has started. -/
def Wakeup.Promised (w : Wakeup) (es : List Effect) : Prop :=
  match w with
  | .event .other _ => True
  | .event _ _ => ∃ arg, .startIso arg true ∈ es
  | _ => True

namespace Ctx

variable {π : Type} [FwIsoCtx π] {U : π → Prop} {V : Ctx π → Prop}

theorem stop_undivided (hstop : ∀ p, U p → U (onState FwIsoCtxState.stop p).state) {c : Ctx π}
    (hc : U c.priv) : c.stop.Keeps (fun c => U c.priv) (Undivided U) := by
  simp only [stop]
  split
  · exact ⟨hstop _ hc, fun c' hc' => ⟨by rintro ⟨⟩, hc'⟩⟩
  · exact ⟨by rintro ⟨⟩, hstop _ hc⟩

theorem unmapBuffer_undivided (hstop : ∀ p, U p → U (onState FwIsoCtxState.stop p).state)
    (hunmap : ∀ p : π, U p → (FwIsoCtx.unmapBuffer p).ret = .success ∧
      U (FwIsoCtx.unmapBuffer p).state) {c : Ctx π} (hc : U c.priv) :
    c.unmapBuffer.Keeps (fun c => U c.priv) (Undivided U) := by
  refine Act.Keeps.bind (Q := Undivided U) (fun _ c hc => ?_) (stop_undivided hstop hc)
  obtain ⟨hret, hstate⟩ := hunmap c.priv hc.2
  refine ⟨?_, hstate⟩
  rw [hret]
  nofun

theorem release_undivided (hstop : ∀ p, U p → U (onState FwIsoCtxState.stop p).state)
    (hunmap : ∀ p : π, U p → (FwIsoCtx.unmapBuffer p).ret = .success ∧
      U (FwIsoCtx.unmapBuffer p).state)
    (hrelease : ∀ p : π, U p → (FwIsoCtx.release p).ret = .success ∧
      U (FwIsoCtx.release p).state) {c : Ctx π} (hc : U c.priv) :
    c.release.Keeps (fun c => U c.priv) (Undivided U) := by
  refine Act.Keeps.bind (Q := Undivided U) (fun _ c hc => ?_)
    (unmapBuffer_undivided hstop hunmap hc)
  obtain ⟨hret, hstate⟩ := hrelease c.priv hc.2
  refine ⟨?_, hstate⟩
  rw [hret]
  nofun

theorem dispatch_undivided (hstop : ∀ p, U p → U (onState FwIsoCtxState.stop p).state)
    (hevent : ∀ ev env (c : Ctx π), U c.priv →
      (FwIsoCtx.handleEvent ev env c).Keeps (fun c => U c.priv) (Undivided U)) (w : Wakeup)
    {c : Ctx π} (hc : U c.priv) : (c.dispatch w).Keeps (fun c => U c.priv) (Undivided U) := by
  cases w with
  | ioErr => exact ⟨nofun, hc⟩
  | again => exact ⟨nofun, hc⟩
  | readError errno => exact stop_undivided hstop hc
  | event ev env =>
    refine Act.Keeps.bind (fun ret c hc => ?_) (hevent ev env c hc)
    cases ret with
    | success => exact ⟨nofun, hc.2⟩
    | crashed fault => exact hc
    | failure error => exact stop_undivided hstop hc.2
    | rejected => exact stop_undivided hstop hc.2

theorem stop_idle {c : Ctx π} (hrunning : (FwIsoCtx.state c.priv).running = false) :
    c.stop = .done .success (c.after (onState FwIsoCtxState.stop c.priv)) := by
  have hstate : FwIsoCtx.state (c.after (onState FwIsoCtxState.stop c.priv)).priv =
      FwIsoCtx.state c.priv := by
    simp only [after_priv, onState, Out.map_state, FwIsoCtx.state_setState,
      FwIsoCtxState.stop_of_not_running hrunning]
  simp only [stop, hstate, ne_eq, not_true_eq_false, if_false]

/-- What is done at once, without a division by zero, and leaves the context as it was before the
first mapping. -/
def AtOnce (V : Ctx π → Prop) (x : Act (Ctx π) Ret) : Prop :=
  ∃ ret c, x = .done ret c ∧ ret ≠ .crashed .divByZero ∧ V c

omit [FwIsoCtx π] in
theorem AtOnce.mono {W : Ctx π → Prop} (h : ∀ c, V c → W c) {x : Act (Ctx π) Ret} :
    AtOnce V x → AtOnce W x := by
  rintro ⟨ret, c, hx, hret, hc⟩
  exact ⟨ret, c, hx, hret, h c hc⟩

omit [FwIsoCtx π] in
theorem AtOnce.bind {x : Act (Ctx π) Ret} (hx : AtOnce V x) {f : Ret → Ctx π → Act (Ctx π) Ret}
    (hf : ∀ ret c, ret ≠ .crashed .divByZero → V c → AtOnce V (f ret c)) :
    AtOnce V (x.bind f) := by
  obtain ⟨ret, c, rfl, hret, hc⟩ := hx
  exact hf ret c hret hc

theorem stop_atOnce (hrunning : ∀ c, V c → (FwIsoCtx.state c.priv).running = false)
    (hstop : ∀ c, V c → V (c.after (onState FwIsoCtxState.stop c.priv))) {c : Ctx π} (hc : V c) :
    AtOnce V c.stop :=
  ⟨_, _, stop_idle (hrunning c hc), nofun, hstop c hc⟩

theorem unmapBuffer_atOnce (hrunning : ∀ c, V c → (FwIsoCtx.state c.priv).running = false)
    (hstop : ∀ c, V c → V (c.after (onState FwIsoCtxState.stop c.priv)))
    (hret : ∀ p : π, (FwIsoCtx.unmapBuffer p).ret = .success)
    (hunmap : ∀ c : Ctx π, V c → V (c.after (FwIsoCtx.unmapBuffer c.priv))) {c : Ctx π}
    (hc : V c) : AtOnce V c.unmapBuffer := by
  refine (stop_atOnce hrunning hstop hc).bind fun _ c _ hc => ⟨_, _, rfl, ?_, hunmap c hc⟩
  rw [hret]
  nofun

theorem release_atOnce (hrunning : ∀ c, V c → (FwIsoCtx.state c.priv).running = false)
    (hstop : ∀ c, V c → V (c.after (onState FwIsoCtxState.stop c.priv)))
    (hret : ∀ p : π, (FwIsoCtx.unmapBuffer p).ret = .success ∧
      (FwIsoCtx.release p).ret = .success)
    (hunmap : ∀ c : Ctx π, V c → V (c.after (FwIsoCtx.unmapBuffer c.priv)))
    (hrelease : ∀ c : Ctx π, V c → V (c.after (FwIsoCtx.release c.priv))) {c : Ctx π}
    (hc : V c) : AtOnce V c.release := by
  refine (unmapBuffer_atOnce hrunning hstop (fun p => (hret p).1) hunmap hc).bind
    fun _ c _ hc => ⟨_, _, rfl, ?_, hrelease c hc⟩
  rw [(hret c.priv).2]
  nofun

theorem dispatch_atOnce (hrunning : ∀ c, V c → (FwIsoCtx.state c.priv).running = false)
    (hstop : ∀ c, V c → V (c.after (onState FwIsoCtxState.stop c.priv)))
    (hother : ∀ env (c : Ctx π), FwIsoCtx.handleEvent .other env c = .done .rejected c)
    {c : Ctx π} (hc : V c) (hunstarted : ∀ arg, .startIso arg true ∉ c.effects) {w : Wakeup}
    (hw : w.Promised c.effects) : AtOnce V (c.dispatch w) := by
  cases w with
  | ioErr => exact ⟨_, _, rfl, nofun, hc⟩
  | again => exact ⟨_, _, rfl, nofun, hc⟩
  | readError errno => exact stop_atOnce hrunning hstop hc
  | event ev env =>
    cases ev with
    | isoInterrupt ev =>
      obtain ⟨arg, hstarted⟩ := hw
      exact absurd hstarted (hunstarted arg)
    | isoInterruptMc ev =>
      obtain ⟨arg, hstarted⟩ := hw
      exact absurd hstarted (hunstarted arg)
    | other =>
      rw [dispatch, hother]
      exact stop_atOnce hrunning hstop hc

end Ctx

structure Unstarted {π : Type} [FwIsoCtx π] (c : Ctx π) : Prop where
  state : (FwIsoCtx.state c.priv).Unmapped
  effects : ∀ arg, .startIso arg true ∉ c.effects

namespace Unstarted

variable {π : Type} [FwIsoCtx π] {c : Ctx π}

theorem after (h : Unstarted c) {o : Out π} (hstate : (FwIsoCtx.state o.state).Unmapped)
    (heffects : ∀ arg, .startIso arg true ∉ o.effects) : Unstarted (c.after o) := by
  refine ⟨hstate, fun arg he => ?_⟩
  rw [Ctx.after_effects] at he
  rcases List.mem_append.mp he with he | he
  · exact h.effects arg he
  · exact heffects arg he

theorem note (h : Unstarted c) {e : Effect} (he : ∀ arg, e ≠ .startIso arg true) :
    Unstarted (c.note e) := by
  refine ⟨h.state, fun arg hmem => ?_⟩
  rw [Ctx.note_effects] at hmem
  rcases List.mem_append.mp hmem with hmem | hmem
  · exact h.effects arg hmem
  · exact he arg (List.mem_singleton.mp hmem).symm

theorem refused (h : Unstarted c) {o : Out π} (hstate : FwIsoCtx.state o.state =
    FwIsoCtx.state c.priv) (heffects : o.effects = []) : Unstarted (c.after o) := by
  refine h.after ?_ ?_
  · rw [hstate]
    exact h.state
  · rw [heffects]
    exact fun _ => List.not_mem_nil

theorem stop (h : Unstarted c) : Unstarted (c.after (Ctx.onState FwIsoCtxState.stop c.priv)) := by
  have hstop := h.state.stop
  refine h.refused ?_ ?_
  · rw [Ctx.onState, hstop, Out.map_state, FwIsoCtx.state_setState]
  · rw [Ctx.onState, hstop, Out.map_effects]

theorem allocated (st : FwIsoCtxState) (path : Option String) (mode : FwIsoCtxMode)
    (scode channel headerSize : UInt32) (env : AllocateEnv) (arg : StartIso) :
    .startIso arg true ∉ (st.allocate path mode scode channel headerSize env).effects := by
  intro he
  rcases st.allocate_cases path mode scode channel headerSize env with hr | ⟨_, hsetup, _⟩
  · rw [hr.effects] at he
    cases he
  · exact hsetup _ he

theorem unmapBuffer (h : Unstarted c) {o : Out π}
    (hstate : FwIsoCtx.state o.state = (FwIsoCtx.state c.priv).unmapBuffer.state)
    (heffects : o.effects = (FwIsoCtx.state c.priv).unmapBuffer.effects) :
    Unstarted (c.after o) := by
  refine h.after ?_ (fun arg he => ?_)
  · rw [hstate]
    exact h.state.unmapBuffer
  · rw [heffects, FwIsoCtxState.unmapBuffer] at he
    split at he
    · cases he
    · cases List.mem_singleton.mp he

theorem release (h : Unstarted c) {o : Out π}
    (hstate : FwIsoCtx.state o.state = (FwIsoCtx.state c.priv).release.state)
    (heffects : o.effects = (FwIsoCtx.state c.priv).release.effects) :
    Unstarted (c.after o) := by
  refine h.after ?_ (fun arg he => ?_)
  · rw [hstate]
    exact h.state.release
  · rw [heffects] at he
    simp only [FwIsoCtxState.release] at he
    split at he
    · cases List.mem_singleton.mp he
    · cases he

theorem mapped (st : FwIsoCtxState) (bytesPerChunk chunksPerBuffer : UInt32) (env : MapEnv)
    (arg : StartIso) :
    .startIso arg true ∉ (st.mapBuffer bytesPerChunk chunksPerBuffer env).effects := by
  intro he
  rcases st.mapBuffer_cases bytesPerChunk chunksPerBuffer env with hr | ⟨_, heffects, _⟩
  · rw [hr.effects] at he
    cases he
  · rw [heffects] at he
    cases List.mem_singleton.mp he

end Unstarted

/-! ### IT contexts -/

namespace FwIsoIt

/-- What the surroundings promise, and the condition on starts. -/
def Op.Divides : Op → Ctx FwIsoIt → Prop
  | .mapBuffer bytes payloads env _, _ => FwIsoCtxState.Mappable bytes payloads env
  | .start _ _, c => c.priv.state.Startable
  | .dispatch w, c => w.Promised c.effects
  | _, _ => True

def Divisible (it : FwIsoIt) : Prop := it.state.bytesPerBuffer ≠ 0

theorem divisible_stop {self : FwIsoIt} (h : self.Divisible) :
    Divisible (Ctx.onState FwIsoCtxState.stop self).state := by
  obtain ⟨running, hsame⟩ := self.state.stop_same
  have hB : (Ctx.onState FwIsoCtxState.stop self).state.state.bytesPerBuffer =
      self.state.bytesPerBuffer := hsame.bytesPerBuffer
  rw [Divisible, hB]
  exact h

theorem registerPacket_ne_divByZero (self : FwIsoIt) (tags syncCode : UInt32)
    (header payload : ArrayArg) (irq : Bool) :
    (self.registerPacket tags syncCode header payload irq).ret ≠ .crashed .divByZero := by
  rcases self.registerPacket_cases tags syncCode header payload irq with
    hr | ⟨_, ⟨_, ho⟩ | ⟨_, ⟨_, ho⟩ | ⟨_, _, ho⟩⟩⟩
  · exact hr.ret.ne_crashed _
  · rw [ho]
    exact self.state.registerChunk_ne_divByZero _ _ _ _ _ _
  · rw [ho]
    nofun
  · rw [ho]
    nofun

theorem start_undivided {self : FwIsoIt} (h : self.Divisible)
    (cycleMatch : Option (UInt16 × UInt16)) (env : StartEnv) :
    (self.start cycleMatch env).ret ≠ .crashed .divByZero ∧
      (self.start cycleMatch env).state.Divisible := by
  simp only [start]
  split
  · exact ⟨by rintro ⟨⟩, h⟩
  · obtain ⟨running, hsame⟩ := self.state.start_same cycleMatch 0 0 env
    exact ⟨FwIsoCtxState.start_ne_divByZero h cycleMatch 0 0 env,
      @FwIsoCtxState.bytesPerBuffer_same { self.state with running := running } _ hsame h⟩

theorem handleEvent_undivided (ev : CdevEvent) (env : EventEnv) {c : Ctx FwIsoIt}
    (h : c.priv.Divisible) :
    (handleEvent ev env c).Keeps (fun c => c.priv.Divisible) (Undivided Divisible) := by
  cases ev with
  | isoInterrupt ev =>
    refine ⟨h, fun c' hc' => ⟨?_, ?_⟩⟩
    · exact FwIsoCtxState.queueChunks_ne_divByZero hc' env.queueIso
    · exact FwIsoCtxState.bytesPerBuffer_same (SameSetup.queueChunks c'.priv.state env.queueIso) hc'
  | isoInterruptMc ev => exact ⟨nofun, h⟩
  | other => exact ⟨nofun, h⟩

/-- Before the first mapping nothing is divided. -/
theorem exec_atOnce {op : Op} {c : Ctx FwIsoIt} (hop : op.Divides c) (h : Unstarted c) :
    Ctx.AtOnce (fun c => Unstarted c ∨ c.priv.Divisible) (exec op c) := by
  have hrunning : ∀ c : Ctx FwIsoIt, Unstarted c → c.priv.state.running = false :=
    fun _ hc => hc.state.running
  have hunmap : ∀ c : Ctx FwIsoIt, Unstarted c →
      Unstarted (c.after (FwIsoCtx.unmapBuffer c.priv)) :=
    fun _ hc => hc.unmapBuffer rfl rfl
  have hrelease : ∀ c : Ctx FwIsoIt, Unstarted c → Unstarted (c.after (FwIsoCtx.release c.priv)) :=
    fun _ hc => hc.release rfl rfl
  cases op with
  | allocate path scode channel headerSize env =>
    refine ⟨_, _, rfl, ?_, .inl ?_⟩
    · simp only [allocate]
      split
      · rintro ⟨⟩
      · exact FwIsoCtxState.allocate_ne_crashed _ _ _ _ _ _ _ _
    · simp only [allocate]
      split
      · exact h.refused rfl rfl
      · exact h.after (h.state.allocate _ _ _ _ _ _) fun arg =>
          Unstarted.allocated _ _ _ _ _ _ _ arg
  | mapBuffer bytes payloads env mem =>
    refine ⟨_, _, rfl, FwIsoCtxState.mapBuffer_ne_crashed _ _ _ _ _, ?_⟩
    rcases h.state.mapBuffer hop with ⟨_, hstate⟩ | ⟨_, hB⟩
    · exact .inl (h.after hstate (Unstarted.mapped _ _ _ _))
    · exact .inr hB
  | registerPacket tags syncCode header payload irq =>
    have hsame := c.priv.registerPacket_same tags syncCode header payload irq
    refine ⟨_, _, rfl, c.priv.registerPacket_ne_divByZero _ _ _ _ _,
      .inl (h.after (h.state.of_same hsame) fun arg he => ?_)⟩
    rcases c.priv.registerPacket_effects tags syncCode header payload irq _ he with
      ⟨_, hp⟩ | ⟨_, _, hp⟩ <;> cases hp
  | start cycleMatch env =>
    have hr := h.state.start hop cycleMatch 0 0 env
    refine ⟨_, _, rfl, ?_⟩
    simp only [start]
    split
    · exact ⟨by rintro ⟨⟩, .inl (h.refused rfl rfl)⟩
    · exact ⟨hr.ret.ne_crashed _, .inl (h.refused hr.state hr.effects)⟩
  | stop => exact (Ctx.stop_atOnce hrunning (fun _ hc => hc.stop) h).mono fun _ => .inl
  | unmapBuffer =>
    exact (Ctx.unmapBuffer_atOnce hrunning (fun _ hc => hc.stop) (fun _ => rfl) hunmap h).mono
      fun _ => .inl
  | release =>
    exact (Ctx.release_atOnce hrunning (fun _ hc => hc.stop) (fun _ => ⟨rfl, rfl⟩) hunmap hrelease
      h).mono fun _ => .inl
  | dispatch w =>
    exact (Ctx.dispatch_atOnce hrunning (fun _ hc => hc.stop) (fun _ _ => rfl) h h.effects
      hop).mono fun _ => .inl

/-- Once there is a buffer nothing divides by zero. -/
theorem exec_undivided {op : Op} {c : Ctx FwIsoIt} (hop : op.Divides c) (h : c.priv.Divisible) :
    (exec op c).Keeps (fun c => c.priv.Divisible) (Undivided Divisible) := by
  have hstop : ∀ p : FwIsoIt, p.Divisible →
      Divisible (Ctx.onState FwIsoCtxState.stop p).state := fun _ hp => divisible_stop hp
  have hunmap : ∀ p : FwIsoIt, p.Divisible → (FwIsoCtx.unmapBuffer p).ret = .success ∧
      Divisible (FwIsoCtx.unmapBuffer p).state := fun _ hp => ⟨rfl, hp⟩
  cases op with
  | allocate path scode channel headerSize env =>
    simp only [exec, Ctx.perform, allocate]
    split
    · exact ⟨by rintro ⟨⟩, h⟩
    · refine ⟨FwIsoCtxState.allocate_ne_crashed _ _ _ _ _ _ _ _, ?_⟩
      rw [Divisible, Ctx.after_priv, Out.map_state, FwIsoCtxState.bytesPerBuffer_allocate]
      exact h
  | mapBuffer bytes payloads env mem =>
    exact ⟨FwIsoCtxState.mapBuffer_ne_crashed _ _ _ _ _,
      FwIsoCtxState.bytesPerBuffer_mapBuffer hop h⟩
  | registerPacket tags syncCode header payload irq =>
    exact ⟨c.priv.registerPacket_ne_divByZero _ _ _ _ _, FwIsoCtxState.bytesPerBuffer_same
      (c.priv.registerPacket_same tags syncCode header payload irq) h⟩
  | start cycleMatch env => exact start_undivided h cycleMatch env
  | stop => exact Ctx.stop_undivided hstop h
  | unmapBuffer => exact Ctx.unmapBuffer_undivided hstop hunmap h
  | release => exact Ctx.release_undivided hstop hunmap (fun _ hp => ⟨rfl, hp⟩) h
  | dispatch w =>
    exact Ctx.dispatch_undivided hstop (fun ev env c hc => handleEvent_undivided ev env hc) w h

end FwIsoIt

/-! ### Single-channel IR contexts -/

namespace FwIsoIrSingle

def Op.Divides : Op → Ctx FwIsoIrSingle → Prop
  | .mapBuffer bytes payloads env, _ => FwIsoCtxState.Mappable bytes payloads env
  | .start _ _ _ _, c => c.priv.state.Startable
  | .dispatch w, c => w.Promised c.effects
  | _, _ => True

structure Divisible (it : FwIsoIrSingle) : Prop where
  buffer : it.state.bytesPerBuffer ≠ 0
  header : it.headerSize ≠ 0

/-- A context before its first mapping: no event is at hand, and headers come with a descriptor. -/
structure Fresh (c : Ctx FwIsoIrSingle) : Prop where
  unstarted : Unstarted c
  ev : c.priv.ev = none
  header : 0 ≤ c.priv.state.fd → c.priv.headerSize ≠ 0

theorem getPayload_ne_divByZero {self : FwIsoIrSingle}
    (h : self.ev = none ∨ self.state.chunksPerBuffer ≠ 0) (index : UInt32) :
    self.getPayload index ≠ .crashed .divByZero := by
  simp only [getPayload]
  split
  · nofun
  next ev hev =>
    rcases h with h | h
    · rw [h] at hev
      cases hev
    · simp only [h, if_false]
      repeat' split
      all_goals nofun

theorem allocate_ne_divByZero (self : FwIsoIrSingle) (path : Option String)
    (channel headerSize : UInt32) (env : AllocateEnv) :
    (self.allocate path channel headerSize env).ret ≠ .crashed .divByZero := by
  simp only [allocate]
  split
  · rintro ⟨⟩
  split
  · rintro ⟨⟩
  · exact FwIsoCtxState.allocate_ne_crashed _ _ _ _ _ _ _ _

/-- Allocating takes the size of headers that it is given, or none. -/
theorem headerSize_allocate (self : FwIsoIrSingle) (path : Option String)
    (channel headerSize : UInt32) (env : AllocateEnv) :
    (self.allocate path channel headerSize env).state.headerSize ≠ 0 ∨
      (self.allocate path channel headerSize env).state.headerSize = self.headerSize ∧
        (0 ≤ (self.allocate path channel headerSize env).state.state.fd → 0 ≤ self.state.fd) := by
  simp only [allocate]
  split
  · exact .inr ⟨rfl, id⟩
  split
  · exact .inr ⟨rfl, id⟩
  next hsize =>
    simp only [Out.map_state]
    split
    next hret =>
      left
      rintro rfl
      exact hsize (by decide)
    next hret =>
      refine .inr ⟨rfl, fun hfd => ?_⟩
      rcases self.state.allocate_cases path .irSingle 0 channel headerSize env with
        hr | ⟨_, _, ⟨_, hstate⟩ | ⟨hsuccess, _⟩⟩
      · rwa [hr.state] at hfd
      · rw [hstate] at hfd
        have hneg : (0 : Int) ≤ -1 := hfd
        omega
      · exact absurd hsuccess hret

theorem divisible_stop {self : FwIsoIrSingle} (h : self.Divisible) :
    Divisible (Ctx.onState FwIsoCtxState.stop self).state := by
  obtain ⟨running, hsame⟩ := self.state.stop_same
  exact ⟨FwIsoCtxState.bytesPerBuffer_same hsame h.buffer, h.header⟩

theorem Fresh.stop {c : Ctx FwIsoIrSingle} (h : Fresh c) :
    Fresh (c.after (Ctx.onState FwIsoCtxState.stop c.priv)) := by
  refine ⟨h.unstarted.stop, h.ev, fun hfd => h.header ?_⟩
  have hstate : (FwIsoCtx.state c.priv).stop.state = c.priv.state :=
    congrArg Out.state h.unstarted.state.stop
  simp only [Ctx.after_priv, Ctx.onState, Out.map_state] at hfd
  rw [hstate] at hfd
  exact hfd

theorem finishEvent_undivided {self : FwIsoIrSingle} (h : self.Divisible) (count : UInt32)
    (answers : Nat → QueueAnswer) :
    (finishEvent count answers self).ret ≠ .crashed .divByZero ∧
      (finishEvent count answers self).state.Divisible := by
  have hchunks := FwIsoCtxState.chunksPerBuffer_ne_zero h.buffer
  simp only [finishEvent, hchunks, and_false, if_false]
  exact ⟨FwIsoCtxState.queueChunks_ne_divByZero h.buffer answers,
    FwIsoCtxState.bytesPerBuffer_same (SameSetup.queueChunks self.state answers) h.buffer, h.header⟩

theorem handleEvent_undivided (ev : CdevEvent) (env : EventEnv) {c : Ctx FwIsoIrSingle}
    (h : c.priv.Divisible) :
    (handleEvent ev env c).Keeps (fun c => c.priv.Divisible) (Undivided Divisible) := by
  cases ev with
  | isoInterrupt ev =>
    simp only [handleEvent, h.header, if_false]
    exact ⟨⟨h.buffer, h.header⟩, fun c' hc' => finishEvent_undivided hc' _ _⟩
  | isoInterruptMc ev => exact ⟨by rintro ⟨⟩, h⟩
  | other => exact ⟨by rintro ⟨⟩, h⟩

theorem start_undivided {self : FwIsoIrSingle} (h : self.Divisible)
    (cycleMatch : Option (UInt16 × UInt16)) (syncCode tags : UInt32) (env : StartEnv) :
    (self.start cycleMatch syncCode tags env).ret ≠ .crashed .divByZero ∧
      (self.start cycleMatch syncCode tags env).state.Divisible := by
  simp only [start]
  split
  · exact ⟨by rintro ⟨⟩, h⟩
  split
  · exact ⟨by rintro ⟨⟩, h⟩
  · obtain ⟨running, hsame⟩ := self.state.start_same cycleMatch syncCode tags env
    exact ⟨FwIsoCtxState.start_ne_divByZero h.buffer cycleMatch syncCode tags env,
      @FwIsoCtxState.bytesPerBuffer_same { self.state with running := running } _ hsame h.buffer,
      h.header⟩

theorem exec_atOnce {op : Op} {c : Ctx FwIsoIrSingle} (hop : op.Divides c) (h : Fresh c) :
    Ctx.AtOnce (fun c => Fresh c ∨ c.priv.Divisible) (exec op c) := by
  have hrunning : ∀ c : Ctx FwIsoIrSingle, Fresh c → c.priv.state.running = false :=
    fun _ hc => hc.unstarted.state.running
  have hstop : ∀ c : Ctx FwIsoIrSingle, Fresh c →
      Fresh (c.after (Ctx.onState FwIsoCtxState.stop c.priv)) := fun _ hc => hc.stop
  have hunmap : ∀ c : Ctx FwIsoIrSingle, Fresh c → Fresh (c.after (FwIsoCtx.unmapBuffer c.priv)) :=
    fun _ hc => ⟨hc.unstarted.unmapBuffer rfl rfl, hc.ev, hc.header⟩
  have hrelease : ∀ c : Ctx FwIsoIrSingle, Fresh c → Fresh (c.after (FwIsoCtx.release c.priv)) :=
    fun _ hc => ⟨hc.unstarted.release rfl rfl, hc.ev,
      fun hfd => absurd (show (0 : Int) ≤ -1 from hfd) (by decide)⟩
  cases op with
  | allocate path channel headerSize env =>
    refine ⟨_, _, rfl, c.priv.allocate_ne_divByZero _ _ _ _, .inl ⟨?_, ?_, fun hfd => ?_⟩⟩
    · simp only [allocate]
      split
      · exact h.unstarted.refused rfl rfl
      split
      · exact h.unstarted.refused rfl rfl
      · exact h.unstarted.after (h.unstarted.state.allocate _ _ _ _ _ _)
          fun arg => Unstarted.allocated _ _ _ _ _ _ _ arg
    · simp only [allocate]
      split
      · exact h.ev
      split
      · exact h.ev
      · exact h.ev
    · rcases c.priv.headerSize_allocate path channel headerSize env with hne | ⟨hsame, hback⟩
      · exact hne
      · simp only [Ctx.after_priv, hsame]
        exact h.header (hback hfd)
  | mapBuffer bytes payloads env =>
    refine ⟨_, _, rfl, FwIsoCtxState.mapBuffer_ne_crashed _ _ _ _ _, ?_⟩
    rcases h.unstarted.state.mapBuffer hop with ⟨hfd, hstate⟩ | ⟨hfd, hB⟩
    · exact .inl ⟨h.unstarted.after hstate (Unstarted.mapped _ _ _ _), h.ev,
        fun hup => h.header (hfd ▸ hup)⟩
    · exact .inr ⟨hB, h.header hfd⟩
  | registerPacket irq =>
    have hsame := SameSetup.registerChunk c.priv.state false 0 0 .null 0 irq
    refine ⟨_, _, rfl, c.priv.state.registerChunk_ne_divByZero false 0 0 .null 0 irq,
      .inl ⟨h.unstarted.after (h.unstarted.state.of_same hsame) fun arg he => ?_, h.ev,
        fun hup => h.header (hsame.fd ▸ hup)⟩⟩
    obtain ⟨_, hp⟩ := c.priv.state.registerChunk_effects false 0 0 .null 0 irq _ he
    cases hp
  | start cycleMatch syncCode tags env =>
    have hr := h.unstarted.state.start hop cycleMatch syncCode tags env
    have hstate : (c.priv.state.start cycleMatch syncCode tags env).state = c.priv.state := hr.state
    refine ⟨_, _, rfl, ?_⟩
    simp only [start]
    split
    · exact ⟨by rintro ⟨⟩, .inl ⟨h.unstarted.refused rfl rfl, h.ev, h.header⟩⟩
    split
    · exact ⟨by rintro ⟨⟩, .inl ⟨h.unstarted.refused rfl rfl, h.ev, h.header⟩⟩
    · refine ⟨hr.ret.ne_crashed _,
        .inl ⟨h.unstarted.refused hr.state hr.effects, h.ev, fun hfd => h.header ?_⟩⟩
      simp only [Ctx.after_priv, Out.map_state, hstate] at hfd
      exact hfd
  | getPayload index =>
    rw [exec_getPayload]
    exact ⟨_, _, rfl, mt Payload.ret_eq_crashed.mp (getPayload_ne_divByZero (.inl h.ev) index),
      .inl h⟩
  | stop => exact (Ctx.stop_atOnce hrunning hstop h).mono fun _ => .inl
  | unmapBuffer =>
    exact (Ctx.unmapBuffer_atOnce hrunning hstop (fun _ => rfl) hunmap h).mono fun _ => .inl
  | release =>
    exact (Ctx.release_atOnce hrunning hstop (fun _ => ⟨rfl, rfl⟩) hunmap hrelease h).mono
      fun _ => .inl
  | dispatch w =>
    exact (Ctx.dispatch_atOnce hrunning hstop (fun _ _ => rfl) h h.unstarted.effects hop).mono
      fun _ => .inl

theorem exec_undivided {op : Op} {c : Ctx FwIsoIrSingle} (hop : op.Divides c)
    (h : c.priv.Divisible) :
    (exec op c).Keeps (fun c => c.priv.Divisible) (Undivided Divisible) := by
  have hstop : ∀ p : FwIsoIrSingle, p.Divisible →
      Divisible (Ctx.onState FwIsoCtxState.stop p).state := fun _ hp => divisible_stop hp
  have hunmap : ∀ p : FwIsoIrSingle, p.Divisible → (FwIsoCtx.unmapBuffer p).ret = .success ∧
      Divisible (FwIsoCtx.unmapBuffer p).state := fun _ hp => ⟨rfl, hp.buffer, hp.header⟩
  cases op with
  | allocate path channel headerSize env =>
    refine ⟨c.priv.allocate_ne_divByZero _ _ _ _, ?_, ?_⟩
    · simp only [Ctx.after_priv, allocate]
      split
      · exact h.buffer
      split
      · exact h.buffer
      · rw [Out.map_state, FwIsoCtxState.bytesPerBuffer_allocate]
        exact h.buffer
    · rcases c.priv.headerSize_allocate path channel headerSize env with hne | ⟨hsame, _⟩
      · exact hne
      · simp only [Ctx.after_priv, hsame]
        exact h.header
  | mapBuffer bytes payloads env =>
    exact ⟨FwIsoCtxState.mapBuffer_ne_crashed _ _ _ _ _,
      FwIsoCtxState.bytesPerBuffer_mapBuffer hop h.buffer, h.header⟩
  | registerPacket irq =>
    exact ⟨c.priv.state.registerChunk_ne_divByZero false 0 0 .null 0 irq,
      FwIsoCtxState.bytesPerBuffer_same
        (SameSetup.registerChunk c.priv.state false 0 0 .null 0 irq) h.buffer, h.header⟩
  | start cycleMatch syncCode tags env => exact start_undivided h cycleMatch syncCode tags env
  | getPayload index =>
    rw [exec_getPayload]
    have hchunks := FwIsoCtxState.chunksPerBuffer_ne_zero h.buffer
    exact ⟨mt Payload.ret_eq_crashed.mp (getPayload_ne_divByZero (.inr hchunks) index), h⟩
  | stop => exact Ctx.stop_undivided hstop h
  | unmapBuffer => exact Ctx.unmapBuffer_undivided hstop hunmap h
  | release =>
    exact Ctx.release_undivided hstop hunmap (fun _ hp => ⟨rfl, hp.buffer, hp.header⟩) h
  | dispatch w =>
    exact Ctx.dispatch_undivided hstop (fun ev env c hc => handleEvent_undivided ev env hc) w h

end FwIsoIrSingle

/-! ### Multiple-channel IR contexts -/

namespace FwIsoIrMultiple

/-- What the surroundings promise. -/
def Op.Divides : Op → Ctx FwIsoIrMultiple → Prop
  | .mapBuffer bytes chunks env, _ =>
    FwIsoCtxState.Mappable ((bytes + 3) / 4 * 4) chunks env.toMapEnv
  | .dispatch w, c => w.Promised c.effects
  | _, _ => True

def Divisible (it : FwIsoIrMultiple) : Prop := it.state.bytesPerBuffer ≠ 0

variable {self : FwIsoIrMultiple}

theorem getPayload_ne_divByZero (self : FwIsoIrMultiple) (index : UInt32) :
    (self.getPayload index).2 ≠ .crashed .divByZero := by
  simp only [getPayload]
  repeat' split
  all_goals rintro ⟨⟩

theorem parse_ne_divByZero (h : self.Divisible) (accumEnd : UInt32) : ∀ (fuel : Nat)
    (accumLength : UInt32) (n : Nat),
    self.parse accumEnd fuel accumLength n ≠ .error .divByZero := by
  intro fuel
  induction fuel with
  | zero => intro accumLength n herror; cases herror
  | succ fuel ih =>
    intro accumLength n
    simp only [parse]
    split
    · rintro ⟨⟩
    split
    next hzero => exact absurd hzero h
    split
    · rintro ⟨⟩
    split
    · rintro ⟨⟩
    split
    · rintro ⟨⟩
    split
    next fault hfault =>
      rintro ⟨⟩
      exact ih _ _ hfault
    · rintro ⟨⟩

theorem registerChunks_ne_divByZero : ∀ (n : Nat) (self : FwIsoIrMultiple),
    (registerChunks n self).ret ≠ .crashed .divByZero := by
  intro n
  induction n with
  | zero => intro self h; cases h
  | succ n ih =>
    intro self
    rw [registerChunks]
    split
    · exact ih _
    · exact self.state.registerChunk_ne_divByZero false 0 0 .null 0 _

theorem divisible_stop (h : self.Divisible) :
    Divisible (Ctx.onState FwIsoCtxState.stop self).state := by
  obtain ⟨running, hsame⟩ := self.state.stop_same
  exact @FwIsoCtxState.bytesPerBuffer_same { self.state with running := running } _ hsame h

theorem start_undivided (h : self.Divisible) (cycleMatch : Option (UInt16 × UInt16))
    (syncCode tags chunksPerIrq : UInt32) (env : StartEnv) :
    (self.start cycleMatch syncCode tags chunksPerIrq env).ret ≠ .crashed .divByZero ∧
      (self.start cycleMatch syncCode tags chunksPerIrq env).state.Divisible := by
  obtain ⟨⟨running, hsame⟩, _⟩ := self.start_same cycleMatch syncCode tags chunksPerIrq env
  refine ⟨?_, @FwIsoCtxState.bytesPerBuffer_same { self.state with running := running } _ hsame h⟩
  have hchunks := registerChunks_ne_divByZero self.state.chunksPerBuffer.toNat
    { self with chunksPerIrq := chunksPerIrq, accumulatedChunkCount := 0 }
  obtain ⟨hregistered, _⟩ := registerChunks_same self.state.chunksPerBuffer.toNat
    { self with chunksPerIrq := chunksPerIrq, accumulatedChunkCount := 0 }
  simp only [start]
  split
  · rintro ⟨⟩
  split
  · rintro ⟨⟩
  split
  · rintro ⟨⟩
  split
  · exact FwIsoCtxState.start_ne_divByZero (FwIsoCtxState.bytesPerBuffer_same hregistered h) _ _ _ _
  · exact hchunks

/-- The end of an event divides by the sizes from before the signal, and by those of after it. -/
theorem finishEvent_undivided (h : self.Divisible) {bytesPerChunk bytesPerBuffer : UInt32}
    (hchunk : bytesPerChunk ≠ 0) (hbuffer : bytesPerBuffer ≠ 0) (accumLength : UInt32)
    (answers : Nat → QueueAnswer) :
    (finishEvent bytesPerChunk bytesPerBuffer accumLength answers self).ret ≠
        .crashed .divByZero ∧
      (finishEvent bytesPerChunk bytesPerBuffer accumLength answers self).state.Divisible := by
  obtain ⟨hsame, _⟩ := self.finishEvent_same bytesPerChunk bytesPerBuffer accumLength answers
  refine ⟨?_, FwIsoCtxState.bytesPerBuffer_same hsame h⟩
  have hchunks := registerChunks_ne_divByZero (((self.prevOffset + accumLength) /
    bytesPerChunk).toNat - (self.prevOffset / bytesPerChunk).toNat) self
  obtain ⟨hregistered, _⟩ := registerChunks_same (((self.prevOffset + accumLength) /
    bytesPerChunk).toNat - (self.prevOffset / bytesPerChunk).toNat) self
  simp only [finishEvent, hchunk, hbuffer, if_false]
  split
  · exact FwIsoCtxState.queueChunks_ne_divByZero
      (FwIsoCtxState.bytesPerBuffer_same hregistered h) answers
  · exact hchunks

theorem handleEvent_undivided (ev : CdevEvent) (env : EventEnv) {c : Ctx FwIsoIrMultiple}
    (h : c.priv.Divisible) :
    (handleEvent ev env c).Keeps (fun c => c.priv.Divisible) (Undivided Divisible) := by
  cases ev with
  | isoInterrupt ev => exact ⟨nofun, h⟩
  | isoInterruptMc ev =>
    have hne : ∀ completed, ({ c.priv with mem := env.buffer } : FwIsoIrMultiple).parseEvent
        completed ≠ .error .divByZero :=
      fun _ => @parse_ne_divByZero { c.priv with mem := env.buffer } h _ _ _ _
    simp only [handleEvent]
    split
    next fault hfault =>
      refine ⟨?_, h⟩
      rintro ⟨⟩
      exact hne _ hfault
    · exact ⟨h, fun c' hc' => finishEvent_undivided hc'
        (FwIsoCtxState.bytesPerChunk_ne_zero h) h _ _⟩
  | other => exact ⟨nofun, h⟩

theorem keeps_unmapBuffer (p : FwIsoIrMultiple) (hp : p.Divisible) :
    (FwIsoCtx.unmapBuffer p).ret = .success ∧ Divisible (FwIsoCtx.unmapBuffer p).state := ⟨rfl, hp⟩

theorem release_undivided {c : Ctx FwIsoIrMultiple} (h : c.priv.Divisible) :
    c.release.Keeps (fun c => c.priv.Divisible) (Undivided Divisible) :=
  Ctx.release_undivided (fun _ hp => divisible_stop hp) (fun _ hp => ⟨rfl, hp⟩)
    (fun _ hp => ⟨rfl, hp⟩) h

theorem allocate_undivided (path : Option String) (channels : List UInt8) (env : AllocateEnv)
    (setIsoChannels : Except Nat UInt64) (bigEndian : Bool) {c : Ctx FwIsoIrMultiple}
    (h : c.priv.Divisible) :
    (allocate path channels env setIsoChannels bigEndian c).Keeps (fun c => c.priv.Divisible)
      (Undivided Divisible) := by
  have hstate : (allocateState path env c.priv).state.Divisible := by
    rw [Divisible, allocateState, Out.map_state, FwIsoCtxState.bytesPerBuffer_allocate]
    exact h
  simp only [allocate]
  split
  · exact ⟨by rintro ⟨⟩, h⟩
  split
  · exact ⟨by rintro ⟨⟩, h⟩
  refine Act.Keeps.bind (Q := Undivided Divisible) (fun ret c hc => ?_)
    ⟨FwIsoCtxState.allocate_ne_crashed _ _ _ _ _ _ _ _, hstate⟩
  cases ret with
  | success =>
    cases setIsoChannels with
    | error errno =>
      refine Act.Keeps.bind (Q := Undivided Divisible) (fun _ c hc => ?_)
        (release_undivided (c := c.note (.setIsoChannels (channelMask channels))) hc.2)
      exact ⟨by rintro ⟨⟩, hc.2⟩
    | ok mask =>
      simp only
      split
      · refine Act.Keeps.bind (Q := Undivided Divisible) (fun _ c hc => ?_)
          (release_undivided (c := c.note (.setIsoChannels (channelMask channels))) hc.2)
        exact ⟨by rintro ⟨⟩, hc.2⟩
      · exact ⟨by rintro ⟨⟩, hc.2⟩
  | failure error => exact hc
  | rejected => exact hc
  | crashed fault => exact hc

theorem release_atOnce {c : Ctx FwIsoIrMultiple} (h : Unstarted c) :
    Ctx.AtOnce Unstarted c.release :=
  Ctx.release_atOnce (fun _ hc => hc.state.running) (fun _ hc => hc.stop) (fun _ => ⟨rfl, rfl⟩)
    (fun _ hc => hc.unmapBuffer rfl rfl) (fun _ hc => hc.release rfl rfl) h

theorem allocate_atOnce (path : Option String) (channels : List UInt8) (env : AllocateEnv)
    (setIsoChannels : Except Nat UInt64) (bigEndian : Bool) {c : Ctx FwIsoIrMultiple}
    (h : Unstarted c) :
    Ctx.AtOnce Unstarted (allocate path channels env setIsoChannels bigEndian c) := by
  have hdone : Ctx.AtOnce Unstarted (c.perform (allocateState path env)) :=
    ⟨_, _, rfl, FwIsoCtxState.allocate_ne_crashed _ _ _ _ _ _ _ _,
      h.after (h.state.allocate _ _ _ _ _ _) fun arg => Unstarted.allocated _ _ _ _ _ _ _ arg⟩
  simp only [allocate]
  split
  · exact ⟨_, _, rfl, by rintro ⟨⟩, h⟩
  split
  · exact ⟨_, _, rfl, by rintro ⟨⟩, h⟩
  refine hdone.bind fun ret c hret hc => ?_
  cases ret with
  | success =>
    have hnote : Unstarted (c.note (.setIsoChannels (channelMask channels))) :=
      hc.note fun _ => by rintro ⟨⟩
    cases setIsoChannels with
    | error errno => exact (release_atOnce hnote).bind fun _ c _ hc => ⟨_, _, rfl, by rintro ⟨⟩, hc⟩
    | ok mask =>
      simp only
      split
      · exact (release_atOnce hnote).bind fun _ c _ hc => ⟨_, _, rfl, by rintro ⟨⟩, hc⟩
      · exact ⟨_, _, rfl, by rintro ⟨⟩, hnote.state, hnote.effects⟩
  | failure error => exact ⟨_, _, rfl, by rintro ⟨⟩, hc⟩
  | rejected => exact ⟨_, _, rfl, by rintro ⟨⟩, hc⟩
  | crashed fault => exact ⟨_, _, rfl, hret, hc⟩

theorem start_atOnce {c : Ctx FwIsoIrMultiple} (h : Unstarted c)
    (cycleMatch : Option (UInt16 × UInt16)) (syncCode tags chunksPerIrq : UInt32)
    (env : StartEnv) :
    Ctx.AtOnce Unstarted (c.perform (·.start cycleMatch syncCode tags chunksPerIrq env)) := by
  -- there are no chunks, so there is no number of them that the start accepts
  have hrefused : c.priv.state.chunksPerBuffer ≤ chunksPerIrq := by
    rw [show c.priv.state.chunksPerBuffer = 0 from h.state.chunksPerBuffer]
    exact UInt32.zero_le
  refine ⟨_, _, rfl, ?_⟩
  simp only [start, hrefused, if_true]
  split
  · exact ⟨by rintro ⟨⟩, h.refused rfl rfl⟩
  split
  · exact ⟨by rintro ⟨⟩, h.refused rfl rfl⟩
  · exact ⟨by rintro ⟨⟩, h.refused rfl rfl⟩

theorem exec_atOnce {op : Op} {c : Ctx FwIsoIrMultiple} (hop : op.Divides c) (h : Unstarted c) :
    Ctx.AtOnce (fun c => Unstarted c ∨ c.priv.Divisible) (exec op c) := by
  have hrunning : ∀ c : Ctx FwIsoIrMultiple, Unstarted c → c.priv.state.running = false :=
    fun _ hc => hc.state.running
  cases op with
  | allocate path channels env set bigEndian =>
    exact (allocate_atOnce path channels env set bigEndian h).mono fun _ => .inl
  | mapBuffer bytes chunks env =>
    obtain ⟨hstate, hret, heffects⟩ := c.priv.mapBuffer_state bytes chunks env
    refine ⟨_, _, rfl, ?_, ?_⟩
    · simp only [hret]
      exact FwIsoCtxState.mapBuffer_ne_crashed _ _ _ _ _
    · rcases h.state.mapBuffer hop with ⟨_, hunmapped⟩ | ⟨_, hB⟩
      · refine .inl (h.after (o := c.priv.mapBuffer bytes chunks env) ?_ fun arg he => ?_)
        · rw [show FwIsoCtx.state (c.priv.mapBuffer bytes chunks env).state = _ from hstate]
          exact hunmapped
        · rw [heffects] at he
          exact Unstarted.mapped _ _ _ _ arg he
      · refine .inr ?_
        simp only [Divisible, Ctx.after_priv, hstate]
        exact hB
  | start cycleMatch syncCode tags irq env =>
    exact (start_atOnce h cycleMatch syncCode tags irq env).mono fun _ => .inl
  | getPayload index =>
    exact ⟨_, _, rfl, mt Payload.ret_eq_crashed.mp (c.priv.getPayload_ne_divByZero index),
      .inl (h.refused (c.priv.state_getPayload index) rfl)⟩
  | stop => exact (Ctx.stop_atOnce hrunning (fun _ hc => hc.stop) h).mono fun _ => .inl
  | unmapBuffer =>
    exact (Ctx.unmapBuffer_atOnce hrunning (fun _ hc => hc.stop) (fun _ => rfl)
      (fun _ hc => hc.unmapBuffer rfl rfl) h).mono fun _ => .inl
  | release => exact (release_atOnce h).mono fun _ => .inl
  | dispatch w =>
    exact (Ctx.dispatch_atOnce hrunning (fun _ hc => hc.stop) (fun _ _ => rfl) h h.effects
      hop).mono fun _ => .inl

theorem exec_undivided {op : Op} {c : Ctx FwIsoIrMultiple} (hop : op.Divides c)
    (h : c.priv.Divisible) :
    (exec op c).Keeps (fun c => c.priv.Divisible) (Undivided Divisible) := by
  have hstop : ∀ p : FwIsoIrMultiple, p.Divisible →
      Divisible (Ctx.onState FwIsoCtxState.stop p).state := fun _ hp => divisible_stop hp
  cases op with
  | allocate path channels env set bigEndian =>
    exact allocate_undivided path channels env set bigEndian h
  | mapBuffer bytes chunks env =>
    obtain ⟨hstate, hret, _⟩ := c.priv.mapBuffer_state bytes chunks env
    refine ⟨?_, ?_⟩
    · simp only [hret]
      exact FwIsoCtxState.mapBuffer_ne_crashed _ _ _ _ _
    · simp only [Divisible, Ctx.after_priv, hstate]
      exact FwIsoCtxState.bytesPerBuffer_mapBuffer hop h
  | start cycleMatch syncCode tags irq env =>
    exact start_undivided h cycleMatch syncCode tags irq env
  | getPayload index =>
    refine ⟨mt Payload.ret_eq_crashed.mp (c.priv.getPayload_ne_divByZero index), ?_⟩
    simp only [Divisible, Ctx.after_priv, askPayload, c.priv.state_getPayload index]
    exact h
  | stop => exact Ctx.stop_undivided hstop h
  | unmapBuffer => exact Ctx.unmapBuffer_undivided hstop keeps_unmapBuffer h
  | release => exact release_undivided h
  | dispatch w =>
    exact Ctx.dispatch_undivided hstop (fun ev env c hc => handleEvent_undivided ev env hc) w h

theorem divisible_of_running (ms : List (Move Op))
    (hg : Guarded exec Op.Divides ⟨⟨new, []⟩, []⟩ ms)
    (hrun : (run exec ⟨⟨new, []⟩, []⟩ ms).state.priv.state.running = true) :
    (run exec ⟨⟨new, []⟩, []⟩ ms).state.priv.Divisible := by
  have hnew : Unstarted (⟨new, []⟩ : Ctx FwIsoIrMultiple) := ⟨⟨.inl rfl, rfl, rfl⟩, nofun⟩
  have hphased : Phased Unstarted (fun c => Divisible c.priv) (Undivided Divisible)
      (run exec ⟨⟨new, []⟩, []⟩ ms) := by
    refine phased_of_run (P := (· ≠ .crashed .divByZero)) (fun _ _ h => h) ?_ ?_ hnew hg
    · exact fun _ _ hop h => exec_atOnce hop h
    · exact fun _ _ hop h => exec_undivided hop h
  rcases hphased with ⟨hunstarted, _⟩ | ⟨hdivisible, _⟩
  · have hidle := hunstarted.state.running
    rw [show (FwIsoCtx.state (run exec ⟨⟨new, []⟩, []⟩ ms).state.priv).running = true from hrun]
      at hidle
    cases hidle
  · exact hdivisible

end FwIsoIrMultiple

/-! ### Runs -/

/-- **No division by zero**: in a run in which a start never finds what a failed `mmap` has left
without any size, no operation ends in one, nor does asking for a payload. -/
theorem divides_of_run (its : List (Move FwIsoIt.Op)) (it : Move FwIsoIt.Op)
    (irSingles : List (Move FwIsoIrSingle.Op)) (irSingle : Move FwIsoIrSingle.Op) (index : UInt32)
    (irMultiples : List (Move FwIsoIrMultiple.Op)) (irMultiple : Move FwIsoIrMultiple.Op) :
    (Guarded FwIsoIt.exec FwIsoIt.Op.Divides ⟨⟨.new, []⟩, []⟩ (its ++ [it]) →
      answer FwIsoIt.exec (run FwIsoIt.exec ⟨⟨.new, []⟩, []⟩ its) it ≠
        some (.crashed .divByZero)) ∧
    (Guarded FwIsoIrSingle.exec FwIsoIrSingle.Op.Divides ⟨⟨.new, []⟩, []⟩
        (irSingles ++ [irSingle]) →
      answer FwIsoIrSingle.exec (run FwIsoIrSingle.exec ⟨⟨.new, []⟩, []⟩ irSingles) irSingle ≠
          some (.crashed .divByZero) ∧
        (run FwIsoIrSingle.exec ⟨⟨.new, []⟩, []⟩ irSingles).state.priv.getPayload index ≠
          .crashed .divByZero) ∧
    (Guarded FwIsoIrMultiple.exec FwIsoIrMultiple.Op.Divides ⟨⟨.new, []⟩, []⟩
        (irMultiples ++ [irMultiple]) →
      answer FwIsoIrMultiple.exec (run FwIsoIrMultiple.exec ⟨⟨.new, []⟩, []⟩ irMultiples)
        irMultiple ≠ some (.crashed .divByZero)) := by
  have hit : Unstarted (⟨.new, []⟩ : Ctx FwIsoIt) := ⟨⟨.inl rfl, rfl, rfl⟩, nofun⟩
  have hirSingle : FwIsoIrSingle.Fresh ⟨.new, []⟩ := ⟨⟨⟨.inl rfl, rfl, rfl⟩, nofun⟩, rfl, nofun⟩
  have hirMultiple : Unstarted (⟨.new, []⟩ : Ctx FwIsoIrMultiple) := ⟨⟨.inl rfl, rfl, rfl⟩, nofun⟩
  refine ⟨fun hg ha => ?_, fun hg => ⟨fun ha => ?_, ?_⟩, fun hg ha => ?_⟩
  · refine answer_of_phases (V := Unstarted) (I := fun c => FwIsoIt.Divisible c.priv)
      (P := (· ≠ .crashed .divByZero)) (fun _ _ h => h) ?_ ?_ hit hg ha rfl
    · exact fun _ _ hop h => FwIsoIt.exec_atOnce hop h
    · exact fun _ _ hop h => FwIsoIt.exec_undivided hop h
  · refine answer_of_phases (V := FwIsoIrSingle.Fresh)
      (I := fun c => FwIsoIrSingle.Divisible c.priv) (P := (· ≠ .crashed .divByZero))
      (fun _ _ h => h) ?_ ?_ hirSingle hg ha rfl
    · exact fun _ _ hop h => FwIsoIrSingle.exec_atOnce hop h
    · exact fun _ _ hop h => FwIsoIrSingle.exec_undivided hop h
  · have hphased : Phased FwIsoIrSingle.Fresh (fun c => FwIsoIrSingle.Divisible c.priv)
        (Undivided FwIsoIrSingle.Divisible)
        (run FwIsoIrSingle.exec ⟨⟨.new, []⟩, []⟩ irSingles) := by
      refine phased_of_run (P := (· ≠ .crashed .divByZero)) (fun _ _ h => h) ?_ ?_
        hirSingle (guarded_append.mp hg).1
      · exact fun _ _ hop h => FwIsoIrSingle.exec_atOnce hop h
      · exact fun _ _ hop h => FwIsoIrSingle.exec_undivided hop h
    rcases hphased with ⟨hfresh, _⟩ | ⟨hdivisible, _⟩
    · exact FwIsoIrSingle.getPayload_ne_divByZero (.inl hfresh.ev) index
    · exact FwIsoIrSingle.getPayload_ne_divByZero
        (.inr (FwIsoCtxState.chunksPerBuffer_ne_zero hdivisible.buffer)) index
  · refine answer_of_phases (V := Unstarted) (I := fun c => FwIsoIrMultiple.Divisible c.priv)
      (P := (· ≠ .crashed .divByZero)) (fun _ _ h => h) ?_ ?_ hirMultiple hg ha rfl
    · exact fun _ _ hop h => FwIsoIrMultiple.exec_atOnce hop h
    · exact fun _ _ hop h => FwIsoIrMultiple.exec_undivided hop h

def itUnmapped : List (Move FwIsoIt.Op) :=
  [.call (.allocate (some "/dev/fw0") 0 0 0 grantAllocate),
    .call (.mapBuffer 8 2 refuseMap fun _ => 0), .call (.registerPacket 0 0 .null .null false)]

def irSingleUnmapped : List (Move FwIsoIrSingle.Op) :=
  [.call (.allocate (some "/dev/fw0") 0 4 grantAllocate), .call (.mapBuffer 8 2 refuseMap),
    .call (.registerPacket false)]

/-- **A start divides by zero** after a mapping has failed. -/
theorem divides_fails :
    answer FwIsoIt.exec (run FwIsoIt.exec ⟨⟨.new, []⟩, []⟩ itUnmapped)
      (.call (.start none (grantStart 1))) = some (.crashed .divByZero) ∧
    answer FwIsoIrSingle.exec (run FwIsoIrSingle.exec ⟨⟨.new, []⟩, []⟩ irSingleUnmapped)
      (.call (.start none 0 0 (grantStart 1))) = some (.crashed .divByZero) := by
  decide +kernel

/-- The theorem at contexts that are mapped, register and start, and at a start that is asked for
after a failed mapping has been given up. -/
theorem divides_of_started :
    answer FwIsoIt.exec (run FwIsoIt.exec ⟨⟨.new, []⟩, []⟩ itWithPacket)
        (.call (.start none (grantStart 1))) ≠ some (.crashed .divByZero) ∧
      answer FwIsoIrSingle.exec (run FwIsoIrSingle.exec ⟨⟨.new, []⟩, []⟩
          (irSingleUnmapped ++ [.call .unmapBuffer])) (.call (.start none 0 0 (grantStart 1))) ≠
        some (.crashed .divByZero) ∧
      answer FwIsoIrMultiple.exec (run FwIsoIrMultiple.exec ⟨⟨.new, []⟩, []⟩ irMultipleMapped)
        (.call (.start none 0 0 1 (grantStart 2))) ≠ some (.crashed .divByZero) := by
  obtain ⟨hit, hirSingle, hirMultiple⟩ := divides_of_run itWithPacket
    (.call (.start none (grantStart 1))) (irSingleUnmapped ++ [.call .unmapBuffer])
    (.call (.start none 0 0 (grantStart 1))) 0 irMultipleMapped
    (.call (.start none 0 0 1 (grantStart 2)))
  refine ⟨hit ⟨trivial, ?_, trivial, ?_, trivial⟩,
    (hirSingle ⟨trivial, ?_, trivial, trivial, ?_, trivial⟩).1,
    hirMultiple ⟨trivial, ?_, trivial, trivial⟩⟩
  · exact fun h => absurd h (by decide)
  · exact fun h => absurd h (by decide +kernel)
  · exact fun h => absurd h (by decide)
  · exact fun h => absurd h (by decide +kernel)
  · exact fun h => absurd h (by decide)

end Hinoko
