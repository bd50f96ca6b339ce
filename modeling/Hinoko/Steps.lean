import Hinoko.It
import Hinoko.IrMultiple

/-!
# What the functions of the state can do

Each function of `CtxState.lean` returns early in many places.  The lemmas below say
once for each what it can come back with, so that later proofs do not walk through
the returns again: a call is refused and changes nothing, or it gets somewhere.
-/

namespace Hinoko

open Reentrant

def Effect.Quiet : Effect → Prop
  | .mmap _ _ _ => False
  | .munmap _ => False
  | .chunk _ => False
  | _ => True

def Effect.Setup : Effect → Prop
  | .open _ => True
  | .close => True
  | .getInfo => True
  | .createIsoContext _ => True
  | _ => False

structure Refused {σ : Type} (s : σ) (o : Out σ) : Prop where
  state : o.state = s
  effects : o.effects = []
  ret : o.ret.IsFalse

theorem Ret.IsFalse.ne_crashed {ret : Ret} (h : ret.IsFalse) (fault : Fault) :
    ret ≠ .crashed fault := by
  rintro rfl
  exact h

theorem Ret.IsFalse.ne_success {ret : Ret} (h : ret.IsFalse) : ret ≠ .success := by
  rintro rfl
  exact h

namespace FwIsoCtxState

theorem allocate_cases (st : FwIsoCtxState) (path : Option String) (mode : FwIsoCtxMode)
    (scode channel headerSize : UInt32) (env : AllocateEnv) :
    let o := st.allocate path mode scode channel headerSize env
    Refused st o ∨ st.fd < 0 ∧ (∀ e ∈ o.effects, e.Setup) ∧
      (o.ret.IsFalse ∧ o.state = { st with fd := -1 } ∨
        o.ret = .success ∧ ∃ (fd : Nat) (handle : UInt32), o.state =
          { st with fd := fd, handle := handle, mode := mode, headerSize := headerSize }) := by
  unfold allocate
  split
  · exact .inl ⟨rfl, rfl, trivial⟩
  split
  · exact .inl ⟨rfl, rfl, trivial⟩
  split
  · exact .inl ⟨rfl, rfl, trivial⟩
  split
  · exact .inl ⟨rfl, rfl, trivial⟩
  split
  · exact .inl ⟨rfl, rfl, trivial⟩
  split
  · exact .inl ⟨rfl, rfl, trivial⟩
  split
  · exact .inl ⟨rfl, rfl, trivial⟩
  next hfd =>
    refine .inr ⟨by omega, ?_⟩
    split
    · exact ⟨by simp [Effect.Setup], .inl ⟨trivial, rfl⟩⟩
    · exact ⟨by simp [Effect.Setup], .inl ⟨trivial, rfl⟩⟩
    next fd _ =>
      split
      · exact ⟨by simp [Effect.Setup, release], .inl ⟨trivial, rfl⟩⟩
      split
      · exact ⟨by simp [Effect.Setup, release], .inl ⟨trivial, rfl⟩⟩
      next handle _ =>
        exact ⟨by simp [Effect.Setup], .inr ⟨rfl, fd, handle, rfl⟩⟩

theorem mapBuffer_cases (st : FwIsoCtxState) (bytesPerChunk chunksPerBuffer : UInt32)
    (env : MapEnv) :
    let o := st.mapBuffer bytesPerChunk chunksPerBuffer env
    let allocated := { st with
      data := gMallocN env.dataBlock env.dataFill chunksPerBuffer st.datumSize
      allocDataLength := chunksPerBuffer * st.datumSize }
    let length := bytesPerChunk * chunksPerBuffer
    Refused st o ∨ (bytesPerChunk ≠ 0 ∧ chunksPerBuffer ≠ 0 ∧ 0 ≤ st.fd ∧ st.addr = .null) ∧
      o.effects = [.mmap length (st.mode = .it) env.mmap] ∧
      ((∃ errno, env.mmap = .error errno ∧
          o.ret = .failure (.syscall s!"mmap({length.toInt32.toInt})" errno) ∧
          o.state = { allocated with addr := .mapFailed }) ∨
        ∃ id, env.mmap = .ok id ∧ o.ret = .success ∧ o.state = { allocated with
          addr := .mapped id
          bytesPerChunk := bytesPerChunk
          chunksPerBuffer := chunksPerBuffer }) := by
  simp only [mapBuffer]
  split
  · exact .inl ⟨rfl, rfl, trivial⟩
  next hbytes =>
  split
  · exact .inl ⟨rfl, rfl, trivial⟩
  next hchunks =>
  split
  · exact .inl ⟨rfl, rfl, trivial⟩
  next hfd =>
  split
  · exact .inl ⟨rfl, rfl, trivial⟩
  next haddr =>
    refine .inr ⟨⟨hbytes, hchunks, by omega, Decidable.not_not.mp haddr⟩, ?_⟩
    cases env.mmap with
    | error errno => exact ⟨rfl, .inl ⟨errno, rfl, rfl, rfl⟩⟩
    | ok id => exact ⟨rfl, .inr ⟨id, rfl, rfl, rfl⟩⟩

theorem allocate_of_success {st : FwIsoCtxState} {path : Option String} {mode : FwIsoCtxMode}
    {scode channel headerSize : UInt32} {env : AllocateEnv}
    (h : (st.allocate path mode scode channel headerSize env).ret = .success) :
    ∃ (fd : Nat) (handle : UInt32), (st.allocate path mode scode channel headerSize env).state =
      { st with fd := fd, handle := handle, mode := mode, headerSize := headerSize } := by
  rcases st.allocate_cases path mode scode channel headerSize env with
    hr | ⟨_, _, ⟨hfalse, _⟩ | ⟨_, hstate⟩⟩
  · have hfalse := hr.ret
    rw [h] at hfalse
    exact hfalse.elim
  · rw [h] at hfalse
    exact hfalse.elim
  · exact hstate

theorem mapBuffer_of_success {st : FwIsoCtxState} {bytesPerChunk chunksPerBuffer : UInt32}
    {env : MapEnv} (h : (st.mapBuffer bytesPerChunk chunksPerBuffer env).ret = .success) :
    bytesPerChunk ≠ 0 ∧ chunksPerBuffer ≠ 0 ∧ ∃ id, env.mmap = .ok id ∧
      (st.mapBuffer bytesPerChunk chunksPerBuffer env).state = { st with
        data := gMallocN env.dataBlock env.dataFill chunksPerBuffer st.datumSize
        allocDataLength := chunksPerBuffer * st.datumSize
        addr := .mapped id
        bytesPerChunk := bytesPerChunk
        chunksPerBuffer := chunksPerBuffer } := by
  rcases st.mapBuffer_cases bytesPerChunk chunksPerBuffer env with
    hr | ⟨⟨hbytes, hchunks, _, _⟩, _, ⟨errno, _, hfail, _⟩ | ⟨id, hid, _, hstate⟩⟩
  · have hfalse := hr.ret
    rw [h] at hfalse
    exact hfalse.elim
  · rw [h] at hfail
    cases hfail
  · exact ⟨hbytes, hchunks, id, hid, hstate⟩

theorem registerChunk_cases (st : FwIsoCtxState) (skip : Bool) (tags syncCode : UInt32)
    (header : ArrayArg) (payloadLength : UInt32) (irq : Bool) :
    let o := st.registerChunk skip tags syncCode header payloadLength irq
    let packet := st.datum skip tags syncCode header payloadLength irq
    Refused st o ∨ (st.acceptsChunk skip tags syncCode header payloadLength ∧
        st.dataLength.toNat + 4 + header.length.toNat ≤ st.allocDataLength.toNat ∧
        0 ≤ st.fd ∧ st.addr ≠ .null) ∧
      (st.data = none ∧ o = ⟨st, .crashed .outOfBounds, []⟩ ∨
        ∃ block, st.data = some block ∧ o = ⟨{ st with
          data := some { block with bytes := block.bytes.write st.dataLength.toNat packet.bytes }
          dataLength := st.dataLength + (sizeofFwCdevIsoPacket + header.length)
          registeredChunkCount := st.registeredChunkCount + 1 }, .success, [.chunk packet]⟩) := by
  have h4 : sizeofFwCdevIsoPacket.toNat = 4 := rfl
  simp only [registerChunk, h4]
  split
  · exact .inl ⟨rfl, rfl, trivial⟩
  next hacc =>
  split
  · exact .inl ⟨rfl, rfl, trivial⟩
  next hroom =>
  split
  · exact .inl ⟨rfl, rfl, trivial⟩
  next hfd =>
  split
  · exact .inl ⟨rfl, rfl, trivial⟩
  next haddr =>
    refine .inr ⟨⟨by simpa using hacc, by omega, by omega, haddr⟩, ?_⟩
    cases hdata : st.data with
    | none => exact .inl ⟨rfl, rfl⟩
    | some block => exact .inr ⟨block, rfl, rfl⟩

theorem registerChunk_effects (st : FwIsoCtxState) (skip : Bool) (tags syncCode : UInt32)
    (header : ArrayArg) (payloadLength : UInt32) (irq : Bool) :
    ∀ e ∈ (st.registerChunk skip tags syncCode header payloadLength irq).effects,
      ∃ p, e = .chunk p := by
  intro e he
  rcases st.registerChunk_cases skip tags syncCode header payloadLength irq with
    hr | ⟨_, ⟨_, ho⟩ | ⟨_, _, ho⟩⟩
  · rw [hr.effects] at he
    cases he
  · rw [ho] at he
    cases he
  · rw [ho] at he
    exact ⟨_, List.mem_singleton.mp he⟩

/-- `register_chunk` has no place for a chunk of an IR context. -/
def RefusesChunk (st : FwIsoCtxState) : Prop :=
  ¬ st.acceptsChunk false 0 0 .null 0 ∨ st.allocDataLength.toNat < st.dataLength.toNat + 4 ∨
    st.fd < 0 ∨ st.addr = .null

theorem registerChunk_isFalse_iff (st : FwIsoCtxState) (irq : Bool) :
    (st.registerChunk false 0 0 .null 0 irq).ret.IsFalse ↔ st.RefusesChunk := by
  have hnull : ArrayArg.null.length.toNat = 0 := rfl
  have h4 : sizeofFwCdevIsoPacket.toNat = 4 := rfl
  simp only [registerChunk, RefusesChunk, hnull, h4, Nat.add_zero]
  split
  next hacc => exact iff_of_true trivial (.inl hacc)
  next hacc =>
  split
  next hroom => exact iff_of_true trivial (.inr (.inl hroom))
  next hroom =>
  split
  next hfd => exact iff_of_true trivial (.inr (.inr (.inl hfd)))
  next hfd =>
  split
  next haddr => exact iff_of_true trivial (.inr (.inr (.inr haddr)))
  next haddr =>
    have hnot : ¬ (¬ st.acceptsChunk false 0 0 .null 0 ∨
        st.allocDataLength.toNat < st.dataLength.toNat + 4 ∨ st.fd < 0 ∨ st.addr = .null) := by
      tauto
    cases st.data <;> exact iff_of_false (fun h => h.elim) hnot

theorem queueLoop_effects (st : FwIsoCtxState) (answers : Nat → QueueAnswer) :
    ∀ (fuel i : Nat) (dataOffset bufOffset chunkCount : UInt32),
      ∀ e ∈ (st.queueLoop answers fuel i dataOffset bufOffset chunkCount).1,
        ∃ arg packets answer, e = .queueIso arg packets answer := by
  intro fuel
  induction fuel with
  | zero => intro i dataOffset bufOffset chunkCount e he; simp [queueLoop] at he
  | succ fuel ih =>
    intro i dataOffset bufOffset chunkCount e he
    rw [queueLoop] at he
    split at he
    · split at he
      · simp at he
      · simp only at he
        split at he
        · exact ⟨_, _, _, List.mem_singleton.mp he⟩
        · split at he
          · exact ⟨_, _, _, List.mem_singleton.mp he⟩
          · rcases List.mem_cons.mp he with rfl | he
            · exact ⟨_, _, _, rfl⟩
            · exact ih _ _ _ _ e he
    · simp at he

/-- Queueing makes requests, and either changes nothing or clears the store. -/
theorem queueChunks_cases (st : FwIsoCtxState) (answers : Nat → QueueAnswer) :
    let o := st.queueChunks answers
    (∀ e ∈ o.effects, e = .warning ∨ ∃ arg packets answer, e = .queueIso arg packets answer) ∧
      (o.state = st ∧ ((∃ errno, o.ret = .failure (.ioctl .queueIso errno)) ∨
          ∃ fault, o.ret = .crashed fault) ∨
        o.ret = .success ∧ ∃ x, o.state =
          { st with currOffset := x, dataLength := 0, registeredChunkCount := 0 }) := by
  have heffects := queueLoop_effects st answers st.queueFuel 0 0 st.currOffset 0
  simp only [queueChunks]
  split
  next fault _ => exact ⟨fun e he => .inr (heffects e he), .inl ⟨rfl, .inr ⟨fault, rfl⟩⟩⟩
  next errno _ => exact ⟨fun e he => .inr (heffects e he), .inl ⟨rfl, .inl ⟨errno, rfl⟩⟩⟩
  next x count _ =>
    refine ⟨fun e he => ?_, .inr ⟨rfl, x, rfl⟩⟩
    simp only at he
    split at he
    · exact .inr (heffects e he)
    · rcases List.mem_append.mp he with he | he
      · exact .inr (heffects e he)
      · exact .inl (List.mem_singleton.mp he)

theorem queueChunks_quiet (st : FwIsoCtxState) (answers : Nat → QueueAnswer) :
    ∀ e ∈ (st.queueChunks answers).effects, e.Quiet := by
  intro e he
  rcases (queueChunks_cases st answers).1 e he with rfl | ⟨_, _, _, rfl⟩ <;> trivial

theorem start_cases (st : FwIsoCtxState) (cycleMatch : Option (UInt16 × UInt16))
    (syncCode tags : UInt32) (env : StartEnv) :
    let o := st.start cycleMatch syncCode tags env
    let q := st.queueChunks env.queueIso
    let arg := st.startArg cycleMatch syncCode tags
    Refused st o ∨ (0 ≤ st.fd ∧ st.addr ≠ .null ∧ st.acceptsStart cycleMatch syncCode tags ∧
        st.dataLength ≠ 0) ∧
      (q.ret ≠ .success ∧ o = q ∨ q.ret = .success ∧
        ((∃ errno, env.startIso = some errno ∧
            o = ⟨q.state, .failure (.ioctl .startIso errno), q.effects ++ [.startIso arg false]⟩) ∨
          env.startIso = none ∧
            o = ⟨{ q.state with running := true }, .success, q.effects ++
                [.startIso arg true]⟩)) := by
  simp only [start]
  split
  · exact .inl ⟨rfl, rfl, trivial⟩
  next hfd =>
  split
  · exact .inl ⟨rfl, rfl, trivial⟩
  next haddr =>
  split
  · exact .inl ⟨rfl, rfl, trivial⟩
  next hacc =>
  split
  · exact .inl ⟨rfl, rfl, trivial⟩
  next hdata =>
    refine .inr ⟨⟨by omega, haddr, by simpa using hacc, hdata⟩, ?_⟩
    split
    next hret =>
      refine .inr ⟨hret, ?_⟩
      cases env.startIso with
      | some errno => exact .inl ⟨errno, rfl, rfl⟩
      | none => exact .inr ⟨rfl, rfl⟩
    next hret => exact .inl ⟨hret, rfl⟩

theorem start_effects (st : FwIsoCtxState) (cycleMatch : Option (UInt16 × UInt16))
    (syncCode tags : UInt32) (env : StartEnv) :
    ∀ e ∈ (st.start cycleMatch syncCode tags env).effects,
      e ∈ (st.queueChunks env.queueIso).effects ∨
        ∃ accepted, e = .startIso (st.startArg cycleMatch syncCode tags) accepted := by
  intro e he
  rcases st.start_cases cycleMatch syncCode tags env with
    hr | ⟨_, ⟨_, ho⟩ | ⟨_, ⟨errno, _, ho⟩ | ⟨_, ho⟩⟩⟩
  · rw [hr.effects] at he
    cases he
  · rw [ho] at he
    exact .inl he
  · rw [ho] at he
    exact (List.mem_append.mp he).imp_right fun he => ⟨false, List.mem_singleton.mp he⟩
  · rw [ho] at he
    exact (List.mem_append.mp he).imp_right fun he => ⟨true, List.mem_singleton.mp he⟩

theorem start_of_success {st : FwIsoCtxState} {cycleMatch : Option (UInt16 × UInt16)}
    {syncCode tags : UInt32} {env : StartEnv}
    (h : (st.start cycleMatch syncCode tags env).ret = .success) :
    let q := st.queueChunks env.queueIso
    q.ret = .success ∧ 0 ≤ st.fd ∧ st.addr ≠ .null ∧ st.start cycleMatch syncCode tags env =
      ⟨{ q.state with running := true }, .success,
        q.effects ++ [.startIso (st.startArg cycleMatch syncCode tags) true]⟩ := by
  rcases st.start_cases cycleMatch syncCode tags env with
    hr | ⟨⟨hfd, haddr, _⟩, ⟨hne, ho⟩ | ⟨hret, ⟨_, _, ho⟩ | ⟨_, ho⟩⟩⟩
  · have hfalse := hr.ret
    rw [h] at hfalse
    exact hfalse.elim
  · rw [ho] at h
    exact absurd h hne
  · rw [ho] at h
    cases h
  · exact ⟨hret, hfd, haddr, ho⟩

theorem stop_of_running {st : FwIsoCtxState} (h : st.running = true) : st.stop =
    ⟨{ st with running := false, registeredChunkCount := 0, dataLength := 0, currOffset := 0 },
      .success, [.stopIso]⟩ := by
  simp [stop, h]

theorem stop_of_not_running {st : FwIsoCtxState} (h : st.running = false) :
    st.stop = ⟨st, .success, []⟩ := by
  simp [stop, h]

/-! What the functions that take a context down may do. -/

theorem stop_effects (st : FwIsoCtxState) : ∀ e ∈ st.stop.effects, e = .stopIso := by
  simp only [stop]
  split
  · exact fun e he => absurd he List.not_mem_nil
  · exact fun e he => List.mem_singleton.mp he

theorem unmapBuffer_effects (st : FwIsoCtxState) :
    ∀ e ∈ st.unmapBuffer.effects, e = .munmap st.bytesPerBuffer := by
  simp only [unmapBuffer]
  split
  · exact fun e he => absurd he List.not_mem_nil
  · exact fun e he => List.mem_singleton.mp he

theorem release_effects (st : FwIsoCtxState) : ∀ e ∈ st.release.effects, e = .close := by
  simp only [release]
  split
  · exact fun e he => List.mem_singleton.mp he
  · exact fun e he => absurd he List.not_mem_nil

theorem allocate_effects (st : FwIsoCtxState) (path : Option String) (mode : FwIsoCtxMode)
    (scode channel headerSize : UInt32) (env : AllocateEnv) :
    ∀ e ∈ (st.allocate path mode scode channel headerSize env).effects, e.Setup := by
  rcases st.allocate_cases path mode scode channel headerSize env with hr | ⟨_, hsetup, _⟩
  · rw [hr.effects]
    exact fun e he => absurd he List.not_mem_nil
  · exact hsetup

end FwIsoCtxState

namespace Ctx

/-! ### Operations of the interface -/

variable {π : Type} [FwIsoCtx π] {I : Ctx π → Prop}

theorem stop_keeps (hstop : ∀ c, I c → I (c.after (onState FwIsoCtxState.stop c.priv)))
    (hnote : ∀ c, I c → I (c.note .stopped)) {c : Ctx π} (hc : I c) :
    c.stop.Keeps I fun _ => I := by
  simp only [stop]
  split
  · exact ⟨hnote _ (hstop c hc), fun c' hc' => hc'⟩
  · exact hstop c hc

theorem unmapBuffer_keeps {Q : Ctx π → Prop}
    (hstop : ∀ c, I c → I (c.after (onState FwIsoCtxState.stop c.priv)))
    (hnote : ∀ c, I c → I (c.note .stopped))
    (hunmap : ∀ c, I c → Q (c.after (FwIsoCtx.unmapBuffer c.priv))) {c : Ctx π} (hc : I c) :
    c.unmapBuffer.Keeps I fun _ => Q := by
  refine Act.Keeps.bind (Q := fun _ => I) (fun _ c hc => ?_) (stop_keeps hstop hnote hc)
  exact hunmap c hc

theorem release_keeps {Q R : Ctx π → Prop}
    (hstop : ∀ c, I c → I (c.after (onState FwIsoCtxState.stop c.priv)))
    (hnote : ∀ c, I c → I (c.note .stopped))
    (hunmap : ∀ c, I c → Q (c.after (FwIsoCtx.unmapBuffer c.priv)))
    (hrelease : ∀ c, Q c → R (c.after (FwIsoCtx.release c.priv))) {c : Ctx π} (hc : I c) :
    c.release.Keeps I fun _ => R := by
  refine Act.Keeps.bind (Q := fun _ => Q) (fun _ c hc => ?_)
    (unmapBuffer_keeps hstop hnote hunmap hc)
  exact hrelease c hc

theorem dispatch_keeps_of_event
    (hstop : ∀ c, I c → I (c.after (onState FwIsoCtxState.stop c.priv)))
    (hnote : ∀ c, I c → I (c.note .stopped)) {w : Wakeup} {c : Ctx π}
    (hevent : ∀ ev env, w = .event ev env →
      (FwIsoCtx.handleEvent ev env c).Keeps I fun _ => I) (hc : I c) :
    (c.dispatch w).Keeps I fun _ => I := by
  cases w with
  | ioErr => exact hc
  | again => exact hc
  | readError errno => exact stop_keeps hstop hnote hc
  | event ev env =>
    refine Act.Keeps.bind (fun ret c hc => ?_) (hevent ev env rfl)
    cases ret with
    | success => exact hc
    | crashed fault => exact hc
    | failure error => exact stop_keeps hstop hnote hc
    | rejected => exact stop_keeps hstop hnote hc

theorem dispatch_keeps (hstop : ∀ c, I c → I (c.after (onState FwIsoCtxState.stop c.priv)))
    (hnote : ∀ c, I c → I (c.note .stopped))
    (hevent : ∀ ev env c, I c → (FwIsoCtx.handleEvent ev env c).Keeps I fun _ => I) (w : Wakeup)
    {c : Ctx π} (hc : I c) : (c.dispatch w).Keeps I fun _ => I :=
  dispatch_keeps_of_event hstop hnote (fun ev env _ => hevent ev env c hc) hc

end Ctx

namespace FwIsoIt

theorem copyTo_inside (self : FwIsoIt) {id : Nat} (hid : self.state.addr = .mapped id)
    (offset : UInt32) (bs : List UInt8)
    (hin : offset.toNat + bs.length ≤ self.state.bytesPerBuffer.toNat) :
    self.copyTo (some offset) bs = some (self.mem.write offset.toNat bs) := by
  simp only [copyTo, hid, if_pos hin]
  split
  next hnil => rw [hnil, ByteMem.write_nil]
  · rfl

theorem writePayload_state {self self' : FwIsoIt} {payload : List UInt8} {payloadLength : UInt32}
    (h : self.writePayload payload payloadLength = some self') : self'.state = self.state := by
  simp only [writePayload, Option.bind_eq_bind, Option.bind_eq_some_iff] at h
  obtain ⟨mem, _, h⟩ := h
  split at h
  · cases h
    rfl
  · obtain ⟨mem', _, h⟩ := Option.bind_eq_some_iff.mp h
    cases h
    rfl

theorem registerPacket_cases (self : FwIsoIt) (tags syncCode : UInt32) (header payload : ArrayArg)
    (irq : Bool) :
    let o := self.registerPacket tags syncCode header payload irq
    let skip : Bool := header.length = 0 ∧ payload.length = 0
    let r := self.state.registerChunk skip tags syncCode header payload.length irq
    Refused self o ∨ (acceptsArray header ∧ acceptsArray payload) ∧
      (r.ret ≠ .success ∧ o = ⟨{ self with state := r.state }, r.ret, r.effects⟩ ∨
        r.ret = .success ∧
          (({ self with state := r.state }.writePayload payload.bytes payload.length = none ∧
              o = ⟨{ self with state := r.state }, .crashed .outOfBounds, r.effects⟩) ∨
            ∃ self', { self with state := r.state }.writePayload payload.bytes payload.length =
                some self' ∧
              o = ⟨self', .success, r.effects ++ [.packet skip payload.bytes]⟩)) := by
  simp only [registerPacket]
  split
  · exact .inl ⟨rfl, rfl, trivial⟩
  split
  · exact .inl ⟨rfl, rfl, trivial⟩
  next hheader =>
  split
  · exact .inl ⟨rfl, rfl, trivial⟩
  next hpayload =>
    refine .inr ⟨⟨by simpa using hheader, by simpa using hpayload⟩, ?_⟩
    split
    next hret =>
      refine .inr ⟨hret, ?_⟩
      split
      next hw => exact .inl ⟨hw, rfl⟩
      next self' hw => exact .inr ⟨self', hw, rfl⟩
    next hret => exact .inl ⟨hret, rfl⟩

theorem registerPacket_effects (self : FwIsoIt) (tags syncCode : UInt32)
    (header payload : ArrayArg) (irq : Bool) :
    ∀ e ∈ (self.registerPacket tags syncCode header payload irq).effects,
      (∃ p, e = .chunk p) ∨ ∃ skip bytes, e = .packet skip bytes := by
  intro e he
  rcases self.registerPacket_cases tags syncCode header payload irq with hr | ⟨_, hout⟩
  · rw [hr.effects] at he
    simp at he
  have hchunk := self.state.registerChunk_effects
    (decide (header.length = 0 ∧ payload.length = 0)) tags syncCode header payload.length irq
  rcases hout with ⟨_, ho⟩ | ⟨_, ⟨_, ho⟩ | ⟨_, _, ho⟩⟩
  · rw [ho] at he
    exact .inl (hchunk e he)
  · rw [ho] at he
    exact .inl (hchunk e he)
  · rw [ho] at he
    rcases List.mem_append.mp he with he | he
    · exact .inl (hchunk e he)
    · exact .inr ⟨_, _, List.mem_singleton.mp he⟩

theorem length_bytes_of_accepts {a : ArrayArg} (h : acceptsArray a = true) :
    a.bytes.length = a.length.toNat := by
  simp only [acceptsArray, decide_eq_true_eq] at h
  rcases h with ⟨hne, _⟩ | ⟨hnone, hlen⟩
  · obtain ⟨bs, hbs⟩ := Option.ne_none_iff_exists'.mp hne
    rw [ArrayArg.bytes, hbs]
    exact a.length_eq bs hbs
  · rw [ArrayArg.bytes, hnone, hlen]
    rfl

/-- Starting is refused, or queues, and may go on to `FW_CDEV_IOC_START_ISO`. -/
theorem start_cases (self : FwIsoIt) (cycleMatch : Option (UInt16 × UInt16)) (env : StartEnv) :
    let o := self.start cycleMatch env
    let q := queueChunks env.queueIso self
    (o.state = self ∧ o.effects = []) ∨ self.state.addr ≠ .null ∧
      (o.state = q.state ∧ o.effects = q.effects ∨
        ∃ arg accepted running, o.effects = q.effects ++ [.startIso arg accepted] ∧
          o.state = { q.state with state := { q.state.state with running := running } }) := by
  simp only [start]
  split
  · exact .inl ⟨rfl, rfl⟩
  rcases self.state.start_cases cycleMatch 0 0 env with
    hr | ⟨⟨_, haddr, _⟩, ⟨_, ho⟩ | ⟨_, ⟨errno, _, ho⟩ | ⟨_, ho⟩⟩⟩
  · refine .inl ⟨?_, ?_⟩ <;> simp only [Out.map_state, Out.map_effects, hr.state, hr.effects]
  · refine .inr ⟨haddr, .inl ⟨?_, ?_⟩⟩ <;> simp only [Out.map_state, Out.map_effects, ho] <;> rfl
  · refine .inr ⟨haddr, .inr ⟨self.state.startArg cycleMatch 0 0, false,
      (self.state.queueChunks env.queueIso).state.running, ?_, ?_⟩⟩
    · simp only [Out.map_effects, ho]
      rfl
    · simp only [Out.map_state, ho]
      rfl
  · refine .inr ⟨haddr, .inr ⟨self.state.startArg cycleMatch 0 0, true, true, ?_, ?_⟩⟩
    · simp only [Out.map_effects, ho]
      rfl
    · simp only [Out.map_state, ho]
      rfl

theorem onState_stop_of_running {self : FwIsoIt} (h : self.state.running = true) :
    Ctx.onState FwIsoCtxState.stop self = ⟨{ self with state := { self.state with
      running := false, registeredChunkCount := 0, dataLength := 0, currOffset := 0 } },
      .success, [.stopIso]⟩ := by
  rw [Ctx.onState, show (FwIsoCtx.state self).stop = _ from FwIsoCtxState.stop_of_running h]
  rfl

theorem onState_stop_of_not_running {self : FwIsoIt} (h : self.state.running = false) :
    Ctx.onState FwIsoCtxState.stop self = ⟨self, .success, []⟩ := by
  rw [Ctx.onState, show (FwIsoCtx.state self).stop = _ from FwIsoCtxState.stop_of_not_running h]
  rfl

end FwIsoIt

namespace FwIsoIrMultiple

/-- The first part of `hinoko_fw_iso_ir_multiple_allocate`. -/
def allocateState (path : Option String) (env : AllocateEnv) (self : FwIsoIrMultiple) :
    Out FwIsoIrMultiple :=
  (self.state.allocate path .irMultiple 0 0 0 env).map fun st => { self with state := st }

theorem allocate_keeps {I : Ctx FwIsoIrMultiple → Prop} {path : Option String}
    {channels : List UInt8} {env : AllocateEnv} {setIsoChannels : Except Nat UInt64}
    {bigEndian : Bool} (hallocate : ∀ c, I c → I (c.after (allocateState path env c.priv)))
    (hnote : ∀ c, I c → I (c.note (.setIsoChannels (channelMask channels))))
    (hrelease : ∀ c, I c → c.release.Keeps I fun _ => I)
    (hchannels : ∀ (c : Ctx FwIsoIrMultiple) chs, I c →
      I { c with priv := { c.priv with channels := some chs } }) {c : Ctx FwIsoIrMultiple}
    (hc : I c) : (allocate path channels env setIsoChannels bigEndian c).Keeps I fun _ => I := by
  simp only [allocate]
  split
  · exact hc
  split
  · exact hc
  refine Act.Keeps.bind (Q := fun _ => I) (fun ret c hc => ?_) (hallocate c hc)
  cases ret with
  | success =>
    simp only
    cases setIsoChannels with
    | error errno => exact Act.Keeps.bind (fun _ _ h => h) (hrelease _ (hnote c hc))
    | ok mask =>
      simp only
      split
      · exact Act.Keeps.bind (fun _ _ h => h) (hrelease _ (hnote c hc))
      · exact hchannels _ _ (hnote c hc)
  | failure error => exact hc
  | rejected => exact hc
  | crashed fault => exact hc

end FwIsoIrMultiple

end Hinoko
