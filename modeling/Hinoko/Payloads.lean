import Hinoko.Atomic
import Hinoko.Interrupts

/-!
# Payloads and mappings

The functions for payloads look at what the last event left in the object, and the
functions for mappings do not clear it.  So a payload is in memory that is in use only
where the mapping has not changed since the event.

* `Signalled`: an event has told of packets under the mapping there is now.
* `FwIsoIrMultiple.live_iff_of_run`: when a payload of a multiple-channel IR context is in
  memory that is in use.
* `FwIsoIrSingle.live_of_announced`: the same for a single-channel IR context.
-/

namespace Hinoko

open Reentrant

/-! ### Since the mapping has changed -/

def Effect.remaps : Effect → Bool
  | .mmap _ _ _ => true
  | .munmap _ => true
  | _ => false

/-- An effect that neither changes the mapping nor tells of packets. -/
def Effect.Plain : Effect → Prop
  | .mmap _ _ _ => False
  | .munmap _ => False
  | .interrupted _ => False
  | _ => True

theorem Effect.Setup.plain {e : Effect} (h : e.Setup) : e.Plain := by
  cases e <;> trivial

theorem Effect.Plain.remaps {e : Effect} (h : e.Plain) : e.remaps = false := by
  cases e <;> first | rfl | exact h.elim

section Signalled

variable {π : Type}

def sinceMapping (trace : List (Effect × π)) : List (Effect × π) :=
  trace.foldl (fun recent x => if x.1.remaps then [] else recent ++ [x]) []

theorem sinceMapping_concat (t : List (Effect × π)) (x : Effect × π) :
    sinceMapping (t ++ [x]) = if x.1.remaps then [] else sinceMapping t ++ [x] := by
  rw [sinceMapping, List.foldl_append]
  rfl

theorem sinceMapping_append : ∀ {t' : List (Effect × π)} (t : List (Effect × π)),
    (∀ x ∈ t', x.1.remaps = false) → sinceMapping (t ++ t') = sinceMapping t ++ t' := by
  intro t'
  induction t' with
  | nil => simp
  | cons x t' ih =>
    intro t h
    rw [List.append_cons, ih (t ++ [x]) fun y hy => h y (List.mem_cons_of_mem x hy),
      sinceMapping_concat, h x List.mem_cons_self, if_neg (by decide), ← List.append_cons]

/-- An event has told of packets since the mapping changed last, with the object as it was then. -/
def Signalled (c : Ctx π) (count : UInt32) (it : π) : Prop :=
  (Effect.interrupted count, it) ∈ sinceMapping c.trace

variable {c : Ctx π} {count : UInt32} {it : π}

theorem signalled_after {o : Out π} (hplain : ∀ e ∈ o.effects, e.Plain) :
    Signalled (c.after o) count it ↔ Signalled c count it := by
  have hnot : (Effect.interrupted count, it) ∉ o.effects.map fun e => (e, c.priv) := by
    intro hmem
    obtain ⟨e, he, heq⟩ := List.mem_map.mp hmem
    obtain ⟨rfl, _⟩ := Prod.mk.inj heq
    exact hplain _ he
  rw [Signalled, Ctx.after, sinceMapping_append, List.mem_append, or_iff_left hnot, Signalled]
  intro x hx
  obtain ⟨e, he, rfl⟩ := List.mem_map.mp hx
  exact (hplain e he).remaps

theorem signalled_note {e : Effect} (hplain : e.Plain) :
    Signalled (c.note e) count it ↔ Signalled c count it :=
  signalled_after (o := ⟨c.priv, .success, [e]⟩) fun e' he' => by
    rwa [List.mem_singleton.mp he']

/-- The signal adds to what has been told. -/
theorem signalled_interrupted {n : UInt32} : Signalled (c.note (.interrupted n)) count it ↔
    Signalled c count it ∨ count = n ∧ it = c.priv := by
  rw [Signalled, Ctx.note, sinceMapping_concat, if_neg (by simp [Effect.remaps]), List.mem_append,
    List.mem_singleton, Prod.mk.injEq, Effect.interrupted.injEq, Signalled]

theorem not_signalled_after {o : Out π} {e : Effect} (heffects : o.effects = [e])
    (he : e.remaps = true) : ¬ Signalled (c.after o) count it := by
  rw [Signalled, Ctx.after, heffects, List.map_singleton, sinceMapping_concat, if_pos he]
  exact List.not_mem_nil

end Signalled

/-! ### What neither changes the mapping nor tells of packets -/

namespace FwIsoCtxState

variable (st : FwIsoCtxState)

theorem allocate_plain (path : Option String) (mode : FwIsoCtxMode)
    (scode channel headerSize : UInt32) (env : AllocateEnv) :
    ∀ e ∈ (st.allocate path mode scode channel headerSize env).effects, e.Plain := by
  intro e he
  rcases st.allocate_cases path mode scode channel headerSize env with hr | ⟨_, hsetup, _⟩
  · rw [hr.effects] at he
    cases he
  · exact (hsetup e he).plain

theorem registerChunk_plain (skip : Bool) (tags syncCode : UInt32) (header : ArrayArg)
    (payloadLength : UInt32) (irq : Bool) :
    ∀ e ∈ (st.registerChunk skip tags syncCode header payloadLength irq).effects, e.Plain := by
  intro e he
  obtain ⟨_, rfl⟩ := st.registerChunk_effects skip tags syncCode header payloadLength irq e he
  trivial

theorem queueChunks_plain (answers : Nat → QueueAnswer) :
    ∀ e ∈ (st.queueChunks answers).effects, e.Plain := by
  intro e he
  rcases (st.queueChunks_cases answers).1 e he with rfl | ⟨_, _, _, rfl⟩ <;> trivial

theorem start_plain (cycleMatch : Option (UInt16 × UInt16)) (syncCode tags : UInt32)
    (env : StartEnv) : ∀ e ∈ (st.start cycleMatch syncCode tags env).effects, e.Plain := by
  have hboth : ∀ arg accepted, ∀ e ∈ (st.queueChunks env.queueIso).effects ++
      [.startIso arg accepted], e.Plain := by
    intro arg accepted e he
    rcases List.mem_append.mp he with he | he
    · exact st.queueChunks_plain env.queueIso e he
    · rw [List.mem_singleton.mp he]
      trivial
  rcases st.start_cases cycleMatch syncCode tags env with
    hr | ⟨_, ⟨_, ho⟩ | ⟨_, ⟨_, _, ho⟩ | ⟨_, ho⟩⟩⟩
  · rw [hr.effects]
    exact nofun
  · rw [ho]
    exact st.queueChunks_plain env.queueIso
  · rw [ho]
    exact hboth _ _
  · rw [ho]
    exact hboth _ _

theorem stop_plain : ∀ e ∈ st.stop.effects, e.Plain := by
  cases hrun : st.running with
  | false =>
    rw [stop_of_not_running hrun]
    exact nofun
  | true =>
    rw [stop_of_running hrun]
    intro e he
    rw [List.mem_singleton.mp he]
    trivial

theorem release_plain : ∀ e ∈ st.release.effects, e.Plain := by
  intro e he
  simp only [release] at he
  split at he
  · rw [List.mem_singleton.mp he]
    trivial
  · cases he

theorem unmapBuffer_remaps : st.unmapBuffer.effects = [.munmap st.bytesPerBuffer] ∨
    st.addr = .null ∧ st.unmapBuffer.effects = [] := by
  simp only [unmapBuffer]
  split
  next hnull => exact .inr ⟨hnull, rfl⟩
  next => exact .inl rfl

end FwIsoCtxState

/-! ### Multiple-channel IR contexts -/

namespace FwIsoIrMultiple

def Described (c : Ctx FwIsoIrMultiple) (r : CtxPayload) : Prop :=
  ∃ count it, Signalled c count it ∧ r ∈ it.recorded

/-- **The call is rejected, or gives memory that is in use**: a region within the mapped buffer, or
within the block that packets are put together in, for a record of an event under the mapping there
is now.  `it` is the object after the call. -/
def Live (c : Ctx FwIsoIrMultiple) (it : FwIsoIrMultiple) : Payload → Prop
  | .rejected => True
  | .frames (some offset) length => (∃ id, it.state.addr = .mapped id) ∧
      offset.toNat + length.toNat ≤ it.state.bytesPerBuffer.toNat ∧ Described c ⟨offset, length⟩
  | .concat length => (∃ block, it.concatFrames = some block ∧ length.toNat ≤ block.size) ∧
      ∃ offset, Described c ⟨offset, length⟩
  | _ => False

/-- A packet lies below the end of the buffer, or goes on at its start and can be put together. -/
def Fits (self : FwIsoIrMultiple) (r : CtxPayload) : Prop :=
  r.offset.toNat + r.length.toNat ≤ self.state.bytesPerBuffer.toNat ∨
    r.offset.toNat + r.length.toNat < 4294967296 ∧
      r.offset.toNat + r.length.toNat ≤ 2 * self.state.bytesPerBuffer.toNat ∧
      ∃ block, self.concatFrames = some block ∧ r.length.toNat ≤ block.size

/-- At the start of the buffer all is read unless it is longer than the buffer. -/
theorem readFrame_zero_eq_iff (st : FwIsoCtxState) (length : UInt32) :
    (st.readFrame 0 length).2 = length ↔ length.toNat ≤ st.bytesPerBuffer.toNat := by
  rw [← UInt32.toNat_inj, (st.readFrame_zero length).2]
  omega

theorem getPayload_of_whole {self : FwIsoIrMultiple} {index : UInt32} {array : PayloadArray}
    (hindex : index < self.ctxPayloadCount) (harray : self.ctxPayloads = some array)
    (hroom : index.toNat < array.capacity) {offset length : UInt32} (hentry : array.entries index.toNat = ⟨offset, length⟩)
    {payload : Option UInt32} (hframe : self.state.readFrame offset length = (payload, length)) :
    self.getPayload index = (self, .frames payload length) := by
  simp [getPayload, harray, hindex, Nat.not_le.mpr hroom, hentry, hframe, UInt32.lt_irrefl]

/-- A record that is read in two parts: the rest has to be read at once, and both parts have to fit
into the block. -/
theorem live_getPayload_of_split {c : Ctx FwIsoIrMultiple} {index : UInt32} {array : PayloadArray}
    (hindex : index < c.priv.ctxPayloadCount) (harray : c.priv.ctxPayloads = some array)
    (hroom : index.toNat < array.capacity) {id : Nat} (haddr : c.priv.state.addr = .mapped id)
    {offset length done : UInt32}
    (hentry : array.entries index.toNat = ⟨offset, length⟩)
    (hdescribed : Described c ⟨offset, length⟩)
    (hframe : c.priv.state.readFrame offset length = (some offset, done)) (hsplit : done < length) :
    Live c (c.priv.getPayload index).1 (c.priv.getPayload index).2 ↔
      (c.priv.state.readFrame 0 (length - done)).2 = length - done ∧
        ∃ block, c.priv.concatFrames = some block ∧ length.toNat ≤ block.size := by
  generalize hg : c.priv.getPayload index = r
  simp only [getPayload, harray, hindex, not_true, Nat.not_le.mpr hroom, if_false, hentry, hframe,
    if_pos hsplit, haddr] at hg
  have hrest : (length - done).toNat = length.toNat - done.toNat :=
    UInt32.toNat_sub_of_le _ _ (UInt32.le_of_lt hsplit)
  rw [UInt32.lt_iff_toNat_lt] at hsplit
  cases hconcat : c.priv.concatFrames with
  | none =>
    simp only [hconcat] at hg
    subst hg
    refine iff_of_false (fun h => h) ?_
    rintro ⟨_, block, hnone, _⟩
    cases hnone
  | some block =>
    have hsize : (∃ block', some block = some block' ∧ length.toNat ≤ block'.size) ↔
        length.toNat ≤ block.size := by
      simp
    rw [hsize]
    simp only [hconcat] at hg
    split at hg
    · subst hg
      refine iff_of_false (fun h => h) ?_
      omega
    split at hg
    next hshort =>
      subst hg
      exact iff_of_false (fun h => h) fun h => hshort h.1
    next hwhole =>
    split at hg
    · subst hg
      refine iff_of_false (fun h => h) ?_
      omega
    · subst hg
      refine iff_of_true ⟨⟨_, rfl, ?_⟩, offset, hdescribed⟩ ⟨Decidable.not_not.mp hwhole, ?_⟩
      · simp only
        omega
      · omega

/-- **What the function for payloads gives**, for a record that begins in the buffer. -/
theorem live_getPayload_iff {c : Ctx FwIsoIrMultiple} {index : UInt32} {array : PayloadArray}
    (hindex : index < c.priv.ctxPayloadCount) (harray : c.priv.ctxPayloads = some array)
    (hroom : index.toNat < array.capacity) {id : Nat} (haddr : c.priv.state.addr = .mapped id)
    (hdescribed : Described c (array.entries index.toNat))
    (hoffset : (array.entries index.toNat).offset < c.priv.state.bytesPerBuffer) :
    Live c (c.priv.getPayload index).1 (c.priv.getPayload index).2 ↔
      Fits c.priv (array.entries index.toNat) := by
  rw [UInt32.lt_iff_toNat_lt] at hoffset
  have hpayload := c.priv.state.readFrame_fst (array.entries index.toNat).length hoffset.le
  have hdone := FwIsoCtxState.readFrame_cases (array.entries index.toNat).length hoffset.le
  generalize hframe : c.priv.state.readFrame (array.entries index.toNat).offset
    (array.entries index.toNat).length = frame at hpayload hdone
  obtain ⟨payload, done⟩ := frame
  simp only at hpayload hdone
  subst hpayload
  generalize hentry : array.entries index.toNat = record at *
  obtain ⟨offset, length⟩ := record
  simp only at hoffset hdone hframe
  rcases hdone with ⟨hfit, rfl⟩ | ⟨hwrap, rfl⟩ | ⟨hcross, hnowrap, hdone⟩
  · rw [getPayload_of_whole hindex harray hroom hentry hframe]
    exact iff_of_true ⟨⟨id, haddr⟩, hfit, hdescribed⟩ (.inl hfit)
  · rw [getPayload_of_whole hindex harray hroom hentry hframe]
    have hbuffer := c.priv.state.bytesPerBuffer.toNat_lt
    refine iff_of_false (fun hlive => ?_) fun hfits => ?_
    · have hfit : offset.toNat + done.toNat ≤ c.priv.state.bytesPerBuffer.toNat := hlive.2.1
      omega
    · rcases hfits with hfit | ⟨hnowrap, _⟩ <;> simp only at * <;> omega
  · have hsplit : done < length := by
      rw [UInt32.lt_iff_toNat_lt, hdone]
      omega
    have hrest : (length - done).toNat = length.toNat - done.toNat :=
      UInt32.toNat_sub_of_le _ _ (UInt32.le_of_lt hsplit)
    rw [live_getPayload_of_split hindex harray hroom haddr hentry hdescribed hframe hsplit,
      readFrame_zero_eq_iff, hrest, hdone]
    constructor
    · rintro ⟨htwice, hblock⟩
      exact .inr ⟨hnowrap, by simp only; omega, hblock⟩
    · rintro (hfit | ⟨_, htwice, hblock⟩)
      · simp only at hfit
        omega
      · simp only at htwice
        exact ⟨by omega, hblock⟩

/-! ### The records of the last event -/

def Fresh (c : Ctx FwIsoIrMultiple) : Prop := ∃ count it, Signalled c count it

/-- As long as the mapping of an event lasts, the records that can be asked for are those of the
event, and they begin in the buffer. -/
def Backed (c : Ctx FwIsoIrMultiple) : Prop :=
  Fresh c → ∀ index, index < c.priv.ctxPayloadCount → ∃ id array,
    c.priv.state.addr = .mapped id ∧ c.priv.ctxPayloads = some array ∧
      index.toNat < array.capacity ∧ Described c (array.entries index.toNat) ∧
      (array.entries index.toNat).offset < c.priv.state.bytesPerBuffer

/-- What has to do neither with the records nor with the mapping. -/
structure Kept (c c' : Ctx FwIsoIrMultiple) : Prop where
  signalled : ∀ count it, Signalled c' count it ↔ Signalled c count it
  addr : c'.priv.state.addr = c.priv.state.addr
  bytesPerBuffer : c'.priv.state.bytesPerBuffer = c.priv.state.bytesPerBuffer
  ctxPayloads : c'.priv.ctxPayloads = c.priv.ctxPayloads
  ctxPayloadCount : c'.priv.ctxPayloadCount = c.priv.ctxPayloadCount

namespace Backed

variable {c c' : Ctx FwIsoIrMultiple}

theorem of_kept (h : Backed c) (hkept : Kept c c') : Backed c' := by
  rintro ⟨count, it, hfresh⟩ index hindex
  rw [hkept.ctxPayloadCount] at hindex
  obtain ⟨id, array, haddr, harray, hroom, ⟨count', it', hsignalled, hmem⟩, hoffset⟩ :=
    h ⟨count, it, (hkept.signalled _ _).mp hfresh⟩ index hindex
  refine ⟨id, array, hkept.addr.trans haddr, hkept.ctxPayloads.trans harray, hroom,
    ⟨count', it', (hkept.signalled _ _).mpr hsignalled, hmem⟩, ?_⟩
  rw [hkept.bytesPerBuffer]
  exact hoffset

theorem remapped {o : Out FwIsoIrMultiple} {e : Effect} (heffects : o.effects = [e])
    (he : e.remaps = true) : Backed (c.after o) :=
  fun ⟨_, _, hfresh⟩ => absurd hfresh (not_signalled_after heffects he)

end Backed

theorem start_records (self : FwIsoIrMultiple) (cycleMatch : Option (UInt16 × UInt16))
    (syncCode tags chunksPerIrq : UInt32) (env : StartEnv) :
    let o := self.start cycleMatch syncCode tags chunksPerIrq env
    o.state.ctxPayloads = self.ctxPayloads ∧ o.state.ctxPayloadCount = self.ctxPayloadCount ∧
      ∀ e ∈ o.effects, e.Plain := by
  simp only [start]
  split
  · exact ⟨rfl, rfl, List.forall_mem_nil _⟩
  split
  · exact ⟨rfl, rfl, List.forall_mem_nil _⟩
  split
  · exact ⟨rfl, rfl, List.forall_mem_nil _⟩
  have hchunks : ∀ e ∈ (registerChunks self.state.chunksPerBuffer.toNat
      { self with chunksPerIrq := chunksPerIrq, accumulatedChunkCount := 0 }).effects,
      e.Plain := fun e he => by
    obtain ⟨_, rfl⟩ := registerChunks_effects _ e he
    trivial
  obtain ⟨_, st, count, ho⟩ := registerChunks_same self.state.chunksPerBuffer.toNat
    { self with chunksPerIrq := chunksPerIrq, accumulatedChunkCount := 0 }
  split
  · refine ⟨by rw [ho], by rw [ho], fun e he => ?_⟩
    rcases List.mem_append.mp he with he | he
    · exact hchunks e he
    · exact FwIsoCtxState.start_plain _ cycleMatch syncCode tags env e he
  · exact ⟨by rw [ho], by rw [ho], hchunks⟩

theorem finishEvent_records (self : FwIsoIrMultiple)
    (bytesPerChunk bytesPerBuffer accumLength : UInt32) (answers : Nat → QueueAnswer) :
    let o := finishEvent bytesPerChunk bytesPerBuffer accumLength answers self
    o.state.ctxPayloads = self.ctxPayloads ∧ o.state.ctxPayloadCount = self.ctxPayloadCount ∧
      ∀ e ∈ o.effects, e.Plain := by
  simp only [finishEvent]
  split
  · exact ⟨rfl, rfl, List.forall_mem_nil _⟩
  generalize ((self.prevOffset + accumLength) / bytesPerChunk).toNat -
    (self.prevOffset / bytesPerChunk).toNat = n
  have hchunks : ∀ e ∈ (registerChunks n self).effects, e.Plain := fun e he => by
    obtain ⟨_, rfl⟩ := registerChunks_effects _ e he
    trivial
  obtain ⟨_, st, count, ho⟩ := registerChunks_same n self
  split
  · split
    · exact ⟨by rw [ho], by rw [ho], hchunks⟩
    · refine ⟨by rw [ho], by rw [ho], fun e he => ?_⟩
      rcases List.mem_append.mp he with he | he
      · exact hchunks e he
      · exact FwIsoCtxState.queueChunks_plain _ answers e he
  · exact ⟨by rw [ho], by rw [ho], hchunks⟩

theorem mapped_of_quadletAt {self : FwIsoIrMultiple} {offset quadlet : UInt32}
    (h : self.quadletAt offset = some quadlet) : ∃ id, self.state.addr = .mapped id := by
  cases haddr : self.state.addr with
  | mapped id => exact ⟨id, rfl⟩
  | null => simp [quadletAt, haddr] at h
  | mapFailed => simp [quadletAt, haddr] at h

/-- **The records of an event** begin in the mapped buffer, and there is room for them. -/
theorem parse_records (self : FwIsoIrMultiple) (accumEnd : UInt32) : ∀ (fuel : Nat)
    {accumLength total : UInt32} {n : Nat} {records : List CtxPayload},
    self.parse accumEnd fuel accumLength n = .ok (total, records) →
    (∀ r ∈ records, r.offset < self.state.bytesPerBuffer) ∧
      (records ≠ [] → (∃ id, self.state.addr = .mapped id) ∧
        n + records.length ≤ self.capacity) := by
  intro fuel
  induction fuel with
  | zero => exact fun h => by cases h
  | succ fuel ih =>
    intro accumLength total n records h
    rw [parse] at h
    simp only at h
    split at h
    · cases h
      exact ⟨List.forall_mem_nil _, fun hne => absurd rfl hne⟩
    split at h
    · cases h
    next hbuffer =>
    split at h
    · cases h
    next quadlet hquadlet =>
    split at h
    · cases h
      exact ⟨List.forall_mem_nil _, fun hne => absurd rfl hne⟩
    split at h
    · cases h
    next hroom =>
    split at h
    · cases h
    next rest hrest =>
      cases h
      obtain ⟨hoffsets, hrecords⟩ := ih hrest
      refine ⟨fun r hr => ?_, fun _ => ⟨mapped_of_quadletAt hquadlet, ?_⟩⟩
      · rcases List.mem_cons.mp hr with rfl | hr
        · exact UInt32.mod_lt _ (UInt32.pos_iff_ne_zero.mpr hbuffer)
        · exact hoffsets r hr
      · cases rest with
        | nil => simp only [List.length_singleton]; omega
        | cons r rest =>
          have hlen := (hrecords (List.cons_ne_nil r rest)).2
          simp only [List.length_cons] at hlen ⊢
          omega

/-! ### The operations -/

variable {c : Ctx FwIsoIrMultiple}

theorem kept_allocate (path : Option String) (env : AllocateEnv) (c : Ctx FwIsoIrMultiple) :
    Kept c (c.after (allocateState path env c.priv)) := by
  have hsame : (allocateState path env c.priv).state.state.addr = c.priv.state.addr ∧
      (allocateState path env c.priv).state.state.bytesPerBuffer =
        c.priv.state.bytesPerBuffer := by
    simp only [allocateState, Out.map_state]
    rcases c.priv.state.allocate_cases path .irMultiple 0 0 0 env with
      hr | ⟨_, _, ⟨_, hstate⟩ | ⟨_, _, _, hstate⟩⟩
    · rw [hr.state]
      exact ⟨rfl, rfl⟩
    · rw [hstate]
      exact ⟨rfl, rfl⟩
    · rw [hstate]
      exact ⟨rfl, rfl⟩
  exact ⟨fun _ _ => signalled_after (c.priv.state.allocate_plain path .irMultiple 0 0 0 env),
    hsame.1, hsame.2, rfl, rfl⟩

theorem kept_note {e : Effect} (he : e.Plain) : Kept c (c.note e) :=
  ⟨fun _ _ => signalled_note he, rfl, rfl, rfl, rfl⟩

theorem kept_stop (c : Ctx FwIsoIrMultiple) :
    Kept c (c.after (Ctx.onState FwIsoCtxState.stop c.priv)) := by
  obtain ⟨running, hsame⟩ := c.priv.state.stop_same
  exact ⟨fun _ _ => signalled_after c.priv.state.stop_plain, hsame.addr, hsame.bytesPerBuffer, rfl,
    rfl⟩

theorem kept_release (c : Ctx FwIsoIrMultiple) :
    Kept c (c.after (FwIsoCtx.release c.priv)) :=
  ⟨fun _ _ => signalled_after c.priv.state.release_plain, rfl, rfl, rfl, rfl⟩

theorem kept_start (cycleMatch : Option (UInt16 × UInt16)) (syncCode tags chunksPerIrq : UInt32)
    (env : StartEnv) (c : Ctx FwIsoIrMultiple) :
    Kept c (c.after (c.priv.start cycleMatch syncCode tags chunksPerIrq env)) := by
  obtain ⟨⟨running, hsame⟩, _⟩ := c.priv.start_same cycleMatch syncCode tags chunksPerIrq env
  obtain ⟨harray, hcount, hplain⟩ :=
    c.priv.start_records cycleMatch syncCode tags chunksPerIrq env
  exact ⟨fun _ _ => signalled_after hplain, hsame.addr, hsame.bytesPerBuffer, harray, hcount⟩

theorem kept_finishEvent (bytesPerChunk bytesPerBuffer accumLength : UInt32)
    (answers : Nat → QueueAnswer) (c : Ctx FwIsoIrMultiple) :
    Kept c (c.after (finishEvent bytesPerChunk bytesPerBuffer accumLength answers c.priv)) := by
  obtain ⟨hsame, _⟩ := c.priv.finishEvent_same bytesPerChunk bytesPerBuffer accumLength answers
  obtain ⟨harray, hcount, hplain⟩ :=
    c.priv.finishEvent_records bytesPerChunk bytesPerBuffer accumLength answers
  exact ⟨fun _ _ => signalled_after hplain, hsame.addr, hsame.bytesPerBuffer, harray, hcount⟩

theorem kept_getPayload (index : UInt32) (c : Ctx FwIsoIrMultiple) :
    Kept c (c.after (askPayload index c.priv)) := by
  obtain ⟨_, hasked, _⟩ := asked_getPayload c.priv index
  refine ⟨fun _ _ => signalled_after nofun, ?_, ?_, ?_, ?_⟩ <;>
    simp only [Ctx.after_priv, askPayload, hasked]

namespace Backed

theorem unmapBuffer (h : Backed c) : Backed (c.after (FwIsoCtx.unmapBuffer c.priv)) := by
  rcases c.priv.state.unmapBuffer_remaps with heffects | ⟨hnull, heffects⟩
  · exact remapped heffects rfl
  · refine h.of_kept ⟨fun _ _ => signalled_after ?_, hnull.symm, rfl, rfl, rfl⟩
    exact fun e he => absurd (heffects ▸ he) List.not_mem_nil

theorem mapBuffer (h : Backed c) (bytes chunks : UInt32) (env : MapMultipleEnv) :
    Backed (c.after (c.priv.mapBuffer bytes chunks env)) := by
  obtain ⟨hstate, _, heffects⟩ := c.priv.mapBuffer_state bytes chunks env
  rcases c.priv.state.mapBuffer_cases ((bytes + 3) / 4 * 4) chunks env.toMapEnv with
    hr | ⟨_, hmmap, _⟩
  · have hrecords : (c.priv.mapBuffer bytes chunks env).state.ctxPayloads = c.priv.ctxPayloads ∧
        (c.priv.mapBuffer bytes chunks env).state.ctxPayloadCount = c.priv.ctxPayloadCount := by
      simp only [FwIsoIrMultiple.mapBuffer]
      split
      next hret =>
        have hfalse := hr.ret
        rw [hret] at hfalse
        exact hfalse.elim
      next => exact ⟨rfl, rfl⟩
    refine h.of_kept ⟨fun _ _ => signalled_after ?_, ?_, ?_, hrecords.1, hrecords.2⟩
    · rw [heffects, hr.effects]
      exact List.forall_mem_nil _
    · rw [Ctx.after_priv, hstate, hr.state]
    · rw [Ctx.after_priv, hstate, hr.state]
  · exact remapped (heffects.trans hmmap) rfl

/-- **The signal of an event**: what can be asked for is what the event has recorded. -/
theorem interrupted {self : FwIsoIrMultiple} {completed accumLength : UInt32}
    {records : List CtxPayload} (hparse : self.parseEvent completed = .ok (accumLength, records))
    (trace : List (Effect × FwIsoIrMultiple)) : Backed ((⟨self.store records, trace⟩ :
      Ctx FwIsoIrMultiple).note (.interrupted (UInt32.ofNat records.length))) := by
  obtain ⟨hoffsets, hrecords⟩ := parse_records _ _ _ hparse
  rintro - index hindex
  have hlt : index.toNat < records.length := by
    refine (UInt32.lt_iff_toNat_lt.mp hindex).trans_le ?_
    change (UInt32.ofNat records.length).toNat ≤ records.length
    rw [UInt32.toNat_ofNat']
    exact Nat.mod_le _ _
  obtain ⟨⟨id, haddr⟩, hroom⟩ := hrecords (List.ne_nil_of_length_pos (by omega))
  simp only [capacity] at hroom
  cases harray : self.ctxPayloads with
  | none =>
    simp only [harray] at hroom
    omega
  | some array =>
    simp only [harray] at hroom
    have hstored : (self.store records).ctxPayloads =
        some { array with entries := fun i => records[i]?.getD (array.entries i) } := by
      simp only [store, harray, Option.map_some]
    have hentry : records[index.toNat]?.getD (array.entries index.toNat) =
        records[index.toNat] := by
      rw [List.getElem?_eq_getElem hlt, Option.getD_some]
    have hindexed : index.toNat < array.capacity := by omega
    refine ⟨id, _, haddr, hstored, hindexed,
      ⟨_, _, signalled_interrupted.mpr (.inr ⟨rfl, rfl⟩), ?_⟩, ?_⟩
    · simp only [recorded, hstored]
      exact List.mem_map.mpr ⟨index.toNat, List.mem_range.mpr (UInt32.lt_iff_toNat_lt.mp hindex),
        rfl⟩
    · change (records[index.toNat]?.getD (array.entries index.toNat)).offset < _
      rw [hentry]
      exact hoffsets _ (List.getElem_mem hlt)

theorem exec (op : Op) {c : Ctx FwIsoIrMultiple} (h : Backed c) :
    (exec op c).Keeps Backed fun _ => Backed := by
  have hstop : ∀ c, Backed c → Backed (c.after (Ctx.onState FwIsoCtxState.stop c.priv)) :=
    fun c hc => hc.of_kept (kept_stop c)
  have hnote : ∀ c, Backed c → Backed (c.note .stopped) := fun c hc =>
    hc.of_kept (kept_note trivial)
  have hrelease : ∀ c, Backed c → c.release.Keeps Backed fun _ => Backed := fun c hc =>
    Ctx.release_keeps hstop hnote (fun c hc => hc.unmapBuffer)
      (fun c hc => hc.of_kept (kept_release c)) hc
  cases op with
  | allocate path channels env set bigEndian =>
    exact allocate_keeps (fun c hc => hc.of_kept (kept_allocate path env c))
      (fun c hc => hc.of_kept (kept_note trivial)) hrelease
      (fun c chs hc => hc.of_kept ⟨fun _ _ => Iff.rfl, rfl, rfl, rfl, rfl⟩) h
  | mapBuffer bytes chunks env => exact h.mapBuffer bytes chunks env
  | start cycleMatch syncCode tags irq env =>
    exact h.of_kept (kept_start cycleMatch syncCode tags irq env c)
  | getPayload index => exact h.of_kept (kept_getPayload index c)
  | stop => exact Ctx.stop_keeps hstop hnote h
  | unmapBuffer => exact Ctx.unmapBuffer_keeps hstop hnote (fun c hc => hc.unmapBuffer) h
  | release => exact hrelease c h
  | dispatch w =>
    refine Ctx.dispatch_keeps hstop hnote (fun ev env c hc => ?_) w h
    cases ev with
    | isoInterrupt ev => exact hc
    | isoInterruptMc ev =>
      simp only [FwIsoCtx.handleEvent, handleEvent]
      split
      · exact hc
      next hparse =>
        exact ⟨interrupted hparse c.trace, fun c' hc' => hc'.of_kept (kept_finishEvent _ _ _ _ c')⟩
    | other => exact hc

end Backed

theorem getPayload_ne_rejected {self : FwIsoIrMultiple} {index : UInt32}
    (hindex : index < self.ctxPayloadCount) : (self.getPayload index).2 ≠ .rejected := by
  simp only [getPayload, hindex, if_true, not_true, if_false]
  repeat' split
  all_goals rintro ⟨⟩

theorem not_live_of_stale {c : Ctx FwIsoIrMultiple} {index : UInt32}
    (hindex : index < c.priv.ctxPayloadCount) (hnone : ∀ r, ¬ Described c r)
    {it : FwIsoIrMultiple} : ¬ Live c it (c.priv.getPayload index).2 := by
  have hne := getPayload_ne_rejected hindex
  intro hlive
  generalize (c.priv.getPayload index).2 = payload at hne hlive
  cases payload with
  | rejected => exact hne rfl
  | crashed fault => exact hlive
  | unset => exact hlive
  | frames offset length =>
    cases offset with
    | none => exact hlive
    | some offset => exact hnone _ hlive.2.2
  | concat length =>
    obtain ⟨_, offset, hdescribed⟩ := hlive
    exact hnone _ hdescribed

/-- **When a payload is in memory that is in use.** -/
theorem live_iff_of_run (ms : List (Move Op)) (index : UInt32) :
    let c := (run exec ⟨⟨new, []⟩, []⟩ ms).state
    Live c (c.priv.getPayload index).1 (c.priv.getPayload index).2 ↔
      c.priv.ctxPayloadCount ≤ index ∨ Fresh c ∧ ∃ array, c.priv.ctxPayloads = some array ∧
        Fits c.priv (array.entries index.toNat) := by
  intro c
  have hbacked : Backed c := run_keeps_of_init (I := Backed) (s := ⟨new, []⟩) ms
    (fun ⟨_, _, h⟩ => absurd h List.not_mem_nil) fun op _ c hc => hc.exec op
  by_cases hindex : index < c.priv.ctxPayloadCount
  · have hcount : ¬ c.priv.ctxPayloadCount ≤ index := UInt32.not_le.mpr hindex
    by_cases hfresh : Fresh c
    · obtain ⟨id, array, haddr, harray, hroom, hdescribed, hoffset⟩ := hbacked hfresh index hindex
      rw [live_getPayload_iff hindex harray hroom haddr hdescribed hoffset]
      refine ⟨fun hfits => .inr ⟨hfresh, array, harray, hfits⟩, fun h => ?_⟩
      rcases h with hle | ⟨_, array', harray', hfits⟩
      · exact absurd hle hcount
      · obtain rfl := Option.some.inj (harray.symm.trans harray')
        exact hfits
    · have hnone : ∀ r, ¬ Described c r := fun r ⟨count, it, hsignalled, _⟩ =>
        hfresh ⟨count, it, hsignalled⟩
      refine iff_of_false (fun hlive => ?_) fun h => ?_
      · exact not_live_of_stale hindex hnone hlive
      · rcases h with hle | ⟨hfresh', _⟩
        · exact hcount hle
        · exact hfresh hfresh'
  · have hrejected : (c.priv.getPayload index).2 = .rejected := by
      simp only [getPayload]
      split
      · exact if_neg hindex
      · simp only [hindex, not_false_eq_true, if_true]
    rw [hrejected]
    exact iff_of_true trivial (.inl (UInt32.not_lt.mp hindex))

end FwIsoIrMultiple

/-! ### Single-channel IR contexts -/

namespace FwIsoIrSingle

def Described (c : Ctx FwIsoIrSingle) (offset length : UInt32) : Prop :=
  ∃ count it i, Signalled c count it ∧ i < count ∧ it.getPayload i = .frames (some offset) length

/-- **The call is rejected, or gives memory that is in use**: a region within the mapped buffer,
of a packet that an event under the mapping there is now has announced. -/
def Live (c : Ctx FwIsoIrSingle) : Payload → Prop
  | .rejected => True
  | .frames (some offset) length => (∃ id, c.priv.state.addr = .mapped id) ∧
      offset.toNat + length.toNat ≤ c.priv.state.bytesPerBuffer.toNat ∧ Described c offset length
  | _ => False

/-- The signal of the event that is being handled has been emitted under the mapping there is now,
it has announced the packet, and the context has not been started since. -/
def Announced (c : Ctx FwIsoIrSingle) (index : UInt32) : Prop :=
  (∃ id, c.priv.state.addr = .mapped id) ∧ ∃ count it, Signalled c count it ∧ index < count ∧
    it.ev = c.priv.ev ∧ it.chunkCursor = c.priv.chunkCursor

structure SameShape (p p' : FwIsoIrSingle) : Prop where
  headerSize : p'.headerSize = p.headerSize
  bytesPerChunk : p'.state.bytesPerChunk = p.state.bytesPerChunk
  chunksPerBuffer : p'.state.chunksPerBuffer = p.state.chunksPerBuffer

theorem SameShape.getPayload {p p' : FwIsoIrSingle} (h : SameShape p p') (hev : p'.ev = p.ev)
    (hcursor : p'.chunkCursor = p.chunkCursor) (index : UInt32) :
    p'.getPayload index = p.getPayload index := by
  have hbuffer : p'.state.bytesPerBuffer = p.state.bytesPerBuffer := by
    rw [FwIsoCtxState.bytesPerBuffer, FwIsoCtxState.bytesPerBuffer, h.bytesPerChunk,
      h.chunksPerBuffer]
  simp only [FwIsoIrSingle.getPayload, FwIsoCtxState.readFrame, hev, hcursor, hbuffer,
    h.headerSize, h.bytesPerChunk, h.chunksPerBuffer]

def Announces (it : FwIsoIrSingle) (count : UInt32) : Prop :=
  ∃ ev, it.ev = some ev ∧ count = ev.headerLength / it.headerSize

/-- As long as a mapping lasts, the buffer is what it was at its events. -/
structure Steady (c : Ctx FwIsoIrSingle) : Prop where
  allocated : (∃ id, c.priv.state.addr = .mapped id) → 0 ≤ c.priv.state.fd
  chunks : (∃ id, c.priv.state.addr = .mapped id) → c.priv.state.chunksPerBuffer ≠ 0
  shape : (∃ id, c.priv.state.addr = .mapped id) → ∀ count it, Signalled c count it →
    SameShape c.priv it
  counts : (∃ id, c.priv.state.addr = .mapped id) → ∀ count it, Signalled c count it →
    it.Announces count

/-- What has to do neither with the buffer nor with its events. -/
structure Kept (c c' : Ctx FwIsoIrSingle) : Prop where
  signalled : ∀ count it, Signalled c' count it ↔ Signalled c count it
  fd : c'.priv.state.fd = c.priv.state.fd
  addr : c'.priv.state.addr = c.priv.state.addr
  shape : SameShape c.priv c'.priv

theorem Kept.after {c : Ctx FwIsoIrSingle} {o : Out FwIsoIrSingle}
    (hplain : ∀ e ∈ o.effects, e.Plain) {running : Bool}
    (hsame : SameSetup { c.priv.state with running := running } o.state.state)
    (hheader : o.state.headerSize = c.priv.headerSize) : Kept c (c.after o) :=
  ⟨fun _ _ => signalled_after hplain, hsame.fd, hsame.addr,
    ⟨hheader, hsame.bytesPerChunk, hsame.chunksPerBuffer⟩⟩

theorem Kept.same {c : Ctx FwIsoIrSingle} {o : Out FwIsoIrSingle}
    (hplain : ∀ e ∈ o.effects, e.Plain) (hsame : SameSetup c.priv.state o.state.state)
    (hheader : o.state.headerSize = c.priv.headerSize) : Kept c (c.after o) :=
  .after hplain (show SameSetup { c.priv.state with running := c.priv.state.running } _ from hsame)
    hheader

namespace Steady

variable {c c' : Ctx FwIsoIrSingle}

theorem of_kept (h : Steady c) (hkept : Kept c c') : Steady c' := by
  refine ⟨?_, ?_, ?_, ?_⟩
  · rw [hkept.addr, hkept.fd]
    exact h.allocated
  · rw [hkept.addr, hkept.shape.chunksPerBuffer]
    exact h.chunks
  · rw [hkept.addr]
    intro hmapped count it hsignalled
    have hshape := h.shape hmapped count it ((hkept.signalled count it).mp hsignalled)
    exact ⟨hshape.headerSize.trans hkept.shape.headerSize.symm,
      hshape.bytesPerChunk.trans hkept.shape.bytesPerChunk.symm,
      hshape.chunksPerBuffer.trans hkept.shape.chunksPerBuffer.symm⟩
  · rw [hkept.addr]
    intro hmapped count it hsignalled
    exact h.counts hmapped count it ((hkept.signalled count it).mp hsignalled)

theorem of_unmapped (h : ¬ ∃ id, c.priv.state.addr = .mapped id) : Steady c :=
  ⟨fun hmapped => absurd hmapped h, fun hmapped => absurd hmapped h,
    fun hmapped => absurd hmapped h, fun hmapped => absurd hmapped h⟩

theorem allocate (h : Steady c) (path : Option String) (channel headerSize : UInt32)
    (env : AllocateEnv) : Steady (c.after (c.priv.allocate path channel headerSize env)) := by
  have hrefl : ∀ o : Out FwIsoIrSingle, o.state = c.priv → o.effects = [] → Steady (c.after o) :=
    fun o hstate heffects => h.of_kept <| by
      refine .same (by rw [heffects]; exact nofun) ?_ ?_
      · rw [hstate]
        exact .refl _
      · rw [hstate]
  simp only [FwIsoIrSingle.allocate]
  split
  · exact hrefl _ rfl rfl
  split
  · exact hrefl _ rfl rfl
  rcases c.priv.state.allocate_cases path .irSingle 0 channel headerSize env with
    hr | ⟨hfd, _, hstate⟩
  · have hret : (c.priv.state.allocate path .irSingle 0 channel headerSize env).ret ≠ .success :=
      fun hret => by
        have hfalse := hr.ret
        rw [hret] at hfalse
        exact hfalse
    refine hrefl _ ?_ hr.effects
    simp only [Out.map_state, hr.state, if_neg hret]
  · refine of_unmapped fun hmapped => ?_
    have haddr : (c.priv.state.allocate path .irSingle 0 channel headerSize env).state.addr =
        c.priv.state.addr := by
      rcases hstate with ⟨_, ho⟩ | ⟨_, _, _, ho⟩ <;> rw [ho]
    have hup := h.allocated (haddr ▸ hmapped)
    omega

theorem mapBuffer (h : Steady c) (bytes payloads : UInt32) (env : MapEnv) :
    Steady (c.after (c.priv.mapBuffer bytes payloads env)) := by
  rcases c.priv.state.mapBuffer_cases bytes payloads env with
    hr | ⟨⟨_, hpayloads, hfd, _⟩, heffects, ⟨_, _, _, hstate⟩ | ⟨id, _, _, hstate⟩⟩
  · refine h.of_kept (.same ?_ ?_ rfl)
    · simp only [FwIsoIrSingle.mapBuffer, Out.map_effects, hr.effects]
      exact List.forall_mem_nil _
    · simp only [FwIsoIrSingle.mapBuffer, Out.map_state, hr.state]
      exact .refl _
  · refine of_unmapped ?_
    rintro ⟨id, haddr⟩
    simp only [Ctx.after_priv, FwIsoIrSingle.mapBuffer, Out.map_state, hstate] at haddr
    cases haddr
  · refine ⟨fun _ => ?_, fun _ => ?_, fun _ count it hsignalled => ?_,
      fun _ count it hsignalled => ?_⟩
    · simp only [Ctx.after_priv, FwIsoIrSingle.mapBuffer, Out.map_state, hstate]
      exact hfd
    · simp only [Ctx.after_priv, FwIsoIrSingle.mapBuffer, Out.map_state, hstate]
      exact hpayloads
    · exact absurd hsignalled (not_signalled_after heffects rfl)
    · exact absurd hsignalled (not_signalled_after heffects rfl)

theorem start (h : Steady c) (cycleMatch : Option (UInt16 × UInt16)) (syncCode tags : UInt32)
    (env : StartEnv) : Steady (c.after (c.priv.start cycleMatch syncCode tags env)) := by
  obtain ⟨running, hsame⟩ := c.priv.state.start_same cycleMatch syncCode tags env
  refine h.of_kept ?_
  simp only [FwIsoIrSingle.start]
  split
  · exact .same (List.forall_mem_nil _) (.refl _) rfl
  split
  · exact .same (List.forall_mem_nil _) (.refl _) rfl
  · exact .after (c.priv.state.start_plain cycleMatch syncCode tags env) hsame rfl

theorem finishEvent (h : Steady c) (count : UInt32) (answers : Nat → QueueAnswer) :
    Steady (c.after (FwIsoIrSingle.finishEvent count answers c.priv)) := by
  refine h.of_kept ?_
  simp only [FwIsoIrSingle.finishEvent]
  split
  · exact .same (List.forall_mem_nil _) (.refl _) rfl
  · exact .same (c.priv.state.queueChunks_plain answers)
      (SameSetup.queueChunks c.priv.state answers) rfl

theorem stop (h : Steady c) : Steady (c.after (Ctx.onState FwIsoCtxState.stop c.priv)) := by
  obtain ⟨running, hsame⟩ := c.priv.state.stop_same
  exact h.of_kept (.after c.priv.state.stop_plain hsame rfl)

theorem unmapBuffer (c : Ctx FwIsoIrSingle) :
    Steady (c.after (FwIsoCtx.unmapBuffer c.priv)) ∧
      (c.after (FwIsoCtx.unmapBuffer c.priv)).priv.state.addr = .null := by
  refine ⟨of_unmapped ?_, rfl⟩
  rintro ⟨id, haddr⟩
  cases haddr

theorem release (haddr : c.priv.state.addr = .null) :
    Steady (c.after (FwIsoCtx.release c.priv)) := by
  refine of_unmapped ?_
  rintro ⟨id, haddr'⟩
  cases haddr.symm.trans haddr'

theorem interrupted (h : Steady c) (ev : IsoInterrupt) :
    Steady (({ c with priv := { c.priv with ev := some ev } } : Ctx _).note
      (.interrupted (ev.headerLength / c.priv.headerSize))) := by
  refine ⟨h.allocated, h.chunks, fun hmapped count it hsignalled => ?_,
    fun hmapped count it hsignalled => ?_⟩
  · rcases signalled_interrupted.mp hsignalled with hbefore | ⟨_, rfl⟩
    · obtain ⟨hheader, hbytes, hchunks⟩ := h.shape hmapped count it hbefore
      exact ⟨hheader, hbytes, hchunks⟩
    · exact ⟨rfl, rfl, rfl⟩
  · rcases signalled_interrupted.mp hsignalled with hbefore | ⟨rfl, rfl⟩
    · exact h.counts hmapped count it hbefore
    · exact ⟨ev, rfl, rfl⟩

theorem exec (op : Op) (h : Steady c) : (exec op c).Keeps Steady fun _ => Steady := by
  have hstop : ∀ c, Steady c → Steady (c.after (Ctx.onState FwIsoCtxState.stop c.priv)) :=
    fun c hc => hc.stop
  have hnote : ∀ c, Steady c → Steady (c.note .stopped) := fun c hc =>
    hc.of_kept ⟨fun _ _ => signalled_note trivial, rfl, rfl, rfl, rfl, rfl⟩
  cases op with
  | allocate path channel headerSize env => exact h.allocate path channel headerSize env
  | mapBuffer bytes payloads env => exact h.mapBuffer bytes payloads env
  | registerPacket irq =>
    exact h.of_kept (.same
      (c.priv.state.registerChunk_plain false 0 0 .null 0 irq)
      (SameSetup.registerChunk c.priv.state false 0 0 .null 0 irq) rfl)
  | start cycleMatch syncCode tags env => exact h.start cycleMatch syncCode tags env
  | getPayload index =>
    rw [exec_getPayload]
    exact h
  | stop => exact Ctx.stop_keeps hstop hnote h
  | unmapBuffer =>
    exact Ctx.unmapBuffer_keeps hstop hnote (fun c _ => (unmapBuffer c).1) h
  | release =>
    exact Ctx.release_keeps (Q := fun c => Steady c ∧ c.priv.state.addr = .null) hstop hnote
      (fun c _ => unmapBuffer c) (fun c hc => release hc.2) h
  | dispatch w =>
    refine Ctx.dispatch_keeps hstop hnote (fun ev env c hc => ?_) w h
    cases ev with
    | isoInterrupt ev =>
      simp only [FwIsoCtx.handleEvent, handleEvent]
      split
      · exact hc
      · exact ⟨hc.interrupted ev, fun c' hc' => hc'.finishEvent _ _⟩
    | isoInterruptMc ev => exact hc
    | other => exact hc

end Steady

/-- Where the size of the buffer does not wrap, the chunks of all packets of the event lie in it. -/
theorem getPayload_of_counted {self : FwIsoIrSingle} {index count : UInt32}
    (hcounts : self.Announces count) (hindex : index < count) (hleast : 4 ≤ self.headerSize)
    (hchunks : self.state.chunksPerBuffer ≠ 0)
    (hwrap : self.state.bytesPerChunk.toNat * self.state.chunksPerBuffer.toNat < 4294967296) :
    ∃ offset length, self.getPayload index = .frames (some offset) length ∧
      offset.toNat + length.toNat ≤ self.state.bytesPerBuffer.toNat := by
  obtain ⟨ev, hev, rfl⟩ := hcounts
  obtain ⟨haccepts, hheader⟩ := header_inside hleast hindex
  simp only [getPayload, hev, if_neg haccepts, if_neg hheader, if_neg hchunks]
  generalize hlength : (if self.state.bytesPerChunk < _ then self.state.bytesPerChunk else _) =
    length
  have hle : length.toNat ≤ self.state.bytesPerChunk.toNat := by
    rw [← hlength, toNat_clamp]
    exact Nat.min_le_left _ _
  have hslot : ((self.chunkCursor + index) % self.state.chunksPerBuffer).toNat <
      self.state.chunksPerBuffer.toNat :=
    UInt32.lt_iff_toNat_lt.mp (UInt32.mod_lt _ (UInt32.pos_iff_ne_zero.mpr hchunks))
  generalize (self.chunkCursor + index) % self.state.chunksPerBuffer = slot at hslot
  have hbuffer : self.state.bytesPerBuffer.toNat =
      self.state.bytesPerChunk.toNat * self.state.chunksPerBuffer.toNat := by
    rw [FwIsoCtxState.bytesPerBuffer, UInt32.toNat_mul, Nat.mod_eq_of_lt hwrap]
  have hend : slot.toNat * self.state.bytesPerChunk.toNat + self.state.bytesPerChunk.toNat ≤
      self.state.bytesPerChunk.toNat * self.state.chunksPerBuffer.toNat := by
    rw [← Nat.succ_mul, Nat.mul_comm]
    exact Nat.mul_le_mul_left _ hslot
  have hoffset : (slot * self.state.bytesPerChunk).toNat =
      slot.toNat * self.state.bytesPerChunk.toNat := by
    rw [UInt32.toNat_mul, Nat.mod_eq_of_lt (by omega)]
  have hinside : ¬ self.state.bytesPerBuffer < slot * self.state.bytesPerChunk := by
    rw [UInt32.lt_iff_toNat_lt]
    omega
  refine ⟨slot * self.state.bytesPerChunk, length, ?_, by omega⟩
  rw [FwIsoCtxState.readFrame, if_neg hinside]
  split <;> rfl

/-- **A payload is in memory that is in use**: the call is rejected, for want of an event or by its
check of the index, or the packet has been announced under the mapping there is now, and the size
of the buffer does not wrap. -/
theorem live_of_announced (ms : List (Move Op)) (index : UInt32) :
    let c := (run exec ⟨⟨new, []⟩, []⟩ ms).state
    (c.priv.ev = none ∨ (∃ ev, c.priv.ev = some ev ∧ ev.headerLength < index * c.priv.headerSize) ∨
      Announced c index ∧
        c.priv.state.bytesPerChunk.toNat * c.priv.state.chunksPerBuffer.toNat < 4294967296) →
    Live c (c.priv.getPayload index) := by
  intro c hcond
  have hsteady : Steady c := run_keeps_of_init (I := Steady) (s := ⟨new, []⟩) ms
    (Steady.of_unmapped fun ⟨_, h⟩ => by cases h) fun op _ c hc => hc.exec op
  rcases hcond with hnone | ⟨ev, hev, hbeyond⟩ | ⟨⟨hmapped, count, it, hsignalled, hlt, hev,
    hcursor⟩, hwrap⟩
  · have hrejected : c.priv.getPayload index = .rejected := by
      simp only [getPayload, hnone]
    rw [hrejected]
    trivial
  · have hrejected : c.priv.getPayload index = .rejected := by
      simp only [getPayload, hev, if_pos hbeyond]
    rw [hrejected]
    trivial
  · have hshape := hsteady.shape hmapped count it hsignalled
    have hcounts : c.priv.Announces count := by
      rw [Announces, ← hev, ← hshape.headerSize]
      exact hsteady.counts hmapped count it hsignalled
    have hleast := (grounded_of_run ms).headerSize (.inl (hsteady.allocated hmapped))
    obtain ⟨offset, length, hframes, hinside⟩ :=
      getPayload_of_counted hcounts hlt hleast (hsteady.chunks hmapped) hwrap
    rw [hframes]
    exact ⟨hmapped, hinside, count, it, index, hsignalled, hlt,
      (hshape.getPayload hev hcursor index).trans hframes⟩

end FwIsoIrSingle

/-! ### Runs -/

/-- **Payloads are in memory that is in use** where the mapping is that of the event: of a
multiple-channel IR context exactly when the index is rejected, or an event has come since the
mapping changed and the packet fits; of a single-channel one when the call rejects the index, or
the event that is being handled has announced the packet under this mapping. -/
theorem live_of_run (irMultiples : List (Move FwIsoIrMultiple.Op))
    (irSingles : List (Move FwIsoIrSingle.Op)) (index : UInt32) :
    (let c := (run FwIsoIrMultiple.exec ⟨⟨.new, []⟩, []⟩ irMultiples).state
     FwIsoIrMultiple.Live c (c.priv.getPayload index).1 (c.priv.getPayload index).2 ↔
       c.priv.ctxPayloadCount ≤ index ∨ FwIsoIrMultiple.Fresh c ∧
         ∃ array, c.priv.ctxPayloads = some array ∧
           FwIsoIrMultiple.Fits c.priv (array.entries index.toNat)) ∧
    (let c := (run FwIsoIrSingle.exec ⟨⟨.new, []⟩, []⟩ irSingles).state
     (c.priv.ev = none ∨
         (∃ ev, c.priv.ev = some ev ∧ ev.headerLength < index * c.priv.headerSize) ∨
         FwIsoIrSingle.Announced c index ∧
           c.priv.state.bytesPerChunk.toNat * c.priv.state.chunksPerBuffer.toNat < 4294967296) →
       FwIsoIrSingle.Live c (c.priv.getPayload index)) :=
  ⟨FwIsoIrMultiple.live_iff_of_run irMultiples index,
    FwIsoIrSingle.live_of_announced irSingles index⟩

def irMultipleHandling : List (Move FwIsoIrMultiple.Op) :=
  irMultipleMapped ++ [.call (.start none 0 0 1 (grantStart 2)),
    .call (.dispatch (.event (.isoInterruptMc ⟨16⟩)
      ⟨fun n => if n = 2 then 8 else 0, fun _ => .accepted 2⟩))]

def irSingleHandling : List (Move FwIsoIrSingle.Op) :=
  FwIsoIrSingle.registerTwo ++ [.call (.start none 0 0 (grantStart 2)),
    .call (.dispatch (.event (.isoInterrupt ⟨0, 4, fun _ => 0⟩)
      ⟨fun _ => 0, fun _ => .accepted 0⟩))]

/-- **A payload can be asked for after the buffer is gone**: of a multiple-channel IR context at any
time after `unmap_buffer`, of a single-channel one by the handler that has called it. -/
theorem live_fails :
    (let c := (run FwIsoIrMultiple.exec ⟨⟨.new, []⟩, []⟩
      (irMultipleHandling ++ [.resume, .call .unmapBuffer, .resume])).state
     c.priv.state.addr = .null ∧ (c.priv.getPayload 0).2 = .frames (some 0) 16 ∧
       ¬ FwIsoIrMultiple.Live c (c.priv.getPayload 0).1 (c.priv.getPayload 0).2) ∧
    (let c := (run FwIsoIrSingle.exec ⟨⟨.new, []⟩, []⟩
      (irSingleHandling ++ [.call .unmapBuffer, .resume])).state
     c.priv.state.addr = .null ∧ c.priv.getPayload 0 = .frames (some 0) 0 ∧
       ¬ FwIsoIrSingle.Live c (c.priv.getPayload 0)) := by
  have hunmapped : ∀ {c : Ctx FwIsoIrMultiple} {it : FwIsoIrMultiple} {payload : Payload},
      it.state.addr = .null → payload = .frames (some 0) 16 →
        ¬ FwIsoIrMultiple.Live c it payload := by
    rintro c it _ hnull rfl ⟨⟨id, haddr⟩, _⟩
    cases hnull.symm.trans haddr
  have hunmapped' : ∀ {c : Ctx FwIsoIrSingle} {payload : Payload}, c.priv.state.addr = .null →
      payload = .frames (some 0) 0 → ¬ FwIsoIrSingle.Live c payload := by
    rintro c _ hnull rfl ⟨⟨id, haddr⟩, _⟩
    cases hnull.symm.trans haddr
  exact ⟨⟨by decide +kernel, by decide +kernel, hunmapped (by decide +kernel) (by decide +kernel)⟩,
    by decide +kernel, by decide +kernel, hunmapped' (by decide +kernel) (by decide +kernel)⟩

/-- The theorem while the event is being handled. -/
theorem live_handling :
    (let c := (run FwIsoIrMultiple.exec ⟨⟨.new, []⟩, []⟩ irMultipleHandling).state
     FwIsoIrMultiple.Live c (c.priv.getPayload 0).1 (c.priv.getPayload 0).2) ∧
    (let c := (run FwIsoIrSingle.exec ⟨⟨.new, []⟩, []⟩ irSingleHandling).state
     FwIsoIrSingle.Live c (c.priv.getPayload 0)) := by
  obtain ⟨hmultiple, hsingle⟩ := live_of_run irMultipleHandling irSingleHandling 0
  have hfresh : ∃ x ∈ sinceMapping (run FwIsoIrMultiple.exec ⟨⟨.new, []⟩, []⟩
      irMultipleHandling).state.trace, x.1 = .interrupted 1 := by decide +kernel
  have hlast : (sinceMapping (run FwIsoIrSingle.exec ⟨⟨.new, []⟩, []⟩
      irSingleHandling).state.trace).getLast? = some (.interrupted 1, (run FwIsoIrSingle.exec
        ⟨⟨.new, []⟩, []⟩ irSingleHandling).state.priv) := rfl
  obtain ⟨⟨_, it⟩, hmem, rfl⟩ := hfresh
  refine ⟨hmultiple.mpr (.inr ⟨⟨1, it, hmem⟩, _, rfl, .inl (by decide +kernel)⟩), hsingle ?_⟩
  exact .inr (.inr ⟨⟨⟨1, by decide +kernel⟩, 1, _, List.mem_of_getLast? hlast, by decide, rfl, rfl⟩,
    by decide +kernel⟩)

end Hinoko
