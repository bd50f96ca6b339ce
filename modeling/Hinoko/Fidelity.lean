import Hinoko.ItWriter

/-!
# The payloads of an IT context

The application passes payloads to `register_packet`; the device reads them from the
buffer where a request designates them.  As long as no payload crosses the end of the
buffer, the device reads what the application passed.

* `Live`: the buffer is a window of the stream of all payloads, from the first one
  that has not been queued on.
* `faithful_of_run`: every request up to the next stop designates the payloads that
  were registered.
* `faithful_fails`: a payload that crosses the end is written in two parts, and read
  from the start of the buffer.
-/

namespace Hinoko

open Reentrant

namespace FwIsoIt

/-- What the device reads from the buffer for the packets of a request. -/
def readBack (self : FwIsoIt) (arg : QueueIso) (packets : List UInt8) : List (List UInt8) :=
  List.zipWith self.mem.read (designated true arg packets)
    (payloadLengths (packetsOfRequest true packets))

def straddles : Effect × FwIsoIt → Bool
  | (.packet _ payload, self) => self.ringSize < self.writePos + payload.length
  | _ => false

def NoStraddle (t : List (Effect × FwIsoIt)) : Prop := ∀ x ∈ t, straddles x = false

instance (t : List (Effect × FwIsoIt)) : Decidable (NoStraddle t) :=
  inferInstanceAs (Decidable (∀ x ∈ t, straddles x = false))

/-- The device reads the payloads that the application passed for the packets of the request. -/
def readsPayloads (before : List (Effect × FwIsoIt)) (self : FwIsoIt) (arg : QueueIso)
    (packets : List UInt8) : Bool :=
  self.readBack arg packets = self.ofRequest (payloads (before.map Prod.fst)) arg packets

def Faithful (t : List (Effect × FwIsoIt)) : Prop := EveryRequest readsPayloads t

def beforeStop (t : List (Effect × FwIsoIt)) : List (Effect × FwIsoIt) :=
  t.takeWhile fun x => x.1 ≠ .stopIso

/-! ### The stream of payloads -/

def sent (self : FwIsoIt) (es : List Effect) : Nat :=
  ((payloads es).take ((payloads es).length - self.state.registeredChunkCount.toNat)).flatten.length

/-- The buffer is a window of the stream of payloads. -/
structure Live (it : FwIsoIt) (es : List Effect) : Prop where
  aligned : Aligned it es
  curr : it.state.currOffset.toNat = it.sent es % it.ringSize
  share : (payloadLengths (it.pending es)).sum * (4 + it.state.headerSize.toNat) ≤
    it.state.bytesPerChunk.toNat * (packetBytes (it.pending es)).length
  window : Ring.Window it.ringSize it.mem (payloads es).flatten (it.sent es)
    (payloads es).flatten.length

namespace Live

variable {self : FwIsoIt} {es : List Effect}

theorem flatten_eq (self : FwIsoIt) (es : List Effect) :
    (payloads es).flatten.drop (self.sent es) = (self.unsent es).flatten := by
  have h := List.take_append_drop
    ((payloads es).length - self.state.registeredChunkCount.toNat) (payloads es)
  have e := congrArg List.flatten h
  rw [List.flatten_append] at e
  rw [← e, sent, List.drop_left]
  rfl

theorem length_eq (self : FwIsoIt) (es : List Effect) :
    (payloads es).flatten.length = self.sent es + (self.unsent es).flatten.length := by
  have h := List.take_append_drop
    ((payloads es).length - self.state.registeredChunkCount.toNat) (payloads es)
  have e := congrArg (fun l => (List.flatten l).length) h
  rw [List.flatten_append, List.length_append] at e
  exact e.symm

theorem sum_lengths (h : Live self es) :
    (payloadLengths (self.pending es)).sum = (self.unsent es).flatten.length := by
  rw [h.aligned.lengths, List.length_flatten]

theorem writePos_eq (h : Live self es) :
    self.writePos = (payloads es).flatten.length % self.ringSize := by
  rw [h.aligned.agree, h.curr, h.sum_lengths, Nat.mod_add_mod, length_eq self es]

/-- **A request designates the payloads that were registered.** -/
theorem faithful (h : Live self es) {answers : Nat → QueueAnswer} {arg : QueueIso}
    {packets : List UInt8} {answer : QueueAnswer}
    (he : .queueIso arg packets answer ∈ (self.state.queueChunks answers).effects) :
    self.readBack arg packets = self.ofRequest (payloads es) arg packets := by
  obtain ⟨front, batch, back, hsplit, hearlier, hbatch, hplaces⟩ := h.aligned.request he
  have hlengths := h.aligned.lengths
  rw [hsplit, payloadLengths_append, payloadLengths_append] at hlengths
  -- the payloads of the packets before, in and behind the request
  obtain ⟨runs, after, hruns, hbefore, _⟩ := List.append_eq_map_iff.mp hlengths
  obtain ⟨before, mid, rfl, hfront, hmid⟩ := List.append_eq_map_iff.mp hbefore.symm
  have hlen1 : before.length = front.length := by
    have := congrArg List.length hfront
    simpa using this
  have hlen2 : mid.length = batch.length := by
    have := congrArg List.length hmid
    simpa using this
  have hsum : (payloadLengths front).sum = before.flatten.length := by
    rw [← hfront, List.length_flatten]
  have hdrop : (payloads es).flatten.drop (self.sent es + before.flatten.length) =
      mid.flatten ++ after.flatten := by
    rw [← List.drop_drop, flatten_eq, hruns, List.append_assoc, List.flatten_append,
      List.drop_left, List.flatten_append]
  have htotal := length_eq self es
  rw [hruns] at htotal
  simp only [List.flatten_append, List.length_append] at htotal
  have hfits := h.aligned.fits
  rw [hsplit, List.append_assoc, payloadLengths_append, Ring.fits_append h.aligned.curr_lt,
    payloadLengths_append, Ring.fits_append (Nat.mod_lt _ h.aligned.ring_pos), h.curr,
    Nat.mod_add_mod, hsum, ← hmid] at hfits
  have hread := h.window.read_places mid (self.sent es + before.flatten.length)
    (Nat.le_add_right _ _) (by omega) hfits.2.1 (by rw [hdrop, List.take_left])
  rw [hmid] at hread
  rw [readBack, hplaces, hbatch, ofRequest, hearlier, hbatch, h.curr, Nat.mod_add_mod, hsum, hread]
  show mid = ((self.unsent es).drop front.length).take batch.length
  rw [hruns, List.append_assoc, List.drop_left' hlen1, List.take_left' hlen2]

theorem quiet {es' : List Effect} (h : Live self es) (hquiet : ∀ e ∈ es', e.Quiet)
    (hnone : payloads es' = []) : Live self (es ++ es') := by
  have hp : payloads (es ++ es') = payloads es := by
    rw [payloads_append, hnone, List.append_nil]
  have hpending : self.pending (es ++ es') = self.pending es := by
    simp only [pending, held, chunksSinceMap_quiet hquiet]
  refine ⟨h.aligned.quiet hquiet hnone, ?_, ?_, ?_⟩
  · simp only [sent, hp]
    exact h.curr
  · rw [hpending]
    exact h.share
  · simp only [sent, hp]
    exact h.window

theorem share_registered {o : Out FwIsoIt} {skip : Bool} {payload : List UInt8} {p : IsoPacket}
    (h : Live self es) (hr : Registered self es o skip payload p) :
    (payloadLengths (o.state.pending (es ++ o.effects))).sum *
        (4 + o.state.state.headerSize.toNat) ≤
      o.state.state.bytesPerChunk.toNat *
        (packetBytes (o.state.pending (es ++ o.effects))).length := by
  have hshare := h.share
  have hone : payload.length * (4 + self.state.headerSize.toNat) ≤
      self.state.bytesPerChunk.toNat * p.bytes.length := by
    cases hs : skip with
    | false =>
      rw [hr.share hs]
      exact Nat.mul_le_mul_right _ hr.payload_le
    | true => simp [hr.empty hs]
  rw [hr.pending, hr.headerSize, hr.bytesPerChunk, payloadLengths_append, List.sum_append,
    packetBytes_append, List.length_append, Nat.add_mul _ _ (4 + _), Nat.mul_add _ (List.length _)]
  simp only [payloadLengths_cons, payloadLengths_nil, List.sum_cons, List.sum_nil, Nat.add_zero,
    packetBytes_cons, packetBytes_nil, List.append_nil, hr.length]
  exact Nat.add_le_add hshare hone

/-- **What is pending fits into the buffer**: the store has no room for more. -/
theorem sum_le_ring {st : FwIsoCtxState} {ps : List IsoPacket} (hmapped : Mapped st)
    (hst : Stores st ps) (hroom : st.dataLength.toNat ≤ st.allocDataLength.toNat)
    (hshare : (payloadLengths ps).sum * (4 + st.headerSize.toNat) ≤
      st.bytesPerChunk.toNat * (packetBytes ps).length) :
    (payloadLengths ps).sum ≤ st.bytesPerBuffer.toNat := by
  have hlen : (packetBytes ps).length ≤ st.chunksPerBuffer.toNat * (4 + st.headerSize.toNat) := by
    rw [hst.length]
    exact hroom.trans hmapped.alloc_le
  rw [hmapped.bytesPerBuffer]
  refine Nat.le_of_mul_le_mul_right (hshare.trans ?_) (show 0 < 4 + st.headerSize.toNat by omega)
  calc st.bytesPerChunk.toNat * (packetBytes ps).length
      ≤ st.bytesPerChunk.toNat * (st.chunksPerBuffer.toNat * (4 + st.headerSize.toNat)) :=
        Nat.mul_le_mul_left _ hlen
    _ = st.bytesPerChunk.toNat * st.chunksPerBuffer.toNat * (4 + st.headerSize.toNat) :=
        (Nat.mul_assoc _ _ _).symm

/-- **A payload that does not cross the end extends the window.** -/
theorem registered {o : Out FwIsoIt} {skip : Bool} {payload : List UInt8} {p : IsoPacket}
    (h : Live self es) (hr : Registered self es o skip payload p)
    (hfit : self.writePos + payload.length ≤ self.ringSize) :
    Live o.state (es ++ o.effects) := by
  have haligned := h.aligned.registered hr hfit
  have hshare := h.share_registered hr
  have hsum : (payloadLengths (o.state.pending (es ++ o.effects))).sum ≤ o.state.ringSize :=
    sum_le_ring hr.mapped hr.store.stores hr.store.room hshare
  obtain ⟨hmem, _, _⟩ := hr.written hfit
  have hp : payloads (es ++ o.effects) = payloads es ++ [payload] := by
    rw [hr.effects, payloads_append]
    rfl
  have hcount : o.state.state.registeredChunkCount.toNat =
      self.state.registeredChunkCount.toNat + 1 := by
    rw [hr.count, h.aligned.store.stores.count_succ]
  have hsent : o.state.sent (es ++ o.effects) = self.sent es := by
    rw [sent, sent, hp, hcount, List.length_append]
    simp only [List.length_cons, List.length_nil, Nat.add_sub_add_right]
    rw [List.take_append_of_le_length (Nat.sub_le _ _)]
  rw [hr.pending, payloadLengths_append, List.sum_append, h.sum_lengths] at hsum
  simp only [payloadLengths_cons, payloadLengths_nil, List.sum_cons, List.sum_nil, Nat.add_zero,
    hr.length, hr.ringSize] at hsum
  refine ⟨haligned, ?_, hshare, ?_⟩
  · rw [hr.currOffset, hsent, hr.ringSize]
    exact h.curr
  · have hlen := length_eq self es
    rw [h.writePos_eq] at hfit hmem
    rw [hp, hsent, hr.ringSize, hmem, List.flatten_append, List.flatten_cons, List.flatten_nil,
      List.append_nil, List.length_append]
    exact h.window.write payload hfit (by omega)

theorem caughtUp {st : FwIsoCtxState} {es' : List Effect} (h : Live self es)
    (haligned : Aligned { self with state := st } (es ++ es'))
    (hring : st.bytesPerBuffer = self.state.bytesPerBuffer) (hcount : st.registeredChunkCount = 0)
    (hcurr : st.currOffset.toNat = self.writePos) (hnone : payloads es' = []) :
    Live { self with state := st } (es ++ es') := by
  have hp : payloads (es ++ es') = payloads es := by
    rw [payloads_append, hnone, List.append_nil]
  have hpending : ({ self with state := st } : FwIsoIt).pending (es ++ es') = [] := by
    simp only [pending, held, hcount]
    exact List.rtake_zero _
  have hsent : ({ self with state := st } : FwIsoIt).sent (es ++ es') =
      (payloads es).flatten.length := by
    simp only [sent, hp, hcount, UInt32.toNat_zero, Nat.sub_zero, List.take_length]
  have hring' : ({ self with state := st } : FwIsoIt).ringSize = self.ringSize := by
    simp only [ringSize, hring]
  refine ⟨haligned, ?_, ?_, ?_⟩
  · rw [hsent, hring', hcurr]
    exact h.writePos_eq
  · rw [hpending]
    simp
  · rw [hsent, hp]
    exact Ring.window_empty _ _ _ _

theorem queueChunks (h : Live self es) (answers : Nat → QueueAnswer) :
    Live (FwIsoIt.queueChunks answers self).state
      (es ++ (FwIsoIt.queueChunks answers self).effects) := by
  have haligned := h.aligned.queueChunks answers
  have hquiet := self.state.queueChunks_quiet answers
  have hnone := payloads_queueChunks self.state answers
  simp only [FwIsoIt.queueChunks, Out.map_state, Out.map_effects] at haligned ⊢
  rcases h.aligned.queueChunks_cases answers with ⟨hstate, _⟩ | ⟨_, x, hx, hstate⟩
  · rw [hstate]
    exact h.quiet hquiet hnone
  · rw [hstate] at haligned ⊢
    exact h.caughtUp haligned rfl rfl hx hnone

theorem setRunning (h : Live self es) (running : Bool) :
    Live { self with state := { self.state with running := running } } es :=
  ⟨h.aligned.setRunning running, h.curr, h.share, h.window⟩

theorem start (h : Live self es) (cycleMatch : Option (UInt16 × UInt16)) (env : StartEnv) :
    Live (self.start cycleMatch env).state (es ++ (self.start cycleMatch env).effects) :=
  start_keeps cycleMatch env h (h.queueChunks env.queueIso) fun _ _ running h =>
    (h.quiet (by simp [Effect.Quiet]) rfl).setRunning running

end Live

/-- **A fresh context is live.** -/
theorem Fresh.live {self : FwIsoIt} {bytesPerChunk chunksPerBuffer headerSize : UInt32}
    (h : self.Fresh bytesPerChunk chunksPerBuffer headerSize)
    (hbytes : bytesPerChunk.toNat ≤ 65535)
    (hbuffer : bytesPerChunk.toNat * chunksPerBuffer.toNat < 2 ^ 31)
    (hheader : headerSize.toNat ≤ 255) : Live self [] := by
  obtain ⟨haligned, hcurr, hcount⟩ := h.aligned hbytes hbuffer hheader
  have hpending : self.pending [] = [] := List.rtake_nil _
  have hsent : self.sent [] = 0 := by simp [sent, payloads]
  refine ⟨haligned, ?_, ?_, ?_⟩
  · rw [hsent, Nat.zero_mod, hcurr]
    rfl
  · rw [hpending]
    simp
  · rw [hsent]
    exact Ring.window_empty _ _ _ _

/-! ### Runs -/

/-- The operations of a stream: registering, starting and handling events. -/
def Op.Streams : Op → Prop
  | .registerPacket _ _ _ _ _ => True
  | .start _ _ => True
  | .dispatch _ => True
  | _ => False

/-- The invariant of runs: up to the first stop every request has been faithful, and as long as
there was none the context is live. -/
def KeptFaithful (c : Ctx FwIsoIt) : Prop :=
  NoStraddle (beforeStop c.trace) → Faithful (beforeStop c.trace) ∧
    ((∀ x ∈ c.trace, x.1 ≠ .stopIso) → Live c.priv c.effects)

theorem beforeStop_of_running {t : List (Effect × FwIsoIt)} (h : ∀ x ∈ t, x.1 ≠ .stopIso) :
    beforeStop t = t :=
  List.takeWhile_eq_self_iff.mpr fun x hx => decide_eq_true (h x hx)

theorem beforeStop_append {t t' : List (Effect × FwIsoIt)} (h : ∀ x ∈ t, x.1 ≠ .stopIso) :
    beforeStop (t ++ t') = t ++ beforeStop t' :=
  List.takeWhile_append_of_pos fun x hx => decide_eq_true (h x hx)

/-- After the stop nothing counts any more. -/
theorem beforeStop_of_stopped {t : List (Effect × FwIsoIt)} (t' : List (Effect × FwIsoIt))
    (h : ∃ x ∈ t, x.1 = .stopIso) : beforeStop (t ++ t') = beforeStop t := by
  rw [beforeStop, List.takeWhile_append, if_neg]
  · rfl
  · intro hlen
    obtain ⟨x, hx, he⟩ := h
    have hpre := List.takeWhile_prefix (l := t) fun x => x.1 ≠ .stopIso
    have hself := List.takeWhile_eq_self_iff.mp (hpre.eq_of_length hlen) x hx
    simp [he] at hself

theorem KeptFaithful.after {c : Ctx FwIsoIt} {o : Out FwIsoIt} (h : KeptFaithful c)
    (hstop : .stopIso ∉ o.effects)
    (hstep : Live c.priv c.effects → NoStraddle (o.effects.map fun e => (e, c.priv)) →
      Live o.state (c.effects ++ o.effects) ∧
        ∀ i arg packets answer, o.effects[i]? = some (.queueIso arg packets answer) →
          payloads (o.effects.take i) = [] ∧
            c.priv.readBack arg packets = c.priv.ofRequest (payloads c.effects) arg packets) :
    KeptFaithful (c.after o) := by
  have hnew : ∀ x ∈ o.effects.map fun e => (e, c.priv), x.1 ≠ .stopIso := by
    intro x hx
    obtain ⟨e, he, rfl⟩ := List.mem_map.mp hx
    exact fun heq => hstop (heq ▸ he)
  simp only [KeptFaithful, Ctx.after, Ctx.effects]
  by_cases hrun : ∀ x ∈ c.trace, x.1 ≠ .stopIso
  · rw [beforeStop_append hrun, beforeStop_of_running hnew]
    intro hns
    have hns1 : NoStraddle c.trace := fun x hx => hns x (List.mem_append_left _ hx)
    have hns2 := fun x hx => hns x (List.mem_append_right _ hx)
    have hold := h
    simp only [KeptFaithful, beforeStop_of_running hrun] at hold
    obtain ⟨hfaithful, hlive⟩ := hold hns1
    obtain ⟨hlive', hreq⟩ := hstep (hlive hrun) hns2
    refine ⟨EveryRequest.append hfaithful fun i arg packets answer he => ?_, fun _ => ?_⟩
    · obtain ⟨hnone, hread⟩ := hreq i arg packets answer he
      rw [readsPayloads, decide_eq_true_eq, List.map_append, List.map_map, Function.comp_def,
        List.map_id', payloads_append, hnone, List.append_nil]
      exact hread
    rw [List.map_append, List.map_map, Function.comp_def, List.map_id']
    exact hlive'
  · have hstopped : ∃ x ∈ c.trace, x.1 = .stopIso := by simpa using hrun
    rw [beforeStop_of_stopped _ hstopped]
    intro hns
    refine ⟨(h hns).1, fun hall => ?_⟩
    obtain ⟨x, hx, he⟩ := hstopped
    exact absurd he (hall x (List.mem_append_left _ hx))

theorem KeptFaithful.note {c : Ctx FwIsoIt} {e : Effect} (h : KeptFaithful c)
    (hquiet : e.Quiet) (hstop : e ≠ .stopIso) (hnone : payloadOf e = none)
    (hreq : ∀ arg packets answer, e ≠ .queueIso arg packets answer) :
    KeptFaithful (c.note e) := by
  have hafter : KeptFaithful (c.after ⟨c.priv, .success, [e]⟩) := by
    refine h.after (by simpa using hstop.symm) fun hlive _ => ⟨?_, ?_⟩
    · exact hlive.quiet (by simpa using hquiet) (by simp [payloads, hnone])
    · intro i arg packets answer he
      exact absurd (List.mem_singleton.mp (List.mem_of_getElem? he)).symm (hreq arg packets answer)
  exact hafter

theorem KeptFaithful.stop {c : Ctx FwIsoIt} (h : KeptFaithful c) :
    KeptFaithful (c.after (Ctx.onState FwIsoCtxState.stop c.priv)) := by
  cases hrun : c.priv.state.running with
  | false =>
    rw [onState_stop_of_not_running hrun]
    refine h.after (by simp) fun hlive _ => ⟨?_, by simp⟩
    rw [List.append_nil]
    exact hlive
  | true =>
    have heffects : (Ctx.onState FwIsoCtxState.stop c.priv).effects = [.stopIso] := by
      rw [onState_stop_of_running hrun]
    simp only [KeptFaithful, Ctx.after, heffects]
    have hstopped : ∃ x ∈ c.trace ++ [Effect.stopIso].map fun e => (e, c.priv),
        x.1 = .stopIso := ⟨(.stopIso, c.priv), by simp, rfl⟩
    intro hns
    refine ⟨?_, fun hall => ?_⟩
    · by_cases hall : ∀ x ∈ c.trace, x.1 ≠ .stopIso
      · have e : beforeStop (c.trace ++ [Effect.stopIso].map fun e => (e, c.priv)) =
            beforeStop c.trace := by
          rw [beforeStop_append hall, beforeStop_of_running hall]
          simp [beforeStop]
        rw [e] at hns ⊢
        exact (h hns).1
      · rw [beforeStop_of_stopped _ (by simpa using hall)] at hns ⊢
        exact (h hns).1
    · obtain ⟨x, hx, he⟩ := hstopped
      exact absurd he (hall x hx)

theorem KeptFaithful.registerPacket {c : Ctx FwIsoIt} (h : KeptFaithful c)
    (tags syncCode : UInt32) (header payload : ArrayArg) (irq : Bool) :
    KeptFaithful (c.after (c.priv.registerPacket tags syncCode header payload irq)) := by
  have heffects := c.priv.registerPacket_effects tags syncCode header payload irq
  refine h.after (fun hmem => ?_) fun hlive hns => ?_
  · rcases heffects _ hmem with ⟨_, he⟩ | ⟨_, _, he⟩ <;> cases he
  refine ⟨?_, fun i arg packets answer he => ?_⟩
  · rcases registerPacket_registered hlive.aligned.mapped hlive.aligned.store
      hlive.aligned.offset_le tags syncCode header payload irq with ⟨hstate, he⟩ | ⟨skip, p, hr⟩
    · rw [hstate, he, List.append_nil]
      exact hlive
    · have hx := hns (.packet skip payload.bytes, c.priv)
        (List.mem_map.mpr ⟨_, by rw [hr.effects]; simp, rfl⟩)
      simp only [straddles, decide_eq_false_iff_not, not_lt] at hx
      exact hlive.registered hr hx
  · rcases heffects _ (List.mem_of_getElem? he) with ⟨_, he⟩ | ⟨_, _, he⟩ <;> cases he

theorem KeptFaithful.queueChunks {c : Ctx FwIsoIt} (h : KeptFaithful c)
    (answers : Nat → QueueAnswer) : KeptFaithful (c.after (queueChunks answers c.priv)) := by
  have hcases := (c.priv.state.queueChunks_cases answers).1
  refine h.after (fun hmem => ?_) fun hlive _ => ⟨hlive.queueChunks answers, ?_⟩
  · rcases hcases _ hmem with he | ⟨_, _, _, he⟩ <;> cases he
  · intro i arg packets answer he
    refine ⟨?_, hlive.faithful (List.mem_of_getElem? he)⟩
    exact payloads_take (payloads_queueChunks c.priv.state answers) i

theorem KeptFaithful.start {c : Ctx FwIsoIt} (h : KeptFaithful c)
    (cycleMatch : Option (UInt16 × UInt16)) (env : StartEnv) :
    KeptFaithful (c.after (c.priv.start cycleMatch env)) := by
  obtain ⟨hnone, hstop, hreq⟩ := c.priv.start_effects cycleMatch env
  refine h.after hstop fun hlive _ => ⟨hlive.start cycleMatch env, ?_⟩
  intro i arg packets answer he
  refine ⟨?_, hlive.faithful (hreq _ _ _ (List.mem_of_getElem? he))⟩
  exact payloads_take hnone i

theorem keptFaithful_exec {op : Op} (hop : op.Streams) (c : Ctx FwIsoIt) (h : KeptFaithful c) :
    (exec op c).Keeps KeptFaithful fun _ => KeptFaithful := by
  cases op with
  | registerPacket tags syncCode header payload irq =>
    exact h.registerPacket tags syncCode header payload irq
  | start cycleMatch env => exact h.start cycleMatch env
  | dispatch w =>
    refine Ctx.dispatch_keeps (fun _ hc => hc.stop)
      (fun _ hc => hc.note trivial (by simp) rfl (by simp)) (fun ev env c hc => ?_) w h
    cases ev with
    | isoInterrupt ev =>
      exact ⟨hc.note trivial (by simp) rfl (by simp), fun _ hc' => hc'.queueChunks env.queueIso⟩
    | isoInterruptMc ev => exact hc
    | other => exact hc
  | allocate _ _ _ _ _ => exact hop.elim
  | mapBuffer _ _ _ _ => exact hop.elim
  | stop => exact hop.elim
  | unmapBuffer => exact hop.elim
  | release => exact hop.elim

/-- **The device reads what the application passed**, in every request of every run from a fresh
context up to the first stop, as long as no payload crosses the end of the buffer. -/
theorem faithful_of_run {self : FwIsoIt} {bytesPerChunk chunksPerBuffer headerSize : UInt32}
    (hfresh : self.Fresh bytesPerChunk chunksPerBuffer headerSize)
    (hbytes : bytesPerChunk.toNat ≤ 65535)
    (hbuffer : bytesPerChunk.toNat * chunksPerBuffer.toNat < 2 ^ 31)
    (hheader : headerSize.toNat ≤ 252) (ms : List (Move Op))
    (hms : ∀ op, .call op ∈ ms → op.Streams) :
    let t := beforeStop (run exec ⟨⟨self, []⟩, []⟩ ms).state.trace
    NoStraddle t → Faithful t := by
  have hlive := hfresh.live hbytes hbuffer (by omega)
  have hinit : KeptFaithful ⟨self, []⟩ := fun _ => ⟨everyRequest_nil, fun _ => hlive⟩
  have h := run_keeps_of_init ms hinit fun op hop c hc => keptFaithful_exec (hms op hop) c hc
  exact fun hns => (h hns).1

/-! ### A payload across the end -/

def fresh (bytesPerChunk chunksPerBuffer headerSize : UInt32) : FwIsoIt :=
  ((new.allocate (some "/dev/fw0") 0 0 headerSize grantAllocate).state.mapBuffer bytesPerChunk
    chunksPerBuffer grantMap fun _ => 0).state

def register (bs : List UInt8) (h : bs.length < 4294967296) : Move Op :=
  .call (.registerPacket 0 0 .null (.ofList bs h) false)

def interrupt : Move Op :=
  .call (.dispatch (.event (.isoInterrupt ⟨0, 8, fun _ => 0⟩)
    ⟨fun _ => 0, fun i => .accepted i⟩))

/-- Two payloads of three bytes in a buffer of eight, and the third from the handler. -/
def crossing : List (Move Op) :=
  [register [1, 2, 3] (by decide), register [4, 5, 6] (by decide),
    .call (.start none (grantStart 2)), interrupt, register [7, 8, 9] (by decide), .resume]

theorem short_first : ([1, 2, 3, 4] : List UInt8).length < 4294967296 := by decide

theorem short_second : ([5, 6, 7, 8] : List UInt8).length < 4294967296 := by decide

def exact : List (Move Op) :=
  [register [1, 2, 3, 4] short_first, register [5, 6, 7, 8] short_second,
    .call (.start none (grantStart 2)), interrupt, register [9, 10, 11, 12] (by decide), .resume]

theorem fresh_fresh : (fresh 4 2 0).Fresh 4 2 0 :=
  ⟨some "/dev/fw0", 0, 0, grantAllocate, grantMap, fun _ => 0, by decide +kernel, by decide +kernel,
    rfl⟩

theorem streams_of_mem {first second third : List UInt8} {h1 h2 h3} : ∀ op, .call op ∈
    [register first h1, register second h2, .call (.start none (grantStart 2)), interrupt,
      register third h3, .resume] → op.Streams := by
  intro op hop
  simp only [register, interrupt, List.mem_cons, Move.call.injEq, reduceCtorEq, List.not_mem_nil,
    or_false] at hop
  rcases hop with rfl | rfl | rfl | rfl | rfl <;> trivial

/-- **A payload that crosses the end is not read back**: its last byte lies at the start of the
buffer, and the request designates the start of the buffer for all of it. -/
theorem faithful_fails :
    (fresh 4 2 0).Fresh 4 2 0 ∧ (∀ op, .call op ∈ crossing → op.Streams) ∧
      ¬ Faithful (beforeStop (run exec ⟨⟨fresh 4 2 0, []⟩, []⟩ crossing).state.trace) := by
  refine ⟨fresh_fresh, streams_of_mem, fun h => ?_⟩
  exact absurd (h 10) (by decide +kernel)

theorem faithful_exact :
    Faithful (beforeStop (run exec ⟨⟨fresh 4 2 0, []⟩, []⟩ exact).state.trace) :=
  faithful_of_run fresh_fresh (by decide) (by decide) (by decide) exact streams_of_mem
    (by decide +kernel)

end FwIsoIt

end Hinoko
