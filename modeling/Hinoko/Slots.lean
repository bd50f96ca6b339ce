import Hinoko.Grounded
import Hinoko.Placement

/-!
# The slots of an IR context

All chunks of an IR context have one size, so the mapped buffer is a row of slots, and
queueing goes round it: the `n`-th chunk since the account was opened is queued at slot
`n % chunks_per_buffer`.

* `Slots`: the invariant, over what the context has done since then.
* `Slots.registerChunk`, `Slots.queueChunks`: the functions of the state keep it.
-/

namespace Hinoko

/-! ### What has been queued -/

/-- Where a request puts its chunks. -/
def Effect.places : Effect → List Nat
  | .queueIso arg packets _ => designated false arg packets
  | _ => []

def Effect.queued : Effect → List IsoPacket
  | .queueIso _ packets _ => packetsOfRequest false packets
  | _ => []

def queuedAt (es : List Effect) : List Nat := es.flatMap Effect.places

def queued (es : List Effect) : List IsoPacket := es.flatMap Effect.queued

theorem queuedAt_append (es es' : List Effect) :
    queuedAt (es ++ es') = queuedAt es ++ queuedAt es' :=
  List.flatMap_append

theorem queued_append (es es' : List Effect) : queued (es ++ es') = queued es ++ queued es' :=
  List.flatMap_append

theorem queued_of_none {es : List Effect} (h : ∀ e ∈ es, ∀ arg packets answer,
    e ≠ .queueIso arg packets answer) : queuedAt es = [] ∧ queued es = [] := by
  constructor
  · refine List.flatMap_eq_nil_iff.mpr fun e he => ?_
    cases e <;>
      first
      | rfl
      | exact absurd rfl (h _ he _ _ _)
  · refine List.flatMap_eq_nil_iff.mpr fun e he => ?_
    cases e <;>
      first
      | rfl
      | exact absurd rfl (h _ he _ _ _)

theorem queued_requests {st : FwIsoCtxState} (hmode : st.mode ≠ .it) (answers : Nat → QueueAnswer) :
    ∀ (rounds : List Round) (i : Nat) (pre : List IsoPacket),
      (∀ p ∈ handedOut rounds, Sized st p) →
      queuedAt (requests st.handle answers i pre rounds) = rounds.flatMap Round.starts ∧
        queued (requests st.handle answers i pre rounds) = handedOut rounds := by
  intro rounds
  induction rounds with
  | nil => exact fun i pre _ => ⟨rfl, rfl⟩
  | cons r rounds ih =>
    intro i pre hsized
    have hbatch : packetsOfRequest false (packetBytes r.batch) = r.batch := by
      have h := packetsOfRequest_packetBytes fun p hp => hsized p (List.mem_append_left _ hp)
      simpa [hmode] using h
    obtain ⟨hat, hqueued⟩ := ih (i + 1) (pre ++ r.batch) fun p hp =>
      hsized p (List.mem_append_right _ hp)
    constructor
    · rw [requests, queuedAt, List.flatMap_cons, List.flatMap_cons, ← hat, Effect.places,
          designated,
        hbatch]
      rfl
    · rw [requests, queued, List.flatMap_cons, handedOut_cons, ← hqueued, Effect.queued, hbatch]
      rfl

def Accepting (answers : Nat → QueueAnswer) : Prop := ∀ i, ∃ count, answers i = .accepted count

/-! ### The slots in turn -/

def inTurn (chunk chunks q : Nat) : List Nat := (List.range q).map fun n => chunk * (n % chunks)

theorem inTurn_add (chunk chunks q j : Nat) : inTurn chunk chunks (q + j) =
    inTurn chunk chunks q ++ (List.range j).map fun i => chunk * ((q + i) % chunks) := by
  rw [inTurn, inTurn, List.range_add, List.map_append, List.map_map]
  rfl

/-- The chunks of an IR context since its account was opened: those queued and those in the store
make up what has been registered, and the slots have been taken in turn. -/
structure Slots (kind : FwIsoCtxMode) (st : FwIsoCtxState) (es : List Effect) : Prop where
  store : StoreInv kind st es
  chunk_pos : 0 < st.bytesPerChunk.toNat
  chunk_le : st.bytesPerChunk.toNat ≤ 65535
  chunks_pos : 0 < st.chunksPerBuffer.toNat
  buffer : st.bytesPerChunk.toNat * st.chunksPerBuffer.toNat < 4294967296
  whole : ∀ p ∈ held st es, p.payloadLength = st.bytesPerChunk.toNat
  order : queued es ++ held st es = chunksSinceMap es
  places : queuedAt es =
    inTurn st.bytesPerChunk.toNat st.chunksPerBuffer.toNat (queued es).length
  curr : st.currOffset.toNat =
    st.bytesPerChunk.toNat * ((queued es).length % st.chunksPerBuffer.toNat)

namespace Slots

variable {kind : FwIsoCtxMode} {st : FwIsoCtxState} {es : List Effect}

/-- **An account is opened** where the store is empty and the queue stands at the first slot. -/
theorem init (h : Grounded kind st) (hlen : st.dataLength = 0) (hcurr : st.currOffset = 0)
    (hpos : 0 < st.bytesPerChunk.toNat) (hle : st.bytesPerChunk.toNat ≤ 65535)
    (hbuffer : st.bytesPerChunk.toNat * st.chunksPerBuffer.toNat < 4294967296) :
    Slots kind st [] := by
  have hchunks : 0 < st.chunksPerBuffer.toNat := by
    rcases Nat.eq_zero_or_pos st.chunksPerBuffer.toNat with h0 | hpos'
    · have := h.sizes.mpr (UInt32.toNat_inj.mp h0)
      rw [this] at hpos
      exact absurd hpos (Nat.lt_irrefl 0)
    · exact hpos'
  have hheld : held st [] = [] := List.rtake_nil _
  refine ⟨h.storeInv hlen, hpos, hle, hchunks, hbuffer, ?_, hheld, rfl, ?_⟩
  · rw [hheld]
    exact fun p hp => nomatch hp
  · rw [hcurr]
    simp [queued]

theorem bytesPerBuffer (h : Slots kind st es) :
    st.bytesPerBuffer.toNat = st.bytesPerChunk.toNat * st.chunksPerBuffer.toNat := by
  rw [FwIsoCtxState.bytesPerBuffer, UInt32.toNat_mul, Nat.mod_eq_of_lt h.buffer]

theorem curr_lt (h : Slots kind st es) : st.currOffset.toNat < st.bytesPerBuffer.toNat := by
  rw [h.curr, h.bytesPerBuffer]
  exact Nat.mul_lt_mul_of_pos_left (Nat.mod_lt _ h.chunks_pos) h.chunk_pos

theorem lengths (h : Slots kind st es) : payloadLengths (held st es) =
    List.replicate (held st es).length st.bytesPerChunk.toNat :=
  List.eq_replicate_of_mem (by simpa [payloadLengths] using h.whole) |>.trans (by simp)

theorem frame {st' : FwIsoCtxState} {es' : List Effect} (h : Slots kind st es)
    (hfd : st'.fd = st.fd) (haddr : st'.addr = st.addr) (hdata : st'.data = st.data)
    (hlen : st'.dataLength = st.dataLength) (halloc : st'.allocDataLength = st.allocDataLength)
    (hcount : st'.registeredChunkCount = st.registeredChunkCount) (hmode : st'.mode = st.mode)
    (hbytes : st'.bytesPerChunk = st.bytesPerChunk)
    (hchunks : st'.chunksPerBuffer = st.chunksPerBuffer) (hcurr : st'.currOffset = st.currOffset)
    (hquiet : ∀ e ∈ es', e.Quiet)
    (hnone : ∀ e ∈ es', ∀ arg packets answer, e ≠ .queueIso arg packets answer) :
    Slots kind st' (es ++ es') := by
  obtain ⟨hat, hqueued⟩ := queued_of_none hnone
  have hheld : held st' (es ++ es') = held st es := by
    rw [held, held, chunksSinceMap_quiet hquiet, hcount]
  refine ⟨h.store.frame hfd haddr hdata hlen halloc hcount hmode hquiet, ?_, ?_, ?_, ?_, ?_, ?_, ?_,
    ?_⟩
  · rw [hbytes]
    exact h.chunk_pos
  · rw [hbytes]
    exact h.chunk_le
  · rw [hchunks]
    exact h.chunks_pos
  · rw [hbytes, hchunks]
    exact h.buffer
  · rw [hheld, hbytes]
    exact h.whole
  · rw [hheld, queued_append, hqueued, List.append_nil, chunksSinceMap_quiet hquiet]
    exact h.order
  · rw [queuedAt_append, hat, queued_append, hqueued, List.append_nil, List.append_nil, hbytes,
      hchunks]
    exact h.places
  · rw [hcurr, queued_append, hqueued, List.append_nil, hbytes, hchunks]
    exact h.curr

theorem quiet {es' : List Effect} (h : Slots kind st es) (hquiet : ∀ e ∈ es', e.Quiet)
    (hnone : ∀ e ∈ es', ∀ arg packets answer, e ≠ .queueIso arg packets answer) :
    Slots kind st (es ++ es') :=
  h.frame rfl rfl rfl rfl rfl rfl rfl rfl rfl rfl hquiet hnone

/-- **A registered chunk waits behind the others.** -/
theorem registerChunk (h : Slots kind st es) (hkind : kind ≠ .it) (irq : Bool) :
    Slots kind (st.registerChunk false 0 0 .null 0 irq).state
      (es ++ (st.registerChunk false 0 0 .null 0 irq).effects) := by
  have hstore : StoreInv kind (st.registerChunk false 0 0 .null 0 irq).state
      (es ++ (st.registerChunk false 0 0 .null 0 irq).effects) := h.store.registerIrChunk hkind
  rcases h.store.registerChunk_cases false 0 0 .null 0 irq with
    hr | ⟨⟨_, _, hfd, _⟩, block, _, ho⟩
  · rw [hr.state, hr.effects, List.append_nil]
    exact h
  · rw [ho] at hstore ⊢
    have hmode := h.store.mode hfd
    have hlen : (st.datum false 0 0 .null 0 irq).payloadLength = st.bytesPerChunk.toNat := by
      rw [payloadLength_datum, hmode, if_neg hkind]
      exact Nat.mod_eq_of_lt (Nat.lt_succ_of_le h.chunk_le)
    obtain ⟨hat, hqueued⟩ : queuedAt [.chunk (st.datum false 0 0 .null 0 irq)] = [] ∧
        queued [.chunk (st.datum false 0 0 .null 0 irq)] = [] := ⟨rfl, rfl⟩
    refine ⟨hstore, h.chunk_pos, h.chunk_le, h.chunks_pos, h.buffer, ?_, ?_, ?_, ?_⟩
    · rw [h.store.held_chunk rfl]
      intro p hp
      rcases List.mem_append.mp hp with hp | hp
      · exact h.whole p hp
      · rw [List.mem_singleton.mp hp]
        exact hlen
    · rw [h.store.held_chunk rfl, queued_append, hqueued, List.append_nil, chunksSinceMap_chunk,
        ← List.append_assoc, h.order]
    · rw [queuedAt_append, hat, queued_append, hqueued, List.append_nil, List.append_nil]
      exact h.places
    · rw [queued_append, hqueued, List.append_nil]
      exact h.curr

/-- **Queueing takes the slots in turn**, and empties the store. -/
theorem queueChunks (h : Slots kind st es) (hkind : kind ≠ .it) {answers : Nat → QueueAnswer}
    (hanswers : Accepting answers) :
    (st.queueChunks answers).ret = .success ∧ (st.queueChunks answers).state.dataLength = 0 ∧
      Slots kind (st.queueChunks answers).state (es ++ (st.queueChunks answers).effects) := by
  by_cases hlen : st.dataLength = 0
  · rw [h.store.queueChunks_empty hlen, List.append_nil]
    exact ⟨rfl, hlen, h⟩
  have hmode : st.mode ≠ .it := by
    have hfd : 0 ≤ st.fd := by
      by_contra hneg
      exact hlen (h.store.unmapped (h.store.unallocated (by omega)))
    rw [h.store.mode hfd]
    exact hkind
  have hstore : StoreInv kind (st.queueChunks answers).state
      (es ++ (st.queueChunks answers).effects) := h.store.queueChunks
  have hquiet := st.queueChunks_quiet answers
  have hdvd : st.bytesPerChunk.toNat ∣ st.bytesPerBuffer.toNat := by
    rw [h.bytesPerBuffer]
    exact Nat.dvd_mul_right _ _
  have hfits : Ring.Fits st.bytesPerBuffer.toNat st.currOffset.toNat
      (payloadLengths (held st es)) := by
    refine Ring.fits_of_dvd hdvd _ _ h.curr_lt ?_ fun n hn => .inl ?_
    · rw [h.curr]
      exact Nat.dvd_mul_right _ _
    · rw [h.lengths] at hn
      exact List.eq_of_mem_replicate hn
  obtain ⟨rounds, rest, hq⟩ :=
    queueChunks_of_fits answers h.store.stores h.store.sized h.curr_lt hfits
  rcases hq.outcome with ⟨rfl, hret, x, hx, hstate⟩ | ⟨j, errno, hfailed, _⟩
  case inr =>
    obtain ⟨count, hcount⟩ := hanswers j
    rw [hcount] at hfailed
    cases hfailed
  have hall : handedOut rounds = held st es := by
    have hsplit := hq.split
    rw [List.append_nil] at hsplit
    exact hsplit.symm
  obtain ⟨hat, hqueued⟩ := queued_requests hmode answers rounds 0 []
    (fun p hp => h.store.sized p (hall ▸ hp))
  rw [hq.starts, hall, h.lengths, h.curr, h.bytesPerBuffer, Ring.places_replicate] at hat
  rw [hall] at hqueued
  rw [← hq.effects] at hat hqueued
  have hqlen : (queued (es ++ (st.queueChunks answers).effects)).length =
      (queued es).length + (held st es).length := by
    rw [queued_append, List.length_append, hqueued]
  refine ⟨hret, by rw [hstate], ?_⟩
  rw [hstate] at hstore ⊢
  have hheld : held { st with currOffset := x, dataLength := 0, registeredChunkCount := 0 }
      (es ++ (st.queueChunks answers).effects) = [] := List.rtake_zero _
  refine ⟨hstore, h.chunk_pos, h.chunk_le, h.chunks_pos, h.buffer, ?_, ?_, ?_, ?_⟩
  · rw [hheld]
    exact fun p hp => nomatch hp
  · rw [hheld, List.append_nil, queued_append, hqueued, h.order, chunksSinceMap_quiet hquiet]
  · rw [hqlen, inTurn_add, queuedAt_append, h.places, hat]
  · rw [hqlen]
    simp only [hx]
    rw [h.lengths, List.sum_replicate, h.curr, h.bytesPerBuffer, smul_eq_mul,
      Nat.mul_comm (held st es).length, ← Nat.mul_add, Nat.mul_mod_mul_left, Nat.mod_add_mod]

end Slots

end Hinoko
