import Hinoko.Lifecycle
import Hinoko.Placement

/-!
# The two cursors of an IT context

`registerPacket` writes at `offset`, and `queueChunks` designates from `curr_offset`
on.  `Aligned` says that the writer is ahead of the queue by the payloads that are
registered and not yet queued, and that none of these crosses the end of the buffer.

* `writePayload_of_fits`: where a payload goes that does not cross the end.
* `Aligned.registerPacket`, `Aligned.queueChunks`: the functions keep the cursors
  together.
* `Aligned.designated`: a request designates the places of its packets.
-/

namespace Hinoko

namespace FwIsoIt

def ringSize (self : FwIsoIt) : Nat := self.state.bytesPerBuffer.toNat

def writePos (self : FwIsoIt) : Nat := self.offset.toNat % self.ringSize

/-- A context that is allocated and mapped, with the sizes that callers are promised to use. -/
structure Mapped (st : FwIsoCtxState) : Prop where
  fd : 0 ≤ st.fd
  addr : ∃ id, st.addr = .mapped id
  mode : st.mode = .it
  bytes_pos : 0 < st.bytesPerChunk.toNat
  bytes_le : st.bytesPerChunk.toNat ≤ 65535
  chunks_pos : 0 < st.chunksPerBuffer.toNat
  buffer_lt : st.bytesPerChunk.toNat * st.chunksPerBuffer.toNat < 2 ^ 31
  header_le : st.headerSize.toNat ≤ 255
  alloc_le : st.allocDataLength.toNat ≤ st.chunksPerBuffer.toNat * (4 + st.headerSize.toNat)

namespace Mapped

variable {st : FwIsoCtxState}

theorem bytesPerBuffer (h : Mapped st) :
    st.bytesPerBuffer.toNat = st.bytesPerChunk.toNat * st.chunksPerBuffer.toNat := by
  have := h.buffer_lt
  rw [FwIsoCtxState.bytesPerBuffer, UInt32.toNat_mul, Nat.mod_eq_of_lt (by omega)]

theorem ring_pos (h : Mapped st) : 0 < st.bytesPerBuffer.toNat := by
  rw [h.bytesPerBuffer]
  exact Nat.mul_pos h.bytes_pos h.chunks_pos

theorem ring_lt (h : Mapped st) : st.bytesPerBuffer.toNat < 2 ^ 31 := by
  rw [h.bytesPerBuffer]
  exact h.buffer_lt

theorem congr {st' : FwIsoCtxState} (h : Mapped st) (hfd : st'.fd = st.fd)
    (haddr : st'.addr = st.addr) (hmode : st'.mode = st.mode)
    (hbytes : st'.bytesPerChunk = st.bytesPerChunk)
    (hchunks : st'.chunksPerBuffer = st.chunksPerBuffer)
    (hheader : st'.headerSize = st.headerSize)
    (halloc : st'.allocDataLength = st.allocDataLength) : Mapped st' := by
  obtain ⟨h1, h2, h3, h4, h5, h6, h7, h8, h9⟩ := h
  constructor <;> simp_all

theorem of_mapBuffer {bytesPerChunk chunksPerBuffer : UInt32} {env : MapEnv} (hfd : 0 ≤ st.fd)
    (hmode : st.mode = .it) (hheader : st.headerSize.toNat ≤ 255)
    (hbytes : bytesPerChunk.toNat ≤ 65535)
    (hbuffer : bytesPerChunk.toNat * chunksPerBuffer.toNat < 2 ^ 31)
    (hret : (st.mapBuffer bytesPerChunk chunksPerBuffer env).ret = .success) :
    Mapped (st.mapBuffer bytesPerChunk chunksPerBuffer env).state := by
  obtain ⟨hbpc, hcpb, id, _, hstate⟩ := FwIsoCtxState.mapBuffer_of_success hret
  have hpos (v : UInt32) (hv : v ≠ 0) : 0 < v.toNat :=
    Nat.pos_of_ne_zero fun h0 => hv (UInt32.toNat_inj.mp h0)
  have hdatum : st.datumSize.toNat = 4 + st.headerSize.toNat := by
    have h4 : sizeofFwCdevIsoPacket.toNat = 4 := rfl
    rw [FwIsoCtxState.datumSize, if_pos hmode, UInt32.toNat_add, h4, Nat.mod_eq_of_lt (by omega)]
  rw [hstate]
  refine ⟨hfd, ⟨id, rfl⟩, hmode, hpos _ hbpc, hbytes, hpos _ hcpb, hbuffer, hheader, ?_⟩
  simp only [UInt32.toNat_mul, hdatum]
  exact Nat.mod_le _ _

end Mapped

/-! ### Writing -/

theorem readFrame_of_le {st : FwIsoCtxState} (h : Mapped st) (offset length : UInt32)
    (hoff : offset.toNat ≤ st.bytesPerBuffer.toNat)
    (hlen : length.toNat ≤ st.bytesPerBuffer.toNat) :
    ∃ size : UInt32, st.readFrame offset length = (some offset, size) ∧
      size.toNat = min length.toNat (st.bytesPerBuffer.toNat - offset.toNat) := by
  have hB := h.ring_lt
  exact ⟨_, Prod.ext (st.readFrame_fst length hoff) rfl,
    st.toNat_readFrame_snd length hoff (by omega)⟩

/-- The writer always finds a frame, and stays in the buffer. -/
theorem writePayload_isSome {self : FwIsoIt} {payload : List UInt8} {length : UInt32}
    (h : Mapped self.state) (hoff : self.offset.toNat ≤ self.ringSize)
    (hlen : length.toNat ≤ self.ringSize) :
    ∃ self', self.writePayload payload length = some self' := by
  obtain ⟨id, hid⟩ := h.addr
  simp only [ringSize] at hoff hlen
  obtain ⟨size, hframe, hmin⟩ := readFrame_of_le h _ _ hoff hlen
  have htake := List.length_take_le size.toNat payload
  simp only [writePayload, hframe, copyTo_inside self hid self.offset
    (payload.take size.toNat) (by omega), Option.bind_eq_bind, Option.bind_some]
  by_cases hsize : size = length
  · rw [if_pos hsize]
    exact ⟨_, rfl⟩
  · have hle : (length - size).toNat ≤ self.state.bytesPerBuffer.toNat := by
      rw [UInt32.toNat_sub_of_le _ _ (UInt32.le_iff_toNat_le.mpr (by omega))]
      omega
    obtain ⟨size', hframe', hmin'⟩ := readFrame_of_le h 0 _ (Nat.zero_le _) hle
    have hrest := List.length_take_le size'.toNat (payload.drop size.toNat)
    have hinside : (0 : UInt32).toNat + ((payload.drop size.toNat).take size'.toNat).length ≤
        self.state.bytesPerBuffer.toNat := by
      rw [UInt32.toNat_zero] at hmin' ⊢
      omega
    rw [if_neg hsize]
    simp only [hframe', copyTo_inside { self with
      mem := self.mem.write self.offset.toNat (payload.take size.toNat)
      offset := self.offset + size } hid 0 _ hinside]
    exact ⟨_, rfl⟩

/-- **A payload that does not cross the end of the buffer is written in one piece**, at the place
of the writer. -/
theorem writePayload_of_fits {self : FwIsoIt} {payload : List UInt8} {length : UInt32}
    (h : Mapped self.state) (hoff : self.offset.toNat ≤ self.ringSize)
    (hpayload : payload.length = length.toNat)
    (hfit : self.writePos + length.toNat ≤ self.ringSize) :
    ∃ offset : UInt32, self.writePayload payload length =
        some { self with mem := self.mem.write self.writePos payload, offset := offset } ∧
      offset.toNat ≤ self.ringSize ∧
      offset.toNat % self.ringSize = (self.offset.toNat + length.toNat) % self.ringSize := by
  have hB := h.ring_lt
  have hpos := h.ring_pos
  simp only [ringSize] at hoff hfit ⊢
  obtain ⟨id, hid⟩ := h.addr
  obtain ⟨size, hframe, hsize⟩ := readFrame_of_le h self.offset length hoff
    (by omega)
  have htake := List.length_take_le size.toNat payload
  simp only [writePayload, hframe, copyTo_inside self hid self.offset
    (payload.take size.toNat) (by omega), Option.bind_eq_bind, Option.bind_some]
  rcases Nat.lt_or_ge self.offset.toNat self.state.bytesPerBuffer.toNat with hlt | hge
  · have hw : self.writePos = self.offset.toNat := Nat.mod_eq_of_lt hlt
    rw [hw] at hfit
    have he : size = length := UInt32.toNat_inj.mp (by omega)
    have hsum : (self.offset + length).toNat = self.offset.toNat + length.toNat := by
      rw [UInt32.toNat_add, Nat.mod_eq_of_lt (by omega)]
    rw [if_pos he, he, List.take_of_length_le (by omega), hw]
    exact ⟨_, rfl, by omega, by rw [hsum]⟩
  · have heq : self.offset.toNat = self.state.bytesPerBuffer.toNat := by omega
    have hw : self.writePos = 0 := by
      rw [writePos, ringSize, heq, Nat.mod_self]
    have hs0 : size = 0 := UInt32.toNat_inj.mp (by simp; omega)
    rw [hs0, hw]
    by_cases hlen : length = 0
    · have hnil : payload = [] := List.length_eq_zero_iff.mp (by rw [hpayload, hlen]; rfl)
      refine ⟨self.offset, ?_, hoff, by rw [hlen]; rfl⟩
      simp [hlen, hnil]
    · obtain ⟨size', hframe', hsize'⟩ := readFrame_of_le h 0 length
        (Nat.zero_le _) (by omega)
      have he : size' = length := UInt32.toNat_inj.mp (by simp at hsize'; omega)
      refine ⟨length, ?_, by omega, by rw [heq, Nat.add_mod_left]⟩
      rw [if_neg (Ne.symm hlen), UInt32.sub_zero, hframe', he]
      simp only [UInt32.toNat_zero, List.take_zero, List.drop_zero, ByteMem.write_nil]
      have hinside : (0 : UInt32).toNat + payload.length ≤ self.state.bytesPerBuffer.toNat := by
        rw [UInt32.toNat_zero]
        omega
      rw [← hpayload, List.take_length, copyTo_inside { self with offset := self.offset + 0 } hid
        0 payload hinside]
      rfl

/-! ### Registering -/

def payloadOf : Effect → Option (List UInt8)
  | .packet _ payload => some payload
  | _ => none

def payloads (es : List Effect) : List (List UInt8) := es.filterMap payloadOf

theorem payloads_append (es es' : List Effect) :
    payloads (es ++ es') = payloads es ++ payloads es' := List.filterMap_append

theorem payloads_take {es : List Effect} (h : payloads es = []) (n : Nat) :
    payloads (es.take n) = [] :=
  List.filterMap_eq_nil_iff.mpr fun e he =>
    List.filterMap_eq_nil_iff.mp h e (List.mem_of_mem_take he)

theorem payloads_queueChunks (st : FwIsoCtxState) (answers : Nat → QueueAnswer) :
    payloads (st.queueChunks answers).effects = [] := by
  refine List.filterMap_eq_nil_iff.mpr fun e he => ?_
  rcases (st.queueChunks_cases answers).1 e he with rfl | ⟨_, _, _, rfl⟩ <;> rfl

/-- **A start keeps** what queueing keeps, and a request to start with it. -/
theorem start_keeps {I : FwIsoIt → List Effect → Prop} {self : FwIsoIt} {es : List Effect}
    (cycleMatch : Option (UInt16 × UInt16)) (env : StartEnv) (h : I self es)
    (hqueue : I (queueChunks env.queueIso self).state
      (es ++ (queueChunks env.queueIso self).effects))
    (hstart : ∀ {self es} arg accepted running, I self es →
      I { self with state := { self.state with running := running } }
        (es ++ [.startIso arg accepted])) :
    I (self.start cycleMatch env).state (es ++ (self.start cycleMatch env).effects) := by
  rcases self.start_cases cycleMatch env with
    ⟨hstate, he⟩ | ⟨_, ⟨hstate, he⟩ | ⟨arg, accepted, running, he, hstate⟩⟩
  · rw [hstate, he, List.append_nil]
    exact h
  · rw [hstate, he]
    exact hqueue
  · rw [hstate, he, ← List.append_assoc]
    exact hstart arg accepted running hqueue

/-- Starting registers nothing and stops nothing, and its requests are those of queueing. -/
theorem start_effects (self : FwIsoIt) (cycleMatch : Option (UInt16 × UInt16)) (env : StartEnv) :
    let es := (self.start cycleMatch env).effects
    payloads es = [] ∧ .stopIso ∉ es ∧ ∀ arg packets answer, .queueIso arg packets answer ∈ es →
      .queueIso arg packets answer ∈ (self.state.queueChunks env.queueIso).effects := by
  have hnone := payloads_queueChunks self.state env.queueIso
  have hstop : .stopIso ∉ (self.state.queueChunks env.queueIso).effects := by
    intro hmem
    rcases (self.state.queueChunks_cases env.queueIso).1 _ hmem with he | ⟨_, _, _, he⟩ <;> cases he
  rcases self.start_cases cycleMatch env with
    ⟨_, he⟩ | ⟨_, ⟨_, he⟩ | ⟨arg, accepted, running, he, _⟩⟩
  · rw [he]
    exact ⟨rfl, by simp, by simp⟩
  · rw [he]
    exact ⟨hnone, hstop, fun _ _ _ hmem => hmem⟩
  · rw [he]
    refine ⟨?_, ?_, ?_⟩
    · rw [payloads_append, show payloads (queueChunks env.queueIso self).effects = [] from hnone]
      rfl
    · simpa [queueChunks] using hstop
    · intro arg packets answer hmem
      simpa [queueChunks] using hmem

abbrev pending (self : FwIsoIt) (es : List Effect) : List IsoPacket := held self.state es

def unsent (self : FwIsoIt) (es : List Effect) : List (List UInt8) :=
  (payloads es).rtake self.state.registeredChunkCount.toNat

/-- The writer stands behind the payloads of the pending packets, counted from where the queue
stands, and these stay inside the buffer. -/
structure Aligned (it : FwIsoIt) (es : List Effect) : Prop where
  mapped : Mapped it.state
  store : StoreInv .it it.state es
  offset_le : it.offset.toNat ≤ it.ringSize
  curr_lt : it.state.currOffset.toNat < it.ringSize
  agree : it.writePos =
    (it.state.currOffset.toNat + (payloadLengths (it.pending es)).sum) % it.ringSize
  fits : Ring.Fits it.ringSize it.state.currOffset.toNat (payloadLengths (it.pending es))
  lengths : payloadLengths (it.pending es) = (it.unsent es).map List.length

/-- What a packet that is registered does. -/
structure Registered (it : FwIsoIt) (es : List Effect) (o : Out FwIsoIt) (skip : Bool)
    (payload : List UInt8) (p : IsoPacket) : Prop where
  effects : o.effects = [.chunk p, .packet skip payload]
  mapped : Mapped o.state.state
  store : StoreInv .it o.state.state (es ++ o.effects)
  currOffset : o.state.state.currOffset = it.state.currOffset
  headerSize : o.state.state.headerSize = it.state.headerSize
  bytesPerChunk : o.state.state.bytesPerChunk = it.state.bytesPerChunk
  count : o.state.state.registeredChunkCount = it.state.registeredChunkCount + 1
  ringSize : o.state.ringSize = it.ringSize
  pending : o.state.pending (es ++ o.effects) = it.pending es ++ [p]
  length : p.payloadLength = payload.length
  payload_le : payload.length ≤ it.state.bytesPerChunk.toNat
  share : skip = false → p.bytes.length = 4 + it.state.headerSize.toNat
  empty : skip = true → payload = []
  written : it.writePos + payload.length ≤ it.ringSize →
    o.state.mem = it.mem.write it.writePos payload ∧
      o.state.offset.toNat ≤ it.ringSize ∧
      o.state.offset.toNat % it.ringSize = (it.writePos + payload.length) % it.ringSize

theorem lengths_of_accepts {st : FwIsoCtxState} {skip : Bool} {tags syncCode : UInt32}
    {header : ArrayArg} {payloadLength : UInt32} (hmode : st.mode = .it)
    (hacc : st.acceptsChunk skip tags syncCode header payloadLength) :
    payloadLength.toNat ≤ st.bytesPerChunk.toNat ∧ header.length.toNat ≤ st.headerSize.toNat ∧
      (skip = false → header.length = st.headerSize) := by
  simp only [FwIsoCtxState.acceptsChunk, hmode, decide_eq_true_eq, if_true] at hacc
  obtain ⟨_, _, hlengths⟩ := hacc
  cases skip with
  | false =>
    obtain ⟨hheader, hpayload⟩ := hlengths
    exact ⟨UInt32.le_iff_toNat_le.mp hpayload, hheader ▸ Nat.le_refl _, fun _ => hheader⟩
  | true =>
    obtain ⟨hpayload, hheader, _⟩ := hlengths
    rw [hpayload, hheader]
    exact ⟨Nat.zero_le _, Nat.zero_le _, by rintro ⟨⟩⟩

/-- **A packet is refused, or goes into the store and the buffer.** -/
theorem registerPacket_registered {self : FwIsoIt} {es : List Effect} (hmapped : Mapped self.state)
    (hstore : StoreInv .it self.state es) (hoff : self.offset.toNat ≤ self.ringSize)
    (tags syncCode : UInt32) (header payload : ArrayArg) (irq : Bool) :
    let o := self.registerPacket tags syncCode header payload irq
    (o.state = self ∧ o.effects = []) ∨
      ∃ skip p, Registered self es o skip payload.bytes p := by
  rcases self.registerPacket_cases tags syncCode header payload irq with
    hr | ⟨⟨hheader, hpayload⟩, hout⟩
  · exact .inl ⟨hr.state, hr.effects⟩
  set skip : Bool := decide (header.length = 0 ∧ payload.length = 0) with hskip
  have hskip' : skip = true → header.length = 0 ∧ payload.length = 0 :=
    fun hs => of_decide_eq_true hs
  have hplen := length_bytes_of_accepts hpayload
  rcases hstore.registerChunk_cases skip tags syncCode header payload.length irq with
    hr | ⟨⟨hacc, hroom, hfd, haddr⟩, block, hdata, hreg⟩
  · rcases hout with ⟨_, ho⟩ | ⟨hret, _⟩
    · refine .inl ⟨?_, ?_⟩ <;> simp only [ho, hr.state, hr.effects]
    · have hfalse := hr.ret
      rw [hret] at hfalse
      exact hfalse.elim
  set p := self.state.datum skip tags syncCode header payload.length irq with hp
  have hheader' : p.header.length = header.length.toNat :=
    length_header_datum hmapped.mode (fun hs => (hskip' hs).1) hheader
  obtain ⟨hpl, hhlen, hhl⟩ := lengths_of_accepts hmapped.mode hacc
  have hbytes := hmapped.bytes_le
  have hkept := keepsStore_registerPacket tags syncCode irq (hhlen.trans hmapped.header_le)
    (show payload.length.toNat < 16777216 by omega) self es hstore
  generalize hself₁ : ({ self with
    state := (self.state.registerChunk skip tags syncCode header payload.length irq).state } :
      FwIsoIt) = self₁ at hout
  have hmapped₁ : Mapped self₁.state := by
    rw [← hself₁, hreg]
    exact hmapped.congr rfl rfl rfl rfl rfl rfl rfl
  have hring : self₁.ringSize = self.ringSize := by
    rw [← hself₁, hreg]
    rfl
  have hpos : self₁.writePos = self.writePos := by
    rw [writePos, hring, ← hself₁]
    rfl
  have hoff₁ : self₁.offset.toNat ≤ self₁.ringSize := by
    rw [hring, ← hself₁]
    exact hoff
  have hle : payload.length.toNat ≤ self₁.ringSize := by
    rw [hring, ringSize, hmapped.bytesPerBuffer]
    exact hpl.trans (Nat.le_mul_of_pos_right _ hmapped.chunks_pos)
  rcases hout with ⟨hret, _⟩ | ⟨_, ⟨hnone, _⟩ | ⟨self', hw, ho⟩⟩
  · rw [hreg] at hret
    exact absurd rfl hret
  · obtain ⟨self', hsome⟩ : ∃ self', self₁.writePayload payload.bytes payload.length = some self' :=
      writePayload_isSome hmapped₁ hoff₁ hle
    rw [hnone] at hsome
    cases hsome
  have hstate : self'.state = self₁.state := writePayload_state hw
  have hring' : self'.ringSize = self.ringSize := by rw [ringSize, hstate, ← hring]; rfl
  have heffects : (self.state.registerChunk skip tags syncCode header payload.length irq).effects =
      [.chunk p] := by rw [hreg]
  rw [heffects] at ho
  beta_reduce at hkept
  rw [ho] at hkept
  refine .inr ⟨skip, p, ?_⟩
  rw [ho]
  refine ⟨rfl, by rw [hstate]; exact hmapped₁, hkept, ?_, ?_, ?_, ?_, hring', ?_, ?_, by omega,
    fun hs => ?_, fun hs => ?_, fun hfit => ?_⟩
  · rw [hstate, ← hself₁, hreg]
  · rw [hstate, ← hself₁, hreg]
  · rw [hstate, ← hself₁, hreg]
  · rw [hstate, ← hself₁, hreg]
  · have hcount : self'.state.registeredChunkCount = self.state.registeredChunkCount + 1 := by
      rw [hstate, ← hself₁, hreg]
    have hquiet : ∀ e ∈ [Effect.packet skip payload.bytes], e.Quiet := by simp [Effect.Quiet]
    have e : es ++ ([Effect.chunk p] ++ [.packet skip payload.bytes]) =
        es ++ [.chunk p] ++ [.packet skip payload.bytes] := by simp
    simp only [pending]
    rw [e, held, chunksSinceMap_quiet hquiet]
    exact hstore.held_chunk hcount
  · rw [hp, payloadLength_datum, if_pos hmapped.mode, hplen]
    omega
  · rw [p.length_bytes, hheader', hhl hs]
  · rw [← List.length_eq_zero_iff, hplen, (hskip' hs).2]
    rfl
  · rw [← hring, ← hpos, hplen] at hfit
    obtain ⟨offset, hwrite, hle', hmod⟩ := writePayload_of_fits hmapped₁ hoff₁ hplen hfit
    rw [hw, Option.some.injEq] at hwrite
    subst hwrite
    simp only at hle' hmod ⊢
    rw [hring] at hle' hmod
    refine ⟨by rw [hpos, ← hself₁], hle', ?_⟩
    rw [hmod, hplen, ← hpos, writePos, hring, Nat.mod_add_mod]

theorem registerPacket_of_unmapped {self : FwIsoIt} (haddr : self.state.addr = .null)
    (tags syncCode : UInt32) (header payload : ArrayArg) (irq : Bool) :
    let o := self.registerPacket tags syncCode header payload irq
    o.state = self ∧ o.effects = [] := by
  rcases self.registerPacket_cases tags syncCode header payload irq with hr | ⟨_, hout⟩
  · exact ⟨hr.state, hr.effects⟩
  rcases self.state.registerChunk_cases (decide (header.length = 0 ∧ payload.length = 0)) tags
    syncCode header payload.length irq with hr | ⟨⟨_, _, _, hne⟩, _⟩
  · rcases hout with ⟨_, ho⟩ | ⟨hret, _⟩
    · refine ⟨?_, ?_⟩ <;> simp only [ho, hr.state, hr.effects]
    · have hfalse := hr.ret
      rw [hret] at hfalse
      exact hfalse.elim
  · exact absurd haddr hne

/-! ### Queueing -/

namespace Aligned

variable {self : FwIsoIt} {es : List Effect}

theorem ring_pos (h : Aligned self es) : 0 < self.ringSize := h.mapped.ring_pos

theorem writePos_lt (h : Aligned self es) : self.writePos < self.ringSize :=
  Nat.mod_lt _ h.ring_pos

theorem quiet {es' : List Effect} (h : Aligned self es) (hquiet : ∀ e ∈ es', e.Quiet)
    (hnone : payloads es' = []) : Aligned self (es ++ es') := by
  have hpending : self.pending (es ++ es') = self.pending es := by
    simp only [pending, held, chunksSinceMap_quiet hquiet]
  refine ⟨h.mapped, h.store.quiet hquiet, h.offset_le, h.curr_lt, ?_, ?_, ?_⟩
  · rw [hpending]
    exact h.agree
  · rw [hpending]
    exact h.fits
  · rw [hpending, unsent, payloads_append, hnone, List.append_nil]
    exact h.lengths

theorem of_meet (hmapped : Mapped self.state) (hstore : StoreInv .it self.state es)
    (hcount : self.state.registeredChunkCount = 0) (hoff : self.offset.toNat ≤ self.ringSize)
    (hcurr : self.state.currOffset.toNat = self.writePos) : Aligned self es := by
  have hpending : self.pending es = [] := by
    simp only [pending, held, hcount]
    exact List.rtake_zero _
  have hunsent : self.unsent es = [] := by
    simp only [unsent, hcount]
    exact List.rtake_zero _
  have hlt : self.writePos < self.ringSize := Nat.mod_lt _ hmapped.ring_pos
  refine ⟨hmapped, hstore, hoff, by rw [hcurr]; exact hlt, ?_, ?_, ?_⟩
  · rw [hpending, hcurr, payloadLengths_nil, List.sum_nil, Nat.add_zero, Nat.mod_eq_of_lt hlt]
  · rw [hpending]
    exact trivial
  · rw [hpending, hunsent]
    rfl

theorem caughtUp {st : FwIsoCtxState} {es' : List Effect} (h : Aligned self es)
    (hstore : StoreInv .it st es') (hmapped : Mapped st)
    (hring : st.bytesPerBuffer = self.state.bytesPerBuffer) (hcount : st.registeredChunkCount = 0)
    (hcurr : st.currOffset.toNat = self.writePos) : Aligned { self with state := st } es' := by
  have hring' : ({ self with state := st } : FwIsoIt).ringSize = self.ringSize := by
    simp only [ringSize, hring]
  refine of_meet hmapped hstore hcount (by rw [hring']; exact h.offset_le) ?_
  rw [writePos, hring', hcurr]
  rfl

theorem queued (h : Aligned self es) (answers : Nat → QueueAnswer) :
    ∃ rounds rest, Queued self.state answers (self.pending es) rounds rest :=
  queueChunks_of_fits answers h.store.stores h.store.sized h.curr_lt h.fits

/-- **Queueing changes nothing, or catches up with the writer.** -/
theorem queueChunks_cases (h : Aligned self es) (answers : Nat → QueueAnswer) :
    let o := self.state.queueChunks answers
    o.state = self.state ∧ (∃ errno, o.ret = .failure (.ioctl .queueIso errno)) ∨
      o.ret = .success ∧ ∃ x : UInt32, x.toNat = self.writePos ∧ o.state =
        { self.state with currOffset := x, dataLength := 0, registeredChunkCount := 0 } := by
  obtain ⟨rounds, rest, hq⟩ := h.queued answers
  rcases hq.outcome with ⟨_, hret, x, hx, hstate⟩ | ⟨_, errno, _, hret, hstate⟩
  · refine .inr ⟨hret, x, ?_, hstate⟩
    rw [hx, h.agree]
    rfl
  · exact .inl ⟨hstate, errno, hret⟩

theorem queueChunks (h : Aligned self es) (answers : Nat → QueueAnswer) :
    Aligned (FwIsoIt.queueChunks answers self).state
      (es ++ (FwIsoIt.queueChunks answers self).effects) := by
  have hquiet := self.state.queueChunks_quiet answers
  have hstore : StoreInv .it (self.state.queueChunks answers).state
      (es ++ (self.state.queueChunks answers).effects) := h.store.queueChunks
  simp only [FwIsoIt.queueChunks, Out.map_state, Out.map_effects]
  rcases h.queueChunks_cases answers with ⟨hstate, _⟩ | ⟨_, x, hx, hstate⟩
  · rw [hstate]
    exact h.quiet hquiet (payloads_queueChunks self.state answers)
  · rw [hstate] at hstore ⊢
    exact h.caughtUp hstore (h.mapped.congr rfl rfl rfl rfl rfl rfl rfl) rfl rfl hx

theorem setRunning (h : Aligned self es) (running : Bool) :
    Aligned { self with state := { self.state with running := running } } es := by
  have hstore : StoreInv .it { self.state with running := running } (es ++ []) :=
    h.store.frame rfl rfl rfl rfl rfl rfl rfl (by simp)
  rw [List.append_nil] at hstore
  exact ⟨h.mapped.congr rfl rfl rfl rfl rfl rfl rfl, hstore, h.offset_le, h.curr_lt, h.agree,
    h.fits, h.lengths⟩

theorem start (h : Aligned self es) (cycleMatch : Option (UInt16 × UInt16)) (env : StartEnv) :
    Aligned (self.start cycleMatch env).state (es ++ (self.start cycleMatch env).effects) :=
  start_keeps cycleMatch env h (h.queueChunks env.queueIso) fun _ _ running h =>
    (h.quiet (by simp [Effect.Quiet]) rfl).setRunning running

theorem stop (h : Aligned self es) (hpos : self.state.running = true → self.writePos = 0) :
    Aligned (Ctx.onState FwIsoCtxState.stop self).state
      (es ++ (Ctx.onState FwIsoCtxState.stop self).effects) := by
  cases hrun : self.state.running with
  | false =>
    rw [onState_stop_of_not_running hrun, List.append_nil]
    exact h
  | true =>
    have hstore := h.store.stop
    rw [FwIsoCtxState.stop_of_running hrun] at hstore
    rw [onState_stop_of_running hrun]
    exact h.caughtUp hstore (h.mapped.congr rfl rfl rfl rfl rfl rfl rfl) rfl rfl (hpos hrun).symm

theorem registered {o : Out FwIsoIt} {skip : Bool} {payload : List UInt8} {p : IsoPacket}
    (h : Aligned self es) (hr : Registered self es o skip payload p)
    (hfit : self.writePos + payload.length ≤ self.ringSize) :
    Aligned o.state (es ++ o.effects) := by
  obtain ⟨_, hoff, hmod⟩ := hr.written hfit
  have hcount : o.state.state.registeredChunkCount.toNat =
      self.state.registeredChunkCount.toNat + 1 := by
    rw [hr.count, h.store.stores.count_succ]
  refine ⟨hr.mapped, hr.store, by rw [hr.ringSize]; exact hoff, ?_, ?_, ?_, ?_⟩
  · rw [hr.currOffset, hr.ringSize]
    exact h.curr_lt
  · rw [writePos, hr.ringSize, hmod, hr.pending, hr.currOffset, h.agree, Nat.mod_add_mod,
      payloadLengths_append, List.sum_append, payloadLengths_cons, hr.length, Nat.add_assoc]
    rfl
  · rw [hr.pending, hr.ringSize, hr.currOffset, payloadLengths_append, Ring.fits_append h.curr_lt,
      payloadLengths_cons, hr.length, ← h.agree]
    exact ⟨h.fits, hfit, trivial⟩
  · have hp : payloads (es ++ o.effects) = payloads es ++ [payload] := by
      rw [hr.effects, payloads_append]
      rfl
    rw [hr.pending, unsent, hp, hcount, List.rtake_concat_succ, payloadLengths_append,
      List.map_append, h.lengths]
    simp [hr.length, unsent]

end Aligned

/-- A context that has just been allocated and mapped. -/
def Fresh (self : FwIsoIt) (bytesPerChunk chunksPerBuffer headerSize : UInt32) : Prop :=
  ∃ (path : Option String) (scode channel : UInt32) (allocateEnv : AllocateEnv)
      (mapEnv : MapEnv) (mem : ByteMem),
    let a := new.allocate path scode channel headerSize allocateEnv
    let m := a.state.mapBuffer bytesPerChunk chunksPerBuffer mapEnv mem
    a.ret = .success ∧ m.ret = .success ∧ self = m.state

/-- **The cursors of a fresh context** stand at the start. -/
theorem Fresh.aligned {self : FwIsoIt} {bytesPerChunk chunksPerBuffer headerSize : UInt32}
    (h : self.Fresh bytesPerChunk chunksPerBuffer headerSize)
    (hbytes : bytesPerChunk.toNat ≤ 65535)
    (hbuffer : bytesPerChunk.toNat * chunksPerBuffer.toNat < 2 ^ 31)
    (hheader : headerSize.toNat ≤ 255) :
    Aligned self [] ∧ self.state.currOffset = 0 ∧ self.state.registeredChunkCount = 0 := by
  obtain ⟨path, scode, channel, allocateEnv, mapEnv, mem, hret, hmap, rfl⟩ := h
  simp only [allocate] at hret hmap ⊢
  split at hret
  · cases hret
  next hchannel =>
  simp only [hchannel, if_false] at hmap ⊢
  obtain ⟨fd, handle, ha⟩ := FwIsoCtxState.allocate_of_success hret
  simp only [mapBuffer, Out.map_ret, Out.map_state, ha] at hmap ⊢
  obtain ⟨_, _, id, hid, hstate⟩ := FwIsoCtxState.mapBuffer_of_success hmap
  have hallocated : StoreInv .it { new.state with
      fd := fd, handle := handle, mode := .it, headerSize := headerSize } [] :=
    .empty (fun _ => rfl) (fun _ => rfl) rfl rfl fun hne => absurd rfl hne
  have hstore := hallocated.mapBuffer bytesPerChunk chunksPerBuffer hid
  have hmapped := Mapped.of_mapBuffer (Int.natCast_nonneg fd) rfl hheader hbytes hbuffer hmap
  generalize (FwIsoCtxState.mapBuffer _ bytesPerChunk chunksPerBuffer mapEnv).state = st
    at hstore hmapped hstate ⊢
  have hcurr : st.currOffset = 0 := by rw [hstate]; rfl
  have hlen : st.dataLength = 0 := by rw [hstate]; rfl
  have hcount : st.registeredChunkCount = 0 := by rw [hstate]; rfl
  refine ⟨Aligned.of_meet hmapped (.empty hstore.mode hstore.unallocated hlen hcount hstore.live)
    hcount (Nat.zero_le _) ?_, hcurr, hcount⟩
  rw [hcurr]
  exact (Nat.zero_mod _).symm

/-! ### Requests -/

def earlier (self : FwIsoIt) (arg : QueueIso) : List IsoPacket :=
  packetsOfRequest true (self.state.packetsOf ⟨0, arg.packets, 0, 0⟩)

/-- Of values for all packets that have been registered, those for the packets of a request. -/
def ofRequest {α : Type} (values : List α) (self : FwIsoIt) (arg : QueueIso)
    (packets : List UInt8) : List α :=
  ((values.rtake self.state.registeredChunkCount.toNat).drop (self.earlier arg).length).take
    (packetsOfRequest true packets).length

/-- **A request designates the places of its packets.** -/
theorem Aligned.request {self : FwIsoIt} {es : List Effect} (h : Aligned self es)
    {answers : Nat → QueueAnswer} {arg : QueueIso} {packets : List UInt8} {answer : QueueAnswer}
    (he : .queueIso arg packets answer ∈ (self.state.queueChunks answers).effects) :
    ∃ front batch back, self.pending es = front ++ batch ++ back ∧
      self.earlier arg = front ∧ packetsOfRequest true packets = batch ∧
      designated true arg packets = Ring.places self.ringSize
        ((self.state.currOffset.toNat + (payloadLengths front).sum) % self.ringSize)
        (payloadLengths batch) := by
  obtain ⟨rounds, rest, hq⟩ := h.queued answers
  obtain ⟨front, batch, back, hsplit, hpackets, rfl, hstarts⟩ :=
    hq.request h.store.stores h.curr_lt he
  have hsized := h.store.sized
  have hstores := h.store.stores
  simp only [pending] at hsplit
  rw [hsplit] at hsized hstores
  have hbatch : packetsOfRequest true (packetBytes batch) = batch :=
    packetsOfRequest_it h.mapped.mode fun p hp => hsized p (by simp [hp])
  refine ⟨front, batch, back, hsplit, ?_, hbatch, ?_⟩
  · have hfront : self.state.packetsOf ⟨0, arg.packets, 0, 0⟩ = packetBytes front :=
      packetsOf_of_stores _ (show Stores self.state ([] ++ front ++ (batch ++ back)) by
        simpa using hstores) rfl hpackets
    rw [earlier, hfront]
    exact packetsOfRequest_it h.mapped.mode fun p hp => hsized p (by simp [hp])
  · rw [designated, hbatch]
    exact hstarts

/-! ### Every request of a trace -/

/-- If there is a request at this place of the trace, it is good after what came before. -/
def requestAt (good : List (Effect × FwIsoIt) → FwIsoIt → QueueIso → List UInt8 → Bool)
    (t : List (Effect × FwIsoIt)) (i : Nat) : Bool :=
  match t[i]? with
  | some (.queueIso arg packets _, self) => good (t.take i) self arg packets
  | _ => true

def EveryRequest (good : List (Effect × FwIsoIt) → FwIsoIt → QueueIso → List UInt8 → Bool)
    (t : List (Effect × FwIsoIt)) : Prop := ∀ i, requestAt good t i = true

variable {good : List (Effect × FwIsoIt) → FwIsoIt → QueueIso → List UInt8 → Bool}

theorem everyRequest_nil : EveryRequest good [] := fun _ => rfl

theorem EveryRequest.append {t : List (Effect × FwIsoIt)} {es : List Effect} {self : FwIsoIt}
    (h : EveryRequest good t)
    (hnew : ∀ i arg packets answer, es[i]? = some (.queueIso arg packets answer) →
      good (t ++ (es.take i).map fun e => (e, self)) self arg packets = true) :
    EveryRequest good (t ++ es.map fun e => (e, self)) := by
  intro i
  rcases Nat.lt_or_ge i t.length with hlt | hge
  · have hi := h i
    rw [requestAt, List.getElem?_append_left hlt, List.take_append_of_le_length (by omega)]
    exact hi
  · obtain ⟨j, rfl⟩ := Nat.exists_eq_add_of_le hge
    rw [requestAt, List.getElem?_append_right (Nat.le_add_right _ _), Nat.add_sub_cancel_left,
      List.getElem?_map]
    cases hj : es[j]? with
    | none => rfl
    | some e =>
      simp only [Option.map_some]
      split
      next arg packets answer self' heq =>
        simp only [Option.some.injEq, Prod.mk.injEq] at heq
        obtain ⟨rfl, rfl⟩ := heq
        rw [List.take_length_add_append, ← List.map_take]
        exact hnew j arg packets answer hj
      · rfl

theorem EveryRequest.append_of_none {t : List (Effect × FwIsoIt)} {es : List Effect}
    {self : FwIsoIt} (h : EveryRequest good t)
    (hnone : ∀ e ∈ es, ∀ arg packets answer, e ≠ .queueIso arg packets answer) :
    EveryRequest good (t ++ es.map fun e => (e, self)) :=
  h.append fun _ arg packets answer he =>
    absurd rfl (hnone _ (List.mem_of_getElem? he) arg packets answer)

end FwIsoIt

end Hinoko
