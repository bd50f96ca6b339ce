import Hinoko.Queue
import Hinoko.Steps

/-!
# The store over the life of a context

`data` is allocated with the mapping, filled by `register_chunk`, emptied by queueing
and stopping, and freed with the mapping.  `StoreInv` says that it holds the packets
registered since the last mapping, those that have not been queued yet.

* `StoreInv.registerChunk`, `StoreInv.queueChunks`, …: each function keeps it.
* `StoreInv.sound`: what follows for the memory that queueing reads (`StoreSound`).
-/

namespace Hinoko

open Reentrant

def chunksSinceMap (es : List Effect) : List IsoPacket :=
  es.foldl (fun ps e =>
    match e with
    | .mmap _ _ _ => []
    | .chunk packet => ps ++ [packet]
    | _ => ps) []

/-- The packets that `registered_chunk_count` stands for. -/
def held (st : FwIsoCtxState) (es : List Effect) : List IsoPacket :=
  (chunksSinceMap es).rtake st.registeredChunkCount.toNat

theorem chunksSinceMap_quiet {es es' : List Effect} (h : ∀ e ∈ es', e.Quiet) :
    chunksSinceMap (es ++ es') = chunksSinceMap es := by
  induction es' generalizing es with
  | nil => rw [List.append_nil]
  | cons e es' ih =>
    have he : chunksSinceMap (es ++ [e]) = chunksSinceMap es := by
      have hquiet := h e List.mem_cons_self
      rw [chunksSinceMap, List.foldl_append]
      cases e with
      | mmap length writable answer => exact hquiet.elim
      | chunk packet => exact hquiet.elim
      | _ => rfl
    rw [← he, ← @ih (es ++ [e]) fun e' he' => h e' (by simp [he']), List.append_assoc]
    rfl

theorem chunksSinceMap_chunk (es : List Effect) (p : IsoPacket) :
    chunksSinceMap (es ++ [.chunk p]) = chunksSinceMap es ++ [p] := by
  simp [chunksSinceMap]

def Effect.isMunmap : Effect → Bool
  | .munmap _ => true
  | _ => false

/-- The store of a context of this kind holds what has been registered since the last mapping and
not been queued. -/
structure StoreInv (kind : FwIsoCtxMode) (st : FwIsoCtxState) (es : List Effect) : Prop where
  mode : 0 ≤ st.fd → st.mode = kind
  unallocated : st.fd < 0 → st.addr = .null
  unmapped : st.addr = .null → st.dataLength = 0
  room : st.dataLength.toNat ≤ st.allocDataLength.toNat
  live : st.addr ≠ .null → 0 < st.allocDataLength.toNat →
    ∃ block, st.data = some block ∧ st.allocDataLength.toNat ≤ block.size
  stores : Stores st (held st es)
  sized : ∀ p ∈ held st es, Sized st p

theorem stores_nil {st : FwIsoCtxState} (hlen : st.dataLength = 0)
    (hcount : st.registeredChunkCount = 0) : Stores st [] :=
  ⟨by simp [hlen], by simp [hcount], fun h => absurd rfl h⟩

theorem Stores.eq_nil {st : FwIsoCtxState} {ps : List IsoPacket} (h : Stores st ps)
    (hlen : st.dataLength = 0) : ps = [] ∧ st.registeredChunkCount = 0 := by
  have h4 := four_mul_length_le ps
  have hl := h.length
  have hc := h.count
  rw [hlen] at hl
  simp only [UInt32.toNat_zero] at hl
  have hps : ps = [] := List.length_eq_zero_iff.mp (by omega)
  refine ⟨hps, UInt32.toNat_inj.mp ?_⟩
  rw [← hc, hps]
  rfl

theorem Stores.count_succ {st : FwIsoCtxState} {ps : List IsoPacket} (h : Stores st ps) :
    (st.registeredChunkCount + 1).toNat = st.registeredChunkCount.toNat + 1 := by
  have h4 := four_mul_length_le ps
  have hl := h.length
  have hc := h.count
  have hlt := st.dataLength.toNat_lt
  rw [UInt32.toNat_add, UInt32.toNat_one]
  omega

/-- A block that is asked for is at least as long as the product says, which may have wrapped. -/
theorem gMallocN_of_pos (id : Nat) (fill : ByteMem) {count size : UInt32}
    (hpos : 0 < (count * size).toNat) :
    ∃ block, gMallocN id fill count size = some block ∧ (count * size).toNat ≤ block.size := by
  have hmul := UInt32.toNat_mul count size
  have hle := Nat.mod_le (count.toNat * size.toNat) (2 ^ 32)
  exact ⟨_, if_neg (by omega), by simp only; omega⟩

namespace StoreInv

variable {kind : FwIsoCtxMode} {st : FwIsoCtxState} {es : List Effect}

theorem empty (hmode : 0 ≤ st.fd → st.mode = kind) (hfd : st.fd < 0 → st.addr = .null)
    (hlen : st.dataLength = 0)
    (hcount : st.registeredChunkCount = 0)
    (hlive : st.addr ≠ .null → 0 < st.allocDataLength.toNat →
      ∃ block, st.data = some block ∧ st.allocDataLength.toNat ≤ block.size) :
    StoreInv kind st es := by
  have hheld : held st es = [] := by
    rw [held, hcount]
    exact List.rtake_zero _
  refine ⟨hmode, hfd, fun _ => hlen, by simp [hlen], hlive, ?_, ?_⟩
  · rw [hheld]
    exact stores_nil hlen hcount
  · rw [hheld]
    exact fun p hp => by simp at hp

theorem init : StoreInv kind {} [] :=
  empty (fun h => absurd h (by decide)) (fun _ => rfl) rfl rfl fun h => absurd rfl h

theorem count_eq_zero (h : StoreInv kind st es) (hlen : st.dataLength = 0) :
    st.registeredChunkCount = 0 :=
  (h.stores.eq_nil hlen).2

theorem forget {es' : List Effect} (h : StoreInv kind st es) (hlen : st.dataLength = 0) :
    StoreInv kind st es' :=
  empty h.mode h.unallocated hlen (h.count_eq_zero hlen) h.live

theorem frame {st' : FwIsoCtxState} {es' : List Effect} (h : StoreInv kind st es)
    (hfd : st'.fd = st.fd) (haddr : st'.addr = st.addr) (hdata : st'.data = st.data)
    (hlen : st'.dataLength = st.dataLength) (halloc : st'.allocDataLength = st.allocDataLength)
    (hcount : st'.registeredChunkCount = st.registeredChunkCount) (hmode : st'.mode = st.mode)
    (hquiet : ∀ e ∈ es', e.Quiet) : StoreInv kind st' (es ++ es') := by
  have hheld : held st' (es ++ es') = held st es := by
    rw [held, held, chunksSinceMap_quiet hquiet, hcount]
  refine ⟨?_, ?_, ?_, ?_, ?_, ?_, ?_⟩
  · rw [hfd, hmode]
    exact h.mode
  · rw [hfd, haddr]
    exact h.unallocated
  · rw [haddr, hlen]
    exact h.unmapped
  · rw [hlen, halloc]
    exact h.room
  · rw [haddr, hdata, halloc]
    exact h.live
  · rw [hheld]
    exact ⟨by rw [hlen]; exact h.stores.length, by rw [hcount]; exact h.stores.count,
      by rw [hdata, hlen]; exact h.stores.live⟩
  · rw [hheld]
    intro p hp
    rw [sized_iff, hmode]
    exact sized_iff.mp (h.sized p hp)

theorem quiet {es' : List Effect} (h : StoreInv kind st es) (hquiet : ∀ e ∈ es', e.Quiet) :
    StoreInv kind st (es ++ es') :=
  h.frame rfl rfl rfl rfl rfl rfl rfl hquiet

theorem clear {st' : FwIsoCtxState} {es' : List Effect} (h : StoreInv kind st es)
    (hfd : st'.fd = st.fd) (haddr : st'.addr = st.addr) (hdata : st'.data = st.data)
    (hlen : st'.dataLength = 0) (halloc : st'.allocDataLength = st.allocDataLength)
    (hcount : st'.registeredChunkCount = 0) (hmode : st'.mode = st.mode) :
    StoreInv kind st' (es ++ es') := by
  refine empty ?_ ?_ hlen hcount ?_
  · rw [hfd, hmode]
    exact h.mode
  · rw [hfd, haddr]
    exact h.unallocated
  · rw [haddr, hdata, halloc]
    exact h.live

theorem release (h : StoreInv kind st es) (haddr : st.addr = .null) :
    StoreInv kind st.release.state (es ++ st.release.effects) :=
  empty (fun hfd => absurd hfd (by simp [FwIsoCtxState.release])) (fun _ => haddr)
      (h.unmapped haddr) (h.count_eq_zero (h.unmapped haddr))
    fun hne => absurd haddr hne

theorem allocate {path : Option String} {scode channel headerSize : UInt32}
    {env : AllocateEnv} (h : StoreInv kind st es) :
    StoreInv kind (st.allocate path kind scode channel headerSize env).state
      (es ++ (st.allocate path kind scode channel headerSize env).effects) := by
  rcases st.allocate_cases path kind scode channel headerSize env with hr | ⟨hfd, _, hout⟩
  · rw [hr.state, hr.effects, List.append_nil]
    exact h
  · have haddr := h.unallocated hfd
    have hlen := h.unmapped haddr
    have hcount := h.count_eq_zero hlen
    rcases hout with ⟨_, hstate⟩ | ⟨_, fd, handle, hstate⟩
    · rw [hstate]
      exact empty (fun hfd' => absurd hfd' (by simp)) (fun _ => haddr) hlen hcount
        fun hne => absurd haddr hne
    · rw [hstate]
      exact empty (fun _ => rfl) (fun _ => haddr) hlen hcount fun hne => absurd haddr hne

theorem mapBuffer (bytesPerChunk chunksPerBuffer : UInt32) {env : MapEnv} {id : Nat}
    (h : StoreInv kind st es) (hmmap : env.mmap = .ok id) :
    StoreInv kind (st.mapBuffer bytesPerChunk chunksPerBuffer env).state
      (es ++ (st.mapBuffer bytesPerChunk chunksPerBuffer env).effects) := by
  rcases st.mapBuffer_cases bytesPerChunk chunksPerBuffer env with
    hr | ⟨⟨_, _, hfd, haddr⟩, _, ⟨errno, he, _⟩ | ⟨_, _, _, hstate⟩⟩
  · rw [hr.state, hr.effects, List.append_nil]
    exact h
  · rw [hmmap] at he
    cases he
  · have hlen := h.unmapped haddr
    rw [hstate]
    refine empty (fun _ => h.mode hfd) (fun hneg => absurd hneg (by simpa using hfd)) hlen
        (h.count_eq_zero hlen) ?_
    exact fun _ hpos => gMallocN_of_pos env.dataBlock env.dataFill hpos

theorem unmapBuffer (h : StoreInv kind st es) (hempty : st.addr ≠ .null → st.dataLength = 0) :
    StoreInv kind st.unmapBuffer.state (es ++ st.unmapBuffer.effects) := by
  have hlen : st.dataLength = 0 := by
    by_cases haddr : st.addr = .null
    · exact h.unmapped haddr
    · exact hempty haddr
  exact empty h.mode (fun _ => rfl) hlen (h.count_eq_zero hlen) fun hne => absurd rfl hne

theorem content {block : Block} (h : StoreInv kind st es) (hdata : st.data = some block) :
    block.bytes.read 0 st.dataLength.toNat = packetBytes (held st es) := by
  by_cases hne : held st es = []
  · have hl := h.stores.length
    rw [hne] at hl ⊢
    rw [← hl]
    rfl
  · obtain ⟨block', hdata', _, hread⟩ := h.stores.live hne
    rw [hdata] at hdata'
    cases hdata'
    exact hread

theorem held_chunk {st' : FwIsoCtxState} {p : IsoPacket} (h : StoreInv kind st es)
    (hcount : st'.registeredChunkCount = st.registeredChunkCount + 1) :
    held st' (es ++ [.chunk p]) = held st es ++ [p] := by
  rw [held, hcount, h.stores.count_succ, chunksSinceMap_chunk, List.rtake_concat_succ]
  rfl

theorem registerChunk_cases (h : StoreInv kind st es) (skip : Bool) (tags syncCode : UInt32)
    (header : ArrayArg) (payloadLength : UInt32) (irq : Bool) :
    let o := st.registerChunk skip tags syncCode header payloadLength irq
    let packet := st.datum skip tags syncCode header payloadLength irq
    Refused st o ∨ (st.acceptsChunk skip tags syncCode header payloadLength ∧
        st.dataLength.toNat + 4 + header.length.toNat ≤ st.allocDataLength.toNat ∧
        0 ≤ st.fd ∧ st.addr ≠ .null) ∧
      ∃ block, st.data = some block ∧ o = ⟨{ st with
        data := some { block with bytes := block.bytes.write st.dataLength.toNat packet.bytes }
        dataLength := st.dataLength + (sizeofFwCdevIsoPacket + header.length)
        registeredChunkCount := st.registeredChunkCount + 1 }, .success, [.chunk packet]⟩ := by
  rcases st.registerChunk_cases skip tags syncCode header payloadLength irq with
    hr | ⟨⟨hacc, hroom, hfd, haddr⟩, ⟨hnone, _⟩ | hout⟩
  · exact .inl hr
  · obtain ⟨block, hdata, _⟩ := h.live haddr (by omega)
    rw [hnone] at hdata
    cases hdata
  · exact .inr ⟨⟨hacc, hroom, hfd, haddr⟩, hout⟩

/-- **A registered packet is appended to the store.** -/
theorem registerChunk {skip : Bool} {tags syncCode : UInt32} {header : ArrayArg}
    {payloadLength : UInt32} {irq : Bool} (h : StoreInv kind st es)
    (hbytes : st.mode = kind →
      (st.datum skip tags syncCode header payloadLength irq).header.length = header.length.toNat)
    (hsized : st.mode = kind → st.acceptsChunk skip tags syncCode header payloadLength →
      Sized st (st.datum skip tags syncCode header payloadLength irq)) :
    StoreInv kind (st.registerChunk skip tags syncCode header payloadLength irq).state
      (es ++ (st.registerChunk skip tags syncCode header payloadLength irq).effects) := by
  rcases h.registerChunk_cases skip tags syncCode header payloadLength irq with
    hr | ⟨⟨hacc, hroom, hfd, haddr⟩, block, hdata, ho⟩
  · rw [hr.state, hr.effects, List.append_nil]
    exact h
  · rw [ho]
    set p := st.datum skip tags syncCode header payloadLength irq with hp
    have hst := h.stores
    have halloc := st.allocDataLength.toNat_lt
    have hpl : p.bytes.length = 4 + header.length.toNat := by
      rw [p.length_bytes, hbytes (h.mode hfd)]
    have hlen' : (st.dataLength + (sizeofFwCdevIsoPacket + header.length)).toNat =
        st.dataLength.toNat + p.bytes.length := by
      have h4 : sizeofFwCdevIsoPacket.toNat = 4 := rfl
      rw [UInt32.toNat_add, UInt32.toNat_add, h4, hpl]
      omega
    obtain ⟨block', hdata', hsize⟩ := h.live haddr (by omega)
    rw [hdata] at hdata'
    cases hdata'
    refine ⟨h.mode, fun hneg => absurd hneg (by simpa using hfd), fun hnull => absurd hnull
        haddr, ?_,
      fun _ _ => ⟨_, rfl, hsize⟩, ?_, ?_⟩
    · simp only [hlen']
      omega
    · rw [h.held_chunk rfl]
      refine ⟨?_, ?_, fun _ => ⟨_, rfl, ?_, ?_⟩⟩
      · rw [hlen', packetBytes_append, List.length_append, hst.length]
        simp
      · rw [List.length_append, hst.count, hst.count_succ]
        rfl
      · simp only [hlen']
        omega
      · have happ := ByteMem.read_write_append block.bytes 0 st.dataLength.toNat p.bytes
        rw [Nat.zero_add] at happ
        simp only [hlen', packetBytes_append, packetBytes_cons, packetBytes_nil, List.append_nil]
        rw [happ, h.content hdata]
    · rw [h.held_chunk rfl]
      intro q hq
      rcases List.mem_append.mp hq with hq | hq
      · exact sized_iff.mpr (sized_iff.mp (h.sized q hq))
      · rw [List.mem_singleton.mp hq]
        exact sized_iff.mpr (sized_iff.mp (hsized (h.mode hfd) hacc))

theorem queueChunks {answers : Nat → QueueAnswer} (h : StoreInv kind st es) :
    StoreInv kind (st.queueChunks answers).state (es ++ (st.queueChunks answers).effects) := by
  have hquiet := st.queueChunks_quiet answers
  rcases (st.queueChunks_cases answers).2 with ⟨hstate, _⟩ | ⟨_, x, hstate⟩
  · rw [hstate]
    exact h.quiet hquiet
  · rw [hstate]
    exact h.clear rfl rfl rfl rfl rfl rfl rfl

theorem queueChunks_empty (h : StoreInv kind st es) (hlen : st.dataLength = 0)
    (answers : Nat → QueueAnswer) : st.queueChunks answers = ⟨st, .success, []⟩ := by
  obtain ⟨hps, hcount⟩ := h.stores.eq_nil hlen
  have hst := h.stores
  rw [hps] at hst
  rw [queueChunks_eq answers hst (by simp)]
  obtain ⟨_, _, _, _, _, _, _, _, _, _, _, _, _⟩ := st
  simp only at hlen hcount
  subst hlen hcount
  rfl

theorem start {cycleMatch : Option (UInt16 × UInt16)} {syncCode tags : UInt32} {env : StartEnv}
    (h : StoreInv kind st es) : StoreInv kind (st.start cycleMatch syncCode tags env).state
      (es ++ (st.start cycleMatch syncCode tags env).effects) := by
  rcases st.start_cases cycleMatch syncCode tags env with
    hr | ⟨_, ⟨_, ho⟩ | ⟨_, ⟨errno, _, ho⟩ | ⟨_, ho⟩⟩⟩
  · rw [hr.state, hr.effects, List.append_nil]
    exact h
  · rw [ho]
    exact h.queueChunks
  · rw [ho, ← List.append_assoc]
    exact h.queueChunks.quiet (by simp [Effect.Quiet])
  · rw [ho, ← List.append_assoc]
    exact h.queueChunks.frame rfl rfl rfl rfl rfl rfl rfl (by simp [Effect.Quiet])

theorem stop (h : StoreInv kind st es) : StoreInv kind st.stop.state (es ++ st.stop.effects) := by
  cases hrun : st.running with
  | false =>
    rw [FwIsoCtxState.stop_of_not_running hrun, List.append_nil]
    exact h
  | true =>
    rw [FwIsoCtxState.stop_of_running hrun]
    exact h.clear rfl rfl rfl rfl rfl rfl rfl

end StoreInv

/-- What holds of the memory: it is there, it holds the bytes of the packets that
`registered_chunk_count` stands for, and queueing reads no others.  A store cut off behind
`data_length`, with any bytes elsewhere, serves as well. -/
structure StoreSound (st : FwIsoCtxState) (es : List Effect) : Prop where
  room : st.dataLength.toNat ≤ st.allocDataLength.toNat
  live : 0 < st.dataLength.toNat →
    ∃ block, st.data = some block ∧ st.allocDataLength.toNat ≤ block.size
  count : st.registeredChunkCount.toNat ≤ (chunksSinceMap es).length
  length : (packetBytes (held st es)).length = st.dataLength.toNat
  content : ∀ block, st.data = some block →
    block.bytes.read 0 st.dataLength.toNat = packetBytes (held st es)
  inBounds : ∀ answers, (st.queueChunks answers).ret ≠ .crashed .outOfBounds
  confined : ∀ answers block bytes, st.data = some block →
    bytes.read 0 st.dataLength.toNat = block.bytes.read 0 st.dataLength.toNat →
    let cut := { st with data := some ⟨block.id, st.dataLength.toNat, bytes⟩ }
    (cut.queueChunks answers).ret = (st.queueChunks answers).ret ∧
      (cut.queueChunks answers).effects = (st.queueChunks answers).effects

theorem StoreInv.sound {kind : FwIsoCtxMode} {st : FwIsoCtxState} {es : List Effect}
    (h : StoreInv kind st es) :
    StoreSound st es := by
  refine ⟨h.room, fun hpos => ?_, ?_, h.stores.length, fun block hdata => h.content hdata,
    fun answers => queueChunks_ne_outOfBounds answers h.stores h.sized, ?_⟩
  · have hroom := h.room
    refine h.live (fun haddr => ?_) (by omega)
    rw [h.unmapped haddr] at hpos
    simp at hpos
  · rw [← h.stores.count, held, List.rtake, List.length_drop]
    omega
  · intro answers block bytes hdata hbytes
    refine queueChunks_confined answers h.stores ⟨h.stores.length, h.stores.count, fun _ => ?_⟩
      h.sized
    exact ⟨_, rfl, Nat.le_refl _, hbytes.trans (h.content hdata)⟩

end Hinoko
