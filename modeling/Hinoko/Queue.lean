import Hinoko.Control
import Hinoko.Lib.Ring

/-!
# Queueing, packet by packet

`queueChunks` walks the bytes of the store.  Here the same loops run on the packets
that the bytes stand for: `gather` is the inner loop, `queueRounds` the outer one,
and a `Round` is what one request is about.

* `queueChunks_eq`: if the store holds the packets (`Stores`) and every control word
  says how long its header is (`Sized`), the two agree.
* `rounds_partition`: the rounds hand out the packets in order, each once.
* `rounds_of_fits`: if no payload crosses the end of the buffer (`Ring.Fits`), every
  packet is designated at its place (`Ring.places`), and the loop ends.
-/

namespace Hinoko

def packetBytes (ps : List IsoPacket) : List UInt8 := ps.flatMap IsoPacket.bytes

@[simp] theorem packetBytes_nil : packetBytes [] = [] := rfl

@[simp] theorem packetBytes_cons (p : IsoPacket) (ps : List IsoPacket) :
    packetBytes (p :: ps) = p.bytes ++ packetBytes ps := rfl

@[simp] theorem packetBytes_append (ps qs : List IsoPacket) :
    packetBytes (ps ++ qs) = packetBytes ps ++ packetBytes qs := List.flatMap_append

theorem IsoPacket.length_bytes (p : IsoPacket) : p.bytes.length = 4 + p.header.length := by
  simp [IsoPacket.bytes]

theorem four_mul_length_le (ps : List IsoPacket) : 4 * ps.length ≤ (packetBytes ps).length := by
  induction ps with
  | nil => simp
  | cons p ps ih =>
    have := p.length_bytes
    simp only [List.length_cons, packetBytes_cons, List.length_append]
    omega

/-- The first `data_length` bytes of the store are those of the packets. -/
structure Stores (st : FwIsoCtxState) (ps : List IsoPacket) : Prop where
  length : (packetBytes ps).length = st.dataLength.toNat
  count : ps.length = st.registeredChunkCount.toNat
  live : ps ≠ [] → ∃ block, st.data = some block ∧ st.dataLength.toNat ≤ block.size ∧
    block.bytes.read 0 st.dataLength.toNat = packetBytes ps

/-- The walk steps over the packet exactly. -/
def Sized (st : FwIsoCtxState) (p : IsoPacket) : Prop :=
  (st.datumLength p.control).toNat = p.bytes.length

theorem length_packetBytes_ir {st : FwIsoCtxState} (hmode : st.mode ≠ .it) {ps : List IsoPacket}
    (hsized : ∀ p ∈ ps, Sized st p) : (packetBytes ps).length = 4 * ps.length := by
  induction ps with
  | nil => rfl
  | cons p ps ih =>
    have hfirst := hsized p List.mem_cons_self
    rw [Sized, FwIsoCtxState.datumLength, if_neg hmode] at hfirst
    have h4 : (sizeofFwCdevIsoPacket + 0).toNat = 4 := rfl
    have hrest := ih fun q hq => hsized q (List.mem_cons_of_mem p hq)
    simp only [packetBytes_cons, List.length_append, List.length_cons]
    omega

/-! ### The inner loop -/

/-- Where the inner loop leaves off. -/
structure Gathered where
  batch : List IsoPacket
  rest : List IsoPacket
  bufOffset : UInt32
  bufLength : UInt32

def gather (bytesPerBuffer x len : UInt32) : List IsoPacket → Gathered
  | [] => ⟨[], [], x, len⟩
  | p :: ps =>
    if x + len < bytesPerBuffer then
      let payloadLength := fwCdevIsoPacketControlToPayloadLength p.control
      if bytesPerBuffer < x + len + payloadLength then ⟨[], p :: ps, 0, len⟩
      else
        let g := gather bytesPerBuffer x (len + payloadLength) ps
        ⟨p :: g.batch, g.rest, g.bufOffset, g.bufLength⟩
    else ⟨[], p :: ps, x, len⟩

theorem gather_append (B : UInt32) : ∀ (ps : List IsoPacket) (x len : UInt32),
    (gather B x len ps).batch ++ (gather B x len ps).rest = ps := by
  intro ps
  induction ps with
  | nil => intro x len; rfl
  | cons p ps ih =>
    intro x len
    simp only [gather]
    split
    · split
      · rfl
      · simp [ih]
    · rfl

theorem controlAt_of_stores {st : FwIsoCtxState} {pre ps : List IsoPacket} {p : IsoPacket}
    {o : UInt32} (h : Stores st (pre ++ p :: ps)) (ho : o.toNat = (packetBytes pre).length) :
    st.controlAt o = some p.control := by
  obtain ⟨block, hdata, hsize, hread⟩ := h.live (by simp)
  have hlen := h.length
  have hp := p.length_bytes
  simp only [packetBytes_append, packetBytes_cons, List.length_append] at hlen
  have hw : block.bytes.read o.toNat 4 = le32 p.control := by
    have e : (block.bytes.read 0 st.dataLength.toNat).drop o.toNat =
        block.bytes.read o.toNat (st.dataLength.toNat - o.toNat) := by
      rw [ByteMem.drop_read _ _ (by omega), Nat.zero_add]
    rw [← ByteMem.take_read _ _ (show 4 ≤ st.dataLength.toNat - o.toNat by omega), ← e, hread, ho,
      packetBytes_append, List.drop_left, packetBytes_cons, IsoPacket.bytes, List.append_assoc]
    exact List.take_left' (length_le32 p.control)
  rw [FwIsoCtxState.controlAt, hdata]
  simp only
  rw [if_pos (by omega), ByteMem.le32At_of_read hw]

/-- **The inner loop gathers what `gather` says.** -/
theorem accumulate_eq {st : FwIsoCtxState} {pre : List IsoPacket} {dataOffset : UInt32}
    (hoff : dataOffset.toNat = (packetBytes pre).length) :
    ∀ (ps got : List IsoPacket) (fuel : Nat) (b : FwIsoCtxState.Batch),
      Stores st (pre ++ got ++ ps) → (∀ p ∈ ps, Sized st p) → ps.length < fuel →
      b.dataLength.toNat = (packetBytes got).length →
      let g := gather st.bytesPerBuffer b.bufOffset b.bufLength ps
      st.accumulate dataOffset fuel b = .ok ⟨g.bufOffset, g.bufLength,
        UInt32.ofNat (packetBytes (got ++ g.batch)).length,
        b.chunkCount + UInt32.ofNat g.batch.length⟩ := by
  intro ps
  induction ps with
  | nil =>
    intro got fuel b hst _ hfuel hgot
    obtain ⟨fuel, rfl⟩ := Nat.exists_eq_add_of_lt hfuel
    have hlen := hst.length
    have hlt := st.dataLength.toNat_lt
    simp only [List.append_nil, packetBytes_append, List.length_append] at hlen
    have hstop : ¬ (dataOffset + b.dataLength < st.dataLength) := by
      rw [UInt32.lt_iff_toNat_lt, UInt32.toNat_add]
      omega
    have hgot' : UInt32.ofNat (packetBytes got).length = b.dataLength := by
      rw [← hgot]
      exact UInt32.ofNat_toNat
    simp only [FwIsoCtxState.accumulate, gather, hstop, and_false, if_false, List.append_nil, hgot',
      List.length_nil]
    simp
  | cons p ps ih =>
    intro got fuel b hst hsized hfuel hgot
    obtain ⟨fuel, rfl⟩ := Nat.exists_eq_add_of_lt hfuel
    have hlen := hst.length
    have hlt := st.dataLength.toNat_lt
    have hp := p.length_bytes
    simp only [packetBytes_append, packetBytes_cons, List.length_append] at hlen
    have hsum : (dataOffset + b.dataLength).toNat = (packetBytes (pre ++ got)).length := by
      rw [UInt32.toNat_add, packetBytes_append, List.length_append]
      omega
    have hgo : dataOffset + b.dataLength < st.dataLength := by
      rw [UInt32.lt_iff_toNat_lt, hsum, packetBytes_append, List.length_append]
      omega
    have hgot' : UInt32.ofNat (packetBytes got).length = b.dataLength := by
      rw [← hgot]
      exact UInt32.ofNat_toNat
    rw [FwIsoCtxState.accumulate, gather]
    simp only [hgo, and_true]
    by_cases hB : b.bufOffset + b.bufLength < st.bytesPerBuffer
    · simp only [hB, if_true]
      rw [controlAt_of_stores hst hsum]
      simp only
      by_cases hfit : st.bytesPerBuffer <
          b.bufOffset + b.bufLength + fwCdevIsoPacketControlToPayloadLength p.control
      · simp [hfit, hgot']
      · simp only [hfit, if_false]
        have hs : (st.datumLength p.control).toNat = p.bytes.length := hsized p (by simp)
        have hnext : (b.dataLength + st.datumLength p.control).toNat =
            (packetBytes (got ++ [p])).length := by
          rw [UInt32.toNat_add, hs, packetBytes_append, packetBytes_cons, List.length_append,
            List.length_append, packetBytes_nil, List.length_nil]
          omega
        have := ih (got ++ [p]) (ps.length + 1 + fuel)
          { b with
            bufLength := b.bufLength + fwCdevIsoPacketControlToPayloadLength p.control
            dataLength := b.dataLength + st.datumLength p.control
            chunkCount := b.chunkCount + 1 }
          (by simpa using hst) (fun q hq => hsized q (by simp [hq])) (by omega) hnext
        simp only [List.length_cons] at this ⊢
        rw [this]
        simp only [List.append_assoc, List.cons_append, List.nil_append, Except.ok.injEq,
          FwIsoCtxState.Batch.mk.injEq, true_and, UInt32.add_assoc]
        congr 1
        rw [UInt32.ofNat_add, UInt32.add_comm]
        rfl
    · simp [hB, hgot']

/-! ### The outer loop -/

/-- What one request is about: where its payloads start in the buffer, and its packets. -/
structure Round where
  data : UInt32
  batch : List IsoPacket

inductive RoundsEnd where
  | finished (bufOffset : UInt32)
  | failed (errno : Nat)
  | crashed (fault : Fault)
deriving DecidableEq

/-- The outer loop of `queueChunks` on packets. -/
def queueRounds (bytesPerBuffer : UInt32) (answers : Nat → QueueAnswer) :
    Nat → Nat → UInt32 → List IsoPacket → List Round × RoundsEnd
  | 0, _, _, _ => ([], .crashed .endless)
  | _ + 1, _, x, [] => ([], .finished x)
  | fuel + 1, i, x, p :: ps =>
    let g := gather bytesPerBuffer x 0 (p :: ps)
    match answers i with
    | .failed errno => ([⟨g.bufOffset, g.batch⟩], .failed errno)
    | .accepted _ =>
      if bytesPerBuffer = 0 then ([⟨g.bufOffset, g.batch⟩], .crashed .divByZero)
      else
        let rest := queueRounds bytesPerBuffer answers fuel (i + 1)
          ((g.bufOffset + g.bufLength) % bytesPerBuffer) g.rest
        (⟨g.bufOffset, g.batch⟩ :: rest.1, rest.2)

def handedOut (rounds : List Round) : List IsoPacket := rounds.flatMap Round.batch

@[simp] theorem handedOut_nil : handedOut [] = [] := rfl

@[simp] theorem handedOut_cons (r : Round) (rounds : List Round) :
    handedOut (r :: rounds) = r.batch ++ handedOut rounds := rfl

/-- The requests of rounds, from the `i`-th on; the packets of the first one lie behind those of
`pre` in the store. -/
def requests (handle : UInt32) (answers : Nat → QueueAnswer) :
    Nat → List IsoPacket → List Round → List Effect
  | _, _, [] => []
  | i, pre, r :: rounds =>
    .queueIso ⟨UInt32.ofNat (packetBytes pre).length, UInt32.ofNat (packetBytes r.batch).length,
        r.data, handle⟩ (packetBytes r.batch) (answers i) ::
      requests handle answers (i + 1) (pre ++ r.batch) rounds

/-- **The rounds hand out the packets in order**, and all of them when the loop ends. -/
theorem rounds_partition (B : UInt32) (answers : Nat → QueueAnswer) :
    ∀ (fuel i : Nat) (x : UInt32) (ps : List IsoPacket),
      ∃ rest, ps = handedOut (queueRounds B answers fuel i x ps).1 ++ rest ∧
        ∀ x', (queueRounds B answers fuel i x ps).2 = .finished x' → rest = [] := by
  intro fuel
  induction fuel with
  | zero => exact fun i x ps => ⟨ps, rfl, fun x' h => by simp [queueRounds] at h⟩
  | succ fuel ih =>
    intro i x ps
    cases ps with
    | nil => exact ⟨[], rfl, fun _ _ => rfl⟩
    | cons p ps =>
      have hg := gather_append B (p :: ps) x 0
      simp only [queueRounds]
      cases answers i with
      | failed errno =>
        exact ⟨(gather B x 0 (p :: ps)).rest, by simp [hg], fun x' h => by simp at h⟩
      | accepted n =>
        simp only
        split
        · exact ⟨(gather B x 0 (p :: ps)).rest, by simp [hg], fun x' h => by simp at h⟩
        · obtain ⟨rest, hrest, hend⟩ := ih (i + 1) _ (gather B x 0 (p :: ps)).rest
          refine ⟨rest, ?_, hend⟩
          rw [handedOut_cons, List.append_assoc, ← hrest, hg]

theorem rounds_ne_outOfBounds (B : UInt32) (answers : Nat → QueueAnswer) :
    ∀ (fuel i : Nat) (x : UInt32) (ps : List IsoPacket),
      (queueRounds B answers fuel i x ps).2 ≠ .crashed .outOfBounds := by
  intro fuel
  induction fuel with
  | zero => intro i x ps h; cases h
  | succ fuel ih =>
    intro i x ps
    cases ps with
    | nil => intro h; cases h
    | cons p ps =>
      simp only [queueRounds]
      cases answers i with
      | failed errno => intro h; cases h
      | accepted n =>
        simp only
        split
        · intro h; cases h
        · exact ih _ _ _

theorem packetsOf_of_stores {st : FwIsoCtxState} {pre batch ps : List IsoPacket} (arg : QueueIso)
    (h : Stores st (pre ++ batch ++ ps))
    (hpackets : arg.packets.toNat = (packetBytes pre).length)
    (hsize : arg.size.toNat = (packetBytes batch).length) :
    st.packetsOf arg = packetBytes batch := by
  by_cases hne : pre ++ batch ++ ps = []
  · simp only [List.append_eq_nil_iff] at hne
    obtain ⟨⟨rfl, rfl⟩, rfl⟩ := hne
    rw [FwIsoCtxState.packetsOf, hsize]
    split <;> rfl
  obtain ⟨block, hdata, _, hread⟩ := h.live hne
  have hlen := h.length
  simp only [packetBytes_append, List.length_append] at hlen
  have e : block.bytes.read arg.packets.toNat (st.dataLength.toNat - arg.packets.toNat) =
      packetBytes batch ++ packetBytes ps := by
    have hd := ByteMem.drop_read block.bytes 0
        (show arg.packets.toNat ≤ st.dataLength.toNat by omega)
    rw [Nat.zero_add] at hd
    rw [← hd, hread, hpackets, packetBytes_append, packetBytes_append, List.append_assoc,
      List.drop_left]
  rw [FwIsoCtxState.packetsOf, hdata]
  simp only
  rw [← ByteMem.take_read _ _
    (show arg.size.toNat ≤ st.dataLength.toNat - arg.packets.toNat by omega), e, hsize,
    List.take_left]

def RoundsEnd.toQueueEnd (chunkCount : UInt32) : RoundsEnd → FwIsoCtxState.QueueEnd
  | .finished bufOffset => .finished bufOffset chunkCount
  | .failed errno => .failed errno
  | .crashed fault => .crashed fault

/-- **The outer loop does what `queueRounds` says.** -/
theorem queueLoop_eq {st : FwIsoCtxState} (answers : Nat → QueueAnswer) :
    ∀ (fuel i : Nat) (pre ps : List IsoPacket) (dataOffset x chunkCount : UInt32),
      Stores st (pre ++ ps) → (∀ p ∈ ps, Sized st p) →
      dataOffset.toNat = (packetBytes pre).length →
      let r := queueRounds st.bytesPerBuffer answers fuel i x ps
      st.queueLoop answers fuel i dataOffset x chunkCount =
        (requests st.handle answers i pre r.1,
          r.2.toQueueEnd (chunkCount + UInt32.ofNat (handedOut r.1).length)) := by
  intro fuel
  induction fuel with
  | zero => intro i pre ps dataOffset x chunkCount _ _ _; rfl
  | succ fuel ih =>
    intro i pre ps dataOffset x chunkCount hst hsized hoff
    have hlen := hst.length
    have hlt := st.dataLength.toNat_lt
    rw [packetBytes_append, List.length_append] at hlen
    cases ps with
    | nil =>
      have hstop : ¬ dataOffset < st.dataLength := by
        rw [UInt32.lt_iff_toNat_lt]
        simp only [packetBytes_nil, List.length_nil] at hlen
        omega
      simp [FwIsoCtxState.queueLoop, queueRounds, hstop, requests, RoundsEnd.toQueueEnd]
    | cons p ps =>
      have hp := p.length_bytes
      have hgo : dataOffset < st.dataLength := by
        rw [UInt32.lt_iff_toNat_lt]
        simp only [packetBytes_cons, List.length_append] at hlen
        omega
      have hfour := four_mul_length_le (p :: ps)
      have hacc := accumulate_eq hoff (p :: ps) [] (st.dataLength.toNat + 1) ⟨x, 0, 0, chunkCount⟩
        (by simpa using hst) hsized (by omega) rfl
      simp only [List.nil_append] at hacc
      have hg := gather_append st.bytesPerBuffer (p :: ps) x 0
      rw [FwIsoCtxState.queueLoop, if_pos hgo, hacc]
      simp only [queueRounds]
      generalize hgdef : gather st.bytesPerBuffer x 0 (p :: ps) = g at hg ⊢
      have hst' : Stores st (pre ++ g.batch ++ g.rest) := by
        rw [List.append_assoc, hg]
        exact hst
      have hbatch : (packetBytes g.batch).length ≤ (packetBytes (p :: ps)).length := by
        rw [← hg, packetBytes_append, List.length_append]
        omega
      have hbatchNat : (UInt32.ofNat (packetBytes g.batch).length).toNat =
          (packetBytes g.batch).length := by
        rw [UInt32.toNat_ofNat', Nat.mod_eq_of_lt (by omega)]
      have hoff' : UInt32.ofNat (packetBytes pre).length = dataOffset := by
        rw [← hoff]
        exact UInt32.ofNat_toNat
      have hpackets := packetsOf_of_stores
        ⟨dataOffset, UInt32.ofNat (packetBytes g.batch).length, g.bufOffset, st.handle⟩ hst'
        hoff hbatchNat
      cases ha : answers i with
      | failed errno => simp [requests, RoundsEnd.toQueueEnd, hoff', hpackets, ha]
      | accepted n =>
        simp only
        by_cases hB : st.bytesPerBuffer = 0
        · simp only [hB] at hpackets ⊢
          simp [requests, RoundsEnd.toQueueEnd, hoff', hpackets, ha]
        · have hnext : (dataOffset + UInt32.ofNat (packetBytes g.batch).length).toNat =
              (packetBytes (pre ++ g.batch)).length := by
            rw [UInt32.toNat_add, hbatchNat, packetBytes_append, List.length_append]
            omega
          have := ih (i + 1) (pre ++ g.batch) g.rest _
            ((g.bufOffset + g.bufLength) % st.bytesPerBuffer)
            (chunkCount + UInt32.ofNat g.batch.length) hst'
            (fun q hq => hsized q (by rw [← hg]; simp [hq])) hnext
          simp only at this
          simp only [hB, if_false, this, requests, hoff', hpackets, ha, handedOut_cons,
            List.length_append, UInt32.ofNat_add, UInt32.add_assoc]

/-- The rounds of `fw_iso_ctx_state_queue_chunks` for the packets of the store. -/
def FwIsoCtxState.rounds (st : FwIsoCtxState) (answers : Nat → QueueAnswer)
    (ps : List IsoPacket) : List Round × RoundsEnd :=
  queueRounds st.bytesPerBuffer answers st.queueFuel 0 st.currOffset ps

/-- **`queueChunks` does what the rounds say**, and never warns. -/
theorem queueChunks_eq {st : FwIsoCtxState} {ps : List IsoPacket} (answers : Nat → QueueAnswer)
    (hst : Stores st ps) (hsized : ∀ p ∈ ps, Sized st p) :
    st.queueChunks answers =
      let effects := requests st.handle answers 0 [] (st.rounds answers ps).1
      match (st.rounds answers ps).2 with
      | .crashed fault => ⟨st, .crashed fault, effects⟩
      | .failed errno => ⟨st, .failure (.ioctl .queueIso errno), effects⟩
      | .finished bufOffset =>
        ⟨{ st with currOffset := bufOffset, dataLength := 0, registeredChunkCount := 0 },
          .success, effects⟩ := by
  have hq := queueLoop_eq answers st.queueFuel 0 [] ps 0 st.currOffset 0 hst hsized rfl
  simp only at hq
  rw [FwIsoCtxState.queueChunks, hq]
  simp only [FwIsoCtxState.rounds]
  obtain ⟨rest, hrest, hend⟩ :=
    rounds_partition st.bytesPerBuffer answers st.queueFuel 0 st.currOffset ps
  generalize queueRounds st.bytesPerBuffer answers st.queueFuel 0 st.currOffset ps = r at hrest hend
  obtain ⟨rounds, roundsEnd⟩ := r
  cases roundsEnd with
  | crashed fault => rfl
  | failed errno => rfl
  | finished x =>
    have hall : handedOut rounds = ps := by
      have e := hend x rfl
      simp only [e, List.append_nil] at hrest
      exact hrest.symm
    have hcount : UInt32.ofNat ps.length = st.registeredChunkCount := by
      rw [hst.count]
      exact UInt32.ofNat_toNat
    simp [RoundsEnd.toQueueEnd, hall, hcount]

/-- Queueing succeeds where the rounds have come to. -/
theorem queueChunks_finished_iff {st : FwIsoCtxState} {ps : List IsoPacket} {x : UInt32}
    (answers : Nat → QueueAnswer) (hst : Stores st ps) (hsized : ∀ p ∈ ps, Sized st p) :
    (st.queueChunks answers).ret = .success ∧ (st.queueChunks answers).state.currOffset = x ↔
      (st.rounds answers ps).2 = .finished x := by
  rw [queueChunks_eq answers hst hsized]
  cases (st.rounds answers ps).2 with
  | crashed fault => exact iff_of_false (by rintro ⟨⟨⟩, _⟩) (by rintro ⟨⟩)
  | failed errno => exact iff_of_false (by rintro ⟨⟨⟩, _⟩) (by rintro ⟨⟩)
  | finished y =>
    exact ⟨fun hboth => congrArg _ hboth.2, fun heq => ⟨rfl, RoundsEnd.finished.inj heq⟩⟩

theorem queueChunks_ne_outOfBounds {st : FwIsoCtxState} {ps : List IsoPacket}
    (answers : Nat → QueueAnswer) (hst : Stores st ps) (hsized : ∀ p ∈ ps, Sized st p) :
    (st.queueChunks answers).ret ≠ .crashed .outOfBounds := by
  have hne := rounds_ne_outOfBounds st.bytesPerBuffer answers st.queueFuel 0 st.currOffset ps
  rw [queueChunks_eq answers hst hsized]
  simp only [FwIsoCtxState.rounds]
  cases h : (queueRounds st.bytesPerBuffer answers st.queueFuel 0 st.currOffset ps).2 with
  | crashed fault =>
    rintro ⟨⟩
    exact hne h
  | failed errno => intro h; cases h
  | finished x => intro h; cases h

/-- **Queueing reads nothing but the packets**: another store that holds them does as well. -/
theorem queueChunks_confined {st : FwIsoCtxState} {ps : List IsoPacket}
    (answers : Nat → QueueAnswer) {data : Option Block} (hst : Stores st ps)
    (hst' : Stores { st with data := data } ps) (hsized : ∀ p ∈ ps, Sized st p) :
    ({ st with data := data }.queueChunks answers).ret = (st.queueChunks answers).ret ∧
      ({ st with data := data }.queueChunks answers).effects =
        (st.queueChunks answers).effects := by
  rw [queueChunks_eq answers hst hsized, queueChunks_eq answers hst' hsized]
  simp only [FwIsoCtxState.rounds, FwIsoCtxState.queueFuel, FwIsoCtxState.bytesPerBuffer]
  generalize queueRounds _ _ _ _ _ _ = r
  obtain ⟨rounds, roundsEnd⟩ := r
  cases roundsEnd <;> exact ⟨rfl, rfl⟩

/-! ### What the device reads -/

/-- The packets that the device reads from bytes: a control word each, and in an IT context a
header as long as the word says. -/
def readPackets (it : Bool) : Nat → List UInt8 → List IsoPacket
  | fuel + 1, b0 :: b1 :: b2 :: b3 :: bytes =>
    let control := ofLe32 b0 b1 b2 b3
    let headerLength := if it then (fwCdevIsoPacketControlToHeaderLength control).toNat else 0
    ⟨control, bytes.take headerLength⟩ :: readPackets it fuel (bytes.drop headerLength)
  | _, _ => []

def packetsOfRequest (it : Bool) (bytes : List UInt8) : List IsoPacket :=
  readPackets it bytes.length bytes

theorem sized_iff {st : FwIsoCtxState} {p : IsoPacket} : Sized st p ↔
    p.header.length = if st.mode = .it then
      (fwCdevIsoPacketControlToHeaderLength p.control).toNat else 0 := by
  have hlt := p.control.toNat_lt
  have hh := toNat_controlToHeaderLength p.control
  rw [Sized, FwIsoCtxState.datumLength, p.length_bytes, UInt32.toNat_add]
  have h4 : sizeofFwCdevIsoPacket.toNat = 4 := rfl
  split
  · rw [h4]
    omega
  · simp only [h4, UInt32.toNat_zero]
    omega

/-- **The device reads the packets whose bytes they are.** -/
theorem readPackets_packetBytes {st : FwIsoCtxState} : ∀ (ps : List IsoPacket) (fuel : Nat),
    (∀ p ∈ ps, Sized st p) → ps.length ≤ fuel →
    readPackets (st.mode = .it) fuel (packetBytes ps) = ps := by
  intro ps
  induction ps with
  | nil => intro fuel _ _; cases fuel <;> rfl
  | cons p ps ih =>
    intro fuel hsized hfuel
    obtain ⟨fuel, rfl⟩ : ∃ k, fuel = k + 1 := ⟨fuel - 1, by simp at hfuel; omega⟩
    have hp := sized_iff.mp (hsized p (by simp))
    have e : packetBytes (p :: ps) = UInt8.ofNat (p.control.toNat % 256) ::
        UInt8.ofNat (p.control.toNat / 256 % 256) :: UInt8.ofNat (p.control.toNat / 65536 % 256) ::
        UInt8.ofNat (p.control.toNat / 16777216 % 256) :: (p.header ++ packetBytes ps) := rfl
    rw [e]
    simp only [readPackets, ofLe32_le32, decide_eq_true_eq, ← hp, List.take_left, List.drop_left,
      List.cons.injEq, true_and]
    exact ih fuel (fun q hq => hsized q (by simp [hq])) (by simp at hfuel; omega)

theorem packetsOfRequest_packetBytes {st : FwIsoCtxState} {ps : List IsoPacket}
    (hsized : ∀ p ∈ ps, Sized st p) :
    packetsOfRequest (st.mode = .it) (packetBytes ps) = ps :=
  readPackets_packetBytes ps _ hsized (by have := four_mul_length_le ps; omega)

theorem packetsOfRequest_it {st : FwIsoCtxState} {ps : List IsoPacket} (hmode : st.mode = .it)
    (hsized : ∀ p ∈ ps, Sized st p) : packetsOfRequest true (packetBytes ps) = ps := by
  have h := packetsOfRequest_packetBytes hsized
  simpa [hmode] using h

end Hinoko
