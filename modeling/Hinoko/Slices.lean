import Hinoko.Encoding
import Hinoko.Handover
import Hinoko.Slots

/-!
# The slices of the store

`fw_iso_ctx_state_register_chunk` appends entries of different lengths to the store, and
`fw_iso_ctx_state_queue_chunks` walks over them by what their control words say, some at a time.
The requests are about slices of the store, one behind the other, and each slice is made up of whole
entries, whatever the mode.

* `registerAll`: calls of `register_chunk` one after the other, all of them accepted.
* `rounds_inside`: the payloads of a slice lie in the buffer.
* `walked_of_registered`: the slices of the entries that have been registered.
-/

namespace Hinoko

open Bitfield

/-! ### Entries -/

/-- A call of `register_chunk` that copies nothing from `NULL`. -/
structure ChunkCall extends ChunkArgs where
  given : header.content = none → header.length = 0

namespace ChunkCall

def size (call : ChunkCall) : Nat := 4 + call.header.length.toNat

def packet (call : ChunkCall) (st : FwIsoCtxState) : IsoPacket :=
  st.datum call.skip call.tags call.syncCode call.header call.payloadLength call.scheduleInterrupt

end ChunkCall

/-- Calls one after the other, if all of them are accepted. -/
def registerAll : FwIsoCtxState → List ChunkCall → Option FwIsoCtxState
  | st, [] => some st
  | st, call :: calls =>
    match (call.register st).ret with
    | .success => registerAll (call.register st).state calls
    | _ => none

variable {st st' : FwIsoCtxState} {es : List Effect}

def Accepts (st : FwIsoCtxState) (call : ChunkCall) : Prop :=
  st.acceptsChunk call.skip call.tags call.syncCode call.header call.payloadLength = true

theorem accepted_lengths {call : ChunkCall} (hacc : Accepts st call) :
    (call.packet st).header.length = call.header.length.toNat ∧
      call.header.length.toNat ≤ st.headerSize.toNat ∧
      (call.payload st).toNat ≤ st.bytesPerChunk.toNat ∧
      (st.mode ≠ .it → call.header.length = 0) := by
  simp only [Accepts, FwIsoCtxState.acceptsChunk, decide_eq_true_eq] at hacc
  obtain ⟨_, _, hacc⟩ := hacc
  by_cases hmode : st.mode = .it
  · rw [if_pos hmode] at hacc
    have hgiven : call.header.bytes.length = call.header.length.toNat := by
      cases hcontent : call.header.content with
      | none => simp [ArrayArg.bytes, hcontent, call.given hcontent]
      | some bs => simp [ArrayArg.bytes, hcontent, call.header.length_eq bs hcontent]
    cases hskip : call.skip with
    | true =>
      simp only [hskip, if_true] at hacc
      obtain ⟨hpayload, hlength, _⟩ := hacc
      simp [ChunkArgs.payload, ChunkCall.packet, FwIsoCtxState.datum, hskip, hmode, hpayload,
        hlength]
    | false =>
      simp only [hskip] at hacc
      obtain ⟨hlength, hpayload⟩ : call.header.length = st.headerSize ∧
        call.payloadLength ≤ st.bytesPerChunk := by simpa using hacc
      rw [UInt32.le_iff_toNat_le] at hpayload
      refine ⟨?_, by rw [hlength], ?_, fun h => absurd hmode h⟩
      · simp [ChunkCall.packet, FwIsoCtxState.datum, hskip, hmode, hgiven]
      · rw [ChunkArgs.payload, if_pos hmode]
        exact hpayload
  · rw [if_neg hmode] at hacc
    obtain ⟨_, _, hnone, hlength, _⟩ := hacc
    refine ⟨?_, by simp [hlength], ?_, fun _ => hlength⟩
    · simp [ChunkCall.packet, FwIsoCtxState.datum, hmode, hlength]
    · rw [ChunkArgs.payload, if_neg hmode]

structure SameSizes (st st' : FwIsoCtxState) : Prop where
  mode : st'.mode = st.mode
  headerSize : st'.headerSize = st.headerSize
  bytesPerChunk : st'.bytesPerChunk = st.bytesPerChunk
  chunksPerBuffer : st'.chunksPerBuffer = st.chunksPerBuffer
  currOffset : st'.currOffset = st.currOffset

namespace SameSizes

theorem trans {st'' : FwIsoCtxState} (h : SameSizes st st') (h' : SameSizes st' st'') :
    SameSizes st st'' :=
  ⟨h'.mode.trans h.mode, h'.headerSize.trans h.headerSize,
    h'.bytesPerChunk.trans h.bytesPerChunk, h'.chunksPerBuffer.trans h.chunksPerBuffer,
    h'.currOffset.trans h.currOffset⟩

theorem packet (h : SameSizes st st') (call : ChunkCall) : call.packet st' = call.packet st := by
  simp only [ChunkCall.packet, FwIsoCtxState.datum, h.mode, h.headerSize, h.bytesPerChunk]

theorem accepts (h : SameSizes st st') {call : ChunkCall} :
    Accepts st' call ↔ Accepts st call := by
  simp only [Accepts, FwIsoCtxState.acceptsChunk, h.mode, h.headerSize, h.bytesPerChunk]

theorem sized (h : SameSizes st st') {p : IsoPacket} : Sized st' p ↔ Sized st p := by
  rw [sized_iff, sized_iff, h.mode]

theorem bytesPerBuffer (h : SameSizes st st') : st'.bytesPerBuffer = st.bytesPerBuffer := by
  rw [FwIsoCtxState.bytesPerBuffer, FwIsoCtxState.bytesPerBuffer, h.bytesPerChunk,
    h.chunksPerBuffer]

end SameSizes

/-- **An accepted call appends its entry**, and leaves the setup alone. -/
theorem registered_of_success {kind : FwIsoCtxMode} {call : ChunkCall} (h : StoreInv kind st es)
    (hsized : Accepts st call → Sized st (call.packet st))
    (hret : (call.register st).ret = .success) :
    let es' := es ++ [.chunk (call.packet st)]
    StoreInv kind (call.register st).state es' ∧
      held (call.register st).state es' = held st es ++ [call.packet st] ∧
      Accepts st call ∧ SameSizes st (call.register st).state := by
  rcases h.registerChunk_cases call.skip call.tags call.syncCode call.header call.payloadLength
    call.scheduleInterrupt with hr | ⟨⟨hacc, _⟩, block, hdata, ho⟩
  · have hfalse := hr.ret
    rw [show (st.registerChunk ..).ret = .success from hret] at hfalse
    exact hfalse.elim
  · have hstore := h.registerChunk (fun _ => (accepted_lengths hacc).1) fun _ => hsized
    rw [ho] at hstore
    rw [ChunkArgs.register, ho]
    exact ⟨hstore, h.held_chunk rfl, hacc, rfl, rfl, rfl, rfl, rfl⟩

/-- **The store holds the entries of all calls**, in order, if the walk steps over each of them
exactly. -/
theorem registered_of_all {kind : FwIsoCtxMode} : ∀ (calls : List ChunkCall)
    {st : FwIsoCtxState} {es : List Effect}, StoreInv kind st es →
    (∀ call ∈ calls, Accepts st call → Sized st (call.packet st)) →
    registerAll st calls = some st' →
    ∃ es', StoreInv kind st' es' ∧ held st' es' = held st es ++ calls.map (·.packet st') ∧
      SameSizes st st' ∧ ∀ call ∈ calls, Accepts st' call := by
  intro calls
  induction calls with
  | nil =>
    intro st es h _ hall
    cases hall
    exact ⟨es, h, (List.append_nil _).symm, ⟨rfl, rfl, rfl, rfl, rfl⟩, nofun⟩
  | cons call calls ih =>
    intro st es h hsized hall
    rw [registerAll] at hall
    split at hall
    next hret =>
      obtain ⟨hstore, hheld, hacc, hsame⟩ :=
        registered_of_success h (hsized call List.mem_cons_self) hret
      obtain ⟨es', hstore', hheld', hsame', haccs⟩ := ih hstore (fun call' hcall' hacc' => by
        rw [hsame.sized, hsame.packet]
        exact hsized call' (List.mem_cons_of_mem _ hcall') (hsame.accepts.mp hacc')) hall
      have hsame'' := hsame.trans hsame'
      refine ⟨es', hstore', ?_, hsame'', fun call' hcall' => ?_⟩
      · rw [hheld', hheld, List.append_assoc, List.map_cons, List.singleton_append,
          hsame''.packet call]
      · rcases List.mem_cons.mp hcall' with rfl | hrest
        · exact hsame''.accepts.mpr hacc
        · exact haccs call' hrest
    · cases hall

/-! ### Sizes that a control word has room for -/

/-- What the entry of a call is to tell, and tells. -/
structure Tells (st : FwIsoCtxState) (call : ChunkCall) : Prop where
  size : (call.packet st).bytes.length = call.size
  payload : (call.packet st).payloadLength = (call.payload st).toNat
  payload_le : (call.payload st).toNat ≤ st.bytesPerChunk.toNat

theorem tells_of_accepts {call : ChunkCall} (hbytes : st.bytesPerChunk.toNat ≤ 65535)
    (hacc : Accepts st call) : Tells st call := by
  obtain ⟨hlength, _, hpayload, _⟩ := accepted_lengths hacc
  refine ⟨?_, ?_, hpayload⟩
  · rw [IsoPacket.length_bytes, hlength, ChunkCall.size]
  · rw [ChunkCall.packet, payloadLength_datum]
    exact Nat.mod_eq_of_lt (by rw [← ChunkArgs.payload]; omega)

/-- The walk steps over an entry exactly, if the payload length does not run into the length of the
header. -/
theorem sized_of_apart {call : ChunkCall} (hheader : st.headerSize.toNat ≤ 252)
    (hapart : st.mode = .it →
      field call.payloadLength.toNat 24 8 ||| call.header.length.toNat = call.header.length.toNat)
    (hacc : Accepts st call) : Sized st (call.packet st) := by
  obtain ⟨hlength, hle, _, hnone⟩ := accepted_lengths hacc
  rw [sized_iff, hlength]
  split
  next hmode =>
    have hdecoded := headerLength_datum_or call.scheduleInterrupt hmode hacc
    rw [Nat.mod_eq_of_lt (by omega), hapart hmode] at hdecoded
    exact hdecoded.symm
  next hmode =>
    rw [hnone hmode]
    rfl

theorem sized_packet {call : ChunkCall} (hheader : st.headerSize.toNat ≤ 252)
    (hbytes : st.bytesPerChunk.toNat ≤ 65535) (hacc : Accepts st call) :
    Sized st (call.packet st) := by
  refine sized_of_apart hheader (fun hmode => ?_) hacc
  have hpayload := (accepted_lengths hacc).2.2.1
  rw [ChunkArgs.payload, if_pos hmode] at hpayload
  rw [field_of_lt (by omega), Nat.zero_or]

/-! ### Slices -/

/-- Slices one behind the other, from `lo` to `hi`. -/
def Tiles : Nat → List QueueIso → Nat → Prop
  | lo, [], hi => lo = hi
  | lo, arg :: args, hi => arg.packets.toNat = lo ∧ Tiles (lo + arg.size.toNat) args hi

def queueArgs (es : List Effect) : List QueueIso :=
  es.filterMap fun
    | .queueIso arg _ _ => some arg
    | _ => none

/-- A request is about the entries of some calls in a row, and designates a region of the buffer of
the sum of their payloads. -/
def AboutEntries (st : FwIsoCtxState) (calls : List ChunkCall) (arg : QueueIso) : Prop :=
  ∃ before batch after, calls = before ++ batch ++ after ∧
    arg.packets.toNat = (before.map ChunkCall.size).sum ∧
    arg.size.toNat = (batch.map ChunkCall.size).sum ∧
    arg.data.toNat + (batch.map fun call => (call.payload st).toNat).sum ≤ st.bytesPerBuffer.toNat

/-- The requests are about slices that make up the store, of whole entries each; there is no
warning, and the books are closed inside the buffer. -/
structure Walked (st : FwIsoCtxState) (calls : List ChunkCall) (o : Out FwIsoCtxState) :
    Prop where
  success : o.ret = .success
  slices : Tiles 0 (queueArgs o.effects) st.dataLength.toNat
  entries : ∀ arg ∈ queueArgs o.effects, AboutEntries st calls arg
  silent : .warning ∉ o.effects
  currOffset : o.state.currOffset < st.bytesPerBuffer
  dataLength : o.state.dataLength = 0
  registeredChunkCount : o.state.registeredChunkCount = 0

/-- What the inner loop gathers does not reach behind the end of the buffer. -/
theorem gather_inside {B : UInt32} (hB : B.toNat < 2147483648) : ∀ (ps : List IsoPacket)
    (x len : UInt32), x.toNat + len.toNat ≤ B.toNat →
    let g := gather B x len ps
    (g.bufOffset = x ∨ g.bufOffset = 0) ∧
      g.bufLength.toNat = len.toNat + (payloadLengths g.batch).sum ∧
      x.toNat + g.bufLength.toNat ≤ B.toNat := by
  intro ps
  induction ps with
  | nil => exact fun x len hle => ⟨.inl rfl, rfl, hle⟩
  | cons p ps ih =>
    intro x len hle
    have hp : p.payloadLength < 65536 := by
      rw [IsoPacket.payloadLength, toNat_controlToPayloadLength]
      exact Nat.mod_lt _ (by decide)
    have hp' : (fwCdevIsoPacketControlToPayloadLength p.control).toNat = p.payloadLength := rfl
    simp only [gather]
    split
    · split
      · exact ⟨.inr rfl, rfl, hle⟩
      next hfit =>
        have hsum : (x + len).toNat = x.toNat + len.toNat := by
          rw [UInt32.toNat_add, Nat.mod_eq_of_lt (by omega)]
        rw [UInt32.lt_iff_toNat_lt, UInt32.toNat_add, hsum, hp', Nat.mod_eq_of_lt (by omega)]
          at hfit
        have hlen : (len + fwCdevIsoPacketControlToPayloadLength p.control).toNat =
            len.toNat + p.payloadLength := by
          rw [UInt32.toNat_add, hp', Nat.mod_eq_of_lt (by omega)]
        obtain ⟨hoffset, hlength, hinside⟩ :=
          ih x (len + fwCdevIsoPacketControlToPayloadLength p.control) (by omega)
        refine ⟨hoffset, ?_, hinside⟩
        simp only [hlength, hlen, payloadLengths_cons, List.sum_cons, Nat.add_assoc]
    · exact ⟨.inl rfl, rfl, hle⟩

/-- **The payloads of every round lie in the buffer.** -/
theorem rounds_inside {B : UInt32} (hB : B.toNat < 2147483648) (answers : Nat → QueueAnswer) :
    ∀ (fuel i : Nat) (x : UInt32) (ps : List IsoPacket), x < B →
      ∀ r ∈ (queueRounds B answers fuel i x ps).1,
        r.data.toNat + (payloadLengths r.batch).sum ≤ B.toNat := by
  intro fuel
  induction fuel with
  | zero => exact fun _ _ _ _ => nofun
  | succ fuel ih =>
    intro i x ps hx
    cases ps with
    | nil => exact nofun
    | cons p ps =>
      have hx' := UInt32.lt_iff_toNat_lt.mp hx
      obtain ⟨hoffset, hlength, hinside⟩ :=
        gather_inside hB (p :: ps) x 0 (by rw [UInt32.toNat_zero]; omega)
      simp only [queueRounds]
      generalize gather B x 0 (p :: ps) = g at hoffset hlength hinside ⊢
      rw [UInt32.toNat_zero, Nat.zero_add] at hlength
      have hfirst : g.bufOffset.toNat + (payloadLengths g.batch).sum ≤ B.toNat := by
        rcases hoffset with h | h
        · rw [h]
          omega
        · rw [h, UInt32.toNat_zero]
          omega
      cases answers i with
      | failed errno =>
        intro r hr
        rw [List.mem_singleton.mp hr]
        exact hfirst
      | accepted count =>
        simp only
        split
        · intro r hr
          rw [List.mem_singleton.mp hr]
          exact hfirst
        next hne =>
          intro r hr
          rcases List.mem_cons.mp hr with rfl | hrest
          · exact hfirst
          · exact ih _ _ _ (UInt32.mod_lt _ (UInt32.pos_iff_ne_zero.mpr hne)) r hrest

@[simp] theorem queueArgs_queueIso (arg : QueueIso) (bytes : List UInt8) (answer : QueueAnswer)
    (es : List Effect) :
    queueArgs (.queueIso arg bytes answer :: es) = arg :: queueArgs es := rfl

/-- **The requests of rounds are about slices one behind the other**, each of them the packets of a
round. -/
theorem slices_requests (handle : UInt32) (answers : Nat → QueueAnswer) :
    ∀ (rounds : List Round) (i : Nat) (pre : List IsoPacket),
      (packetBytes (pre ++ handedOut rounds)).length < 4294967296 →
      let args := queueArgs (requests handle answers i pre rounds)
      Tiles (packetBytes pre).length args (packetBytes (pre ++ handedOut rounds)).length ∧
        ∀ arg ∈ args, ∃ r ∈ rounds, ∃ before after,
          pre ++ handedOut rounds = before ++ r.batch ++ after ∧
          arg.packets.toNat = (packetBytes before).length ∧
          arg.size.toNat = (packetBytes r.batch).length ∧ arg.data = r.data := by
  intro rounds
  induction rounds with
  | nil =>
    intro i pre _
    rw [handedOut_nil, List.append_nil]
    exact ⟨rfl, nofun⟩
  | cons r rounds ih =>
    intro i pre hlen
    rw [handedOut_cons, ← List.append_assoc] at hlen ⊢
    obtain ⟨htiles, hargs⟩ := ih (i + 1) (pre ++ r.batch) hlen
    simp only [packetBytes_append, List.length_append] at hlen
    have hpackets : (UInt32.ofNat (packetBytes pre).length).toNat = (packetBytes pre).length := by
      rw [UInt32.toNat_ofNat', Nat.mod_eq_of_lt (by omega)]
    have hsize : (UInt32.ofNat (packetBytes r.batch).length).toNat =
        (packetBytes r.batch).length := by
      rw [UInt32.toNat_ofNat', Nat.mod_eq_of_lt (by omega)]
    simp only [requests, queueArgs_queueIso]
    refine ⟨⟨hpackets, ?_⟩, fun arg harg => ?_⟩
    · rw [hsize, ← List.length_append, ← packetBytes_append]
      exact htiles
    · rcases List.mem_cons.mp harg with rfl | hrest
      · exact ⟨r, List.mem_cons_self, pre, handedOut rounds, rfl, hpackets, hsize, rfl⟩
      · obtain ⟨r', hr', before, after, heq, hrest⟩ := hargs arg hrest
        exact ⟨r', List.mem_cons_of_mem _ hr', before, after, heq, hrest⟩

theorem warning_notMem_requests (handle : UInt32) (answers : Nat → QueueAnswer) :
    ∀ (rounds : List Round) (i : Nat) (pre : List IsoPacket),
      .warning ∉ requests handle answers i pre rounds := by
  intro rounds
  induction rounds with
  | nil => exact fun _ _ => nofun
  | cons r rounds ih =>
    intro i pre hmem
    rcases List.mem_cons.mp hmem with h | hrest
    · cases h
    · exact ih _ _ hrest

theorem rounds_ne_failed (B : UInt32) {answers : Nat → QueueAnswer} (hanswers : Accepting answers) :
    ∀ (fuel i : Nat) (x : UInt32) (ps : List IsoPacket) (errno : Nat),
      (queueRounds B answers fuel i x ps).2 ≠ .failed errno := by
  intro fuel
  induction fuel with
  | zero => exact fun _ _ _ _ h => by cases h
  | succ fuel ih =>
    intro i x ps errno h
    cases ps with
    | nil => cases h
    | cons p ps =>
      obtain ⟨count, hi⟩ := hanswers i
      simp only [queueRounds, hi] at h
      split at h
      · cases h
      · exact ih _ _ _ _ h

theorem length_packetBytes_calls {calls : List ChunkCall} (h : ∀ call ∈ calls, Tells st call) :
    (packetBytes (calls.map (·.packet st))).length = (calls.map ChunkCall.size).sum := by
  induction calls with
  | nil => rfl
  | cons call calls ih =>
    rw [List.map_cons, packetBytes_cons, List.length_append, List.map_cons, List.sum_cons,
      (h call List.mem_cons_self).size, ih fun c hc => h c (List.mem_cons_of_mem _ hc)]

theorem entries_of_split {calls : List ChunkCall} {before batch after : List IsoPacket}
    (htells : ∀ call ∈ calls, Tells st call)
    (h : calls.map (·.packet st) = before ++ batch ++ after) :
    ∃ cs ds fs, calls = cs ++ ds ++ fs ∧
      (packetBytes before).length = (cs.map ChunkCall.size).sum ∧
      (packetBytes batch).length = (ds.map ChunkCall.size).sum ∧
      (payloadLengths batch).sum = (ds.map fun call => (call.payload st).toNat).sum := by
  obtain ⟨csds, fs, rfl, hcsds, rfl⟩ := List.map_eq_append_iff.mp h
  obtain ⟨cs, ds, rfl, rfl, rfl⟩ := List.map_eq_append_iff.mp hcsds
  refine ⟨cs, ds, fs, rfl, length_packetBytes_calls fun c hc => htells c (by simp [hc]),
    length_packetBytes_calls fun c hc => htells c (by simp [hc]), ?_⟩
  rw [payloadLengths, List.map_map]
  exact congrArg List.sum (List.map_congr_left fun c hc => (htells c (by simp [hc])).payload)

/-- **Queueing walks a store that holds the entries of calls.** -/
theorem walked_of_held {kind : FwIsoCtxMode} {calls : List ChunkCall} (h : StoreInv kind st es)
    (hheld : held st es = calls.map (·.packet st)) (htells : ∀ call ∈ calls, Tells st call)
    (hbuffer : st.bytesPerBuffer.toNat < 2147483648)
    (hbytes : st.bytesPerChunk.toNat ≤ st.bytesPerBuffer.toNat)
    (hcurr : st.currOffset < st.bytesPerBuffer) {answers : Nat → QueueAnswer}
    (hanswers : Accepting answers) : Walked st calls (st.queueChunks answers) := by
  have hst := h.stores
  have hsized := h.sized
  rw [hheld] at hst hsized
  have hfit : ∀ p ∈ calls.map (·.packet st), p.payloadLength ≤ st.bytesPerBuffer.toNat := by
    intro p hp
    obtain ⟨call, hcall, rfl⟩ := List.mem_map.mp hp
    have hpayload := htells call hcall
    rw [hpayload.payload]
    exact hpayload.payload_le.trans hbytes
  have hreturns := queueChunks_returns answers hst hsized (ne_zero_of_lt_size hcurr) hfit
  have hcurr' := queueChunks_curr_lt answers hst hsized hcurr
  obtain ⟨rest, hrest, hend⟩ := rounds_partition st.bytesPerBuffer answers st.queueFuel 0
    st.currOffset (calls.map (·.packet st))
  have hfailed := rounds_ne_failed st.bytesPerBuffer hanswers st.queueFuel 0 st.currOffset
    (calls.map (·.packet st))
  have hinside := rounds_inside hbuffer answers st.queueFuel 0 st.currOffset
    (calls.map (·.packet st)) hcurr
  have hlength := hst.length
  have hlt := st.dataLength.toNat_lt
  rw [queueChunks_eq answers hst hsized] at hreturns hcurr' ⊢
  simp only [FwIsoCtxState.rounds] at hreturns hcurr' ⊢
  generalize queueRounds st.bytesPerBuffer answers st.queueFuel 0 st.currOffset
    (calls.map (·.packet st)) = r at hrest hend hfailed hinside hreturns hcurr' ⊢
  obtain ⟨rounds, roundsEnd⟩ := r
  cases roundsEnd with
  | crashed fault => exact absurd rfl (hreturns fault)
  | failed errno => exact absurd rfl (hfailed errno)
  | finished x =>
    rw [hend x rfl, List.append_nil] at hrest
    obtain ⟨htiles, hargs⟩ := slices_requests st.handle answers rounds 0 []
      (by rw [List.nil_append, ← hrest, hlength]; exact hlt)
    rw [List.nil_append, ← hrest, hlength] at htiles
    refine ⟨rfl, htiles, fun arg harg => ?_, warning_notMem_requests _ _ _ _ _, hcurr', rfl, rfl⟩
    obtain ⟨r, hr, before, after, hsplit, hpackets, hsize, hdata⟩ := hargs arg harg
    rw [List.nil_append, ← hrest] at hsplit
    obtain ⟨cs, ds, fs, hcalls, hcs, hds, hpayloads⟩ := entries_of_split htells hsplit
    refine ⟨cs, ds, fs, hcalls, hpackets.trans hcs, hsize.trans hds, ?_⟩
    rw [hdata, ← hpayloads]
    exact hinside r hr

/-- A buffer that is mapped, with the store empty and the queue at any place. -/
def FwIsoCtxState.mappedAt (st : FwIsoCtxState) (bytes chunks curr : UInt32) (env : MapEnv) :
    FwIsoCtxState :=
  { (st.mapBuffer bytes chunks env).state with
    currOffset := curr, dataLength := 0, registeredChunkCount := 0 }

theorem storeInv_mappedAt {bytes chunks : UInt32} (curr : UInt32) {env : MapEnv}
    (hret : (st.mapBuffer bytes chunks env).ret = .success) :
    let st₀ := st.mappedAt bytes chunks curr env
    StoreInv st.mode st₀ [] ∧ held st₀ [] = [] ∧ st₀.mode = st.mode ∧
      st₀.headerSize = st.headerSize ∧ st₀.bytesPerChunk = bytes ∧
      st₀.bytesPerBuffer = bytes * chunks ∧ st₀.currOffset = curr ∧ bytes ≠ 0 ∧ chunks ≠ 0 := by
  obtain ⟨hne, hne', id, _, hstate⟩ := FwIsoCtxState.mapBuffer_of_success hret
  have hfd : 0 ≤ st.fd := by
    rcases st.mapBuffer_cases bytes chunks env with hr | ⟨⟨_, _, hfd, _⟩, _⟩
    · have hfalse := hr.ret
      rw [hret] at hfalse
      exact hfalse.elim
    · exact hfd
  rw [FwIsoCtxState.mappedAt, hstate]
  exact ⟨.empty (fun _ => rfl) (fun hneg => absurd hneg (by simpa using hfd)) rfl rfl
    fun _ hpos => gMallocN_of_pos env.dataBlock env.dataFill hpos, List.rtake_zero _, rfl, rfl, rfl,
    rfl, rfl, hne, hne'⟩

/-- **Queueing walks exactly what has been registered**, whatever the mode and whatever the calls:
the slices of the requests make up the store in order, each of whole entries and with its payloads
in the buffer, and at the end the books are closed. -/
theorem walked_of_registered {bytes chunks curr : UInt32} {env : MapEnv}
    (hret : (st.mapBuffer bytes chunks env).ret = .success) (hheader : st.headerSize.toNat ≤ 252)
    (hbytes : bytes.toNat ≤ 65535) (hbuffer : bytes.toNat * chunks.toNat < 2147483648)
    (hcurr : curr.toNat < bytes.toNat * chunks.toNat) {calls : List ChunkCall}
    (hcalls : registerAll (st.mappedAt bytes chunks curr env) calls = some st')
    {answers : Nat → QueueAnswer} (hanswers : Accepting answers) :
    Walked st' calls (st'.queueChunks answers) := by
  obtain ⟨hempty, hnone, _, hheader', hbytes', hbuffer', hcurr', _, hne⟩ :=
    storeInv_mappedAt curr hret
  obtain ⟨es, hstore, hheld, hsame, haccs⟩ := registered_of_all calls hempty (fun call _ hacc =>
    sized_packet (by rw [hheader']; exact hheader) (by rw [hbytes']; exact hbytes) hacc) hcalls
  have htells : ∀ call ∈ calls, Tells st' call := fun call hcall =>
    tells_of_accepts (by rw [hsame.bytesPerChunk, hbytes']; exact hbytes) (haccs call hcall)
  rw [hnone, List.nil_append] at hheld
  have hB : st'.bytesPerBuffer.toNat = bytes.toNat * chunks.toNat := by
    rw [hsame.bytesPerBuffer, hbuffer', UInt32.toNat_mul, Nat.mod_eq_of_lt (by omega)]
  refine walked_of_held hstore hheld htells (by omega) ?_ ?_ hanswers
  · rw [hsame.bytesPerChunk, hbytes', hB]
    have hpos := UInt32.toNat_inj.ne.mpr hne
    exact Nat.le_mul_of_pos_right _ (Nat.pos_of_ne_zero hpos)
  · rw [UInt32.lt_iff_toNat_lt, hsame.currOffset, hcurr', hB]
    exact hcurr

/-! ### Three entries -/

def fourByteHeaders : FwIsoCtxState :=
  (({} : FwIsoCtxState).allocate (some "/dev/fw0") .it 0 0 4 grantAllocate).state

def skipBetween : List ChunkCall :=
  [⟨⟨false, 1, 2, .ofList [1, 2, 3, 4] (by decide), 8, false⟩, nofun⟩,
    ⟨⟨true, 0, 0, .null, 0, true⟩, fun _ => rfl⟩,
    ⟨⟨false, 4, 15, .ofList [5, 6, 7, 8] (by decide), 3, true⟩, nofun⟩]

def skipStored : Option FwIsoCtxState :=
  registerAll (fourByteHeaders.mappedAt 8 3 16 grantMap) skipBetween

/-- The theorem at entries of eight, four and eight bytes, which go into two slices. -/
theorem walked_skipBetween : ∃ st, skipStored = some st ∧
    Walked st skipBetween (st.queueChunks fun _ => .accepted 2) ∧
    (queueArgs (st.queueChunks fun _ => .accepted 2).effects).map QueueIso.size = [8, 12] := by
  have hsizes : (skipStored.map fun st => (queueArgs (st.queueChunks fun _ =>
      .accepted 2).effects).map QueueIso.size) = some [8, 12] := by
    decide +kernel
  obtain ⟨st, hst, hsizes⟩ := Option.map_eq_some_iff.mp hsizes
  have hret : (fourByteHeaders.mapBuffer 8 3 grantMap).ret = .success := by decide +kernel
  exact ⟨st, hst, walked_of_registered hret (by decide +kernel) (by decide +kernel)
    (by decide +kernel) (by decide +kernel) hst fun _ => ⟨2, rfl⟩, hsizes⟩

end Hinoko
