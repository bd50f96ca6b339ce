import Hinoko.Termination
import Hinoko.Recycling
import Hinoko.Atomic

/-!
# The errors that calls report

The functions that register, map and start either come to their end, or set the error.  Some of
their checks do neither: `g_return_val_if_fail` gives `FALSE` without an error.  Where such a check
looks at the state, it depends on the past of the context whether a call reports anything.

* `registerChunk_reports_iff`, `start_reports_iff`: when the functions of the state report.
* `reports_of_run`: when the functions of the three kinds of context do, after any run.
* `reports_fails`: calls of a new context that report nothing.
-/

namespace Hinoko

open Reentrant

/-! ### What is to be reported -/

/-- The call comes to its end or sets the error, and tells what is missing: a context, and a mapping
where it needs one. -/
structure FwIsoCtxState.Reports (st : FwIsoCtxState) (needsMapping : Bool) (ret : Ret) : Prop where
  reported : ret = .success ∨ ∃ error, ret = .failure error
  notAllocated : st.fd < 0 → ret = .failure (.coded .notAllocated)
  notMapped : needsMapping → 0 ≤ st.fd → (∀ id, st.addr ≠ .mapped id) →
    ret = .failure (.coded .notMapped)

/-- The store has room for a chunk that passes the checks of its lengths, whether or not there is a
context or a mapping, and no failed mapping passes for one. -/
structure FwIsoCtxState.HasPlace (st : FwIsoCtxState) (skip : Bool) (tags syncCode : UInt32)
    (header : ArrayArg) (payloadLength : UInt32) : Prop where
  accepts : st.acceptsChunk skip tags syncCode header payloadLength
  room : st.dataLength.toNat + 4 + header.length.toNat ≤ st.allocDataLength.toNat
  addr : st.addr ≠ .mapFailed

/-- The store can be walked: it holds whole entries, and each payload fits into the buffer. -/
structure FwIsoCtxState.Walkable (st : FwIsoCtxState) : Prop where
  buffer : st.bytesPerBuffer ≠ 0
  entries : ∃ ps, Stores st ps ∧ ∀ p ∈ ps, Sized st p ∧ p.payloadLength ≤ st.bytesPerBuffer.toNat

variable {kind : FwIsoCtxMode} {st : FwIsoCtxState}

theorem FwIsoCtxState.Reports.congr {st' : FwIsoCtxState} {needsMapping : Bool} {ret : Ret}
    (hfd : st'.fd = st.fd) (haddr : st'.addr = st.addr) :
    st.Reports needsMapping ret ↔ st'.Reports needsMapping ret := by
  refine ⟨fun h => ⟨h.1, ?_, ?_⟩, fun h => ⟨h.1, ?_, ?_⟩⟩
  · rw [hfd]
    exact h.2
  · rw [hfd, haddr]
    exact h.3
  · rw [← hfd]
    exact h.2
  · rw [← hfd, ← haddr]
    exact h.3

theorem FwIsoCtxState.Reports.not_rejected {needsMapping : Bool} :
    ¬ st.Reports needsMapping .rejected :=
  fun h => h.reported.elim nofun nofun

theorem FwIsoCtxState.Reports.not_crashed {needsMapping : Bool} {fault : Fault} :
    ¬ st.Reports needsMapping (.crashed fault) :=
  fun h => h.reported.elim nofun nofun

/-- A call that needs a mapping has one when it comes to its end. -/
theorem FwIsoCtxState.Reports.mapped (h : st.Reports true .success) :
    ∃ id, st.addr = .mapped id := by
  by_contra hnone
  by_cases hfd : st.fd < 0
  · exact absurd (h.notAllocated hfd) nofun
  · exact absurd (h.notMapped rfl (by omega) fun id hid => hnone ⟨id, hid⟩) nofun

theorem FwIsoCtxState.reports_of_mapped {needsMapping : Bool} {ret : Ret} (hfd : 0 ≤ st.fd)
    {id : Nat} (haddr : st.addr = .mapped id)
    (hret : ret = .success ∨ ∃ error, ret = .failure error) : st.Reports needsMapping ret :=
  ⟨hret, fun hneg => absurd hfd (by omega), fun _ _ hnone => absurd haddr (hnone id)⟩

/-- A failed mapping is not reported by a call that looks for `NULL`. -/
theorem FwIsoCtxState.not_reports_of_mapFailed {ret : Ret} (hfd : 0 ≤ st.fd)
    (haddr : st.addr = .mapFailed) (hne : ret ≠ .failure (.coded .notMapped)) :
    ¬ st.Reports true ret :=
  fun h => hne (h.notMapped rfl hfd fun id hid => by rw [haddr] at hid; cases hid)

theorem FwIsoCtxState.reports_notAllocated {needsMapping : Bool} (hfd : st.fd < 0) :
    st.Reports needsMapping (.failure (.coded .notAllocated)) :=
  ⟨.inr ⟨_, rfl⟩, fun _ => rfl, fun _ hpos => absurd hfd (by omega)⟩

theorem FwIsoCtxState.reports_notMapped (hfd : 0 ≤ st.fd) :
    st.Reports true (.failure (.coded .notMapped)) :=
  ⟨.inr ⟨_, rfl⟩, fun hneg => absurd hfd (by omega), fun _ _ _ => rfl⟩

/-! ### Registering -/

section Register

variable {skip : Bool} {tags syncCode : UInt32} {header : ArrayArg} {payloadLength : UInt32}
  {irq : Bool}

theorem registerChunk_ret (h : Grounded kind st) :
    (st.registerChunk skip tags syncCode header payloadLength irq).ret =
      if st.acceptsChunk skip tags syncCode header payloadLength = true ∧
          st.dataLength.toNat + 4 + header.length.toNat ≤ st.allocDataLength.toNat then
        if st.fd < 0 then .failure (.coded .notAllocated)
        else if st.addr = .null then .failure (.coded .notMapped)
        else .success
      else .rejected := by
  have h4 : sizeofFwCdevIsoPacket.toNat = 4 := rfl
  by_cases hacc : st.acceptsChunk skip tags syncCode header payloadLength = true
  case neg => rw [FwIsoCtxState.registerChunk, if_pos hacc, if_neg fun hplace => hacc hplace.1]
  by_cases hroom : st.dataLength.toNat + 4 + header.length.toNat ≤ st.allocDataLength.toNat
  case neg =>
    rw [FwIsoCtxState.registerChunk, if_neg (not_not.mpr hacc), if_pos (by omega),
      if_neg fun hplace => hroom hplace.2]
  rw [FwIsoCtxState.registerChunk, if_neg (not_not.mpr hacc), if_neg (by omega),
    if_pos (And.intro hacc hroom)]
  split
  · rfl
  split
  · rfl
  next haddr =>
    obtain ⟨block, hblock, _⟩ := h.live haddr (by omega)
    rw [hblock]

/-- With a mapping a chunk is registered, or refused without an error. -/
theorem registerChunk_ne_failure (h : Grounded kind st) {id : Nat} (hid : st.addr = .mapped id)
    (error : GError) :
    (st.registerChunk skip tags syncCode header payloadLength irq).ret ≠ .failure error := by
  have hfd : ¬ st.fd < 0 := fun hneg => by
    rw [h.unallocated hneg] at hid
    cases hid
  have hnull : st.addr ≠ .null := by
    rw [hid]
    nofun
  rw [registerChunk_ret h, if_neg hfd, if_neg hnull]
  split <;> rintro ⟨⟩

/-- **When registering a chunk reports**: when it has a place, before anything else is looked at. -/
theorem registerChunk_reports_iff (h : Grounded kind st) :
    st.Reports true (st.registerChunk skip tags syncCode header payloadLength irq).ret ↔
      st.HasPlace skip tags syncCode header payloadLength := by
  rw [registerChunk_ret h]
  split
  next hplace =>
    split
    next hfd =>
      refine iff_of_true (FwIsoCtxState.reports_notAllocated hfd) ⟨hplace.1, hplace.2, ?_⟩
      rw [h.unallocated hfd]
      nofun
    next hfd =>
    split
    next haddr =>
      refine iff_of_true (FwIsoCtxState.reports_notMapped (by omega)) ⟨hplace.1, hplace.2, ?_⟩
      rw [haddr]
      nofun
    next haddr =>
      cases hmapped : st.addr with
      | null => exact absurd hmapped haddr
      | mapFailed =>
        exact iff_of_false (FwIsoCtxState.not_reports_of_mapFailed (by omega) hmapped nofun)
          fun hhas => hhas.addr hmapped
      | mapped id =>
        exact iff_of_true (FwIsoCtxState.reports_of_mapped (by omega) hmapped (.inl rfl))
          ⟨hplace.1, hplace.2, by rw [hmapped]; nofun⟩
  next hplace =>
    exact iff_of_false FwIsoCtxState.Reports.not_rejected fun hhas => hplace ⟨hhas.1, hhas.2⟩

end Register

/-! ### Mapping and starting -/

/-- **When mapping reports**: when there is a size. -/
theorem mapBuffer_reports_iff (bytes chunks : UInt32) (env : MapEnv) :
    st.Reports false (st.mapBuffer bytes chunks env).ret ↔ bytes ≠ 0 ∧ chunks ≠ 0 := by
  by_cases hbytes : bytes = 0
  case pos =>
    rw [FwIsoCtxState.mapBuffer, if_pos hbytes]
    exact iff_of_false FwIsoCtxState.Reports.not_rejected fun hsizes => hsizes.1 hbytes
  by_cases hchunks : chunks = 0
  case pos =>
    rw [FwIsoCtxState.mapBuffer, if_neg hbytes, if_pos hchunks]
    exact iff_of_false FwIsoCtxState.Reports.not_rejected fun hsizes => hsizes.2 hchunks
  refine iff_of_true ?_ ⟨hbytes, hchunks⟩
  simp only [FwIsoCtxState.mapBuffer, if_neg hbytes, if_neg hchunks]
  split
  next hfd => exact FwIsoCtxState.reports_notAllocated hfd
  next hfd =>
    refine ⟨?_, fun hneg => absurd hneg hfd, by rintro ⟨⟩⟩
    split
    · exact .inr ⟨_, rfl⟩
    cases env.mmap with
    | error errno => exact .inr ⟨_, rfl⟩
    | ok id => exact .inl rfl

theorem queueChunks_reports (h : st.Walkable) (answers : Nat → QueueAnswer) :
    (st.queueChunks answers).ret = .success ∨
      ∃ errno, (st.queueChunks answers).ret = .failure (.ioctl .queueIso errno) := by
  obtain ⟨ps, hst, hps⟩ := h.entries
  have hreturns := queueChunks_returns answers hst (fun p hp => (hps p hp).1) h.buffer
    fun p hp => (hps p hp).2
  rcases (st.queueChunks_cases answers).2 with ⟨_, hfailed | ⟨fault, hcrashed⟩⟩ | ⟨hsuccess, _⟩
  · exact .inr hfailed
  · exact absurd hcrashed (hreturns fault)
  · exact .inl hsuccess

/-- **When starting reports**, with a store that can be walked: when no failed mapping passes for
one. -/
theorem start_reports_iff (h : Grounded kind st) {cycleMatch : Option (UInt16 × UInt16)}
    {syncCode tags : UInt32} (hacc : 0 ≤ st.fd → st.acceptsStart cycleMatch syncCode tags)
    (hwalk : (∃ id, st.addr = .mapped id) → st.dataLength ≠ 0 → st.Walkable) (env : StartEnv) :
    st.Reports true (st.start cycleMatch syncCode tags env).ret ↔ st.addr ≠ .mapFailed := by
  simp only [FwIsoCtxState.start]
  split
  next hfd =>
    refine iff_of_true (FwIsoCtxState.reports_notAllocated hfd) ?_
    rw [h.unallocated hfd]
    rintro ⟨⟩
  next hfd =>
  split
  next haddr =>
    refine iff_of_true (FwIsoCtxState.reports_notMapped (by omega)) ?_
    rw [haddr]
    rintro ⟨⟩
  next haddr =>
  rw [if_neg (not_not.mpr (hacc (by omega)))]
  -- what remains is a matter of the address: a failed mapping has passed for one
  have hpassed : ∀ ret,
      ((∃ id, st.addr = .mapped id) → ret = .success ∨ ∃ error, ret = .failure error) →
      ret ≠ .failure (.coded .notMapped) → (st.Reports true ret ↔ st.addr ≠ .mapFailed) := by
    intro ret hret hne
    cases hmapped : st.addr with
    | null => exact absurd hmapped haddr
    | mapFailed =>
      exact iff_of_false (FwIsoCtxState.not_reports_of_mapFailed (by omega) hmapped hne)
        fun hfailed => hfailed rfl
    | mapped id =>
      exact iff_of_true (FwIsoCtxState.reports_of_mapped (by omega) hmapped (hret ⟨id, hmapped⟩))
        (by rintro ⟨⟩)
  split
  next hnone => exact hpassed _ (fun _ => .inr ⟨_, rfl⟩) (by rintro ⟨⟩)
  next hsome =>
    have hqueued := fun hmapped => queueChunks_reports (hwalk hmapped hsome) env.queueIso
    rcases (st.queueChunks_cases env.queueIso).2 with
      ⟨_, ⟨errno, hfailed⟩ | ⟨fault, hcrashed⟩⟩ | ⟨hsuccess, _⟩
    · simp only [hfailed]
      exact hpassed _ (fun _ => .inr ⟨_, rfl⟩) (by rintro ⟨⟩)
    · simp only [hcrashed]
      refine hpassed _ (fun hmapped => ?_) (by rintro ⟨⟩)
      rcases hqueued hmapped with hsuccess | ⟨errno, hfailed⟩
      · cases hsuccess.symm.trans hcrashed
      · cases hfailed.symm.trans hcrashed
    · simp only [hsuccess]
      cases env.startIso with
      | some errno => exact hpassed _ (fun _ => .inr ⟨_, rfl⟩) (by rintro ⟨⟩)
      | none => exact hpassed _ (fun _ => .inl rfl) (by rintro ⟨⟩)

/-- A store of whole entries is one that its chunks have made. -/
theorem FwIsoCtxState.Walkable.storeInv (h : st.Walkable) (hground : Grounded kind st)
    (haddr : st.addr ≠ .null) (hroom : st.dataLength.toNat ≤ st.allocDataLength.toNat) :
    ∃ es, StoreInv kind st es ∧
      ∀ p ∈ held st es, p.payloadLength ≤ st.bytesPerBuffer.toNat := by
  obtain ⟨ps, hst, hps⟩ := h.entries
  have hheld : held st (ps.map .chunk) = ps := by
    have hchunks : chunksSinceMap (ps.map .chunk) = ps :=
      FwIsoIrMultiple.chunksSinceMap_chunks [] ps
    rw [held, hchunks, ← hst.count, List.rtake, Nat.sub_self, List.drop_zero]
  refine ⟨ps.map .chunk, ⟨hground.mode, hground.unallocated, fun hnull => absurd hnull haddr,
    hroom, hground.live, ?_, ?_⟩, ?_⟩
  · rw [hheld]
    exact hst
  · rw [hheld]
    exact fun p hp => (hps p hp).1
  · rw [hheld]
    exact fun p hp => (hps p hp).2

/-! ### IT contexts -/

namespace FwIsoIt

variable {self : FwIsoIt}

/-- The payload ends below `2^32`, counted from where the writer stands.  `read_frame` does not notice
a sum that does not fit, and the writer then leaves the mapped buffer. -/
def WritesInside (self : FwIsoIt) (length : UInt32) : Prop :=
  self.state.bytesPerBuffer < self.offset ∨ self.offset.toNat + length.toNat < 4294967296

/-- The rest of a payload always goes to the start of the buffer. -/
theorem copyTo_rest (self : FwIsoIt) {id : Nat} (hid : self.state.addr = .mapped id)
    (rest : UInt32) (bs : List UInt8) :
    ∃ mem, self.copyTo (self.state.readFrame 0 rest).1
      (bs.take (self.state.readFrame 0 rest).2.toNat) = some mem := by
  obtain ⟨hframe, hsize⟩ := self.state.readFrame_zero rest
  have htake := List.length_take_le (self.state.readFrame 0 rest).2.toNat bs
  rw [hframe]
  exact ⟨_, copyTo_inside self hid 0 _ (by rw [UInt32.toNat_zero]; omega)⟩

/-- Writing a payload comes down to its first copy. -/
theorem writePayload_isSome_iff_copyTo (self : FwIsoIt) {id : Nat}
    (hid : self.state.addr = .mapped id) (payload : List UInt8) (length : UInt32) :
    (∃ self', self.writePayload payload length = some self') ↔
      ∃ mem, self.copyTo (self.state.readFrame self.offset length).1
        (payload.take (self.state.readFrame self.offset length).2.toNat) = some mem := by
  constructor
  · rintro ⟨self', h⟩
    simp only [writePayload, Option.bind_eq_bind, Option.bind_eq_some_iff] at h
    obtain ⟨mem, hmem, _⟩ := h
    exact ⟨mem, hmem⟩
  · rintro ⟨mem, hmem⟩
    simp only [writePayload, hmem, Option.bind_eq_bind, Option.bind_some]
    split
    · exact ⟨_, rfl⟩
    · obtain ⟨mem', hmem'⟩ := copyTo_rest { self with
        mem := mem, offset := self.offset + (self.state.readFrame self.offset length).2 } hid
        (length - (self.state.readFrame self.offset length).2)
        (payload.drop (self.state.readFrame self.offset length).2.toNat)
      simp only [hmem', Option.bind_some]
      exact ⟨_, rfl⟩

/-- **With a mapping, the writer stays inside** exactly when it does at its own place. -/
theorem writePayload_isSome_iff (self : FwIsoIt) {id : Nat} (hid : self.state.addr = .mapped id)
    {payload : List UInt8} {length : UInt32} (hlen : payload.length = length.toNat) :
    (∃ self', self.writePayload payload length = some self') ↔ self.WritesInside length := by
  rw [writePayload_isSome_iff_copyTo self hid, WritesInside]
  by_cases houtside : self.state.bytesPerBuffer < self.offset
  · rw [FwIsoCtxState.readFrame, if_pos houtside]
    exact iff_of_true ⟨self.mem, if_pos rfl⟩ (.inl houtside)
  rw [or_iff_right houtside]
  rw [UInt32.lt_iff_toNat_lt, Nat.not_lt] at houtside
  have hbuffer := self.state.bytesPerBuffer.toNat_lt
  have htake := List.length_take_le (self.state.readFrame self.offset length).2.toNat payload
  rw [self.state.readFrame_fst length houtside]
  rcases FwIsoCtxState.readFrame_cases length houtside with
    ⟨hfit, hsize⟩ | ⟨hwrap, hsize⟩ | ⟨_, hsum, hsize⟩
  · refine iff_of_true ⟨_, copyTo_inside self hid self.offset _ ?_⟩ (by omega)
    rw [hsize] at htake ⊢
    omega
  · -- all of it is copied, past the end
    refine iff_of_false ?_ (by omega)
    rw [hsize, ← hlen, List.take_length]
    have hne : payload ≠ [] := by
      rintro rfl
      have := self.offset.toNat_lt
      rw [← hlen, List.length_nil] at hwrap
      omega
    simp only [copyTo, if_neg hne, hid, hlen]
    rw [if_neg (by omega)]
    rintro ⟨_, ⟨⟩⟩
  · exact iff_of_true ⟨_, copyTo_inside self hid self.offset _ (by omega)⟩ hsum

/-- **When registering a packet reports**: when its chunk has a place, and its payload, with a
mapping, stays inside. -/
theorem registerPacket_reports_iff (h : Grounded self) {tags syncCode : UInt32}
    {header payload : ArrayArg} (hsync : syncCode ≤ 15) (hheader : acceptsArray header)
    (hpayload : acceptsArray payload) (irq : Bool) :
    self.state.Reports true (self.registerPacket tags syncCode header payload irq).ret ↔
      self.state.HasPlace (header.length = 0 ∧ payload.length = 0 : Bool) tags syncCode header
        payload.length ∧
      ((∃ id, self.state.addr = .mapped id) → self.WritesInside payload.length) := by
  have hchunk : self.state.Reports true (self.state.registerChunk
      (header.length = 0 ∧ payload.length = 0 : Bool) tags syncCode header payload.length irq).ret ↔
        self.state.HasPlace (header.length = 0 ∧ payload.length = 0 : Bool) tags syncCode header
          payload.length := registerChunk_reports_iff h
  have hsame := SameSetup.registerChunk self.state (header.length = 0 ∧ payload.length = 0 : Bool)
    tags syncCode header payload.length irq
  rw [← hchunk, registerPacket, if_neg (UInt32.not_lt.mpr hsync), if_neg (not_not.mpr hheader),
    if_neg (not_not.mpr hpayload)]
  cases hr : (self.state.registerChunk (header.length = 0 ∧ payload.length = 0 : Bool) tags syncCode
    header payload.length irq).ret with
  | success =>
    -- the chunk is registered, and what is left is to write the payload
    generalize hself₁ : ({ self with state := (self.state.registerChunk
      (header.length = 0 ∧ payload.length = 0 : Bool) tags syncCode header payload.length
      irq).state } : FwIsoIt) = self₁
    have hwrites : (∃ id, self.state.addr = .mapped id) →
        ((∃ self', self₁.writePayload payload.bytes payload.length = some self') ↔
          self.WritesInside payload.length) := by
      rintro ⟨id, hid⟩
      have hid₁ : self₁.state.addr = .mapped id := by
        rw [← hself₁]
        exact hsame.addr.trans hid
      rw [writePayload_isSome_iff self₁ hid₁ (length_bytes_of_accepts hpayload), WritesInside,
        WritesInside, ← hself₁, hsame.bytesPerBuffer]
    simp only [hr, hself₁]
    split
    next hnone =>
      refine iff_of_false FwIsoCtxState.Reports.not_crashed fun hreports => ?_
      obtain ⟨self', hself'⟩ := (hwrites hreports.1.mapped).mpr (hreports.2 hreports.1.mapped)
      cases hnone.symm.trans hself'
    next hself' =>
      exact iff_self_and.mpr fun hreports _ => (hwrites hreports.mapped).mp ⟨_, hself'⟩
  | failure error =>
    simp only [hr]
    exact iff_self_and.mpr fun _ hmapped =>
      absurd hr (registerChunk_ne_failure h hmapped.choose_spec error)
  | rejected =>
    simp only [hr]
    exact iff_of_false FwIsoCtxState.Reports.not_rejected fun h =>
      FwIsoCtxState.Reports.not_rejected h.1
  | crashed fault =>
    simp only [hr]
    exact iff_of_false FwIsoCtxState.Reports.not_crashed fun h =>
      FwIsoCtxState.Reports.not_crashed h.1

structure ReportsErrors (it : FwIsoIt) : Prop where
  mapBuffer : ∀ bytes payloads env mem,
    it.state.Reports false (it.mapBuffer bytes payloads env mem).ret ↔ bytes ≠ 0 ∧ payloads ≠ 0
  registerPacket : ∀ (tags syncCode : UInt32) (header payload : ArrayArg) (irq : Bool),
    syncCode ≤ 15 → acceptsArray header → acceptsArray payload →
      (it.state.Reports true (it.registerPacket tags syncCode header payload irq).ret ↔
        it.state.HasPlace (header.length = 0 ∧ payload.length = 0 : Bool) tags syncCode header
          payload.length ∧
        ((∃ id, it.state.addr = .mapped id) → it.WritesInside payload.length))
  start : ∀ cycleMatch env, FwIsoCtxState.acceptsCycleMatch cycleMatch →
    ((∃ id, it.state.addr = .mapped id) → it.state.dataLength ≠ 0 → it.state.Walkable) →
      (it.state.Reports true (it.start cycleMatch env).ret ↔ it.state.addr ≠ .mapFailed)

theorem reportsErrors (h : Grounded self) : ReportsErrors self := by
  refine ⟨fun bytes payloads env mem => mapBuffer_reports_iff bytes payloads env,
    fun tags syncCode header payload irq hsync hheader hpayload =>
      registerPacket_reports_iff h hsync hheader hpayload irq,
    fun cycleMatch env hcycle hwalk => ?_⟩
  rw [FwIsoIt.start, if_neg (not_not.mpr hcycle), Out.map_ret]
  refine start_reports_iff h (fun hfd => ?_) hwalk env
  simp [FwIsoCtxState.acceptsStart, hcycle, Hinoko.Grounded.mode h hfd]

end FwIsoIt

/-! ### Single-channel IR contexts -/

namespace FwIsoIrSingle

variable {self : FwIsoIrSingle}

structure ReportsErrors (it : FwIsoIrSingle) : Prop where
  mapBuffer : ∀ bytes payloads env,
    it.state.Reports false (it.mapBuffer bytes payloads env).ret ↔ bytes ≠ 0 ∧ payloads ≠ 0
  registerPacket : ∀ irq, it.state.Reports true (it.registerPacket irq).ret ↔
    it.state.HasPlace false 0 0 .null 0
  start : ∀ (cycleMatch) (syncCode tags : UInt32) (env),
    FwIsoCtxState.acceptsCycleMatch cycleMatch → syncCode ≤ 15 → tags ≤ 15 →
    ((∃ id, it.state.addr = .mapped id) → it.state.dataLength ≠ 0 → it.state.Walkable) →
      (it.state.Reports true (it.start cycleMatch syncCode tags env).ret ↔
        it.state.addr ≠ .mapFailed)

theorem reportsErrors (h : Grounded self) : ReportsErrors self := by
  refine ⟨fun bytes payloads env => mapBuffer_reports_iff bytes payloads env,
    fun irq => registerChunk_reports_iff h.state,
    fun cycleMatch syncCode tags env hcycle hsync htags hwalk => ?_⟩
  rw [FwIsoIrSingle.start, if_neg (not_not.mpr hcycle), if_neg (UInt32.not_lt.mpr hsync),
    Out.map_ret]
  refine start_reports_iff h.state (fun hfd => ?_) hwalk env
  simp [FwIsoCtxState.acceptsStart, hcycle, h.state.mode hfd, hsync, htags]

end FwIsoIrSingle

/-! ### Multiple-channel IR contexts -/

namespace FwIsoIrMultiple

variable {self : FwIsoIrMultiple}

theorem registerChunks_ret : ∀ (n : Nat) {self : FwIsoIrMultiple}, Grounded self →
    0 ≤ self.state.fd → self.state.addr ≠ .null →
    (registerChunks n self).ret = .success ∨ (registerChunks n self).ret = .rejected := by
  intro n
  induction n with
  | zero => exact fun _ _ _ => .inl rfl
  | succ n ih =>
    intro self h hfd haddr
    have hsame : SameSetup self.state self.registerChunk.state.state :=
      SameSetup.registerChunk self.state false 0 0 .null 0 _
    have hret : self.registerChunk.ret = .success ∨ self.registerChunk.ret = .rejected := by
      rw [registerChunk, Out.map_ret, Hinoko.registerChunk_ret h.state, if_neg (not_lt.mpr hfd),
        if_neg haddr]
      split
      · exact .inl rfl
      · exact .inr rfl
    rcases hret with hret | hret
    · simp only [registerChunks, hret]
      exact ih h.registerChunk (by rw [hsame.fd]; exact hfd) (by rw [hsame.addr]; exact haddr)
    · simp only [registerChunks, hret]
      exact .inr trivial

/-- The store has room for the chunks that a start registers: one, or with a mapping all of them. -/
structure Startable (it : FwIsoIrMultiple) (chunksPerIrq : UInt32) : Prop where
  irq : chunksPerIrq < it.state.chunksPerBuffer
  place : it.state.HasPlace false 0 0 .null 0
  room : (∃ id, it.state.addr = .mapped id) → it.state.dataLength.toNat +
    4 * it.state.chunksPerBuffer.toNat ≤ it.state.allocDataLength.toNat

theorem start_ret {cycleMatch : Option (UInt16 × UInt16)} {syncCode tags chunksPerIrq : UInt32}
    (hcycle : FwIsoCtxState.acceptsCycleMatch cycleMatch) (hsync : syncCode ≤ 15)
    (hirq : chunksPerIrq < self.state.chunksPerBuffer) (env : StartEnv) :
    let o := self.prepared chunksPerIrq
    (self.start cycleMatch syncCode tags chunksPerIrq env).ret =
      if o.ret = .success then (o.state.state.start cycleMatch syncCode tags env).ret
      else o.ret := by
  have haccepts : ¬ self.RefusesStart cycleMatch syncCode chunksPerIrq := by
    simp only [RefusesStart, not_or, not_not]
    exact ⟨hcycle, UInt32.not_lt.mpr hsync, UInt32.not_le.mpr hirq⟩
  rw [start_eq haccepts]
  dsimp only
  split
  next hret => rw [if_pos hret]
  next hne => rw [if_neg hne]

theorem registerChunks_first (h : Grounded self)
    (hready : ¬ 0 ≤ self.state.fd ∨ ¬ self.state.addr ≠ .null) (n : Nat) :
    (registerChunks (n + 1) self).ret = self.registerChunk.ret ∧
      self.registerChunk.ret ≠ .success := by
  have hne : self.registerChunk.ret ≠ .success := by
    rw [registerChunk, Out.map_ret, Hinoko.registerChunk_ret h.state]
    split
    · split
      · rintro ⟨⟩
      next hfd =>
        rw [if_pos (not_not.mp (hready.resolve_left (not_not.mpr (not_lt.mp hfd))))]
        rintro ⟨⟩
    · rintro ⟨⟩
  refine ⟨?_, hne⟩
  simp only [registerChunks]

/-- Where a mapped buffer leaves room for all chunks they are registered, and the store can be
walked as before. -/
theorem registers_walkable (h : Grounded self) {id : Nat} (hid : self.state.addr = .mapped id)
    (hwalk : self.state.Walkable)
    (hchunk : self.state.bytesPerChunk.toNat % 65536 ≤ self.state.bytesPerBuffer.toNat) {n : Nat}
    (hroom : self.state.dataLength.toNat + 4 * n ≤ self.state.allocDataLength.toNat) :
    (registerChunks n self).ret = .success ∧ (registerChunks n self).state.state.Walkable := by
  have haddr : self.state.addr ≠ .null := by
    rw [hid]
    nofun
  have hfd : 0 ≤ self.state.fd := not_lt.mp fun hneg => haddr (h.state.unallocated hneg)
  obtain ⟨es, hstore, hfit⟩ := hwalk.storeInv h.state haddr (by omega)
  obtain ⟨hret, hstore', _, ps, _, _, hall, hheld⟩ := registers n hstore hfd haddr hroom
  have hbuffer := (registerChunks_same n self).1.bytesPerBuffer
  refine ⟨hret, by rw [hbuffer]; exact hwalk.buffer, _, hstore'.stores, fun p hp =>
    ⟨hstore'.sized p hp, ?_⟩⟩
  rw [hbuffer]
  rw [hheld] at hp
  rcases List.mem_append.mp hp with hp | hp
  · exact hfit p hp
  · rw [hall p hp]
    exact hchunk

/-- **When starting reports**: when the store has room for the chunks. -/
theorem start_reports_iff (h : Grounded self) {cycleMatch : Option (UInt16 × UInt16)}
    {syncCode tags chunksPerIrq : UInt32} (hcycle : FwIsoCtxState.acceptsCycleMatch cycleMatch)
    (hsync : syncCode ≤ 15) (htags : tags ≤ 15)
    (hwalk : (∃ id, self.state.addr = .mapped id) → self.state.Walkable ∧
      self.state.bytesPerChunk.toNat % 65536 ≤ self.state.bytesPerBuffer.toNat) (env : StartEnv) :
    self.state.Reports true (self.start cycleMatch syncCode tags chunksPerIrq env).ret ↔
      self.Startable chunksPerIrq := by
  by_cases hirq : chunksPerIrq < self.state.chunksPerBuffer
  case neg =>
    rw [start, if_neg (not_not.mpr hcycle), if_neg (UInt32.not_lt.mpr hsync),
      if_pos (UInt32.not_lt.mp hirq)]
    exact iff_of_false FwIsoCtxState.Reports.not_rejected fun hstart => hirq hstart.irq
  rw [start_ret hcycle hsync hirq]
  obtain ⟨n, hn⟩ : ∃ n, self.state.chunksPerBuffer.toNat = n + 1 := by
    rw [UInt32.lt_iff_toNat_lt] at hirq
    exact ⟨self.state.chunksPerBuffer.toNat - 1, by omega⟩
  have hground : Grounded { self with chunksPerIrq := chunksPerIrq, accumulatedChunkCount := 0 } :=
    h.congr h.state rfl rfl rfl
  by_cases hready : 0 ≤ self.state.fd ∧ self.state.addr ≠ .null
  case neg =>
    obtain ⟨hfirst, hne⟩ := registerChunks_first hground (not_and_or.mp hready) n
    rw [prepared, hn, hfirst, if_neg hne]
    have hplace : self.state.Reports true (registerChunk { self with
        chunksPerIrq := chunksPerIrq, accumulatedChunkCount := 0 }).ret ↔
          self.state.HasPlace false 0 0 .null 0 := registerChunk_reports_iff h.state
    refine hplace.trans ⟨fun hplace => ⟨hirq, hplace, ?_⟩, fun hstart => hstart.place⟩
    rintro ⟨id, hid⟩
    have haddr : self.state.addr ≠ .null := by
      rw [hid]
      rintro ⟨⟩
    exact absurd ⟨not_lt.mp fun hneg => haddr (h.state.unallocated hneg), haddr⟩ hready
  obtain ⟨hfd, haddr⟩ := hready
  set o := self.prepared chunksPerIrq
  have hsame : SameSetup self.state o.state.state := (registerChunks_same _ { self with
    chunksPerIrq := chunksPerIrq, accumulatedChunkCount := 0 }).1
  have hground' : Grounded o.state := hground.registerChunks self.state.chunksPerBuffer.toNat
  have hret : o.ret = .success ∨ o.ret = .rejected :=
    registerChunks_ret self.state.chunksPerBuffer.toNat hground hfd haddr
  rcases hret with hret | hret
  · have hroom : self.state.dataLength.toNat + 4 * self.state.chunksPerBuffer.toNat ≤
        self.state.allocDataLength.toNat := by
      have hroom := room_of_registers self.state.chunksPerBuffer.toNat (by omega) hret
      exact hroom
    have hiff : o.state.state.Reports true (o.state.state.start cycleMatch syncCode tags env).ret ↔
        o.state.state.addr ≠ .mapFailed := by
      refine Hinoko.start_reports_iff hground'.state (fun hfd' => ?_) (fun hmapped _ => ?_) env
      · simp [FwIsoCtxState.acceptsStart, hcycle, hground'.state.mode hfd', hsync, htags]
      · obtain ⟨id, hid⟩ := hmapped
        rw [hsame.addr] at hid
        obtain ⟨hwalk, hchunk⟩ := hwalk ⟨id, hid⟩
        exact (registers_walkable hground hid hwalk hchunk hroom).2
    rw [if_pos hret, FwIsoCtxState.Reports.congr hsame.fd hsame.addr, hiff, hsame.addr]
    refine ⟨fun hne => ⟨hirq, ⟨?_, ?_, hne⟩, fun _ => hroom⟩, fun hstart => hstart.place.addr⟩
    · simp [FwIsoCtxState.acceptsChunk, h.state.mode hfd, ArrayArg.null]
    · show self.state.dataLength.toNat + 4 + 0 ≤ _
      omega
  · rw [if_neg (by rw [hret]; rintro ⟨⟩), hret]
    refine iff_of_false FwIsoCtxState.Reports.not_rejected fun hstart => ?_
    cases hid : self.state.addr with
    | null => exact haddr hid
    | mapFailed => exact hstart.place.addr hid
    | mapped id =>
      obtain ⟨hwalk, hchunk⟩ := hwalk ⟨id, hid⟩
      have hsuccess := (registers_walkable hground hid hwalk hchunk (hstart.room ⟨id, hid⟩)).1
      cases hsuccess.symm.trans hret

structure ReportsErrors (it : FwIsoIrMultiple) : Prop where
  mapBuffer : ∀ (bytes chunks : UInt32) (env),
    it.state.Reports false (it.mapBuffer bytes chunks env).ret ↔
      (bytes + 3) / 4 * 4 ≠ 0 ∧ chunks ≠ 0
  start : ∀ (cycleMatch) (syncCode tags chunksPerIrq : UInt32) (env),
    FwIsoCtxState.acceptsCycleMatch cycleMatch → syncCode ≤ 15 → tags ≤ 15 →
    ((∃ id, it.state.addr = .mapped id) → it.state.Walkable ∧
      it.state.bytesPerChunk.toNat % 65536 ≤ it.state.bytesPerBuffer.toNat) →
      (it.state.Reports true (it.start cycleMatch syncCode tags chunksPerIrq env).ret ↔
        it.Startable chunksPerIrq)

theorem reportsErrors (h : Grounded self) : ReportsErrors self := by
  refine ⟨fun bytes chunks env => ?_,
    fun cycleMatch syncCode tags chunksPerIrq env hcycle hsync htags hwalk =>
      start_reports_iff h hcycle hsync htags hwalk env⟩
  have hret : (self.mapBuffer bytes chunks env).ret =
      (self.state.mapBuffer ((bytes + 3) / 4 * 4) chunks env.toMapEnv).ret := by
    simp only [FwIsoIrMultiple.mapBuffer]
    split <;> rfl
  rw [hret]
  exact mapBuffer_reports_iff _ _ _

end FwIsoIrMultiple

/-! ### Runs -/

/-- **What is reported in every run**: each function reports its errors where the checks that set
none let the call pass. -/
theorem reports_of_run (its : List (Move FwIsoIt.Op)) (irSingles : List (Move FwIsoIrSingle.Op))
    (irMultiples : List (Move FwIsoIrMultiple.Op)) :
    (run FwIsoIt.exec ⟨⟨.new, []⟩, []⟩ its).state.priv.ReportsErrors ∧
      (run FwIsoIrSingle.exec ⟨⟨.new, []⟩, []⟩ irSingles).state.priv.ReportsErrors ∧
      (run FwIsoIrMultiple.exec ⟨⟨.new, []⟩, []⟩ irMultiples).state.priv.ReportsErrors :=
  ⟨FwIsoIt.reportsErrors (FwIsoIt.grounded_of_run its),
    FwIsoIrSingle.reportsErrors (FwIsoIrSingle.grounded_of_run irSingles),
    FwIsoIrMultiple.reportsErrors (FwIsoIrMultiple.grounded_of_run irMultiples)⟩

/-- **Calls that report nothing**: a new context has room for no chunk and no interval of
interrupts, and a full store is refused as if the argument were wrong. -/
theorem reports_fails :
    (FwIsoIrSingle.new.state.fd < 0 ∧
      ¬ FwIsoIrSingle.new.state.Reports true (FwIsoIrSingle.new.registerPacket false).ret) ∧
    (FwIsoIrMultiple.new.state.fd < 0 ∧ ¬ FwIsoIrMultiple.new.state.Reports true
      (FwIsoIrMultiple.new.start none 0 0 0 (grantStart 1)).ret) ∧
    let full := (run FwIsoIrSingle.exec ⟨⟨.new, []⟩, []⟩ FwIsoIrSingle.registerTwo).state.priv
    full.state.dataLength = full.state.allocDataLength ∧
      ¬ full.state.Reports true (full.registerPacket false).ret := by
  refine ⟨⟨by decide, fun h => ?_⟩, ⟨by decide, fun h => ?_⟩, by decide +kernel, fun h => ?_⟩
  · rw [show (FwIsoIrSingle.new.registerPacket false).ret = .rejected by decide +kernel] at h
    exact h.not_rejected
  · rw [show (FwIsoIrMultiple.new.start none 0 0 0 (grantStart 1)).ret = .rejected
      by decide +kernel] at h
    exact h.not_rejected
  · rw [show (FwIsoIrSingle.registerPacket _ false).ret = .rejected by decide +kernel] at h
    exact h.not_rejected

def eightBytes : IsoPacket := ⟨67108872, []⟩

/-- The theorem at contexts that start: with two chunks registered, with none of the chunks yet, and
with nothing at all. -/
theorem reports_starting :
    (let full := (run FwIsoIrSingle.exec ⟨⟨.new, []⟩, []⟩ FwIsoIrSingle.registerTwo).state.priv
     full.state.Reports true (full.start none 0 0 (grantStart 2)).ret) ∧
    (let mapped := (run FwIsoIrMultiple.exec ⟨⟨.new, []⟩, []⟩ irMultipleMapped).state.priv
     mapped.state.Reports true (mapped.start none 0 0 1 (grantStart 2)).ret) ∧
    FwIsoIt.new.state.Reports true (FwIsoIt.new.start none (grantStart 1)).ret := by
  obtain ⟨hit, hsingle, hmultiple⟩ := reports_of_run [] FwIsoIrSingle.registerTwo irMultipleMapped
  refine ⟨(hsingle.start none 0 0 (grantStart 2) rfl (by decide) (by decide) fun _ _ => ?_).mpr ?_,
    (hmultiple.start none 0 0 1 (grantStart 2) rfl (by decide) (by decide) fun _ => ?_).mpr ?_,
    (hit.start none (grantStart 1) rfl fun hmapped => ?_).mpr nofun⟩
  · refine ⟨by decide +kernel, [eightBytes, eightBytes], ⟨by decide +kernel, by decide +kernel,
      fun _ => ⟨_, rfl, by decide +kernel, by decide +kernel⟩⟩, ?_⟩
    simp only [Sized]
    decide +kernel
  · decide +kernel
  · exact ⟨⟨by decide +kernel, [], ⟨by decide +kernel, by decide +kernel, fun h => absurd rfl h⟩,
      nofun⟩, by decide +kernel⟩
  · exact ⟨by decide +kernel, ⟨by decide +kernel, by decide +kernel, by decide +kernel⟩,
      fun _ => by decide +kernel⟩
  · obtain ⟨id, hid⟩ := hmapped
    cases hid

end Hinoko
