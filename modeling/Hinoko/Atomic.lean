import Hinoko.Interrupts
import Hinoko.Placement

/-!
# Calls that fail

What a call of `start` or `map_buffer` leaves behind when it returns `FALSE`.  The
functions of the state check their arguments first, and then change fields one by one
between requests to the system; the functions of the kinds of context change fields of
their own around them.

* `returns_iff`: when the chunks that such a start has queued bring the offset back.
* `start_unchanged_iff`: when the bookkeeping is as before a failed start.
* `mapBuffer_unchanged_iff`: when the mapping is as before a failed call.
-/

namespace Hinoko

open Reentrant

/-! ### The state -/

structure SameBooks (st st' : FwIsoCtxState) : Prop where
  running : st'.running = st.running
  dataLength : st'.dataLength = st.dataLength
  registeredChunkCount : st'.registeredChunkCount = st.registeredChunkCount
  currOffset : st'.currOffset = st.currOffset

structure SameMapping (st st' : FwIsoCtxState) : Prop where
  addr : st'.addr = st.addr
  data : st'.data = st.data
  allocDataLength : st'.allocDataLength = st.allocDataLength
  bytesPerChunk : st'.bytesPerChunk = st.bytesPerChunk
  chunksPerBuffer : st'.chunksPerBuffer = st.chunksPerBuffer

namespace FwIsoCtxState

/-- A start passes all checks and queues all chunks, so it gets as far as
`FW_CDEV_IOC_START_ISO`. -/
structure ReachesStartIso (st : FwIsoCtxState) (cycleMatch : Option (UInt16 × UInt16))
    (syncCode tags : UInt32) (answers : Nat → QueueAnswer) : Prop where
  allocated : 0 ≤ st.fd
  mapped : st.addr ≠ .null
  accepts : st.acceptsStart cycleMatch syncCode tags
  registered : st.dataLength ≠ 0
  queued : (st.queueChunks answers).ret = .success

variable {st : FwIsoCtxState} {cycleMatch : Option (UInt16 × UInt16)} {syncCode tags : UInt32}
  {env : StartEnv}

theorem start_of_reaches (h : st.ReachesStartIso cycleMatch syncCode tags env.queueIso)
    (hfalse : (st.start cycleMatch syncCode tags env).ret.IsFalse) :
    ∃ x, (st.queueChunks env.queueIso).state.currOffset = x ∧
      (st.start cycleMatch syncCode tags env).state =
        { st with currOffset := x, dataLength := 0, registeredChunkCount := 0 } := by
  have hfd : ¬ st.fd < 0 := by
    have := h.allocated
    omega
  obtain ⟨x, hstate⟩ : ∃ x, (st.queueChunks env.queueIso).state =
      { st with currOffset := x, dataLength := 0, registeredChunkCount := 0 } := by
    rcases (st.queueChunks_cases env.queueIso).2 with ⟨_, ⟨_, he⟩ | ⟨_, he⟩⟩ | ⟨_, hx⟩
    · rw [h.queued] at he
      cases he
    · rw [h.queued] at he
      cases he
    · exact hx
  refine ⟨x, by rw [hstate], ?_⟩
  simp only [start, hfd, h.mapped, h.accepts, h.registered, h.queued, if_false,
    not_true] at hfalse ⊢
  cases hs : env.startIso with
  | some errno => exact hstate
  | none => simp [hs, Ret.IsFalse] at hfalse

theorem start_of_not_reaches (h : ¬ st.ReachesStartIso cycleMatch syncCode tags env.queueIso) :
    (st.start cycleMatch syncCode tags env).state = st := by
  rcases st.start_cases cycleMatch syncCode tags env with
    hr | ⟨⟨hfd, haddr, hacc, hlen⟩, ⟨hret, ho⟩ | ⟨hret, _⟩⟩
  · exact hr.state
  · rw [ho]
    rcases (st.queueChunks_cases env.queueIso).2 with ⟨hstate, _⟩ | ⟨hsucc, _⟩
    · exact hstate
    · exact absurd hsucc hret
  · exact absurd ⟨hfd, haddr, hacc, hlen, hret⟩ h

theorem start_sameBooks_iff (hfalse : (st.start cycleMatch syncCode tags env).ret.IsFalse) :
    SameBooks st (st.start cycleMatch syncCode tags env).state ↔
      ¬ st.ReachesStartIso cycleMatch syncCode tags env.queueIso := by
  refine ⟨fun hsame h => ?_, fun h => ?_⟩
  · obtain ⟨x, _, hstate⟩ := start_of_reaches h hfalse
    have hlen := hsame.dataLength
    rw [hstate] at hlen
    exact h.registered hlen.symm
  · rw [start_of_not_reaches h]
    exact ⟨rfl, rfl, rfl, rfl⟩

/-- The checks of `fw_iso_ctx_state_map_buffer` fail. -/
def RefusesMapping (st : FwIsoCtxState) (bytesPerChunk chunksPerBuffer : UInt32) : Prop :=
  bytesPerChunk = 0 ∨ chunksPerBuffer = 0 ∨ st.fd < 0 ∨ st.addr ≠ .null

theorem mapBuffer_of_refuses {bytesPerChunk chunksPerBuffer : UInt32} {env : MapEnv}
    (h : st.RefusesMapping bytesPerChunk chunksPerBuffer) :
    Refused st (st.mapBuffer bytesPerChunk chunksPerBuffer env) := by
  rcases st.mapBuffer_cases bytesPerChunk chunksPerBuffer env with
    hr | ⟨⟨hbytes, hchunks, hfd, haddr⟩, _⟩
  · exact hr
  · rcases h with h | h | h | h
    · exact absurd h hbytes
    · exact absurd h hchunks
    · omega
    · exact absurd haddr h

theorem mapBuffer_sameMapping_iff {bytesPerChunk chunksPerBuffer : UInt32} {env : MapEnv}
    (hfalse : (st.mapBuffer bytesPerChunk chunksPerBuffer env).ret.IsFalse) :
    SameMapping st (st.mapBuffer bytesPerChunk chunksPerBuffer env).state ↔
      st.RefusesMapping bytesPerChunk chunksPerBuffer := by
  refine ⟨fun hsame => ?_, fun h => ?_⟩
  · by_contra hnot
    simp only [RefusesMapping, not_or, not_not, not_lt] at hnot
    obtain ⟨hbytes, hchunks, hfd, haddr⟩ := hnot
    -- all checks are passed, so it is `mmap` that fails, and `addr` says so
    simp only [mapBuffer, hbytes, hchunks, not_lt.mpr hfd, haddr, if_false, not_true, ne_eq]
      at hsame hfalse
    cases he : env.mmap with
    | error errno =>
      simp only [he] at hsame
      have h := hsame.addr
      rw [haddr] at h
      cases h
    | ok id => simp [he, Ret.IsFalse] at hfalse
  · rw [(mapBuffer_of_refuses h).state]
    exact ⟨rfl, rfl, rfl, rfl, rfl⟩

end FwIsoCtxState

/-! ### The chunks of a multiple-channel context -/

namespace FwIsoIrMultiple

def nextCount (chunksPerIrq count : UInt32) : UInt32 :=
  if chunksPerIrq = 0 then count
  else if gMaxInt ≤ count + 1 then (count + 1) % chunksPerIrq else count + 1

/-- What the loop that registers chunks leaves alone. -/
structure Registering (it it' : FwIsoIrMultiple) : Prop where
  prevOffset : it'.prevOffset = it.prevOffset
  chunksPerIrq : it'.chunksPerIrq = it.chunksPerIrq
  running : it'.state.running = it.state.running
  currOffset : it'.state.currOffset = it.state.currOffset

theorem Registering.trans {a b c : FwIsoIrMultiple} (h : Registering a b)
    (h' : Registering b c) : Registering a c :=
  ⟨h'.prevOffset.trans h.prevOffset, h'.chunksPerIrq.trans h.chunksPerIrq,
    h'.running.trans h.running, h'.currOffset.trans h.currOffset⟩

/-- A chunk is registered, or the store is left as it is; it is counted in either case. -/
theorem registerChunk_cases (self : FwIsoIrMultiple) :
    Registering self self.registerChunk.state ∧
      self.registerChunk.state.accumulatedChunkCount =
        nextCount self.chunksPerIrq self.accumulatedChunkCount ∧
      (self.registerChunk.ret.IsFalse ↔ self.state.RefusesChunk) ∧
      (self.registerChunk.ret = .success ∧ self.registerChunk.state.state.registeredChunkCount =
          self.state.registeredChunkCount + 1 ∨
        self.registerChunk.ret ≠ .success ∧ self.registerChunk.state.state = self.state) := by
  have hcount : self.registerChunk.state.accumulatedChunkCount =
      nextCount self.chunksPerIrq self.accumulatedChunkCount := rfl
  have hfalse := self.state.registerChunk_isFalse_iff
    (0 < self.chunksPerIrq ∧ (self.accumulatedChunkCount + 1) % self.chunksPerIrq = 0)
  have hcases := self.state.registerChunk_cases false 0 0 .null 0
    (0 < self.chunksPerIrq ∧ (self.accumulatedChunkCount + 1) % self.chunksPerIrq = 0)
  simp only at hcases
  simp only [hcount, true_and]
  simp only [registerChunk, Out.map_state, Out.map_ret]
  generalize self.state.registerChunk false 0 0 .null 0 _ = o at hcases hfalse ⊢
  rcases hcases with hr | ⟨_, ⟨_, ho⟩ | ⟨block, _, ho⟩⟩
  · have hne : o.ret ≠ .success := by
      intro h
      have := hr.ret
      rw [h] at this
      exact this
    refine ⟨⟨rfl, rfl, ?_, ?_⟩, hfalse, .inr ⟨hne, hr.state⟩⟩ <;> rw [hr.state]
  · rw [ho] at hfalse ⊢
    exact ⟨⟨rfl, rfl, rfl, rfl⟩, hfalse, .inr ⟨by rintro ⟨⟩, rfl⟩⟩
  · rw [ho] at hfalse ⊢
    exact ⟨⟨rfl, rfl, rfl, rfl⟩, hfalse, .inl ⟨rfl, rfl⟩⟩

/-- **The loop that registers chunks**: `k` of them, and the next one is refused if these are not
all. -/
theorem registerChunks_cases : ∀ (n : Nat) (self : FwIsoIrMultiple),
    let o := registerChunks n self
    ∃ k ≤ n, Registering self o.state ∧ o.state.state.registeredChunkCount =
        self.state.registeredChunkCount + UInt32.ofNat k ∧
      (0 < k → ¬ self.state.RefusesChunk) ∧
      (o.ret = .success ∧ k = n ∧ o.state.accumulatedChunkCount =
          (nextCount self.chunksPerIrq)^[n] self.accumulatedChunkCount ∨
        o.ret ≠ .success ∧ k < n ∧ (k = 0 → o.state.state = self.state ∧
          (o.ret.IsFalse ↔ self.state.RefusesChunk) ∧ o.state.accumulatedChunkCount =
            nextCount self.chunksPerIrq self.accumulatedChunkCount)) := by
  intro n
  induction n with
  | zero =>
    exact fun self => ⟨0, Nat.le_refl 0, ⟨rfl, rfl, rfl, rfl⟩, by simp [registerChunks], nofun,
      .inl ⟨rfl, rfl, rfl⟩⟩
  | succ n ih =>
    intro self
    obtain ⟨hkeeps, hacc, hfalse, hout⟩ := self.registerChunk_cases
    simp only [registerChunks]
    rcases hout with ⟨hret, hcount⟩ | ⟨hret, hstate⟩
    · obtain ⟨k, hk, hkeeps', hcount', _, hout'⟩ := ih self.registerChunk.state
      rw [hret] at hfalse ⊢
      simp only [hcount, hacc, hkeeps.chunksPerIrq] at hcount' hout'
      refine ⟨k + 1, by omega, hkeeps.trans hkeeps', ?_, fun _ h => hfalse.mpr h, ?_⟩
      · rw [hcount', UInt32.add_assoc, UInt32.add_comm 1, UInt32.ofNat_add]
        rfl
      rcases hout' with ⟨hret', hk', hacc'⟩ | ⟨hret', hk', _⟩
      · exact .inl ⟨hret', by omega, by rw [hacc', Function.iterate_succ_apply]⟩
      · exact .inr ⟨hret', by omega, fun h => absurd h (Nat.succ_ne_zero k)⟩
    · split
      next h => exact absurd h hret
      next =>
        refine ⟨0, Nat.zero_le _, hkeeps, ?_, nofun,
          .inr ⟨hret, Nat.succ_pos n, fun _ => ⟨hstate, hfalse, hacc⟩⟩⟩
        rw [hstate]
        simp

theorem add_ofNat_ne {count : UInt32} {k : Nat} (hpos : 0 < k) (hlt : k < 4294967296) :
    count + UInt32.ofNat k ≠ count := by
  intro h
  have hzero := congrArg UInt32.toNat (UInt32.add_eq_left.mp h)
  rw [UInt32.toNat_ofNat', Nat.mod_eq_of_lt hlt, UInt32.toNat_zero] at hzero
  omega

/-! ### A failed start of a multiple-channel context -/

structure Unchanged (it it' : FwIsoIrMultiple) : Prop where
  books : SameBooks it.state it'.state
  prevOffset : it'.prevOffset = it.prevOffset
  chunksPerIrq : it'.chunksPerIrq = it.chunksPerIrq
  accumulatedChunkCount : it'.accumulatedChunkCount = it.accumulatedChunkCount

/-- The checks of `hinoko_fw_iso_ir_multiple_start` fail. -/
def RefusesStart (self : FwIsoIrMultiple) (cycleMatch : Option (UInt16 × UInt16))
    (syncCode chunksPerIrq : UInt32) : Prop :=
  ¬ FwIsoCtxState.acceptsCycleMatch cycleMatch ∨ 15 < syncCode ∨
    self.state.chunksPerBuffer ≤ chunksPerIrq

def prepared (self : FwIsoIrMultiple) (chunksPerIrq : UInt32) : Out FwIsoIrMultiple :=
  registerChunks self.state.chunksPerBuffer.toNat
    { self with chunksPerIrq := chunksPerIrq, accumulatedChunkCount := 0 }

/-- The first chunk is refused, and its count is what the context has. -/
structure FirstRefused (it : FwIsoIrMultiple) (chunksPerIrq : UInt32) : Prop where
  refuses : it.state.RefusesChunk
  chunksPerIrq_eq : it.chunksPerIrq = chunksPerIrq
  accumulatedChunkCount : it.accumulatedChunkCount = nextCount chunksPerIrq 0

/-- The start gets as far as `FW_CDEV_IOC_START_ISO`, and what it has reset and queued on the way
is what the context has. -/
structure Returns (it : FwIsoIrMultiple) (cycleMatch : Option (UInt16 × UInt16))
    (syncCode tags chunksPerIrq : UInt32) (answers : Nat → QueueAnswer) : Prop where
  registers : (it.prepared chunksPerIrq).ret = .success
  reaches : (it.prepared chunksPerIrq).state.state.ReachesStartIso cycleMatch syncCode tags answers
  dataLength : it.state.dataLength = 0
  registeredChunkCount : it.state.registeredChunkCount = 0
  currOffset : ((it.prepared chunksPerIrq).state.state.queueChunks answers).state.currOffset =
    it.state.currOffset
  prevOffset : it.prevOffset = 0
  chunksPerIrq_eq : it.chunksPerIrq = chunksPerIrq
  accumulatedChunkCount : it.accumulatedChunkCount =
    (nextCount chunksPerIrq)^[it.state.chunksPerBuffer.toNat] 0

variable {self : FwIsoIrMultiple} {cycleMatch : Option (UInt16 × UInt16)}
  {syncCode tags chunksPerIrq : UInt32} {env : StartEnv}

theorem start_eq (h : ¬ self.RefusesStart cycleMatch syncCode chunksPerIrq) :
    self.start cycleMatch syncCode tags chunksPerIrq env =
      let o := self.prepared chunksPerIrq
      match o.ret with
      | .success =>
        let s := o.state.state.start cycleMatch syncCode tags env
        ⟨{ o.state with prevOffset := 0, state := s.state }, s.ret, o.effects ++ s.effects⟩
      | ret => ⟨o.state, ret, o.effects⟩ := by
  simp only [RefusesStart, not_or, not_not] at h
  obtain ⟨hcycle, hsync, hirq⟩ := h
  simp only [start, hcycle, hsync, hirq, not_true, if_false]
  rfl

/-- A start that registers all chunks is unchanged only if it queues them as well. -/
theorem unchanged_iff_of_registers (hpos : 0 < self.state.chunksPerBuffer.toNat)
    (hret : (self.prepared chunksPerIrq).ret = .success)
    (hfalse : ((self.prepared chunksPerIrq).state.state.start cycleMatch syncCode tags
      env).ret.IsFalse) :
    Unchanged self { (self.prepared chunksPerIrq).state with
        prevOffset := 0
        state := ((self.prepared chunksPerIrq).state.state.start cycleMatch syncCode tags
          env).state } ↔
      self.FirstRefused chunksPerIrq ∨
        self.Returns cycleMatch syncCode tags chunksPerIrq env.queueIso := by
  obtain ⟨k, _, hkeeps, hcount, hrefuses, ⟨_, rfl, hacc⟩ | ⟨hne, _⟩⟩ :=
    registerChunks_cases self.state.chunksPerBuffer.toNat
      { self with chunksPerIrq := chunksPerIrq, accumulatedChunkCount := 0 }
  case inr => exact absurd hret hne
  change Registering _ (self.prepared chunksPerIrq).state at hkeeps
  change (self.prepared chunksPerIrq).state.state.registeredChunkCount = _ at hcount
  change (self.prepared chunksPerIrq).state.accumulatedChunkCount = _ at hacc
  rw [or_iff_right fun h : self.FirstRefused chunksPerIrq => hrefuses hpos h.refuses]
  by_cases hreach : (self.prepared chunksPerIrq).state.state.ReachesStartIso cycleMatch
      syncCode tags
      env.queueIso
  · obtain ⟨x, hx, hstate⟩ := FwIsoCtxState.start_of_reaches hreach hfalse
    rw [hstate]
    refine ⟨fun h => ⟨hret, hreach, h.books.dataLength.symm, h.books.registeredChunkCount.symm,
      hx.trans h.books.currOffset, h.prevOffset.symm, ?_, ?_⟩, fun h => ⟨⟨hkeeps.running,
        h.dataLength.symm, h.registeredChunkCount.symm, hx.symm.trans h.currOffset⟩,
        h.prevOffset.symm, ?_, ?_⟩⟩
    · exact h.chunksPerIrq.symm.trans hkeeps.chunksPerIrq
    · exact h.accumulatedChunkCount.symm.trans hacc
    · exact hkeeps.chunksPerIrq.trans h.chunksPerIrq_eq.symm
    · exact hacc.trans h.accumulatedChunkCount.symm
  · rw [FwIsoCtxState.start_of_not_reaches hreach]
    refine ⟨fun h => ?_, fun h => absurd h.reaches hreach⟩
    have hsame := h.books.registeredChunkCount
    simp only [hcount] at hsame
    exact absurd hsame (add_ofNat_ne hpos self.state.chunksPerBuffer.toNat_lt)

/-- A start that does not register all chunks is unchanged only if it registers none. -/
theorem unchanged_iff_of_not_registers (hret : (self.prepared chunksPerIrq).ret.IsFalse) :
    Unchanged self (self.prepared chunksPerIrq).state ↔
      self.FirstRefused chunksPerIrq ∨
        self.Returns cycleMatch syncCode tags chunksPerIrq env.queueIso := by
  have hne : (self.prepared chunksPerIrq).ret ≠ .success := by
    intro h
    rw [h] at hret
    exact hret
  obtain ⟨k, _, hkeeps, hcount, hrefuses, ⟨hsucc, _⟩ | ⟨_, hk, hzero⟩⟩ :=
    registerChunks_cases self.state.chunksPerBuffer.toNat
      { self with chunksPerIrq := chunksPerIrq, accumulatedChunkCount := 0 }
  · exact absurd hsucc hne
  have hlt := self.state.chunksPerBuffer.toNat_lt
  change Registering _ (self.prepared chunksPerIrq).state at hkeeps
  change (self.prepared chunksPerIrq).state.state.registeredChunkCount = _ at hcount
  rw [or_iff_left fun h : self.Returns cycleMatch syncCode tags chunksPerIrq env.queueIso =>
    hne h.registers]
  rcases Nat.eq_zero_or_pos k with h0 | hpos
  · obtain ⟨hstate, hfirst, hacc⟩ := hzero h0
    change (self.prepared chunksPerIrq).state.state = self.state at hstate
    change (self.prepared chunksPerIrq).state.accumulatedChunkCount = nextCount chunksPerIrq 0
      at hacc
    refine ⟨fun h => ⟨hfirst.mp hret, ?_, ?_⟩, fun h => ⟨?_, hkeeps.prevOffset, ?_, ?_⟩⟩
    · exact h.chunksPerIrq.symm.trans hkeeps.chunksPerIrq
    · exact h.accumulatedChunkCount.symm.trans hacc
    · rw [hstate]
      exact ⟨rfl, rfl, rfl, rfl⟩
    · exact hkeeps.chunksPerIrq.trans h.chunksPerIrq_eq.symm
    · exact hacc.trans h.accumulatedChunkCount.symm
  · refine ⟨fun h => ?_, fun h => absurd h.refuses (hrefuses hpos)⟩
    have hsame := h.books.registeredChunkCount
    rw [hcount] at hsame
    exact absurd hsame (add_ofNat_ne hpos (by omega))

theorem unchanged_iff_of_accepts (haccepts : ¬ self.RefusesStart cycleMatch syncCode chunksPerIrq)
    (hfalse : (self.start cycleMatch syncCode tags chunksPerIrq env).ret.IsFalse) :
    Unchanged self (self.start cycleMatch syncCode tags chunksPerIrq env).state ↔
      self.FirstRefused chunksPerIrq ∨
        self.Returns cycleMatch syncCode tags chunksPerIrq env.queueIso := by
  have hpos : 0 < self.state.chunksPerBuffer.toNat := by
    simp only [RefusesStart, not_or, UInt32.not_le, UInt32.lt_iff_toNat_lt] at haccepts
    omega
  rw [start_eq haccepts] at hfalse ⊢
  simp only at hfalse ⊢
  split at hfalse
  next hret => exact unchanged_iff_of_registers hpos hret hfalse
  next hret => exact unchanged_iff_of_not_registers hfalse

theorem start_of_refuses (h : self.RefusesStart cycleMatch syncCode chunksPerIrq) :
    (self.start cycleMatch syncCode tags chunksPerIrq env).state = self := by
  simp only [start]
  split
  · rfl
  next hcycle =>
  split
  · rfl
  next hsync =>
  split
  · rfl
  next hirq =>
    exact absurd h (by simp only [RefusesStart, hcycle, hsync, hirq, or_self, not_false_eq_true])

theorem unchanged_start (hfalse : (self.start cycleMatch syncCode tags chunksPerIrq
    env).ret.IsFalse) :
    self.Unchanged (self.start cycleMatch syncCode tags chunksPerIrq env).state ↔
      self.RefusesStart cycleMatch syncCode chunksPerIrq ∨ self.FirstRefused chunksPerIrq ∨
        self.Returns cycleMatch syncCode tags chunksPerIrq env.queueIso := by
  by_cases hrefuses : self.RefusesStart cycleMatch syncCode chunksPerIrq
  · rw [start_of_refuses hrefuses]
    exact iff_of_true ⟨⟨rfl, rfl, rfl, rfl⟩, rfl, rfl, rfl⟩ (.inl hrefuses)
  · rw [or_iff_right hrefuses]
    exact unchanged_iff_of_accepts hrefuses hfalse

end FwIsoIrMultiple

/-! ### Chunks that go round -/

namespace FwIsoIrMultiple

variable {self : FwIsoIrMultiple} {cycleMatch : Option (UInt16 × UInt16)}
  {syncCode tags chunksPerIrq : UInt32} {answers : Nat → QueueAnswer}

/-- The chunks of the buffer, as the loops that queue them see them: the length of each is what the
lower sixteen bits of `bytes_per_chunk` say. -/
def allChunks (it : FwIsoIrMultiple) : List IsoPacket :=
  List.replicate it.state.chunksPerBuffer.toNat ⟨it.state.bytesPerChunk, []⟩

/-- What a start finds that gets as far as `FW_CDEV_IOC_START_ISO` and comes back to where it began:
an empty store with room for all chunks, which go round in the buffer to `curr_offset` again, and
in the other fields what it sets them to. -/
structure ComesRound (it : FwIsoIrMultiple) (cycleMatch : Option (UInt16 × UInt16))
    (syncCode tags chunksPerIrq : UInt32) (answers : Nat → QueueAnswer) : Prop where
  allocated : 0 ≤ it.state.fd
  mapped : it.state.addr ≠ .null
  accepts : it.state.acceptsStart cycleMatch syncCode tags
  dataLength : it.state.dataLength = 0
  registeredChunkCount : it.state.registeredChunkCount = 0
  chunks : 0 < it.state.chunksPerBuffer.toNat
  room : 4 * it.state.chunksPerBuffer.toNat ≤ it.state.allocDataLength.toNat
  currOffset : (queueRounds it.state.bytesPerBuffer answers
    (3 * (4 * it.state.chunksPerBuffer.toNat + 1)) 0 it.state.currOffset it.allChunks).2 =
      .finished it.state.currOffset
  prevOffset : it.prevOffset = 0
  chunksPerIrq_eq : it.chunksPerIrq = chunksPerIrq
  accumulatedChunkCount : it.accumulatedChunkCount =
    (nextCount chunksPerIrq)^[it.state.chunksPerBuffer.toNat] 0

theorem payloadLengths_allChunks (it : FwIsoIrMultiple) : payloadLengths it.allChunks =
    List.replicate it.state.chunksPerBuffer.toNat (it.state.bytesPerChunk.toNat % 65536) := by
  rw [allChunks, payloadLengths, List.map_replicate, IsoPacket.payloadLength,
    toNat_controlToPayloadLength]

/-- **All chunks are registered and queued** as the state before says, where the store is empty. -/
theorem queueChunks_registerChunks (h : Grounded self) (hfd : 0 ≤ self.state.fd)
    (haddr : self.state.addr ≠ .null) (hlen : self.state.dataLength = 0)
    (hcount : self.state.registeredChunkCount = 0)
    (hroom : 4 * self.state.chunksPerBuffer.toNat ≤ self.state.allocDataLength.toNat)
    (answers : Nat → QueueAnswer) (x : UInt32) :
    let o := registerChunks self.state.chunksPerBuffer.toNat self
    o.ret = .success ∧
      o.state.state.dataLength.toNat = 4 * self.state.chunksPerBuffer.toNat ∧
      ((o.state.state.queueChunks answers).ret = .success ∧
          (o.state.state.queueChunks answers).state.currOffset = x ↔
        (queueRounds self.state.bytesPerBuffer answers
          (3 * (4 * self.state.chunksPerBuffer.toNat + 1)) 0 self.state.currOffset
          self.allChunks).2 = .finished x) := by
  have hempty : StoreInv .irMultiple self.state [] :=
    .empty h.state.mode h.state.unallocated hlen hcount h.state.live
  obtain ⟨hret, hstore, hcurr, ps, hps, _, hall, hheld⟩ :=
    registers self.state.chunksPerBuffer.toNat hempty hfd haddr
      (by rw [hlen, UInt32.toNat_zero]; omega)
  obtain ⟨hsame, _⟩ := registerChunks_same self.state.chunksPerBuffer.toNat self
  intro o
  change o.ret = _ at hret
  change StoreInv _ o.state.state _ at hstore
  change o.state.state.currOffset = _ at hcurr
  change SameSetup _ o.state.state at hsame
  change held o.state.state _ = _ at hheld
  have hnone : held self.state [] = [] := by
    rw [held, hcount]
    exact List.rtake_zero _
  simp only [hnone, List.nil_append] at hheld hstore
  have hmode : o.state.state.mode ≠ .it := by
    rw [hstore.mode (hsame.fd ▸ hfd)]
    decide
  have hstores := hstore.stores
  have hsized := hstore.sized
  rw [hheld] at hstores hsized
  have hbytes := length_packetBytes_ir hmode hsized
  have hdata : o.state.state.dataLength.toNat = 4 * self.state.chunksPerBuffer.toNat := by
    rw [← hps, ← hbytes]
    exact hstores.length.symm
  refine ⟨hret, hdata, ?_⟩
  have hlengths : payloadLengths ps = payloadLengths self.allChunks := by
    rw [payloadLengths_allChunks, ← hps]
    refine (List.eq_replicate_of_mem fun n hn => ?_).trans (by rw [length_payloadLengths])
    obtain ⟨p, hp, rfl⟩ := List.mem_map.mp hn
    exact hall p hp
  have hend : (o.state.state.rounds answers ps).2 = (queueRounds self.state.bytesPerBuffer answers
      (3 * (4 * self.state.chunksPerBuffer.toNat + 1)) 0 self.state.currOffset
      self.allChunks).2 := by
    rw [FwIsoCtxState.rounds, FwIsoCtxState.queueFuel, hdata, hcurr, hsame.bytesPerBuffer]
    exact rounds_end_congr _ _ _ _ _ _ _ hlengths
  rw [← hend]
  exact queueChunks_finished_iff answers hstores hsized

/-- **Coming back to where it began** shows in the state before the start. -/
theorem returns_iff (h : Grounded self) :
    self.Returns cycleMatch syncCode tags chunksPerIrq answers ↔
      self.ComesRound cycleMatch syncCode tags chunksPerIrq answers := by
  have hground : Grounded { self with chunksPerIrq := chunksPerIrq, accumulatedChunkCount := 0 } :=
    h.congr h.state rfl rfl rfl
  have hground' : Grounded (self.prepared chunksPerIrq).state := hground.registerChunks _
  have hsame : SameSetup self.state (self.prepared chunksPerIrq).state.state :=
    (registerChunks_same self.state.chunksPerBuffer.toNat
      { self with chunksPerIrq := chunksPerIrq, accumulatedChunkCount := 0 }).1
  -- both states are of the same mode, which is all that the checks of the start look at
  have haccepts (hfd : 0 ≤ self.state.fd) :
      (self.prepared chunksPerIrq).state.state.acceptsStart cycleMatch syncCode tags =
        self.state.acceptsStart cycleMatch syncCode tags := by
    rw [FwIsoCtxState.acceptsStart, FwIsoCtxState.acceptsStart, h.state.mode hfd,
      hground'.state.mode (hsame.fd ▸ hfd)]
  refine ⟨fun hr => ?_, fun hr => ?_⟩
  · have hfd : 0 ≤ self.state.fd := hsame.fd ▸ hr.reaches.allocated
    have haddr : self.state.addr ≠ .null := hsame.addr ▸ hr.reaches.mapped
    have hpos : 0 < self.state.chunksPerBuffer.toNat := by
      refine Nat.pos_of_ne_zero fun hzero => hr.reaches.registered ?_
      rw [prepared, hzero]
      exact hr.dataLength
    have hroom : 4 * self.state.chunksPerBuffer.toNat ≤ self.state.allocDataLength.toNat := by
      have hroom := room_of_registers _ hpos hr.registers
      simp only at hroom
      omega
    obtain ⟨_, _, hqueue⟩ := queueChunks_registerChunks hground hfd haddr hr.dataLength
      hr.registeredChunkCount hroom answers self.state.currOffset
    exact ⟨hfd, haddr, haccepts hfd ▸ hr.reaches.accepts, hr.dataLength, hr.registeredChunkCount,
      hpos, hroom, hqueue.mp ⟨hr.reaches.queued, hr.currOffset⟩, hr.prevOffset, hr.chunksPerIrq_eq,
      hr.accumulatedChunkCount⟩
  · obtain ⟨hret, hdata, hqueue⟩ := queueChunks_registerChunks hground hr.allocated hr.mapped
      hr.dataLength hr.registeredChunkCount hr.room answers self.state.currOffset
    obtain ⟨hqueued, hcurr⟩ := hqueue.mpr hr.currOffset
    have hpos := hr.chunks
    refine ⟨hret, ⟨hsame.fd.symm ▸ hr.allocated, hsame.addr.symm ▸ hr.mapped,
      (haccepts hr.allocated).symm ▸ hr.accepts, fun hzero => ?_, hqueued⟩, hr.dataLength,
      hr.registeredChunkCount, hcurr, hr.prevOffset, hr.chunksPerIrq_eq, hr.accumulatedChunkCount⟩
    have hnone := congrArg UInt32.toNat hzero
    rw [prepared, hdata, UInt32.toNat_zero] at hnone
    simp only at hnone
    omega

end FwIsoIrMultiple

/-! ### Failed starts -/

theorem FwIsoIt.sameBooks_start {self : FwIsoIt} {cycleMatch : Option (UInt16 × UInt16)}
    {env : StartEnv} (hfalse : (self.start cycleMatch env).ret.IsFalse) :
    SameBooks self.state (self.start cycleMatch env).state.state ↔
      ¬ self.state.ReachesStartIso cycleMatch 0 0 env.queueIso := by
  simp only [start] at hfalse ⊢
  split at hfalse
  next hcycle =>
    rw [if_pos hcycle]
    refine iff_of_true ⟨rfl, rfl, rfl, rfl⟩ fun h => hcycle ?_
    have haccepts := h.accepts
    simp only [FwIsoCtxState.acceptsStart, decide_eq_true_eq] at haccepts
    exact haccepts.1
  next hcycle =>
    rw [if_neg hcycle]
    exact FwIsoCtxState.start_sameBooks_iff hfalse

theorem FwIsoIrSingle.sameBooks_start {self : FwIsoIrSingle}
    {cycleMatch : Option (UInt16 × UInt16)} {syncCode tags : UInt32} {env : StartEnv}
    (hfalse : (self.start cycleMatch syncCode tags env).ret.IsFalse) :
    SameBooks self.state (self.start cycleMatch syncCode tags env).state.state ∧
        (self.start cycleMatch syncCode tags env).state.chunkCursor = self.chunkCursor ↔
      ¬ FwIsoCtxState.acceptsCycleMatch cycleMatch ∨ 15 < syncCode ∨ self.chunkCursor = 0 ∧
        ¬ self.state.ReachesStartIso cycleMatch syncCode tags env.queueIso := by
  simp only [start] at hfalse ⊢
  split at hfalse
  next hcycle =>
    rw [if_pos hcycle]
    exact iff_of_true ⟨⟨rfl, rfl, rfl, rfl⟩, rfl⟩ (.inl hcycle)
  next hcycle =>
  rw [if_neg hcycle]
  split at hfalse
  next hsync =>
    rw [if_pos hsync]
    exact iff_of_true ⟨⟨rfl, rfl, rfl, rfl⟩, rfl⟩ (.inr (.inl hsync))
  next hsync =>
    rw [if_neg hsync, or_iff_right hcycle, or_iff_right hsync, and_comm]
    exact and_congr eq_comm (FwIsoCtxState.start_sameBooks_iff hfalse)

/-- **When a failed start leaves the bookkeeping as it is.**  An IT context must not get as far as
`FW_CDEV_IOC_START_ISO`; a single-channel IR context must moreover stand at chunk 0 unless its own
checks fail; in a multiple-channel one either these fail, or the first chunk is refused, or the
start comes back to where it began.  For a context that a run has led to, the last of these is a
condition on the state before the start. -/
theorem start_unchanged_iff (it : FwIsoIt) (irSingle : FwIsoIrSingle) (irMultiple : FwIsoIrMultiple)
    (cycleMatch : Option (UInt16 × UInt16)) (syncCode tags chunksPerIrq : UInt32) (env : StartEnv) :
    ((it.start cycleMatch env).ret.IsFalse →
      (SameBooks it.state (it.start cycleMatch env).state.state ↔
        ¬ it.state.ReachesStartIso cycleMatch 0 0 env.queueIso)) ∧
    ((irSingle.start cycleMatch syncCode tags env).ret.IsFalse →
      (SameBooks irSingle.state (irSingle.start cycleMatch syncCode tags env).state.state ∧
          (irSingle.start cycleMatch syncCode tags env).state.chunkCursor = irSingle.chunkCursor ↔
        ¬ FwIsoCtxState.acceptsCycleMatch cycleMatch ∨ 15 < syncCode ∨ irSingle.chunkCursor = 0 ∧
          ¬ irSingle.state.ReachesStartIso cycleMatch syncCode tags env.queueIso)) ∧
    ((irMultiple.start cycleMatch syncCode tags chunksPerIrq env).ret.IsFalse →
      (irMultiple.Unchanged (irMultiple.start cycleMatch syncCode tags chunksPerIrq env).state ↔
        irMultiple.RefusesStart cycleMatch syncCode chunksPerIrq ∨
          irMultiple.FirstRefused chunksPerIrq ∨
          irMultiple.Returns cycleMatch syncCode tags chunksPerIrq env.queueIso)) ∧
    ((∃ ms, (run FwIsoIrMultiple.exec ⟨⟨.new, []⟩, []⟩ ms).state.priv = irMultiple) →
      (irMultiple.Returns cycleMatch syncCode tags chunksPerIrq env.queueIso ↔
        irMultiple.ComesRound cycleMatch syncCode tags chunksPerIrq env.queueIso)) := by
  refine ⟨FwIsoIt.sameBooks_start, FwIsoIrSingle.sameBooks_start, FwIsoIrMultiple.unchanged_start,
    ?_⟩
  rintro ⟨ms, rfl⟩
  exact FwIsoIrMultiple.returns_iff (FwIsoIrMultiple.grounded_of_run ms)

/-! ### Starts that fail half way -/

def itWithPacket : List (Move FwIsoIt.Op) :=
  [.call (.allocate (some "/dev/fw0") 0 0 0 grantAllocate),
    .call (.mapBuffer 4 2 grantMap fun _ => 0), .call (.registerPacket 0 0 .null .null false)]

def irSingleRunning : List (Move FwIsoIrSingle.Op) :=
  FwIsoIrSingle.registerTwo ++ [.call (.start none 0 0 (grantStart 2)),
    .call (.dispatch (.event (.isoInterrupt ⟨0, 4, fun _ => 0⟩)
      ⟨fun _ => 0, fun _ => .accepted 0⟩)), .resume]

def irMultipleMapped : List (Move FwIsoIrMultiple.Op) :=
  [.call (.allocate (some "/dev/fw0") [1] grantAllocate (.ok 2) false),
    .call (.mapBuffer 16 2 ⟨grantMap, 2, fun _ => 0, 3, fun _ => ⟨0, 0⟩⟩)]

def refuseQueue : StartEnv := ⟨fun _ => .failed 12, none⟩

/-- **A refused request leaves traces**: of an IT context in the store, of a running single-channel
IR context in the cursor, though nothing is queued, and of a multiple-channel one in the store, so
that the start cannot be tried again. -/
theorem start_changes :
    (let self := (run FwIsoIt.exec ⟨⟨.new, []⟩, []⟩ itWithPacket).state.priv
     let o := self.start none ⟨fun _ => .accepted 1, some 5⟩
     o.ret.IsFalse ∧ ¬ SameBooks self.state o.state.state) ∧
    (let self := (run FwIsoIrSingle.exec ⟨⟨.new, []⟩, []⟩ irSingleRunning).state.priv
     let o := self.start none 0 0 refuseQueue
     self.state.running ∧ o.ret.IsFalse ∧ o.state.chunkCursor ≠ self.chunkCursor) ∧
    (let self := (run FwIsoIrMultiple.exec ⟨⟨.new, []⟩, []⟩ irMultipleMapped).state.priv
     let o := self.start none 0 0 1 refuseQueue
     o.ret.IsFalse ∧ ¬ self.Unchanged o.state ∧
       (o.state.start none 0 0 1 (grantStart 2)).ret.IsFalse) := by
  refine ⟨⟨by decide +kernel, fun h => ?_⟩, ⟨by decide +kernel, by decide +kernel,
    by decide +kernel⟩, ⟨by decide +kernel, fun h => ?_, by decide +kernel⟩⟩
  · exact absurd h.dataLength (by decide +kernel)
  · exact absurd h.books.dataLength (by decide +kernel)

def irMultipleStopped : List (Move FwIsoIrMultiple.Op) :=
  irMultipleMapped ++ [.call (.start none 0 0 1 (grantStart 2)), .call .stop, .resume]

/-- The theorem at the same IT context with requests to queue that are refused, at a single-channel
IR context that has not been started yet, and at a multiple-channel one that comes back. -/
theorem start_unchanged :
    (let self := (run FwIsoIt.exec ⟨⟨.new, []⟩, []⟩ itWithPacket).state.priv
     SameBooks self.state (self.start none refuseQueue).state.state) ∧
    (let self := (run FwIsoIrSingle.exec ⟨⟨.new, []⟩, []⟩ FwIsoIrSingle.registerTwo).state.priv
     SameBooks self.state (self.start none 0 0 refuseQueue).state.state ∧
       (self.start none 0 0 refuseQueue).state.chunkCursor = self.chunkCursor) ∧
    (let self := (run FwIsoIrMultiple.exec ⟨⟨.new, []⟩, []⟩ irMultipleStopped).state.priv
     self.Unchanged (self.start none 0 0 1 ⟨fun _ => .accepted 2, some 5⟩).state) := by
  refine ⟨((start_unchanged_iff _ .new .new _ 0 0 0 _).1 (by decide +kernel)).mpr fun h => ?_,
    ((start_unchanged_iff .new _ .new _ _ _ 0 _).2.1 (by decide +kernel)).mpr
        (.inr (.inr ⟨by decide +kernel,
      fun h => ?_⟩)),
    ((start_unchanged_iff .new .new _ _ _ _ _ _).2.2.1 (by decide +kernel)).mpr (.inr (.inr
      (((start_unchanged_iff .new .new _ _ _ _ _ _).2.2.2 ⟨irMultipleStopped, rfl⟩).mpr ?_)))⟩
  · exact absurd h.queued (by decide +kernel)
  · exact absurd h.queued (by decide +kernel)
  · exact ⟨by decide +kernel, by decide +kernel, by decide +kernel, by decide +kernel,
      by decide +kernel, by decide +kernel, by decide +kernel, by decide +kernel,
      by decide +kernel, by decide +kernel, by decide +kernel⟩

/-! ### Failed mappings -/

/-- The mapping of two multiple-channel contexts is the same, with the buffers beside it. -/
structure FwIsoIrMultiple.SameBuffers (it it' : FwIsoIrMultiple) : Prop where
  mapping : SameMapping it.state it'.state
  concatFrames : it'.concatFrames = it.concatFrames
  ctxPayloads : it'.ctxPayloads = it.ctxPayloads

theorem FwIsoIrMultiple.sameBuffers_mapBuffer {self : FwIsoIrMultiple}
    {bytesPerChunk chunksPerBuffer : UInt32} {env : MapMultipleEnv}
    (hfresh : ∀ block, self.concatFrames = some block → block.id ≠ env.concatBlock)
    (hfalse : (self.mapBuffer bytesPerChunk chunksPerBuffer env).ret.IsFalse) :
    self.SameBuffers (self.mapBuffer bytesPerChunk chunksPerBuffer env).state ↔
      (bytesPerChunk + 3) / 4 * 4 = 0 ∧ self.concatFrames = none := by
  have hmalloc : gMallocN env.concatBlock env.concatFill 4 ((bytesPerChunk + 3) / 4 * 4) = none ↔
      (bytesPerChunk + 3) / 4 * 4 = 0 := by
    rw [gMallocN, ← UInt32.toNat_inj]
    split
    next h => exact iff_of_true rfl ((Nat.mul_eq_zero.mp h).resolve_left (by decide))
    next h => exact iff_of_false (by rintro ⟨⟩) fun h0 => h (by rw [h0]; rfl)
  simp only [mapBuffer] at hfalse ⊢
  split at hfalse
  next hret => simp [hret, Ret.IsFalse] at hfalse
  next hret =>
  simp only [Out.map_ret, Out.map_state] at hfalse ⊢
  refine ⟨fun h => ?_, fun h => ⟨?_, ?_, rfl⟩⟩
  -- a block that has just been allocated is none that the context had
  · have hconcat := h.concatFrames
    simp only at hconcat
    rw [← hmalloc, hconcat, and_self]
    cases hold : self.concatFrames with
    | none => rfl
    | some block =>
      refine absurd ?_ (hfresh block hold)
      rw [hold, gMallocN] at hconcat
      split at hconcat
      · cases hconcat
      · rw [← Option.some_inj.mp hconcat]
  · exact (FwIsoCtxState.mapBuffer_sameMapping_iff hfalse).mpr (.inl h.1)
  · rw [h.2]
    exact hmalloc.mpr h.1

/-- **When a failed call of `map_buffer` leaves the mapping as it is**: a context of one kind must
refuse it before it asks for the mapping; a multiple-channel IR context must moreover have no
`concat_frames`, and be asked for chunks without bytes. -/
theorem mapBuffer_unchanged_iff (it : FwIsoIt) (irSingle : FwIsoIrSingle)
    (irMultiple : FwIsoIrMultiple) (bytes count : UInt32) (env : MapEnv) (mem : ByteMem)
    (multiple : MapMultipleEnv)
    (hfresh : ∀ block, irMultiple.concatFrames = some block → block.id ≠ multiple.concatBlock) :
    ((it.mapBuffer bytes count env mem).ret.IsFalse →
      (SameMapping it.state (it.mapBuffer bytes count env mem).state.state ↔
        it.state.RefusesMapping bytes count)) ∧
    ((irSingle.mapBuffer bytes count env).ret.IsFalse →
      (SameMapping irSingle.state (irSingle.mapBuffer bytes count env).state.state ↔
        irSingle.state.RefusesMapping bytes count)) ∧
    ((irMultiple.mapBuffer bytes count multiple).ret.IsFalse →
      (irMultiple.SameBuffers (irMultiple.mapBuffer bytes count multiple).state ↔
        (bytes + 3) / 4 * 4 = 0 ∧ irMultiple.concatFrames = none)) :=
  ⟨fun hfalse => FwIsoCtxState.mapBuffer_sameMapping_iff hfalse,
    fun hfalse => FwIsoCtxState.mapBuffer_sameMapping_iff hfalse,
    fun hfalse => FwIsoIrMultiple.sameBuffers_mapBuffer hfresh hfalse⟩

/-! ### Mappings that fail -/

def refuseMap : MapEnv := ⟨1, fun _ => 0, .error 12⟩

def itAllocated : List (Move FwIsoIt.Op) :=
  [.call (.allocate (some "/dev/fw0") 0 0 0 grantAllocate)]

/-- **A mapping that fails looks like one**, and a mapped multiple-channel context that is asked to
map again has frames of another size. -/
theorem mapBuffer_changes :
    (let self := (run FwIsoIt.exec ⟨⟨.new, []⟩, []⟩ itAllocated).state.priv
     let o := self.mapBuffer 4 2 refuseMap fun _ => 0
     o.ret.IsFalse ∧ ¬ SameMapping self.state o.state.state ∧ o.state.state.addr ≠ .null) ∧
    (let self := (run FwIsoIrMultiple.exec ⟨⟨.new, []⟩, []⟩ irMultipleMapped).state.priv
     let o := self.mapBuffer 4 2 ⟨grantMap, 4, fun _ => 0, 5, fun _ => ⟨0, 0⟩⟩
     o.ret.IsFalse ∧ ¬ self.SameBuffers o.state ∧ o.state.state.bytesPerChunk = 16 ∧
       o.state.concatFrames.map Block.size = some 16) := by
  refine ⟨⟨by decide +kernel, fun h => ?_, by decide +kernel⟩,
    ⟨by decide +kernel, fun h => ?_, by decide +kernel, by decide +kernel⟩⟩
  · exact absurd h.addr (by decide +kernel)
  · exact absurd (congrArg (Option.map Block.size) h.concatFrames) (by decide +kernel)

/-- The theorem at contexts that are mapped already, and at one that has not been mapped and is
asked for chunks without bytes. -/
theorem mapBuffer_unchanged :
    (let self := (run FwIsoIt.exec ⟨⟨.new, []⟩, []⟩ itWithPacket).state.priv
     SameMapping self.state (self.mapBuffer 8 2 grantMap fun _ => 0).state.state) ∧
    (let self := (run FwIsoIrSingle.exec ⟨⟨.new, []⟩, []⟩ FwIsoIrSingle.registerTwo).state.priv
     SameMapping self.state (self.mapBuffer 8 2 grantMap).state.state) ∧
    FwIsoIrMultiple.new.SameBuffers
      (FwIsoIrMultiple.new.mapBuffer 0 2 ⟨grantMap, 4, fun _ => 0, 5, fun _ => ⟨0, 0⟩⟩).state := by
  have hmultiple : MapMultipleEnv := ⟨grantMap, 4, fun _ => 0, 5, fun _ => ⟨0, 0⟩⟩
  refine ⟨((mapBuffer_unchanged_iff _ .new .new 8 2 grantMap _ hmultiple nofun).1
      (by decide +kernel)).mpr (.inr (.inr (.inr ?_))),
    ((mapBuffer_unchanged_iff .new _ .new 8 2 grantMap (fun _ => 0) hmultiple nofun).2.1
      (by decide +kernel)).mpr (.inr (.inr (.inr ?_))),
    ((mapBuffer_unchanged_iff .new .new .new 0 2 grantMap (fun _ => 0) _ nofun).2.2
      (by decide +kernel)).mpr ⟨by decide, rfl⟩⟩
  · decide +kernel
  · decide +kernel

end Hinoko
