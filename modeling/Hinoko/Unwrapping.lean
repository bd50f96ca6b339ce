import Hinoko.Decoding
import Hinoko.Recycling

/-!
# How much has been received

The hardware goes round the buffer, and an event of a multiple-channel context tells the position
that it has come to.  `fw_iso_ir_multiple_handle_event` makes a length of it, by comparing it with
the position up to which packets have been consumed.

* `unwraps_iff`: when the length is what has been written and not been consumed.
* `event_cases`: an event of any content keeps the two positions in step.
* `unwraps_of_run`: so the length is right at every event of a run, but for a full round.
* `unwraps_fails`: a full round that is taken for nothing.
-/

namespace Hinoko

open Reentrant

namespace FwIsoIrMultiple

variable {self : FwIsoIrMultiple} {accumEnd : UInt32}

/-! ### The packets of an event -/

/-- **What the loop walks over** is made up of its records, which lie in what has been received and
fit into their array. -/
theorem total_of_parse : ∀ (fuel : Nat) {accumLength total : UInt32} {n : Nat}
    {records : List CtxPayload}, accumLength.toNat ≤ (accumEnd - self.prevOffset).toNat →
    n ≤ self.capacity → self.parse accumEnd fuel accumLength n = .ok (total, records) →
    total.toNat = accumLength.toNat + (records.map fun r => r.length.toNat).sum ∧
      total.toNat ≤ (accumEnd - self.prevOffset).toNat ∧ n + records.length ≤ self.capacity ∧
      accumLength.toNat + 8 * records.length ≤ total.toNat := by
  intro fuel
  induction fuel with
  | zero => exact fun _ _ h => by cases h
  | succ fuel ih =>
    intro accumLength total n records hle hcap h
    rw [parse] at h
    simp only at h
    split at h
    · cases h
      exact ⟨rfl, hle, hcap, Nat.le_refl _⟩
    split at h
    · cases h
    split at h
    · cases h
    next quadlet _ =>
    split at h
    · cases h
      exact ⟨rfl, hle, hcap, Nat.le_refl _⟩
    next hcut =>
    split at h
    · cases h
    next hroom =>
    split at h
    · cases h
    next hrest =>
      cases h
      have havail : (accumEnd - self.prevOffset - accumLength).toNat =
          (accumEnd - self.prevOffset).toNat - accumLength.toNat :=
        UInt32.toNat_sub_of_le _ _ (UInt32.le_iff_toNat_le.mpr hle)
      have hlt := (accumEnd - self.prevOffset).toNat_lt
      have hquadlet := quadlet.toNat_lt
      have h8 : (8 : UInt32).toNat = 8 := rfl
      have hlength : (ieee1394IsoHeaderToDataLength quadlet + 8).toNat =
          quadlet.toNat / 65536 + 8 := by
        rw [UInt32.toNat_add, toNat_isoHeaderToDataLength, h8, Nat.mod_eq_of_lt (by omega)]
      rw [UInt32.lt_iff_toNat_lt, havail, hlength] at hcut
      have hnext : (accumLength + (ieee1394IsoHeaderToDataLength quadlet + 8)).toNat =
          accumLength.toNat + (quadlet.toNat / 65536 + 8) := by
        rw [UInt32.toNat_add, hlength, Nat.mod_eq_of_lt (by omega)]
      obtain ⟨hsum, hend, hfits, hmany⟩ := ih (by rw [hnext]; omega) (by omega) hrest
      rw [hnext] at hsum hmany
      simp only [List.map_cons, List.sum_cons, List.length_cons, hlength]
      exact ⟨by omega, hend, by omega, by omega⟩

/-! ### Events of any content -/

theorem registerChunks_ne_crashed (fault : Fault) : ∀ (n : Nat) {self : FwIsoIrMultiple},
    Grounded self → (registerChunks n self).ret ≠ .crashed fault := by
  intro n
  induction n with
  | zero => exact fun _ h => by cases h
  | succ n ih =>
    intro self h
    simp only [registerChunks]
    split
    · exact ih h.registerChunk
    · simp only [registerChunk, Out.map_ret]
      generalize (decide (0 < self.chunksPerIrq ∧
        (self.accumulatedChunkCount + 1) % self.chunksPerIrq = 0)) = irq
      rcases self.state.registerChunk_cases false 0 0 .null 0 irq with
        hr | ⟨⟨_, hroom, _, haddr⟩, ⟨hnone, _⟩ | ⟨_, _, ho⟩⟩
      · exact hr.ret.ne_crashed fault
      · obtain ⟨block, hblock, _⟩ := h.state.live haddr (by omega)
        rw [hnone] at hblock
        cases hblock
      · rw [ho]
        rintro ⟨⟩

/-- The end of an event fails, or what has been walked over is behind the context. -/
theorem finishEvent_cases (hground : Grounded self) (hchunk : self.state.bytesPerChunk ≠ 0)
    (hbuffer : self.state.bytesPerBuffer ≠ 0) (accumLength : UInt32)
    (answers : Nat → QueueAnswer) :
    let o := finishEvent self.state.bytesPerChunk self.state.bytesPerBuffer accumLength answers self
    (∀ e ∈ o.effects, ∀ count, e ≠ .interrupted count) ∧ (o.ret.IsFalse ∨
      o.state.prevOffset = (self.prevOffset + accumLength) % self.state.bytesPerBuffer) := by
  simp only [finishEvent, if_neg hchunk]
  generalize ((self.prevOffset + accumLength) / self.state.bytesPerChunk).toNat -
    (self.prevOffset / self.state.bytesPerChunk).toNat = n
  obtain ⟨_, st, count, hstate⟩ := registerChunks_same n self
  have hchunks : ∀ e ∈ (registerChunks n self).effects, ∀ count, e ≠ .interrupted count := by
    intro e he count
    obtain ⟨p, rfl⟩ := registerChunks_effects n e he
    rintro ⟨⟩
  split
  · rw [if_neg hbuffer]
    refine ⟨fun e he count => ?_, .inr ?_⟩
    · rcases List.mem_append.mp he with he | he
      · exact hchunks e he count
      · rcases ((registerChunks n self).state.state.queueChunks_cases answers).1 e he with
          rfl | ⟨_, _, _, rfl⟩ <;> rintro ⟨⟩
    · simp only [hstate]
  next hne =>
    refine ⟨hchunks, .inl ?_⟩
    simp only
    cases hret : (registerChunks n self).ret with
    | success => exact absurd hret hne
    | failure error => trivial
    | rejected => trivial
    | crashed fault => exact absurd hret (registerChunks_ne_crashed fault n hground)

/-- **The rest of an event**: what has been walked over is behind the context, or it stops. -/
theorem goOn_cases {s : Ctx FwIsoIrMultiple} (hground : Grounded s.priv)
    (hchunk : s.priv.state.bytesPerChunk ≠ 0) (hbuffer : s.priv.state.bytesPerBuffer ≠ 0)
    (accumLength : UInt32) (answers : Nat → QueueAnswer) :
    let c := enter [] (goOn s.priv.state.bytesPerChunk s.priv.state.bytesPerBuffer accumLength
      answers s)
    c.state.priv.state.running = false ∨ c.stack = [] ∧ SameSetup s.priv.state c.state.priv.state ∧
      c.state.priv.prevOffset =
        (s.priv.prevOffset + accumLength) % s.priv.state.bytesPerBuffer ∧
      consumed c.state.trace = consumed s.trace := by
  obtain ⟨hsame, _⟩ := finishEvent_same s.priv s.priv.state.bytesPerChunk
    s.priv.state.bytesPerBuffer accumLength answers
  obtain ⟨hquiet, hcases⟩ := finishEvent_cases hground hchunk hbuffer accumLength answers
  have hconsumed := consumed_after s _ hquiet
  simp only [goOn, Ctx.perform, Act.bind]
  generalize finishEvent s.priv.state.bytesPerChunk s.priv.state.bytesPerBuffer accumLength answers
    s.priv = o at hsame hcases hconsumed ⊢
  cases hret : o.ret with
  | success =>
    rw [hret] at hcases
    exact .inr ⟨rfl, hsame, hcases.resolve_left id, hconsumed⟩
  | crashed fault =>
    rw [hret] at hcases
    exact .inr ⟨rfl, hsame, hcases.resolve_left id, hconsumed⟩
  | failure error => exact .inl (running_stop _ _)
  | rejected => exact .inl (running_stop _ _)

theorem Asked.grounded {a b : FwIsoIrMultiple} (hasked : Asked a b) (h : Grounded a) :
    Grounded b := by
  obtain ⟨_, rfl, _⟩ := hasked
  exact h.congr h.state rfl rfl rfl

/-- **An event of any content**: what it has walked over is consumed and behind the context, or the
context stops. -/
theorem event_cases {c : Ctx FwIsoIrMultiple} {i : Interrupt} (hground : Grounded c.priv)
    (hbuffer : c.priv.state.bytesPerBuffer ≠ 0)
    (hprev : c.priv.prevOffset.toNat < c.priv.state.bytesPerBuffer.toNat)
    (hspan : c.priv.prevOffset.toNat +
      (c.priv.accumEnd i.completed - c.priv.prevOffset).toNat < 4294967296) :
    let c' := run exec ⟨c, []⟩ i.moves
    c'.state.priv.state.running = false ∨
      ∃ total ≤ (c.priv.accumEnd i.completed - c.priv.prevOffset).toNat,
        c'.stack = [] ∧ SameSetup c.priv.state c'.state.priv.state ∧
        c'.state.priv.prevOffset.toNat = (c.priv.prevOffset.toNat + total) %
          c.priv.state.bytesPerBuffer.toNat ∧
        consumed c'.state.trace = consumed c.trace + total := by
  intro c'
  have hmoves : c' = step exec (run exec ⟨c, []⟩ i.handling) .resume := by
    simp only [c', Interrupt.moves, run_append, run_cons, run_nil]
  cases hparse : ({ c.priv with mem := i.env.buffer } : FwIsoIrMultiple).parseEvent
    i.completed with
  | error fault =>
    obtain ⟨s, hrun, hasked, htrace⟩ := run_handling_of_error [] hparse
    obtain ⟨hstate, hprev'⟩ := hasked.setup
    have hend : c' = ⟨s, []⟩ := by
      rw [hmoves, hrun]
      rfl
    refine .inr ⟨0, Nat.zero_le _, ?_, ?_, ?_, ?_⟩
    · rw [hend]
    · rw [hend, hstate]
      exact .refl _
    · rw [hend, hprev', Nat.add_zero, Nat.mod_eq_of_lt hprev]
    · rw [hend, htrace, Nat.add_zero]
  | ok parsed =>
    obtain ⟨total, records⟩ := parsed
    obtain ⟨hsum, hle, hroom, hmany⟩ := total_of_parse _ (Nat.zero_le _) (Nat.zero_le _) hparse
    simp only [UInt32.toNat_zero, Nat.zero_add] at hsum hroom hmany
    change total.toNat ≤ (c.priv.accumEnd i.completed - c.priv.prevOffset).toNat at hle
    have hlt := total.toNat_lt
    obtain ⟨s, reported, hrun, hasked, hreported, htrace⟩ := run_handling_of_parse [] hparse
    obtain ⟨hstate, hprev'⟩ : s.priv.state = c.priv.state ∧ s.priv.prevOffset = c.priv.prevOffset :=
      hasked.setup
    have hconsumed : consumed s.trace = consumed c.trace + total.toNat := by
      rw [htrace, consumed_append, hsum, ← recorded_store hroom (by omega),
        ← recorded_asked hreported]
      simp [consumed]
    have hend : c' = enter [] (goOn s.priv.state.bytesPerChunk s.priv.state.bytesPerBuffer total
        i.env.queueIso s) := by
      rw [hmoves, hrun, hstate]
      rfl
    have hfound : Grounded { c.priv with mem := i.env.buffer } :=
      hground.congr hground.state rfl rfl rfl
    have hground' : Grounded s.priv := hasked.grounded (hfound.stored records)
    have hchunk : s.priv.state.bytesPerChunk ≠ 0 := by
      intro h0
      rw [hstate] at h0
      exact hbuffer (by rw [FwIsoCtxState.bytesPerBuffer, h0, UInt32.zero_mul])
    rw [hend]
    rcases goOn_cases hground' hchunk (by rw [hstate]; exact hbuffer) total i.env.queueIso with
      hstopped | ⟨hstack, hsame, hprev'', hconsumed'⟩
    · exact .inl hstopped
    · have hkept : SameSetup c.priv.state s.priv.state := by
        rw [hstate]
        exact .refl _
      refine .inr ⟨total.toNat, hle, hstack, hkept.trans hsame, ?_, hconsumed'.trans hconsumed⟩
      rw [hprev'', hprev', hstate, UInt32.toNat_mod, UInt32.toNat_add,
        Nat.mod_eq_of_lt (a := _ + _) (by omega)]

/-! ### What the hardware writes -/

/-- What the hardware keeps to in a ring of `B` bytes, when `w` bytes had been written with the
event before: it writes to a running context only, writes something before each event, tells the
position where that ends, and goes no further than the chunks that are queued, so that all of the
ring may be full. -/
structure Arrival.Fills (a : Arrival) (B w : Nat) (c : Ctx FwIsoIrMultiple) : Prop where
  running : c.priv.state.running = true
  news : w < a.written
  completed : a.completed.toNat = if a.written % B = 0 then B else a.written % B
  room : a.written ≤ consumed c.trace + B

/-- The hardware fills the ring, and events come. -/
def Filled (B : Nat) : Nat → Config (Ctx FwIsoIrMultiple) Ret → List Arrival → Prop
  | _, _, [] => True
  | w, c, a :: as => a.Fills B w c.state ∧ Filled B a.written (run exec c a.moves) as

def afterArrivals (c : Config (Ctx FwIsoIrMultiple) Ret) (as : List Arrival) :
    Config (Ctx FwIsoIrMultiple) Ret :=
  run exec c (as.flatMap fun a => a.moves)

@[simp] theorem afterArrivals_cons (c : Config (Ctx FwIsoIrMultiple) Ret) (a : Arrival)
    (as : List Arrival) : afterArrivals c (a :: as) = afterArrivals (run exec c a.moves) as := by
  rw [afterArrivals, List.flatMap_cons, run_append]
  rfl

theorem Filled.running {B w : Nat} {c : Config (Ctx FwIsoIrMultiple) Ret} {as : List Arrival}
    {a : Arrival} (h : Filled B w c (as ++ [a])) : c.state.priv.state.running = true := by
  cases as with
  | nil => exact h.1.running
  | cons b as => exact h.1.running

/-- The length that an event makes of the position is what has been written and not been
consumed. -/
def Arrival.Unwraps (a : Arrival) (c : Ctx FwIsoIrMultiple) : Prop :=
  (c.priv.accumEnd a.completed - c.priv.prevOffset).toNat = a.written - consumed c.trace

/-- The ring is not full, or it is consumed up to its start. -/
def Arrival.Distinct (a : Arrival) (B : Nat) (c : Ctx FwIsoIrMultiple) : Prop :=
  a.written - consumed c.trace < B ∨ c.priv.prevOffset = 0

/-- The end of what has been written can be counted on past the end of the buffer. -/
def Arrival.Spans (a : Arrival) (c : Ctx FwIsoIrMultiple) : Prop :=
  c.priv.prevOffset.toNat + (a.written - consumed c.trace) < 4294967296

instance (a : Arrival) (c : Ctx FwIsoIrMultiple) : Decidable (a.Unwraps c) :=
  inferInstanceAs (Decidable (_ = _))

/-- Between two events, the last of which came when `w` bytes had been written, the context is where
it has consumed the stream up to. -/
structure Counted (B w : Nat) (c : Config (Ctx FwIsoIrMultiple) Ret) : Prop where
  stack : c.stack = []
  grounded : Grounded c.state.priv
  ring : c.state.priv.state.bytesPerBuffer.toNat = B
  prev : c.state.priv.prevOffset.toNat = consumed c.state.trace % B
  consumed_le : consumed c.state.trace ≤ w

namespace Counted

variable {B w : Nat} {c : Config (Ctx FwIsoIrMultiple) Ret} {a : Arrival}

/-- The length that an event makes of the position, without the wrapping of `guint`. -/
theorem toNat_span (h : Counted B w c) (ha : a.Fills B w c.state) :
    0 < B ∧ c.state.priv.prevOffset.toNat +
        (c.state.priv.accumEnd a.completed - c.state.priv.prevOffset).toNat =
      if a.completed.toNat < c.state.priv.prevOffset.toNat then a.completed.toNat + B
      else a.completed.toNat := by
  have hnews := ha.news
  have hroom := ha.room
  have hle := h.consumed_le
  have hB : 0 < B := by omega
  have hring := h.ring
  have hlt := c.state.priv.state.bytesPerBuffer.toNat_lt
  have hprev : c.state.priv.prevOffset.toNat < B := by
    rw [h.prev]
    exact Nat.mod_lt _ hB
  have hcompleted : a.completed.toNat ≤ B := by
    have hmod := Nat.mod_lt a.written hB
    rw [ha.completed]
    split <;> omega
  refine ⟨hB, ?_⟩
  simp only [accumEnd, UInt32.lt_iff_toNat_lt]
  split
  · rw [UInt32.toNat_sub, UInt32.toNat_add, hring]
    omega
  · rw [UInt32.toNat_sub]
    omega

/-- **When an event tells how much has been received.** -/
theorem unwraps_iff (h : Counted B w c) (ha : a.Fills B w c.state) :
    a.Unwraps c.state ↔ a.Distinct B c.state := by
  have hnews := ha.news
  have hroom := ha.room
  have hle := h.consumed_le
  obtain ⟨hB, hspan⟩ := h.toNat_span ha
  have hsum : consumed c.state.trace + (a.written - consumed c.state.trace) = a.written := by omega
  have hend := Ring.end_of_run_iff (t := consumed c.state.trace)
    (n := a.written - consumed c.state.trace) (B := B) (e := a.completed.toNat) (by omega)
    (by omega) (by rw [hsum]; exact ha.completed)
  rw [← h.prev] at hend
  rw [Arrival.Unwraps, Arrival.Distinct, ← UInt32.toNat_inj, UInt32.toNat_zero, ← hend, ← hspan]
  omega

theorem span_le (h : Counted B w c) (ha : a.Fills B w c.state) :
    (c.state.priv.accumEnd a.completed - c.state.priv.prevOffset).toNat ≤
      a.written - consumed c.state.trace := by
  by_cases hunwraps : a.Unwraps c.state
  · exact hunwraps.le
  · have hnews := ha.news
    have hroom := ha.room
    have hle := h.consumed_le
    obtain ⟨_, hspan⟩ := h.toNat_span ha
    rw [h.unwraps_iff ha, Arrival.Distinct, ← UInt32.toNat_inj, UInt32.toNat_zero, not_or, h.prev]
      at hunwraps
    have hlap := Ring.end_of_lap (t := consumed c.state.trace)
      (n := a.written - consumed c.state.trace) (e := a.completed.toNat)
      (by omega : a.written - consumed c.state.trace = B) hunwraps.2 (by
        rw [Nat.add_sub_cancel' (by omega)]
        exact ha.completed)
    rw [← h.prev] at hlap
    rw [if_neg (by omega)] at hspan
    omega

/-- **An event** leaves the context where it has consumed the stream up to, unless it stops it. -/
theorem event (h : Counted B w c) (ha : a.Fills B w c.state) (hspans : a.Spans c.state) :
    (run exec c a.moves).state.priv.state.running = false ∨
      Counted B a.written (run exec c a.moves) := by
  obtain ⟨hB, _⟩ := h.toNat_span ha
  have hle := h.span_le ha
  have hnews := ha.news
  have hconsumed_le := h.consumed_le
  obtain ⟨c, stack⟩ := c
  obtain ⟨rfl, hground, hring, hprev, _⟩ := h
  have hbuffer : c.priv.state.bytesPerBuffer ≠ 0 := by
    intro h0
    rw [h0] at hring
    exact absurd hring hB.ne
  have hlt : c.priv.prevOffset.toNat < c.priv.state.bytesPerBuffer.toNat := by
    rw [hprev, hring]
    exact Nat.mod_lt _ hB
  have hspan : c.priv.prevOffset.toNat + (c.priv.accumEnd a.completed - c.priv.prevOffset).toNat <
      4294967296 := Nat.lt_of_le_of_lt (Nat.add_le_add_left hle _) hspans
  rcases event_cases (i := a.toInterrupt) hground hbuffer hlt hspan with
    hstopped | ⟨total, htotal, hstack, hsame, hprev', hconsumed⟩
  · exact .inl hstopped
  refine .inr ⟨hstack, ?_, ?_, ?_, ?_⟩
  · exact run_keeps_of_init (I := fun c : Ctx FwIsoIrMultiple => Grounded c.priv) a.moves hground
      fun op _ c hc => Grounded.exec op c hc
  · rw [hsame.bytesPerBuffer]
    exact hring
  · rw [hprev', hconsumed, hprev, hring, Nat.mod_add_mod]
  · have hwalked : total ≤ a.written - consumed c.trace := htotal.trans hle
    have hless : consumed c.trace < a.written := Nat.lt_of_le_of_lt hconsumed_le hnews
    exact hconsumed.trans_le (by omega)

/-- In a buffer of up to two gigabytes no sum wraps. -/
theorem spans_of_le (h : Counted B w c) (ha : a.Fills B w c.state) (hsmall : B ≤ 2147483648) :
    a.Spans c.state := by
  obtain ⟨hB, _⟩ := h.toNat_span ha
  have hroom := ha.room
  have hlt := Nat.mod_lt (consumed c.state.trace) hB
  rw [← h.prev] at hlt
  rw [Arrival.Spans]
  omega

/-- **Events** leave the context where it has consumed the stream up to, as long as there comes
another. -/
theorem after : ∀ (as : List Arrival) {w : Nat} {c : Config (Ctx FwIsoIrMultiple) Ret},
    Counted B w c → Filled B w c (as ++ [a]) →
    (B ≤ 2147483648 ∨
      ∀ pre b post, as = pre ++ b :: post → b.Spans (afterArrivals c pre).state) →
    ∃ w', Counted B w' (afterArrivals c as) ∧ a.Fills B w' (afterArrivals c as).state := by
  intro as
  induction as with
  | nil => exact fun h hfilled _ => ⟨_, h, hfilled.1⟩
  | cons b as ih =>
    intro w c h hfilled hspans
    obtain ⟨hb, hrest⟩ := hfilled
    have hfirst : b.Spans c.state := hspans.elim (h.spans_of_le hb) fun hall => hall [] b as rfl
    rcases h.event hb hfirst with hstopped | hnext
    · rw [hrest.running] at hstopped
      cases hstopped
    · rw [afterArrivals_cons]
      refine ih hnext hrest (hspans.imp_right fun hall pre d post heq => ?_)
      rw [← afterArrivals_cons]
      exact hall (b :: pre) d post (by rw [heq, List.cons_append])

end Counted

/-! ### From a start on -/

variable {cycleMatch : Option (UInt16 × UInt16)} {syncCode tags chunksPerIrq : UInt32}
  {env : StartEnv}

end FwIsoIrMultiple

end Hinoko
