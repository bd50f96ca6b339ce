import Hinoko.Interrupts
import Hinoko.Slots

/-!
# The chunks of a multiple-channel context

Between a start and the next stop, the chunks go round: the hardware fills them, the
events walk over what has been filled, and each chunk that has been walked over is
queued again at its slot.

* `Recycled`: the invariant, over what has been consumed since the start.
* `Recycled.event`, `Recycled.after`: events keep it.
* `recycled_of_run`: after each event the chunks that have been consumed, and no others,
  are queued again.
* `recycling_fails`: an event that goes too far back makes a chunk go round too early.
-/

namespace Hinoko

open Reentrant

namespace FwIsoIrMultiple

/-! ### Chunks and slots -/

theorem chunksSinceMap_chunks (es : List Effect) : ∀ ps : List IsoPacket,
    chunksSinceMap (es ++ ps.map .chunk) = chunksSinceMap es ++ ps := by
  intro ps
  induction ps generalizing es with
  | nil => rw [List.map_nil, List.append_nil, List.append_nil]
  | cons p ps ih =>
    rw [List.map_cons, ← List.singleton_append, ← List.append_assoc, ih, chunksSinceMap_chunk,
      List.append_assoc, List.singleton_append]

theorem slots_registerChunks : ∀ (n : Nat) {self : FwIsoIrMultiple} {es : List Effect},
    Slots .irMultiple self.state es → Slots .irMultiple (registerChunks n self).state.state
      (es ++ (registerChunks n self).effects) := by
  intro n
  induction n with
  | zero =>
    intro self es h
    rw [registerChunks, List.append_nil]
    exact h
  | succ n ih =>
    intro self es h
    have hfirst : Slots .irMultiple self.registerChunk.state.state
        (es ++ self.registerChunk.effects) := h.registerChunk (by decide) _
    simp only [registerChunks]
    split
    · rw [← List.append_assoc]
      exact ih hfirst
    · exact hfirst

theorem all_queued {st : FwIsoCtxState} {es : List Effect} (h : Slots .irMultiple st es)
    (hempty : st.dataLength = 0) : queued es = chunksSinceMap es := by
  have hheld : held st es = [] := by
    rw [held, h.store.count_eq_zero hempty]
    exact List.rtake_zero _
  rw [← h.order, hheld, List.append_nil]

/-! ### Runs -/

def afterEvents (c : Config (Ctx FwIsoIrMultiple) Ret) (is : List Interrupt) :
    Config (Ctx FwIsoIrMultiple) Ret :=
  run exec c (is.flatMap Interrupt.moves)

/-- Events of which the records can be stored, and of which the kernel takes the chunks. -/
def Admitted : Config (Ctx FwIsoIrMultiple) Ret → List Interrupt → Prop
  | _, [] => True
  | c, i :: is => (i.Fits c.state.priv ∧ Accepting i.env.queueIso) ∧
      Admitted (run exec c i.moves) is

theorem afterEvents_append (c : Config (Ctx FwIsoIrMultiple) Ret) (is is' : List Interrupt) :
    afterEvents c (is ++ is') = afterEvents (afterEvents c is) is' := by
  rw [afterEvents, List.flatMap_append, run_append]
  rfl

theorem admitted_append : ∀ {is is' : List Interrupt} {c : Config (Ctx FwIsoIrMultiple) Ret},
    Admitted c (is ++ is') → Admitted c is ∧ Admitted (afterEvents c is) is' := by
  intro is
  induction is with
  | nil => exact fun h => ⟨trivial, h⟩
  | cons i is ih =>
    intro is' c h
    obtain ⟨hhead, htail⟩ := ih h.2
    refine ⟨⟨h.1, hhead⟩, ?_⟩
    rw [afterEvents, List.flatMap_cons, run_append]
    exact htail

/-- The invariant of runs: as many chunks have been registered since the start as have been
consumed, and they are queued. -/
structure Recycled (bytes chunks : UInt32) (c : Config (Ctx FwIsoIrMultiple) Ret) : Prop where
  stack : c.stack = []
  started : Started c.state.priv
  running : c.state.priv.state.running = true
  slots : Slots .irMultiple c.state.priv.state c.state.effects
  bytes_eq : c.state.priv.state.bytesPerChunk = bytes
  chunks_eq : c.state.priv.state.chunksPerBuffer = chunks
  prev : c.state.priv.prevOffset.toNat = consumed c.state.trace % (bytes.toNat * chunks.toNat)
  total : (queued c.state.effects).length = consumed c.state.trace / bytes.toNat

namespace Recycled

variable {bytes chunks : UInt32} {c : Config (Ctx FwIsoIrMultiple) Ret}

/-- **An event** consumes the complete frames, and the invariant holds again. -/
theorem event (h : Recycled bytes chunks c) {i : Interrupt} (hfits : i.Fits c.state.priv)
    (hanswers : Accepting i.env.queueIso) :
    Recycled bytes chunks (run exec c i.moves) ∧ consumed (run exec c i.moves).state.trace =
      consumed c.state.trace + (c.state.priv.frames i.env.buffer i.completed).sum := by
  obtain ⟨c, stack⟩ := c
  obtain ⟨rfl, hstarted, hrun, hslots, rfl, rfl, hprev, htotal⟩ := h
  simp only at hstarted hrun hslots hprev htotal hfits ⊢
  obtain ⟨s, hs, hasked, heffects, houtcome⟩ := hstarted.moves hfits
  obtain ⟨hstate, _⟩ : s.priv.state = c.priv.state ∧ s.priv.prevOffset = c.priv.prevOffset :=
    hasked.setup
  have hle := (hstarted.chunks_le i.env.buffer hfits.completed_le).2
  set a := (c.priv.frames i.env.buffer i.completed).sum with ha
  set n := (c.priv.prevOffset.toNat + a) / c.priv.state.bytesPerChunk.toNat -
    c.priv.prevOffset.toNat / c.priv.state.bytesPerChunk.toNat with hn
  have hreported : Slots .irMultiple s.priv.state s.effects := by
    rw [hstate, heffects]
    exact hslots.quiet (by simp [Effect.Quiet]) (by simp)
  have hregistered := slots_registerChunks n hreported
  obtain ⟨hret, _, hqueued⟩ := hregistered.queueChunks (by decide) hanswers
  obtain ⟨hend, hstack, hsame, hnext, hprev', hconsumed⟩ :=
    houtcome.resolve_right fun hstopped => hstopped.1 hret
  obtain ⟨id, hid⟩ := hs.mapped
  have hroom := hs.room
  have haddr : s.priv.state.addr ≠ .null := by
    rw [hid]
    rintro ⟨⟩
  obtain ⟨_, _, _, ps, hps, hchunks, _⟩ := registers n hs.store hs.allocated haddr
    (by rw [hs.empty, UInt32.toNat_zero, hstate] at *; omega)
  have hquiet := (registerChunks n s.priv).state.state.queueChunks_quiet i.env.queueIso
  have heffects' : (run exec ⟨c, []⟩ i.moves).state.effects = s.effects ++
      ((registerChunks n s.priv).effects ++
        ((registerChunks n s.priv).state.state.queueChunks i.env.queueIso).effects) := by
    rw [hend, Ctx.after_effects]
  have hslots' : Slots .irMultiple (run exec ⟨c, []⟩ i.moves).state.priv.state
      (run exec ⟨c, []⟩ i.moves).state.effects := by
    rw [heffects', ← List.append_assoc, hend]
    exact hqueued
  refine ⟨⟨hstack, hnext, ?_, hslots', ?_, ?_, ?_, ?_⟩, hconsumed⟩
  · rw [hend]
    exact hsame.running.trans hrun
  · rw [hend]
    exact hsame.bytesPerChunk
  · rw [hend]
    exact hsame.chunksPerBuffer
  · rw [hconsumed, hprev', hprev, Nat.mod_add_mod]
  · have hbefore := all_queued hslots hstarted.empty
    rw [all_queued hslots' hnext.empty, heffects', ← List.append_assoc, chunksSinceMap_quiet hquiet,
      hchunks, chunksSinceMap_chunks, heffects, chunksSinceMap_quiet (by simp [Effect.Quiet]),
      List.length_append, hps, ← hbefore, htotal, hconsumed, hn, hprev]
    exact Ring.div_add_div_sub hstarted.chunk_pos _ _

/-- **Events** keep the invariant, and consume more and more. -/
theorem after : ∀ (is : List Interrupt) {c : Config (Ctx FwIsoIrMultiple) Ret},
    Recycled bytes chunks c → Admitted c is → Recycled bytes chunks (afterEvents c is) ∧
      consumed c.state.trace ≤ consumed (afterEvents c is).state.trace := by
  intro is
  induction is with
  | nil => exact fun h _ => ⟨h, Nat.le_refl _⟩
  | cons i is ih =>
    intro c h his
    obtain ⟨hnext, hconsumed⟩ := h.event his.1.1 his.1.2
    obtain ⟨hafter, hle⟩ := ih hnext his.2
    rw [afterEvents, List.flatMap_cons, run_append]
    exact ⟨hafter, by rw [hconsumed] at hle; exact (Nat.le_add_right _ _).trans hle⟩

theorem places (h : Recycled bytes chunks c) : queuedAt c.state.effects =
    inTurn bytes.toNat chunks.toNat (consumed c.state.trace / bytes.toNat) := by
  rw [h.slots.places, h.total, h.bytes_eq, h.chunks_eq]

end Recycled

/-! ### What is queued again -/

/-- Where an event after others has queued chunks. -/
def requeued (c : Config (Ctx FwIsoIrMultiple) Ret) (is : List Interrupt) (i : Interrupt) :
    List Nat :=
  (queuedAt (afterEvents c (is ++ [i])).state.effects).drop
    (queuedAt (afterEvents c is).state.effects).length

/-- The end of what has been received with an event, counted since the start. -/
def reach (c : Config (Ctx FwIsoIrMultiple) Ret) (i : Interrupt) : Nat :=
  consumed c.state.trace + c.state.priv.received i.completed

/-- The chunk at `x` holds byte `t` of the stream. -/
def HoldsByte (it : FwIsoIrMultiple) (x t : Nat) : Prop :=
  let offset := t % (it.state.bytesPerChunk.toNat * it.state.chunksPerBuffer.toNat)
  x ≤ offset ∧ offset < x + it.state.bytesPerChunk.toNat

/-- The hardware has filled no more than the chunks that are queued to it. -/
def Interrupt.Backed (i : Interrupt) (it : FwIsoIrMultiple) : Prop :=
  it.prevOffset.toNat ≤ i.completed.toNat ∨ i.completed.toNat ≤
    it.state.bytesPerChunk.toNat * (it.prevOffset.toNat / it.state.bytesPerChunk.toNat)

namespace Recycled

variable {bytes chunks : UInt32} {c : Config (Ctx FwIsoIrMultiple) Ret}

theorem reach_le (h : Recycled bytes chunks c) {i : Interrupt} (hfits : i.Fits c.state.priv)
    (hbacked : i.Backed c.state.priv) :
    reach c i ≤ bytes.toNat * (consumed c.state.trace / bytes.toNat + chunks.toNat) := by
  have hend := h.started.received_le hfits.completed_le
  have hcompleted := hfits.completed_le
  have hpos := h.started.chunk_pos
  have hprev := h.prev
  rw [Interrupt.Backed] at hbacked
  rw [h.bytes_eq, h.chunks_eq] at hend hcompleted
  rw [h.bytes_eq] at hpos hbacked
  have hround := Nat.div_add_mod (consumed c.state.trace) (bytes.toNat * chunks.toNat)
  rw [← hprev] at hround
  have hdiv : consumed c.state.trace / bytes.toNat =
      chunks.toNat * (consumed c.state.trace / (bytes.toNat * chunks.toNat)) +
        c.state.priv.prevOffset.toNat / bytes.toNat := by
    conv_lhs => rw [← hround, Nat.mul_assoc, Nat.mul_add_div hpos]
  rw [reach, hdiv, Nat.mul_add, Nat.mul_add, ← Nat.mul_assoc]
  split at hend
  next hback =>
    rcases hbacked with hle | hle <;> omega
  next hahead => omega

theorem mem_requeued (h : Recycled bytes chunks c) {is : List Interrupt} {i : Interrupt}
    (his : Admitted c (is ++ [i])) {x : Nat} (hx : x ∈ requeued c is i) :
    ∃ k, consumed (afterEvents c is).state.trace / bytes.toNat ≤ k ∧
      k < consumed (afterEvents c (is ++ [i])).state.trace / bytes.toNat ∧
      x = bytes.toNat * (k % chunks.toNat) := by
  obtain ⟨hbefore, hadmitted⟩ := admitted_append his
  obtain ⟨hmid, _⟩ := h.after is hbefore
  obtain ⟨hlast, hle⟩ := hmid.after [i] hadmitted
  rw [← afterEvents_append] at hlast hle
  obtain ⟨j, hj⟩ := Nat.exists_eq_add_of_le (Nat.div_le_div_right (c := bytes.toNat) hle)
  have hdrop : requeued c is i = (List.range j).map fun n =>
      bytes.toNat * ((consumed (afterEvents c is).state.trace / bytes.toNat + n) %
        chunks.toNat) := by
    rw [requeued, hlast.places, hmid.places, hj, inTurn_add, List.drop_left]
  rw [hdrop] at hx
  obtain ⟨n, hn, rfl⟩ := List.mem_map.mp hx
  have hlt := List.mem_range.mp hn
  exact ⟨_, Nat.le_add_right _ n, by rw [hj]; omega, rfl⟩

/-- **No byte that is still to be consumed goes round.** -/
theorem spares (h : Recycled bytes chunks c) {is : List Interrupt} {i : Interrupt}
    (his : Admitted c (is ++ [i])) {pre post : List Interrupt} {j : Interrupt}
    (hj : is ++ [i] = pre ++ j :: post) (hbacked : j.Backed (afterEvents c pre).state.priv)
    {t : Nat} (hkept : consumed (afterEvents c (is ++ [i])).state.trace ≤ t)
    (ht : t < reach (afterEvents c pre) j) {x : Nat} (hx : x ∈ requeued c is i) :
    ¬ HoldsByte c.state.priv x t := by
  obtain ⟨k, hlo, hhi, rfl⟩ := h.mem_requeued his hx
  have hpos := h.started.chunk_pos
  rw [h.bytes_eq] at hpos
  obtain ⟨rest, hrest⟩ : pre <+: is := by
    refine (List.prefix_concat_iff.mp ⟨j :: post, hj.symm⟩).resolve_left fun he => ?_
    have hlen := congrArg List.length hj
    rw [he] at hlen
    simp at hlen
  have hconsumed : consumed (afterEvents c pre).state.trace ≤
      consumed (afterEvents c is).state.trace := by
    obtain ⟨hadmitted, hrest'⟩ := admitted_append (hrest ▸ (admitted_append his).1)
    rw [← hrest, afterEvents_append]
    exact ((h.after pre hadmitted).1.after rest hrest').2
  obtain ⟨hadmitted, ⟨hfits, _⟩, _⟩ := admitted_append (hj ▸ his)
  have hreach := (h.after pre hadmitted).1.reach_le hfits hbacked
  have hbehind : k < t / bytes.toNat := hhi.trans_le (Nat.div_le_div_right hkept)
  have hround : t / bytes.toNat < k + chunks.toNat := by
    have hlt := Nat.div_lt_of_lt_mul (ht.trans_le hreach)
    have hle := Nat.div_le_div_right (c := bytes.toNat) hconsumed
    omega
  rintro ⟨hge, hlt⟩
  rw [h.bytes_eq, h.chunks_eq] at hge hlt
  have hslot : t % (bytes.toNat * chunks.toNat) / bytes.toNat = k % chunks.toNat := by
    rw [Nat.mul_comm bytes.toNat (k % chunks.toNat)] at hge hlt
    exact Nat.div_eq_of_lt_le hge (by rwa [Nat.add_mul, Nat.one_mul])
  rw [Nat.mod_mul_right_div_self] at hslot
  exact Ring.mod_ne_of_lt hbehind (by omega) hslot.symm

end Recycled

/-! ### From a start on -/

variable {self : FwIsoIrMultiple} {cycleMatch : Option (UInt16 × UInt16)}
  {syncCode tags chunksPerIrq : UInt32} {env : StartEnv}

/-- A start that queues every chunk once comes back to the first slot. -/
theorem currOffset_start (hground : Grounded self) (hlen : self.state.dataLength = 0)
    (hcurr : self.state.currOffset = 0) (hpos : 0 < self.state.bytesPerChunk.toNat)
    (hbytes : self.state.bytesPerChunk.toNat ≤ 65532)
    (hbuffer : self.state.bytesPerChunk.toNat * self.state.chunksPerBuffer.toNat < 2147483648)
    (hret : (self.start cycleMatch syncCode tags chunksPerIrq env).ret = .success)
    (hanswers : Accepting env.queueIso) :
    (self.start cycleMatch syncCode tags chunksPerIrq env).state.state.currOffset = 0 := by
  obtain ⟨hirq, hregisters, hstart, ho⟩ := start_of_success hret
  have hchunks' : 0 < self.state.chunksPerBuffer.toNat :=
    Nat.zero_lt_of_lt (UInt32.lt_iff_toNat_lt.mp hirq)
  obtain ⟨_, hfd, haddr, hstart'⟩ := FwIsoCtxState.start_of_success hstart
  set prepared : FwIsoIrMultiple :=
    { self with chunksPerIrq := chunksPerIrq, accumulatedChunkCount := 0 } with hprepared
  have hself : Slots .irMultiple self.state [] :=
    .init hground.state hlen hcurr hpos (by omega) (by omega)
  have hslots : Slots .irMultiple prepared.state [] := hself
  obtain ⟨hsame, _⟩ := registerChunks_same self.state.chunksPerBuffer.toNat prepared
  rw [hsame.fd] at hfd
  rw [hsame.addr] at haddr
  obtain ⟨_, _, _, ps, hps, hchunks, _⟩ := registers _ hslots.store hfd haddr
    (room_of_registers _ hchunks' hregisters)
  obtain ⟨_, hempty, hqueued⟩ :=
    (slots_registerChunks self.state.chunksPerBuffer.toNat hslots).queueChunks (by decide) hanswers
  rw [hchunks] at hqueued
  have hlength := congrArg List.length (all_queued hqueued hempty)
  rw [chunksSinceMap_quiet (FwIsoCtxState.queueChunks_quiet _ _), chunksSinceMap_chunks,
    List.length_append, hps] at hlength
  have hsame' := hsame.trans (.queueChunks _ env.queueIso)
  have hend := hqueued.curr
  rw [hlength, hsame'.chunksPerBuffer] at hend
  rw [ho, hstart', ← UInt32.toNat_inj]
  refine hend.trans ?_
  rw [show (chunksSinceMap []).length + self.state.chunksPerBuffer.toNat =
    prepared.state.chunksPerBuffer.toNat from Nat.zero_add _, Nat.mod_self, Nat.mul_zero]
  rfl

/-- **A start** of a context with empty books queues every chunk once, and stands at the first slot
again. -/
theorem recycled_of_start (hground : Grounded self) (hlen : self.state.dataLength = 0)
    (hcurr : self.state.currOffset = 0) (hmapped : ∃ id, self.state.addr = .mapped id)
    (hbytes : self.state.bytesPerChunk.toNat ≤ 65532)
    (hbuffer : self.state.bytesPerChunk.toNat * self.state.chunksPerBuffer.toNat < 2147483648)
    (hret : (self.start cycleMatch syncCode tags chunksPerIrq env).ret = .success)
    (hanswers : Accepting env.queueIso) :
    Recycled self.state.bytesPerChunk self.state.chunksPerBuffer
      ⟨⟨(self.start cycleMatch syncCode tags chunksPerIrq env).state, []⟩, []⟩ := by
  obtain ⟨hstarted, hrun, hprev, hbytes', hchunks', _⟩ :=
    started_of_start hground hlen hmapped hbuffer hret
  have hground' := hground.start cycleMatch syncCode tags chunksPerIrq env
  have hpos := hstarted.chunk_pos
  rw [hbytes'] at hpos
  have hzero := currOffset_start hground hlen hcurr hpos hbytes hbuffer hret hanswers
  refine ⟨rfl, hstarted, hrun, ?_, hbytes', hchunks', ?_, ?_⟩
  · exact .init hground'.state hstarted.empty hzero hstarted.chunk_pos
      (by rw [hbytes']; omega) (by rw [hbytes', hchunks']; omega)
  · rw [hprev]
    exact (Nat.zero_mod _).symm
  · exact (Nat.zero_div _).symm

/-- **The chunks go round**: after each event as many chunks have been registered again as have been
consumed, all of them are queued, each at its slot, and, as long as the hardware fills no more than
the chunks that are queued to it, none that holds a byte still to be consumed. -/
theorem recycled_of_run {ms : List (Move Op)}
    (hreached : (run exec ⟨⟨new, []⟩, []⟩ ms).state.priv = self)
    (hlen : self.state.dataLength = 0) (hcurr : self.state.currOffset = 0)
    (hmapped : ∃ id, self.state.addr = .mapped id)
    (hbytes : self.state.bytesPerChunk.toNat ≤ 65532)
    (hbuffer : self.state.bytesPerChunk.toNat * self.state.chunksPerBuffer.toNat < 2147483648)
    (hret : (self.start cycleMatch syncCode tags chunksPerIrq env).ret = .success)
    (hanswers : Accepting env.queueIso) (is : List Interrupt)
    (his : Admitted ⟨⟨(self.start cycleMatch syncCode tags chunksPerIrq env).state, []⟩, []⟩ is) :
    let start : Config (Ctx FwIsoIrMultiple) Ret :=
      ⟨⟨(self.start cycleMatch syncCode tags chunksPerIrq env).state, []⟩, []⟩
    let c := afterEvents start is
    let again := consumed c.state.trace / self.state.bytesPerChunk.toNat
    (c.stack = [] ∧ c.state.priv.state.running = true) ∧
      (chunksSinceMap c.state.effects).length = again ∧
      queued c.state.effects = chunksSinceMap c.state.effects ∧
      queuedAt c.state.effects = ((List.range again).map fun k =>
        self.state.bytesPerChunk.toNat * (k % self.state.chunksPerBuffer.toNat)) ∧
      ∀ is' i, is = is' ++ [i] → ∀ pre j post, is = pre ++ j :: post →
        j.Backed (afterEvents start pre).state.priv →
        ∀ t, consumed c.state.trace ≤ t → t < reach (afterEvents start pre) j →
          ∀ x ∈ requeued start is' i, ¬ HoldsByte start.state.priv x t := by
  intro start c again
  have hground : Grounded self := hreached ▸ grounded_of_run ms
  have hstart := recycled_of_start hground hlen hcurr hmapped hbytes hbuffer hret hanswers
  obtain ⟨h, _⟩ := hstart.after is his
  have hqueued := all_queued h.slots h.started.empty
  refine ⟨⟨h.stack, h.running⟩, hqueued ▸ h.total, hqueued, h.places, ?_⟩
  rintro is' i rfl pre j post hj hbacked t hkept ht x hx
  exact hstart.spares his hj hbacked hkept ht hx

/-! ### Two events -/

def eightByTwo : List (Move Op) :=
  [.call (.allocate (some "/dev/fw0") [1] grantAllocate (.ok 2) false),
    .call (.mapBuffer 8 2 ⟨grantMap, 2, fun _ => 0, 3, fun _ => ⟨0, 0⟩⟩)]

def twelveBytes : EventEnv := ⟨fun i => if i = 2 then 4 else 0, fun _ => .accepted 1⟩

def whole : Interrupt := ⟨[], 12, twelveBytes, [0]⟩

def upTo (completed : UInt32) : Interrupt := ⟨[], completed, twelveBytes, []⟩

def eightByTwoStarted : Config (Ctx FwIsoIrMultiple) Ret :=
  ⟨⟨((run exec ⟨⟨new, []⟩, []⟩ eightByTwo).state.priv.start none 0 0 0 (grantStart 2)).state,
      []⟩, []⟩

theorem admitted_upTo {completed : UInt32} (h : completed = 8 ∨ completed = 11) :
    Admitted eightByTwoStarted [whole, upTo completed] := by
  rcases h with rfl | rfl <;>
    exact ⟨⟨⟨by decide +kernel, by decide +kernel, by decide +kernel⟩, fun _ => ⟨1, rfl⟩⟩,
      ⟨⟨by decide +kernel, by decide +kernel, by decide +kernel⟩, fun _ => ⟨1, rfl⟩⟩, trivial⟩

/-- **An event that goes on behind the chunks that are queued**: the second chunk is queued again
while it holds byte 24 of the stream, which has been received and not been consumed. -/
theorem recycling_fails :
    let self := (run exec ⟨⟨new, []⟩, []⟩ eightByTwo).state.priv
    (self.state.dataLength = 0 ∧ self.state.currOffset = 0 ∧ self.state.addr = .mapped 1 ∧
      (self.start none 0 0 0 (grantStart 2)).ret = .success ∧
      Admitted eightByTwoStarted [whole, upTo 11]) ∧
    (8 ∈ requeued eightByTwoStarted [whole] (upTo 11) ∧
      consumed (afterEvents eightByTwoStarted [whole, upTo 11]).state.trace ≤ 24 ∧
      24 < reach (afterEvents eightByTwoStarted [whole]) (upTo 11) ∧
      HoldsByte eightByTwoStarted.state.priv 8 24) := by
  refine ⟨⟨by decide +kernel, by decide +kernel, by decide +kernel, by decide +kernel,
    admitted_upTo (.inr rfl)⟩, by decide +kernel, by decide +kernel, by decide +kernel, ?_⟩
  constructor <;> decide +kernel

/-- The same with an event that ends where the second chunk starts. -/
theorem recycled_upTo :
    let c := afterEvents eightByTwoStarted [whole, upTo 8]
    queuedAt c.state.effects = [0, 8] ∧ consumed c.state.trace = 20 ∧
      ∀ x ∈ requeued eightByTwoStarted [whole] (upTo 8),
        ¬ HoldsByte eightByTwoStarted.state.priv x 23 := by
  have hreached : (run exec ⟨⟨new, []⟩, []⟩ eightByTwo).state.priv =
    (run exec ⟨⟨new, []⟩, []⟩ eightByTwo).state.priv := rfl
  have hret : ((run exec ⟨⟨new, []⟩, []⟩ eightByTwo).state.priv.start none 0 0 0
    (grantStart 2)).ret = .success := by decide +kernel
  have hconsumed : consumed (afterEvents eightByTwoStarted [whole, upTo 8]).state.trace = 20 := by
    decide +kernel
  obtain ⟨_, _, _, hplaces, hspares⟩ := recycled_of_run hreached (by decide +kernel)
    (by decide +kernel) ⟨1, by decide +kernel⟩ (by decide +kernel) (by decide +kernel) hret
    (fun _ => ⟨2, rfl⟩) [whole, upTo 8] (admitted_upTo (.inl rfl))
  refine ⟨hplaces.trans (by decide +kernel), hconsumed, hspares [whole] (upTo 8) rfl [whole]
      (upTo 8)
    [] rfl (.inr (by decide +kernel)) 23 ?_ (by decide +kernel)⟩
  exact hconsumed.trans_le (by decide)

end FwIsoIrMultiple

end Hinoko
