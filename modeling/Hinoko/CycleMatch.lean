import Hinoko.Lib.Bitfield
import Hinoko.Reporting

/-!
# The cycle to start at

A start may be told when to begin, as a second up to 3 and a cycle up to 7999.  The functions that
look at the pair refuse it only where both are out of range, and the request has two bits for the
second and thirteen for the cycle.

* `cycleWord_eq_iff`: which pairs are sent as the same word.
* `matched_iff`: when a start sends the pair that it is told, or refuses it.
-/

namespace Hinoko

open Reentrant Bitfield

/-! ### The encoding -/

/-- The range that the documentation gives. -/
structure InRange (pair : UInt16 × UInt16) : Prop where
  sec : pair.1 ≤ 3
  cycle : pair.2 ≤ 7999

structure Encodes (pair : UInt16 × UInt16) (word : UInt32) : Prop where
  sec : field word.toNat 13 2 = pair.1.toNat
  cycle : field word.toNat 0 13 = pair.2.toNat

def cycleWord (pair : UInt16 × UInt16) : UInt32 :=
  FwIsoCtxState.cycleMatchFromFields pair.1.toUInt32 pair.2.toUInt32

theorem cycleWord_toNat (pair : UInt16 × UInt16) :
    (cycleWord pair).toNat = pair.1.toNat % 4 * 2 ^ 13 + pair.2.toNat % 2 ^ 13 := by
  have hsec := pair.1.toNat_lt
  have hshift : (pair.1.toUInt32 <<< 13).toNat = pair.1.toNat <<< 13 := by
    rw [UInt32.toNat_shiftLeft, UInt16.toNat_toUInt32, show (13 : UInt32).toNat % 32 = 13 from rfl]
    exact Nat.mod_eq_of_lt (by rw [Nat.shiftLeft_eq]; omega)
  have hmask : pair.1.toNat <<< 13 &&& 0x7000 = (pair.1.toNat % 4) <<< 13 := by
    rw [show pair.1.toNat <<< 13 = (pair.1.toNat * 2) <<< 12 by
      rw [Nat.shiftLeft_eq, Nat.shiftLeft_eq]; omega, show 0x7000 = (2 ^ 3 - 1) <<< 12 from rfl,
      ← Nat.shiftLeft_and_distrib, Nat.and_two_pow_sub_one_eq_mod, Nat.shiftLeft_eq,
      Nat.shiftLeft_eq]
    omega
  rw [cycleWord, FwIsoCtxState.cycleMatchFromFields, UInt32.toNat_or, UInt32.toNat_and, hshift,
    UInt32.toNat_and, UInt16.toNat_toUInt32, show (0x7000 : UInt32).toNat = 0x7000 from rfl, hmask,
    show (0x1fff : UInt32).toNat = 2 ^ 13 - 1 from rfl, Nat.and_two_pow_sub_one_eq_mod,
    ← Nat.shiftLeft_add_eq_or_of_lt (Nat.mod_lt _ (by decide)), Nat.shiftLeft_eq]

theorem field_sec (pair : UInt16 × UInt16) :
    field (cycleWord pair).toNat 13 2 = pair.1.toNat % 4 := by
  rw [field, cycleWord_toNat]
  omega

theorem field_cycle (pair : UInt16 × UInt16) :
    field (cycleWord pair).toNat 0 13 = pair.2.toNat % 2 ^ 13 := by
  rw [field, cycleWord_toNat]
  omega

theorem InRange.encodes {pair : UInt16 × UInt16} (h : InRange pair) :
    Encodes pair (cycleWord pair) := by
  obtain ⟨hsec, hcycle⟩ := h
  rw [UInt16.le_iff_toNat_le] at hsec hcycle
  have h3 : (3 : UInt16).toNat = 3 := rfl
  have h7999 : (7999 : UInt16).toNat = 7999 := rfl
  refine ⟨?_, ?_⟩
  · rw [field_sec]
    omega
  · rw [field_cycle]
    omega

/-- **Which pairs are sent as the same word**: those that agree modulo 4 and modulo 8192. -/
theorem cycleWord_eq_iff {pair pair' : UInt16 × UInt16} : cycleWord pair = cycleWord pair' ↔
    pair.1.toNat % 4 = pair'.1.toNat % 4 ∧ pair.2.toNat % 8192 = pair'.2.toNat % 8192 := by
  rw [← UInt32.toNat_inj, cycleWord_toNat, cycleWord_toNat]
  omega

theorem Encodes.inj {pair pair' : UInt16 × UInt16} {word : UInt32} (h : Encodes pair word)
    (h' : Encodes pair' word) : pair = pair' :=
  Prod.ext (UInt16.toNat_inj.mp (h.sec.symm.trans h'.sec))
    (UInt16.toNat_inj.mp (h.cycle.symm.trans h'.cycle))

/-! ### Starts -/

/-- A start for the pair: what it sends is the pair, and a pair out of range is refused before
anything is queued. -/
structure Matched {σ : Type} (pair : UInt16 × UInt16) (o : Out σ) : Prop where
  sent : ∀ arg accepted, .startIso arg accepted ∈ o.effects → InRange pair ∧ Encodes pair arg.cycle
  refused : ¬ InRange pair → o.ret.IsFalse ∧
    ∀ arg packets answer, .queueIso arg packets answer ∉ o.effects

/-- The start queues where `queues` holds, or crashes there, and is refused elsewhere; what it sends
is the word of the pair. -/
structure Begins {σ : Type} (queues : Prop) (pair : UInt16 × UInt16) (o : Out σ) : Prop where
  sent : ∀ arg accepted, .startIso arg accepted ∈ o.effects → queues ∧ arg.cycle = cycleWord pair
  queued : queues → (∃ arg packets answer, .queueIso arg packets answer ∈ o.effects) ∨
    ∃ fault, o.ret = .crashed fault
  refused : ¬ queues → o.ret.IsFalse ∧
    ∀ arg packets answer, .queueIso arg packets answer ∉ o.effects

/-- **A start is right** for a pair in range, and where it does not come to queueing. -/
theorem Begins.matched_iff_or {σ : Type} {queues : Prop} {pair : UInt16 × UInt16} {o : Out σ}
    (h : Begins queues pair o) : Matched pair o ↔ InRange pair ∨ ¬ queues := by
  by_cases hrange : InRange pair
  · refine iff_of_true ⟨fun arg accepted hmem => ?_, fun hnot => absurd hrange hnot⟩ (.inl hrange)
    rw [(h.sent arg accepted hmem).2]
    exact ⟨hrange, hrange.encodes⟩
  · rw [or_iff_right hrange]
    constructor
    · intro hmatched hqueues
      obtain ⟨hfalse, hnone⟩ := hmatched.refused hrange
      rcases h.queued hqueues with ⟨arg, packets, answer, hmem⟩ | ⟨fault, hcrashed⟩
      · exact hnone arg packets answer hmem
      · rw [hcrashed] at hfalse
        exact hfalse
    · intro hqueues
      exact ⟨fun arg accepted hmem => absurd (h.sent arg accepted hmem).1 hqueues,
        fun _ => h.refused hqueues⟩

theorem Begins.map {σ τ : Type} {queues : Prop} {pair : UInt16 × UInt16} {o : Out σ} (f : σ → τ)
    (h : Begins queues pair o) : Begins queues pair (o.map f) :=
  ⟨h.sent, h.queued, h.refused⟩

theorem Begins.of_refused {σ : Type} {queues : Prop} {pair : UInt16 × UInt16} {s : σ} {o : Out σ}
    (hr : Refused s o) (h : ¬ queues) : Begins queues pair o := by
  obtain ⟨_, heffects, hfalse⟩ := hr
  refine ⟨fun _ _ hmem => ?_, fun hqueues => absurd hqueues h, fun _ => ⟨hfalse, fun _ _ _ => ?_⟩⟩
  · rw [heffects] at hmem
    cases hmem
  · rw [heffects]
    exact List.not_mem_nil

theorem Begins.ite {σ : Type} {queues p : Prop} [Decidable p] {pair : UInt16 × UInt16} {s : σ}
    {o o' : Out σ} (hp : queues → ¬ p) (hr : Refused s o) (h : ¬ p → Begins queues pair o') :
    Begins queues pair (if p then o else o') := by
  split
  next hcheck => exact .of_refused hr fun hqueues => hp hqueues hcheck
  next hcheck => exact h hcheck

theorem Begins.congr {σ : Type} {queues queues' : Prop} {pair : UInt16 × UInt16} {o : Out σ}
    (h : Begins queues pair o) (hiff : queues ↔ queues') : Begins queues' pair o := by
  rwa [← hiff]

theorem Begins.after {σ τ : Type} {queues : Prop} {pair : UInt16 × UInt16} {o : Out σ} {o' : Out τ}
    {es : List Effect} (h : Begins queues pair o) (hes : ∀ e ∈ es, ∃ p, e = .chunk p)
    (hret : o'.ret = o.ret) (heffects : o'.effects = es ++ o.effects) : Begins queues pair o' := by
  refine ⟨fun arg accepted hmem => ?_, fun hqueues => ?_, fun hqueues => ?_⟩
  · rw [heffects] at hmem
    rcases List.mem_append.mp hmem with hmem | hmem
    · obtain ⟨_, he⟩ := hes _ hmem
      cases he
    · exact h.sent arg accepted hmem
  · rw [heffects, hret]
    rcases h.queued hqueues with ⟨arg, packets, answer, hmem⟩ | hcrashed
    · exact .inl ⟨arg, packets, answer, List.mem_append_right _ hmem⟩
    · exact .inr hcrashed
  · rw [heffects, hret]
    refine ⟨(h.refused hqueues).1, fun arg packets answer hmem => ?_⟩
    rcases List.mem_append.mp hmem with hmem | hmem
    · obtain ⟨_, he⟩ := hes _ hmem
      cases he
    · exact (h.refused hqueues).2 arg packets answer hmem

/-! ### The state -/

namespace FwIsoCtxState

variable {st : FwIsoCtxState}

/-- A store that is not empty is queued, unless the walk over it crashes. -/
theorem queueLoop_queued (answers : Nat → QueueAnswer) (fuel i : Nat)
    {dataOffset : UInt32} (bufOffset chunkCount : UInt32) (h : dataOffset < st.dataLength) :
    let q := st.queueLoop answers (fuel + 1) i dataOffset bufOffset chunkCount
    (∃ arg packets answer, .queueIso arg packets answer ∈ q.1) ∨
      ∃ fault, q.2 = .crashed fault := by
  rw [queueLoop, if_pos h]
  split
  next fault _ => exact .inr ⟨fault, rfl⟩
  next b _ =>
    let arg : QueueIso := ⟨dataOffset, b.dataLength, b.bufOffset, st.handle⟩
    refine .inl ⟨arg, st.packetsOf arg, answers i, ?_⟩
    cases answers i with
    | failed errno => exact List.mem_singleton_self _
    | accepted count =>
      dsimp only
      split
      · exact List.mem_singleton_self _
      · exact List.mem_cons_self ..

theorem queueChunks_queued (h : st.dataLength ≠ 0) (answers : Nat → QueueAnswer) :
    (∃ arg packets answer, .queueIso arg packets answer ∈ (st.queueChunks answers).effects) ∨
      ∃ fault, (st.queueChunks answers).ret = .crashed fault := by
  have hfuel : st.queueFuel = 3 * st.dataLength.toNat + 2 + 1 := by
    rw [queueFuel]
    omega
  have hloop := st.queueLoop_queued answers (3 * st.dataLength.toNat + 2) 0 st.currOffset 0
    (UInt32.pos_iff_ne_zero.mpr h)
  rw [← hfuel] at hloop
  rw [queueChunks]
  generalize st.queueLoop answers st.queueFuel 0 0 st.currOffset 0 = q at hloop
  obtain ⟨es, ending⟩ := q
  rcases hloop with ⟨arg, packets, answer, hmem⟩ | ⟨fault, rfl⟩
  · refine .inl ⟨arg, packets, answer, ?_⟩
    cases ending with
    | crashed fault => exact hmem
    | failed errno => exact hmem
    | finished bufOffset chunkCount =>
      dsimp only
      split
      · exact hmem
      · exact List.mem_append_left _ hmem
  · exact .inr ⟨fault, rfl⟩

/-- What a start of the state needs to queue, beside arguments that it accepts. -/
structure Ready (st : FwIsoCtxState) : Prop where
  fd : 0 ≤ st.fd
  addr : st.addr ≠ .null
  dataLength : st.dataLength ≠ 0

/-- A start that queues does so first, and crashes if that does. -/
theorem start_of_ready {cycleMatch : Option (UInt16 × UInt16)} {syncCode tags : UInt32}
    (haccepts : st.acceptsStart cycleMatch syncCode tags) (h : st.Ready) (env : StartEnv) :
    let o := st.start cycleMatch syncCode tags env
    let q := st.queueChunks env.queueIso
    (∀ e ∈ q.effects, e ∈ o.effects) ∧
      ∀ fault, q.ret = .crashed fault → o.ret = .crashed fault := by
  rw [start, if_neg (not_lt.mpr h.fd), if_neg h.addr, if_neg (not_not.mpr haccepts),
    if_neg h.dataLength]
  dsimp only
  split
  next hret =>
    rw [hret]
    refine ⟨fun e he => ?_, fun _ hcrashed => by cases hcrashed⟩
    cases env.startIso with
    | some errno => exact List.mem_append_left _ he
    | none => exact List.mem_append_left _ he
  · exact ⟨fun e he => he, fun _ hcrashed => hcrashed⟩

theorem begins_start (pair : UInt16 × UInt16) (syncCode tags : UInt32) (env : StartEnv) :
    Begins (st.acceptsStart (some pair) syncCode tags ∧ st.Ready) pair
      (st.start (some pair) syncCode tags env) := by
  by_cases hqueues : st.acceptsStart (some pair) syncCode tags ∧ st.Ready
  · obtain ⟨heffects, hcrashed⟩ := start_of_ready hqueues.1 hqueues.2 env
    refine ⟨fun arg accepted hmem => ⟨hqueues, ?_⟩, fun _ => ?_, fun hnot => absurd hqueues hnot⟩
    · rcases st.start_effects (some pair) syncCode tags env _ hmem with hmem | ⟨_, he⟩
      · rcases (st.queueChunks_cases env.queueIso).1 _ hmem with he | ⟨_, _, _, he⟩ <;> cases he
      · cases he
        rfl
    · rcases queueChunks_queued hqueues.2.dataLength env.queueIso with
        ⟨arg, packets, answer, hmem⟩ | ⟨fault, hfault⟩
      · exact .inl ⟨arg, packets, answer, heffects _ hmem⟩
      · exact .inr ⟨fault, hcrashed fault hfault⟩
  · rcases st.start_cases (some pair) syncCode tags env with
      hr | ⟨⟨hfd, haddr, haccepts, hdata⟩, _⟩
    · exact .of_refused hr hqueues
    · exact absurd ⟨haccepts, hfd, haddr, hdata⟩ hqueues

end FwIsoCtxState

/-! ### The kinds of context -/

section Kinds

open FwIsoCtxState (acceptsCycleMatch)

variable {pair : UInt16 × UInt16}

theorem FwIsoIt.begins_start {self : FwIsoIt} (h : self.Grounded) (env : StartEnv) :
    Begins (acceptsCycleMatch (some pair) ∧ self.state.Ready) pair
      (self.start (some pair) env) := by
  rw [start]
  refine .ite (fun hqueues => not_not.mpr hqueues.1) ⟨rfl, rfl, trivial⟩ fun _ => ?_
  refine ((self.state.begins_start pair 0 0 env).map _).congr (and_congr_left fun hready => ?_)
  simp [FwIsoCtxState.acceptsStart, Hinoko.Grounded.mode h hready.fd]

theorem FwIsoIrSingle.begins_start {self : FwIsoIrSingle} (h : self.Grounded)
    (syncCode tags : UInt32) (env : StartEnv) :
    Begins (acceptsCycleMatch (some pair) ∧ syncCode ≤ 15 ∧ tags ≤ 15 ∧ self.state.Ready) pair
      (self.start (some pair) syncCode tags env) := by
  rw [start]
  refine .ite (fun hqueues => not_not.mpr hqueues.1) ⟨rfl, rfl, trivial⟩ fun _ => ?_
  refine .ite (fun hqueues => UInt32.not_lt.mpr hqueues.2.1) ⟨rfl, rfl, trivial⟩ fun _ => ?_
  refine ((self.state.begins_start pair syncCode tags env).map _).congr ?_
  rw [← and_assoc, ← and_assoc, and_assoc (a := (acceptsCycleMatch _ : Prop))]
  refine and_congr_left fun hready => ?_
  simp [FwIsoCtxState.acceptsStart, h.state.mode hready.fd]

namespace FwIsoIrMultiple

variable {self : FwIsoIrMultiple}

structure Ready (it : FwIsoIrMultiple) (chunksPerIrq : UInt32) : Prop where
  irq : chunksPerIrq < it.state.chunksPerBuffer
  fd : 0 ≤ it.state.fd
  addr : it.state.addr ≠ .null
  room : it.state.dataLength.toNat + 4 * it.state.chunksPerBuffer.toNat ≤
    it.state.allocDataLength.toNat

theorem registerChunk_filled (h : Grounded self) (hfd : 0 ≤ self.state.fd)
    (haddr : self.state.addr ≠ .null)
    (hroom : self.state.dataLength.toNat + 4 ≤ self.state.allocDataLength.toNat) :
    self.registerChunk.ret = .success ∧
      self.registerChunk.state.state.dataLength.toNat = self.state.dataLength.toNat + 4 := by
  have haccepts : self.state.acceptsChunk false 0 0 .null 0 := by
    simp [FwIsoCtxState.acceptsChunk, h.state.mode hfd, ArrayArg.null]
  have hret : self.registerChunk.ret = .success := by
    rw [registerChunk, Out.map_ret, Hinoko.registerChunk_ret h.state, if_pos ⟨haccepts, hroom⟩,
      if_neg (not_lt.mpr hfd), if_neg haddr]
  refine ⟨hret, ?_⟩
  rw [registerChunk, Out.map_ret] at hret
  rw [registerChunk, Out.map_state]
  rcases self.state.registerChunk_cases false 0 0 .null 0 _ with
    hr | ⟨_, ⟨_, ho⟩ | ⟨block, _, ho⟩⟩
  · have hfalse := hr.ret
    rw [hret] at hfalse
    exact hfalse.elim
  · rw [ho] at hret
    cases hret
  · have h4 : (sizeofFwCdevIsoPacket + ArrayArg.null.length).toNat = 4 := rfl
    have halloc := self.state.allocDataLength.toNat_lt
    rw [ho]
    show (self.state.dataLength + (sizeofFwCdevIsoPacket + ArrayArg.null.length)).toNat = _
    rw [UInt32.toNat_add, h4]
    omega

theorem registerChunks_filled : ∀ (n : Nat) {self : FwIsoIrMultiple}, Grounded self →
    0 ≤ self.state.fd → self.state.addr ≠ .null →
    self.state.dataLength.toNat + 4 * n ≤ self.state.allocDataLength.toNat →
    (registerChunks n self).ret = .success ∧ (registerChunks n self).state.state.dataLength.toNat =
      self.state.dataLength.toNat + 4 * n := by
  intro n
  induction n with
  | zero => exact fun _ _ _ _ => ⟨rfl, rfl⟩
  | succ n ih =>
    intro self h hfd haddr hroom
    obtain ⟨hret, hlen⟩ := registerChunk_filled h hfd haddr (by omega)
    have hsame : SameSetup self.state self.registerChunk.state.state :=
      SameSetup.registerChunk self.state false 0 0 .null 0 _
    obtain ⟨hrets, hlens⟩ := ih h.registerChunk (by rwa [hsame.fd]) (by rwa [hsame.addr])
      (by rw [hlen, hsame.allocDataLength]; omega)
    simp only [registerChunks, hret]
    exact ⟨hrets, by rw [hlens, hlen]; omega⟩

/-- Chunks without room for them are refused. -/
theorem registerChunks_refused (h : Grounded self) (n : Nat)
    (hnot : ¬ (0 ≤ self.state.fd ∧ self.state.addr ≠ .null ∧
      self.state.dataLength.toNat + 4 * (n + 1) ≤ self.state.allocDataLength.toNat)) :
    (registerChunks (n + 1) self).ret.IsFalse := by
  by_cases hready : 0 ≤ self.state.fd ∧ self.state.addr ≠ .null
  · rcases registerChunks_ret (n + 1) h hready.1 hready.2 with hret | hret
    · exact absurd ⟨hready.1, hready.2, room_of_registers (n + 1) (Nat.succ_pos n) hret⟩ hnot
    · rw [hret]
      trivial
  · obtain ⟨hfirst, hne⟩ := registerChunks_first h (not_and_or.mp hready) n
    rw [hfirst]
    rw [registerChunk, Out.map_ret, Hinoko.registerChunk_ret h.state] at hne ⊢
    split
    next hplace =>
      rw [if_pos hplace] at hne
      split
      · trivial
      next hfd =>
        rw [if_neg hfd] at hne
        split
        · trivial
        next haddr => exact absurd (if_neg haddr) hne
    · trivial

theorem begins_start (h : self.Grounded) (syncCode tags chunksPerIrq : UInt32) (env : StartEnv) :
    Begins (acceptsCycleMatch (some pair) ∧ syncCode ≤ 15 ∧ tags ≤ 15 ∧ self.Ready chunksPerIrq)
      pair (self.start (some pair) syncCode tags chunksPerIrq env) := by
  rw [start]
  refine .ite (fun hqueues => not_not.mpr hqueues.1) ⟨rfl, rfl, trivial⟩ fun hcycle => ?_
  refine .ite (fun hqueues => UInt32.not_lt.mpr hqueues.2.1) ⟨rfl, rfl, trivial⟩ fun _ => ?_
  refine .ite (fun hqueues => UInt32.not_le.mpr hqueues.2.2.2.irq) ⟨rfl, rfl, trivial⟩
    fun hirq => ?_
  have hground : Grounded { self with chunksPerIrq := chunksPerIrq, accumulatedChunkCount := 0 } :=
    h.congr h.state rfl rfl rfl
  obtain ⟨n, hn⟩ : ∃ n, self.state.chunksPerBuffer.toNat = n + 1 := by
    rw [UInt32.not_le, UInt32.lt_iff_toNat_lt] at hirq
    exact ⟨self.state.chunksPerBuffer.toNat - 1, by omega⟩
  dsimp only
  rw [hn]
  by_cases hready : 0 ≤ self.state.fd ∧ self.state.addr ≠ .null ∧
      self.state.dataLength.toNat + 4 * (n + 1) ≤ self.state.allocDataLength.toNat
  · obtain ⟨hret, hlen⟩ := registerChunks_filled (n + 1) hground hready.1 hready.2.1 hready.2.2
    have hsame := (registerChunks_same (n + 1) { self with
      chunksPerIrq := chunksPerIrq, accumulatedChunkCount := 0 }).1
    have hground' := hground.registerChunks (n + 1)
    simp only [hret]
    refine .after ((FwIsoCtxState.begins_start pair syncCode tags env).congr ?_)
      (registerChunks_effects (n + 1)) rfl rfl
    have haccepts : acceptsCycleMatch (some pair) = true := not_not.mp hcycle
    have hmode := hground'.state.mode (hsame.fd.symm ▸ hready.1)
    have hfilled : FwIsoCtxState.Ready (registerChunks (n + 1) { self with
        chunksPerIrq := chunksPerIrq, accumulatedChunkCount := 0 }).state.state := by
      refine ⟨hsame.fd.symm ▸ hready.1, hsame.addr.symm ▸ hready.2.1, fun hzero => ?_⟩
      rw [hzero, UInt32.toNat_zero] at hlen
      omega
    have hself : self.Ready chunksPerIrq :=
      ⟨UInt32.not_le.mp hirq, hready.1, hready.2.1, by rw [hn]; exact hready.2.2⟩
    simp [FwIsoCtxState.acceptsStart, haccepts, hmode, hfilled, hself]
  · have hfalse := registerChunks_refused hground n hready
    have hnot : ¬ (acceptsCycleMatch (some pair) ∧ syncCode ≤ 15 ∧ tags ≤ 15 ∧
        self.Ready chunksPerIrq) := fun hqueues =>
      hready ⟨hqueues.2.2.2.fd, hqueues.2.2.2.addr, hn ▸ hqueues.2.2.2.room⟩
    split
    next hret =>
      rw [hret] at hfalse
      exact hfalse.elim
    · refine .after (o := ⟨self, _, []⟩) (.of_refused ⟨rfl, rfl, hfalse⟩ hnot)
        (registerChunks_effects (n + 1)) rfl (List.append_nil _).symm

end FwIsoIrMultiple

/-- **When a start sends the pair that it is told, or refuses it**, after any run: for a pair in
range; where both are out of range; and where the start does not come to queueing anyway.  Pairs in
range are told apart by their words, others only modulo 4 and 8192. -/
theorem matched_iff (its : List (Move FwIsoIt.Op)) (irSingles : List (Move FwIsoIrSingle.Op))
    (irMultiples : List (Move FwIsoIrMultiple.Op)) (pair : UInt16 × UInt16) :
    let it := (run FwIsoIt.exec ⟨⟨.new, []⟩, []⟩ its).state.priv
    let irSingle := (run FwIsoIrSingle.exec ⟨⟨.new, []⟩, []⟩ irSingles).state.priv
    let irMultiple := (run FwIsoIrMultiple.exec ⟨⟨.new, []⟩, []⟩ irMultiples).state.priv
    (∀ env, Matched pair (it.start (some pair) env) ↔
      InRange pair ∨ ¬ acceptsCycleMatch (some pair) ∨ ¬ it.state.Ready) ∧
    (∀ syncCode tags env, Matched pair (irSingle.start (some pair) syncCode tags env) ↔
      InRange pair ∨ ¬ acceptsCycleMatch (some pair) ∨
        ¬ (syncCode ≤ 15 ∧ tags ≤ 15 ∧ irSingle.state.Ready)) ∧
    (∀ syncCode tags chunksPerIrq env,
      Matched pair (irMultiple.start (some pair) syncCode tags chunksPerIrq env) ↔
        InRange pair ∨ ¬ acceptsCycleMatch (some pair) ∨
          ¬ (syncCode ≤ 15 ∧ tags ≤ 15 ∧ irMultiple.Ready chunksPerIrq)) ∧
    ∀ pair', (cycleWord pair = cycleWord pair' ↔
        pair.1.toNat % 4 = pair'.1.toNat % 4 ∧ pair.2.toNat % 8192 = pair'.2.toNat % 8192) ∧
      (InRange pair → InRange pair' → cycleWord pair = cycleWord pair' → pair = pair') := by
  refine ⟨fun env => ?_, fun syncCode tags env => ?_, fun syncCode tags chunksPerIrq env => ?_,
    fun pair' => ⟨cycleWord_eq_iff, fun h h' heq => h.encodes.inj (heq ▸ h'.encodes)⟩⟩
  · rw [(FwIsoIt.begins_start (FwIsoIt.grounded_of_run its) env).matched_iff_or, not_and_or]
  · rw [(FwIsoIrSingle.begins_start (FwIsoIrSingle.grounded_of_run irSingles) syncCode tags
      env).matched_iff_or, not_and_or]
  · rw [(FwIsoIrMultiple.begins_start (FwIsoIrMultiple.grounded_of_run irMultiples) syncCode tags
      chunksPerIrq env).matched_iff_or, not_and_or]

/-- **A second out of range is sent as another one**: second 5 as second 1. -/
theorem matched_fails :
    let it := (run FwIsoIt.exec ⟨⟨.new, []⟩, []⟩ itWithPacket).state.priv
    let o := it.start (some (5, 100)) (grantStart 1)
    o.ret = .success ∧ o.effects.getLast? = some (.startIso ⟨cycleWord (1, 100), 0, 0, 0⟩ true) ∧
      ¬ Matched (5, 100) o := by
  refine ⟨by decide +kernel, by decide +kernel, fun h => ?_⟩
  have hmem := h.sent ⟨cycleWord (1, 100), 0, 0, 0⟩ true (by decide +kernel)
  exact absurd hmem.1.sec (by decide)

/-- The theorem at the last pair in range, for a context with a packet, and at a pair that is out of
range and accepted, for a context that has none. -/
theorem matched_twoPairs :
    Matched (3, 7999) ((run FwIsoIt.exec ⟨⟨.new, []⟩, []⟩ itWithPacket).state.priv.start
      (some (3, 7999)) (grantStart 1)) ∧
    Matched (5, 100) (FwIsoIt.new.start (some (5, 100)) (grantStart 1)) ∧
    cycleWord (3, 7999) ≠ cycleWord (3, 7998) := by
  have hrange : InRange (3, 7999) := ⟨by decide, by decide⟩
  have hrange' : InRange (3, 7998) := ⟨by decide, by decide⟩
  obtain ⟨hit, _, _, hwords⟩ := matched_iff itWithPacket [] [] (3, 7999)
  obtain ⟨hnew, _⟩ := matched_iff [] [] [] (5, 100)
  refine ⟨(hit (grantStart 1)).mpr (.inl hrange), (hnew (grantStart 1)).mpr (.inr (.inr ?_)), ?_⟩
  · exact fun hready => absurd hready.fd (by decide)
  · exact fun heq => absurd ((hwords (3, 7998)).2 hrange hrange' heq) (by decide)

end Kinds

end Hinoko
