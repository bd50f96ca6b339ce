import Hinoko.Lifecycle

/-!
# Handing chunks over to the kernel

`queueChunks` splits the packets of the store over several requests, and empties the
store when the last one has been answered.  The kernel answers with an error, or with
the number of packets that it takes, which may be fewer than it was given; that number
is not looked at.

* `HandsOver`: what is taken and what the store still holds make up the packets.
* `handsOver_iff`: so it is if every request is taken whole, or if one is refused
  before anything has been taken, and not otherwise.
-/

namespace Hinoko

open Reentrant

def Effect.taken (it : Bool) : Effect → List IsoPacket
  | .queueIso _ packets (.accepted count) => (packetsOfRequest it packets).take count
  | _ => []

def taken (it : Bool) (es : List Effect) : List IsoPacket := es.flatMap (Effect.taken it)

/-- After success every packet has been taken once, in order; after failure the packets that have
not been taken are those that the store holds. -/
structure HandsOver (st : FwIsoCtxState) (ps : List IsoPacket) (o : Out FwIsoCtxState) : Prop where
  success : o.ret = .success → taken (st.mode = .it) o.effects = ps
  failure : o.ret.IsFalse →
    ∃ held, Stores o.state held ∧ taken (st.mode = .it) o.effects ++ held = ps

/-! ### The batches of a store -/

def splits (bytesPerBuffer : UInt32) : Nat → UInt32 → List IsoPacket → List (List IsoPacket)
  | 0, _, _ => []
  | _ + 1, _, [] => []
  | fuel + 1, x, p :: ps =>
    let g := gather bytesPerBuffer x 0 (p :: ps)
    g.batch :: splits bytesPerBuffer fuel ((g.bufOffset + g.bufLength) % bytesPerBuffer) g.rest

def FwIsoCtxState.splits (st : FwIsoCtxState) (ps : List IsoPacket) : List (List IsoPacket) :=
  Hinoko.splits st.bytesPerBuffer st.queueFuel st.currOffset ps

/-- The answers from the `i`-th on take every batch whole. -/
def takesWhole (answers : Nat → QueueAnswer) : Nat → List (List IsoPacket) → Bool
  | _, [] => true
  | i, batch :: batches =>
    match answers i with
    | .failed _ => false
    | .accepted count => batch.length ≤ count ∧ takesWhole answers (i + 1) batches

/-- The answers from the `i`-th on refuse a batch, and take nothing before it. -/
def refusesFirst (answers : Nat → QueueAnswer) : Nat → List (List IsoPacket) → Bool
  | _, [] => false
  | i, batch :: batches =>
    match answers i with
    | .failed _ => true
    | .accepted count => (count = 0 ∨ batch = []) ∧ refusesFirst answers (i + 1) batches

/-! ### The rounds -/

def takenOf (answers : Nat → QueueAnswer) : Nat → List Round → List IsoPacket
  | _, [] => []
  | i, r :: rounds =>
    (match answers i with
      | .failed _ => []
      | .accepted count => r.batch.take count) ++ takenOf answers (i + 1) rounds

theorem length_takenOf_le (answers : Nat → QueueAnswer) : ∀ (rounds : List Round) (i : Nat),
    (takenOf answers i rounds).length ≤ (handedOut rounds).length := by
  intro rounds
  induction rounds with
  | nil => exact fun _ => Nat.le_refl 0
  | cons r rounds ih =>
    intro i
    rw [takenOf, handedOut_cons, List.length_append, List.length_append]
    refine Nat.add_le_add ?_ (ih (i + 1))
    cases answers i with
    | failed errno => exact Nat.zero_le _
    | accepted count => exact List.length_take_le' _ _

theorem taken_requests (st : FwIsoCtxState) (answers : Nat → QueueAnswer) :
    ∀ (rounds : List Round) (i : Nat) (pre : List IsoPacket),
      (∀ p ∈ handedOut rounds, Sized st p) →
      taken (st.mode = .it) (requests st.handle answers i pre rounds) =
        takenOf answers i rounds := by
  intro rounds
  induction rounds with
  | nil => intro i pre _; rfl
  | cons r rounds ih =>
    intro i pre hsized
    have hbatch := packetsOfRequest_packetBytes fun p hp =>
      hsized p (List.mem_append_left _ hp)
    have hrest := ih (i + 1) (pre ++ r.batch) fun p hp => hsized p (List.mem_append_right _ hp)
    rw [requests, taken, List.flatMap_cons, takenOf]
    congr 1
    cases h : answers i with
    | failed errno => rfl
    | accepted count => rw [Effect.taken, hbatch]

/-- **A loop that ends** has handed everything over if every batch was taken whole. -/
theorem takenOf_finished (B : UInt32) (answers : Nat → QueueAnswer) :
    ∀ (fuel i : Nat) (x : UInt32) (ps : List IsoPacket) (x' : UInt32),
      (queueRounds B answers fuel i x ps).2 = .finished x' →
      (takenOf answers i (queueRounds B answers fuel i x ps).1 =
          handedOut (queueRounds B answers fuel i x ps).1 ↔
        takesWhole answers i (splits B fuel x ps)) ∧
      ¬ refusesFirst answers i (splits B fuel x ps) := by
  intro fuel
  induction fuel with
  | zero => intro i x ps x' h; cases h
  | succ fuel ih =>
    intro i x ps x' h
    cases ps with
    | nil => exact ⟨iff_of_true rfl rfl, Bool.false_ne_true⟩
    | cons p ps =>
      simp only [queueRounds] at h ⊢
      cases ha : answers i with
      | failed errno => simp [ha] at h
      | accepted count =>
        simp only [ha] at h ⊢
        split at h
        · cases h
        next hB =>
        obtain ⟨hwhole, hrefuse⟩ := ih (i + 1) _ _ _ h
        have hle := length_takenOf_le answers (queueRounds B answers fuel (i + 1)
          (((gather B x 0 (p :: ps)).bufOffset + (gather B x 0 (p :: ps)).bufLength) % B)
          (gather B x 0 (p :: ps)).rest).1 (i + 1)
        simp only [hB, if_false, takenOf, handedOut_cons, splits, takesWhole, refusesFirst, ha,
          decide_eq_true_eq]
        refine ⟨⟨fun heq => ?_, fun hw => ?_⟩, fun hr => hrefuse hr.2⟩
        -- as the rest takes no more than it is given, the first batch cannot fall short
        · have hlen := congrArg List.length heq
          rw [List.length_append, List.length_append, List.length_take] at hlen
          have hcount : (gather B x 0 (p :: ps)).batch.length ≤ count := by omega
          rw [List.take_of_length_le hcount] at heq
          exact ⟨hcount, hwhole.mp (List.append_cancel_left heq)⟩
        · rw [List.take_of_length_le hw.1, hwhole.mpr hw.2]

/-- **A loop that a refusal ends** has handed nothing over if nothing was taken before. -/
theorem takenOf_failed (B : UInt32) (answers : Nat → QueueAnswer) :
    ∀ (fuel i : Nat) (x : UInt32) (ps : List IsoPacket) (errno : Nat),
      (queueRounds B answers fuel i x ps).2 = .failed errno →
      (takenOf answers i (queueRounds B answers fuel i x ps).1 = [] ↔
        refusesFirst answers i (splits B fuel x ps)) ∧
      ¬ takesWhole answers i (splits B fuel x ps) := by
  intro fuel
  induction fuel with
  | zero => intro i x ps errno h; cases h
  | succ fuel ih =>
    intro i x ps errno h
    cases ps with
    | nil => cases h
    | cons p ps =>
      simp only [queueRounds] at h ⊢
      cases ha : answers i with
      | failed errno' => simp [takenOf, splits, refusesFirst, takesWhole, ha]
      | accepted count =>
        simp only [ha] at h ⊢
        split at h
        · cases h
        next hB =>
        obtain ⟨hrefuse, hwhole⟩ := ih (i + 1) _ _ _ h
        simp only [hB, if_false, takenOf, splits, takesWhole, refusesFirst, ha, decide_eq_true_eq,
          List.append_eq_nil_iff, List.take_eq_nil_iff, hrefuse]
        exact ⟨trivial, fun hw => hwhole hw.2⟩

/-! ### Returning -/

/-- A packet that fits is gathered at the start of the buffer, and elsewhere unless the gathering
goes back there. -/
theorem gather_progress {B x : UInt32} {p : IsoPacket} (ps : List IsoPacket) (hx : x < B)
    (hp : p.payloadLength ≤ B.toNat) :
    let g := gather B x 0 (p :: ps)
    g.rest.length ≤ ps.length ∨ x ≠ 0 ∧ g.rest = p :: ps ∧ g.bufOffset + g.bufLength = 0 := by
  have hsmall := toNat_controlToPayloadLength p.control
  have hlt := UInt32.lt_iff_toNat_lt.mp hx
  rw [IsoPacket.payloadLength] at hp
  simp only [gather, UInt32.add_zero, UInt32.zero_add, if_pos hx]
  split
  next hcross =>
    refine .inr ⟨fun h0 => ?_, rfl, rfl⟩
    rw [h0, UInt32.zero_add, UInt32.lt_iff_toNat_lt] at hcross
    omega
  · have hlen := congrArg List.length (gather_append B ps x
      (fwCdevIsoPacketControlToPayloadLength p.control))
    rw [List.length_append] at hlen
    exact .inl (by simp only; omega)

theorem ne_zero_of_lt_size {B x : UInt32} (h : x < B) : B ≠ 0 := by
  rintro rfl
  exact UInt32.not_lt_zero h

/-- The loop ends when the queue is inside the buffer and every payload fits into it. -/
theorem rounds_returns (B : UInt32) (answers : Nat → QueueAnswer) :
    ∀ (fuel i : Nat) (x : UInt32) (ps : List IsoPacket),
      x < B → (∀ p ∈ ps, p.payloadLength ≤ B.toNat) →
      2 * ps.length + (if x = 0 then 0 else 1) < fuel →
      ∀ fault, (queueRounds B answers fuel i x ps).2 ≠ .crashed fault := by
  intro fuel
  induction fuel with
  | zero => exact fun i x ps _ _ h => absurd h (Nat.not_lt_zero _)
  | succ fuel ih =>
    intro i x ps hx hps hfuel fault
    cases ps with
    | nil => exact fun h => by cases h
    | cons p ps =>
      have hne : B ≠ 0 := ne_zero_of_lt_size hx
      have hprogress := gather_progress ps hx (hps p (by simp))
      have hg := gather_append B (p :: ps) x 0
      simp only [queueRounds]
      generalize gather B x 0 (p :: ps) = g at hprogress hg ⊢
      cases answers i with
      | failed errno => exact fun h => by cases h
      | accepted count =>
        simp only [if_neg hne]
        refine ih (i + 1) _ g.rest ?_ (fun q hq => hps q ?_) ?_ fault
        · exact UInt32.mod_lt _ (UInt32.pos_iff_ne_zero.mpr hne)
        · rw [← hg]
          exact List.mem_append_right _ hq
        · simp only [List.length_cons] at hfuel
          rcases hprogress with hlen | ⟨hx0, hrest, hzero⟩
          · split <;> split at hfuel <;> omega
          · rw [hrest, hzero, UInt32.zero_mod, if_pos rfl, List.length_cons]
            rw [if_neg hx0] at hfuel
            omega

theorem gather_outside {B x : UInt32} (hx : ¬ x < B) (p : IsoPacket) (ps : List IsoPacket) :
    gather B x 0 (p :: ps) = ⟨[], p :: ps, x, 0⟩ := by
  rw [gather, UInt32.add_zero, if_neg hx]

/-- **The loop ends**, wherever the queue is, when every payload fits into the buffer. -/
theorem rounds_returns_anywhere {B : UInt32} (hB : B ≠ 0) (answers : Nat → QueueAnswer)
    {fuel i : Nat} {x : UInt32} {ps : List IsoPacket} (hps : ∀ p ∈ ps, p.payloadLength ≤ B.toNat)
    (hfuel : 2 * ps.length + 2 < fuel) (fault : Fault) :
    (queueRounds B answers fuel i x ps).2 ≠ .crashed fault := by
  by_cases hx : x < B
  · exact rounds_returns B answers fuel i x ps hx hps (by split <;> omega) fault
  · obtain ⟨fuel, rfl⟩ := Nat.exists_eq_add_of_lt hfuel
    cases ps with
    | nil => exact fun h => by cases h
    | cons p ps =>
      simp only [queueRounds, gather_outside hx, UInt32.add_zero]
      cases answers i with
      | failed errno => exact fun h => by cases h
      | accepted count =>
        simp only [if_neg hB]
        exact rounds_returns B answers _ _ _ _ (UInt32.mod_lt _ (UInt32.pos_iff_ne_zero.mpr hB)) hps
          (by split <;> omega) fault

theorem rounds_finished_lt (B : UInt32) (answers : Nat → QueueAnswer) :
    ∀ (fuel i : Nat) (x : UInt32) (ps : List IsoPacket), x < B →
      ∀ x', (queueRounds B answers fuel i x ps).2 = .finished x' → x' < B := by
  intro fuel
  induction fuel with
  | zero => exact fun i x ps _ x' h => by cases h
  | succ fuel ih =>
    intro i x ps hx x' h
    cases ps with
    | nil =>
      cases h
      exact hx
    | cons p ps =>
      simp only [queueRounds] at h
      split at h
      · cases h
      split at h
      · cases h
      next hne =>
        refine ih _ _ _ ?_ x' h
        rw [UInt32.lt_iff_toNat_lt, UInt32.toNat_mod]
        exact Nat.mod_lt _ (UInt32.pos_iff_ne_zero.mpr hne)

/-! ### Queueing -/

/-- **Queueing returns**, wherever the queue is, when every payload fits into the buffer. -/
theorem queueChunks_returns {st : FwIsoCtxState} {ps : List IsoPacket}
    (answers : Nat → QueueAnswer) (hst : Stores st ps) (hsized : ∀ p ∈ ps, Sized st p)
    (hB : st.bytesPerBuffer ≠ 0) (hfit : ∀ p ∈ ps, p.payloadLength ≤ st.bytesPerBuffer.toNat) :
    ∀ fault, (st.queueChunks answers).ret ≠ .crashed fault := by
  intro fault
  have hlen := hst.length
  have hfour := four_mul_length_le ps
  have hreturns := rounds_returns_anywhere hB answers (i := 0) (x := st.currOffset) hfit
    (show 2 * ps.length + 2 < st.queueFuel by rw [FwIsoCtxState.queueFuel]; omega)
  rw [queueChunks_eq answers hst hsized]
  simp only [FwIsoCtxState.rounds]
  cases h : (queueRounds st.bytesPerBuffer answers st.queueFuel 0 st.currOffset ps).2 with
  | crashed fault => exact absurd h (hreturns fault)
  | failed errno => exact fun h => by cases h
  | finished x => exact fun h => by cases h

/-- **Handing over exactly once**: every request is taken whole, or one is refused before anything
has been taken.  This is where queueing returns, as it does in a buffer that every payload fits
into. -/
theorem handsOver_iff {st : FwIsoCtxState} {ps : List IsoPacket} (answers : Nat → QueueAnswer)
    (hst : Stores st ps) (hsized : ∀ p ∈ ps, Sized st p) :
    ((∀ fault, (st.queueChunks answers).ret ≠ .crashed fault) →
      (HandsOver st ps (st.queueChunks answers) ↔
        takesWhole answers 0 (st.splits ps) ∨ refusesFirst answers 0 (st.splits ps))) ∧
    (st.bytesPerBuffer ≠ 0 → (∀ p ∈ ps, p.payloadLength ≤ st.bytesPerBuffer.toNat) →
      ∀ fault, (st.queueChunks answers).ret ≠ .crashed fault) := by
  refine ⟨fun hreturns => ?_, queueChunks_returns answers hst hsized⟩
  obtain ⟨rest, hrest, hend⟩ :=
    rounds_partition st.bytesPerBuffer answers st.queueFuel 0 st.currOffset ps
  have hfinished :=
    takenOf_finished st.bytesPerBuffer answers st.queueFuel 0 st.currOffset ps
  have hfailed := takenOf_failed st.bytesPerBuffer answers st.queueFuel 0 st.currOffset ps
  have htaken := taken_requests st answers
    (queueRounds st.bytesPerBuffer answers st.queueFuel 0 st.currOffset ps).1 0 []
    fun p hp => hsized p (by rw [hrest]; exact List.mem_append_left _ hp)
  rw [queueChunks_eq answers hst hsized] at hreturns ⊢
  simp only [FwIsoCtxState.rounds, FwIsoCtxState.splits] at hreturns ⊢
  generalize queueRounds st.bytesPerBuffer answers st.queueFuel 0 st.currOffset ps = r
    at hrest hend hfinished hfailed htaken hreturns ⊢
  obtain ⟨rounds, roundsEnd⟩ := r
  cases roundsEnd with
  | crashed fault => exact absurd rfl (hreturns fault)
  | finished x' =>
    obtain ⟨hwhole, hrefuse⟩ := hfinished x' rfl
    have hall : handedOut rounds = ps := by
      rw [hrest, hend x' rfl, List.append_nil]
    rw [or_iff_left hrefuse, ← hwhole, hall]
    refine ⟨fun h => ?_, fun h => ⟨fun _ => ?_, fun hf => hf.elim⟩⟩
    · rw [← htaken]
      exact h.success rfl
    · simp only [htaken]
      exact h
  | failed errno =>
    obtain ⟨hrefuse, hwhole⟩ := hfailed errno rfl
    rw [or_iff_right hwhole, ← hrefuse]
    refine ⟨fun h => ?_, fun h => ⟨fun hs => (by cases hs), fun _ => ⟨ps, hst, ?_⟩⟩⟩
    -- the store is as it was, so there is no room for a packet that has been taken
    · obtain ⟨held, hheld, heq⟩ := h.failure trivial
      rw [show taken _ _ = _ from htaken] at heq
      have hlen := congrArg List.length heq
      have hcount : held.length = st.registeredChunkCount.toNat := hheld.count
      have hcount' := hst.count
      rw [List.length_append] at hlen
      exact List.eq_nil_of_length_eq_zero (by omega)
    · simp only [htaken, h, List.nil_append]

theorem queueChunks_curr_lt {st : FwIsoCtxState} {ps : List IsoPacket}
    (answers : Nat → QueueAnswer) (hst : Stores st ps) (hsized : ∀ p ∈ ps, Sized st p)
    (hcurr : st.currOffset < st.bytesPerBuffer) :
    (st.queueChunks answers).state.currOffset < st.bytesPerBuffer := by
  have hend := rounds_finished_lt st.bytesPerBuffer answers st.queueFuel 0 st.currOffset ps hcurr
  rw [queueChunks_eq answers hst hsized]
  simp only [FwIsoCtxState.rounds]
  generalize (queueRounds st.bytesPerBuffer answers st.queueFuel 0 st.currOffset ps).2 = e at hend ⊢
  cases e with
  | crashed fault => exact hcurr
  | failed errno => exact hcurr
  | finished x => exact hend x rfl

/-! ### A short answer, and a late refusal -/

namespace FwIsoIrSingle

def registerAcross : List (Move Op) :=
  [.call (.allocate (some "/dev/fw0") 0 4 grantAllocate), .call (.mapBuffer 8 2 grantMap),
    .call (.registerPacket false), .call (.start none 0 0 (grantStart 1)),
    .call (.registerPacket false), .call (.registerPacket false)]

theorem plain_registerAcross : ∀ op, .call op ∈ registerAcross → op.Plain := by
  intro op hop
  simp only [registerAcross, List.mem_cons, Move.call.injEq, List.not_mem_nil, or_false] at hop
  rcases hop with rfl | rfl | rfl | rfl | rfl | rfl <;>
    first
    | trivial
    | exact ⟨1, rfl⟩

end FwIsoIrSingle

/-- **A short answer loses a chunk, and a late refusal keeps one that has been taken.** -/
theorem handsOver_fails :
    let c := (run FwIsoIrSingle.exec ⟨⟨.new, []⟩, []⟩ FwIsoIrSingle.registerAcross).state
    let ps := held c.priv.state c.effects
    Stores c.priv.state ps ∧ (∀ p ∈ ps, Sized c.priv.state p) ∧
      ¬ HandsOver c.priv.state ps (c.priv.state.queueChunks fun _ => .accepted 0) ∧
      ¬ HandsOver c.priv.state ps (c.priv.state.queueChunks fun i =>
        if i = 0 then .accepted 1 else .failed 12) := by
  intro c ps
  have h : StoreInv .irSingle c.priv.state c.effects :=
    FwIsoIrSingle.storeInv_of_run FwIsoIrSingle.plain_registerAcross (by decide +kernel)
  refine ⟨h.stores, h.sized, fun hover => ?_, fun hover => ?_⟩
  · exact absurd (hover.success (by decide +kernel)) (by decide +kernel)
  · obtain ⟨rest, hrest, heq⟩ := hover.failure (by decide +kernel)
    have hlen := congrArg List.length heq
    have hcount : rest.length = 2 := by
      rw [hrest.count]
      decide +kernel
    rw [List.length_append, hcount] at hlen
    exact absurd hlen (by decide +kernel)

/-- The theorem at the same store, with requests taken whole. -/
theorem handsOver_whole :
    let c := (run FwIsoIrSingle.exec ⟨⟨.new, []⟩, []⟩ FwIsoIrSingle.registerAcross).state
    let ps := held c.priv.state c.effects
    HandsOver c.priv.state ps (c.priv.state.queueChunks fun _ => .accepted 1) := by
  intro c ps
  have h : StoreInv .irSingle c.priv.state c.effects :=
    FwIsoIrSingle.storeInv_of_run FwIsoIrSingle.plain_registerAcross (by decide +kernel)
  obtain ⟨hiff, hreturns⟩ := handsOver_iff (fun _ => .accepted 1) h.stores h.sized
  exact (hiff (hreturns (by decide +kernel) (by decide +kernel))).mpr (by decide +kernel)

end Hinoko
