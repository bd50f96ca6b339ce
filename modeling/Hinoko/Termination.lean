import Hinoko.Lib.Stutter
import Hinoko.Slices

/-!
# The end of queueing

A round of the outer loop of `fw_iso_ctx_state_queue_chunks` may take no entry from the store: the
queue is at a place behind the end of the buffer, or the next packet does not fit where it is.  Each
of these moves the queue, so that another round takes an entry.

* `rounds_bounded`: at most two rounds in a row stand still.
* `ends_of_registered`: so it does for a store of entries that tell the lengths of their headers.
* `ends_fails`: for one whose entry tells another it does not.
-/

namespace Hinoko

open Stutter Bitfield

/-! ### Rounds -/

/-- How many rounds may stand still, by the place of the queue. -/
def patience (B x : UInt32) : Nat := if x < B then if x = 0 then 0 else 1 else 2

theorem patience_le (B x : UInt32) : patience B x ≤ 2 := by
  rw [patience]
  split
  · split <;> decide
  · exact Nat.le_refl 2

/-- Inside the buffer at most one round stands still. -/
theorem patience_mod_le {B : UInt32} (hB : B ≠ 0) (x : UInt32) : patience B (x % B) ≤ 1 := by
  rw [patience, if_pos (UInt32.mod_lt _ (UInt32.pos_iff_ne_zero.mpr hB))]
  split <;> decide

/-- A round that takes nothing moves the queue to where there is less patience. -/
theorem patience_lt {B x : UInt32} (hB : B ≠ 0) {p : IsoPacket} {ps : List IsoPacket}
    (hp : p.payloadLength ≤ B.toNat) (hempty : (gather B x 0 (p :: ps)).batch = []) :
    patience B (((gather B x 0 (p :: ps)).bufOffset + (gather B x 0 (p :: ps)).bufLength) % B) <
      patience B x := by
  have hpos : 0 < B := UInt32.pos_iff_ne_zero.mpr hB
  by_cases hx : x < B
  · have hrest : (gather B x 0 (p :: ps)).rest = p :: ps := by
      have hg := gather_append B (p :: ps) x 0
      rwa [hempty, List.nil_append] at hg
    rcases gather_progress ps hx hp with hlen | ⟨hx0, _, hzero⟩
    · rw [hrest, List.length_cons] at hlen
      omega
    · rw [hzero, UInt32.zero_mod, patience, if_pos hpos, if_pos rfl, patience, if_pos hx,
        if_neg hx0]
      exact Nat.one_pos
  · rw [gather_outside hx, UInt32.add_zero, patience.eq_1 B x, if_neg hx]
    exact Nat.lt_succ_of_le (patience_mod_le hB x)

/-- **At most two rounds in a row stand still**: the first two, from a place behind the end of the
buffer, and one of two later. -/
theorem rounds_bounded {B : UInt32} (hB : B ≠ 0) (answers : Nat → QueueAnswer) :
    ∀ (fuel i : Nat) (x : UInt32) (ps : List IsoPacket), (∀ p ∈ ps, p.payloadLength ≤ B.toNat) →
      Bounded (fun r : Round => r.batch = []) 2 (patience B x)
        (queueRounds B answers fuel i x ps).1 := by
  intro fuel
  induction fuel with
  | zero => exact fun _ _ _ _ => trivial
  | succ fuel ih =>
    intro i x ps hps
    cases ps with
    | nil => exact trivial
    | cons p ps =>
      have hlower : (gather B x 0 (p :: ps)).batch = [] →
          patience B (((gather B x 0 (p :: ps)).bufOffset + (gather B x 0 (p :: ps)).bufLength) %
            B) < patience B x := patience_lt hB (hps p List.mem_cons_self)
      have hg := gather_append B (p :: ps) x 0
      simp only [queueRounds]
      generalize gather B x 0 (p :: ps) = g at hlower hg ⊢
      cases answers i with
      | failed errno =>
        exact ⟨fun hempty => ⟨Nat.zero_lt_of_lt (hlower hempty), trivial⟩, fun _ => trivial⟩
      | accepted count =>
        simp only [if_neg hB]
        have hrest := ih (i + 1) ((g.bufOffset + g.bufLength) % B) g.rest fun q hq =>
          hps q (hg ▸ List.mem_append_right _ hq)
        refine ⟨fun hempty => ?_, fun _ => hrest.mono (patience_le _ _)⟩
        have hlt := hlower hempty
        exact ⟨by omega, hrest.mono (by omega)⟩

/-! ### Requests -/

/-- The loops of `queue_chunks` end, and of three requests in a row one is about a packet. -/
structure Ends (st : FwIsoCtxState) (answers : Nat → QueueAnswer) : Prop where
  ends : ∃ fuel, ∀ fault, (st.queueLoop answers fuel 0 0 st.currOffset 0).2 ≠ .crashed fault
  advances : ∀ fuel before inARow behind,
    queueArgs (st.queueLoop answers fuel 0 0 st.currOffset 0).1 = before ++ (inARow ++ behind) →
      2 < inARow.length → ∃ arg ∈ inARow, arg.size ≠ 0

theorem empty_requests (handle : UInt32) (answers : Nat → QueueAnswer) :
    ∀ (rounds : List Round) (i : Nat) (pre : List IsoPacket),
      (packetBytes (handedOut rounds)).length < 4294967296 →
      List.Forall₂ (fun (r : Round) (arg : QueueIso) => r.batch = [] ↔ arg.size = 0) rounds
        (queueArgs (requests handle answers i pre rounds)) := by
  intro rounds
  induction rounds with
  | nil => exact fun _ _ _ => .nil
  | cons r rounds ih =>
    intro i pre hlen
    rw [handedOut_cons, packetBytes_append, List.length_append] at hlen
    rw [requests, queueArgs_queueIso]
    refine .cons ?_ (ih (i + 1) (pre ++ r.batch) (by omega))
    have hfour := four_mul_length_le r.batch
    rw [← UInt32.toNat_inj, UInt32.toNat_ofNat', Nat.mod_eq_of_lt (by omega), UInt32.toNat_zero]
    refine ⟨fun hempty => by rw [hempty]; rfl, fun hzero => ?_⟩
    exact List.eq_nil_of_length_eq_zero (by omega)

/-- **Queueing ends**, wherever the queue is, for a store that holds packets that fit into the
buffer. -/
theorem ends_of_stores {st : FwIsoCtxState} {ps : List IsoPacket} (hst : Stores st ps)
    (hsized : ∀ p ∈ ps, Sized st p) (hB : st.bytesPerBuffer ≠ 0)
    (hfit : ∀ p ∈ ps, p.payloadLength ≤ st.bytesPerBuffer.toNat) (answers : Nat → QueueAnswer) :
    Ends st answers := by
  have hlen := hst.length
  have hlt := st.dataLength.toNat_lt
  have hloop := fun fuel => queueLoop_eq answers fuel 0 [] ps 0 st.currOffset 0 hst hsized rfl
  refine ⟨⟨2 * ps.length + 3, fun fault => ?_⟩, fun fuel before inARow behind heq hmany => ?_⟩
  · have hreturns := rounds_returns_anywhere hB answers (i := 0) (x := st.currOffset) hfit
      (Nat.lt_succ_self _) fault
    rw [hloop]
    generalize queueRounds st.bytesPerBuffer answers _ 0 st.currOffset ps = r at hreturns ⊢
    obtain ⟨rounds, roundsEnd⟩ := r
    cases roundsEnd with
    | crashed fault' => exact fun h => hreturns (by cases h; rfl)
    | failed errno => exact fun h => by cases h
    | finished x => exact fun h => by cases h
  · obtain ⟨rest, hrest, _⟩ :=
      rounds_partition st.bytesPerBuffer answers fuel 0 st.currOffset ps
    have hbounded := (rounds_bounded hB answers fuel 0 st.currOffset ps hfit).mono
      (patience_le _ _)
    have hbytes := congrArg (fun qs => (packetBytes qs).length) hrest
    simp only [packetBytes_append, List.length_append] at hbytes
    rw [bounded_congr (empty_requests st.handle answers _ 0 [] (by omega))] at hbounded
    rw [hloop] at heq
    rw [heq] at hbounded
    exact hbounded.exists_moving hmany (Nat.le_refl 2)

variable {st st' : FwIsoCtxState}

/-- **Queueing ends for what has been registered**, wherever the queue is and whatever the answers
are, if no payload length runs into the length of a header. -/
theorem ends_of_registered {bytes chunks curr : UInt32} {env : MapEnv}
    (hret : (st.mapBuffer bytes chunks env).ret = .success) (hheader : st.headerSize.toNat ≤ 252)
    {calls : List ChunkCall}
    (hcalls : registerAll (st.mappedAt bytes chunks curr env) calls = some st')
    (hB : st'.bytesPerBuffer ≠ 0)
    (hfit : ∀ call ∈ calls, (call.packet st').payloadLength ≤ st'.bytesPerBuffer.toNat)
    (hapart : ∀ call ∈ calls, st.mode = .it →
      field call.payloadLength.toNat 24 8 ||| call.header.length.toNat = call.header.length.toNat)
    (answers : Nat → QueueAnswer) : Ends st' answers := by
  obtain ⟨hempty, hnone, hmode, hheader', _⟩ := storeInv_mappedAt curr hret
  obtain ⟨es, hstore, hheld, _⟩ := registered_of_all calls hempty (fun call hcall hacc =>
    sized_of_apart (by rw [hheader']; exact hheader) (by rw [hmode]; exact hapart call hcall) hacc)
    hcalls
  rw [hnone, List.nil_append] at hheld
  refine ends_of_stores hstore.stores hstore.sized hB (fun p hp => ?_) answers
  rw [hheld] at hp
  obtain ⟨call, hcall, rfl⟩ := List.mem_map.mp hp
  exact hfit call hcall

/-! ### A length that is told wrong -/

/-- A round that takes nothing and leaves the queue where it is comes again. -/
theorem queueLoop_stuck {answers : Nat → QueueAnswer} (hanswers : Accepting answers)
    {dataOffset x chunkCount : UInt32} (hgo : dataOffset < st.dataLength)
    (hB : st.bytesPerBuffer ≠ 0)
    (hstill : st.accumulate dataOffset (st.dataLength.toNat + 1) ⟨x, 0, 0, chunkCount⟩ =
      .ok ⟨x, 0, 0, chunkCount⟩) (hx : x < st.bytesPerBuffer) : ∀ fuel i : Nat,
    (st.queueLoop answers fuel i dataOffset x chunkCount).2 = .crashed .endless := by
  intro fuel
  induction fuel with
  | zero => exact fun _ => rfl
  | succ fuel ih =>
    intro i
    obtain ⟨count, hi⟩ := hanswers i
    have hmod : x % st.bytesPerBuffer = x := by
      rw [← UInt32.toNat_inj, UInt32.toNat_mod, Nat.mod_eq_of_lt (UInt32.lt_iff_toNat_lt.mp hx)]
    rw [FwIsoCtxState.queueLoop, if_pos hgo, hstill]
    simp only [hi, if_neg hB, UInt32.add_zero, hmod]
    exact ih (i + 1)

def runsInto : List ChunkCall :=
  [⟨⟨false, 0, 0, .ofList [0, 0, 0, 0] (by decide), 16777216, false⟩, nofun⟩,
    ⟨⟨false, 0, 15, .ofList [0, 0, 0, 0] (by decide), 1000, false⟩, nofun⟩]

def runsIntoStored : Option FwIsoCtxState :=
  registerAll (fourByteHeaders.mappedAt 16777220 256 0 grantMap) runsInto

theorem accumulate_runsInto : (runsIntoStored.map fun st =>
    (st.accumulate 0 17 ⟨0, 0, 0, 0⟩, st.accumulate 9 17 ⟨0, 0, 0, 1⟩)) =
      some (.ok ⟨0, 0, 9, 1⟩, .ok ⟨0, 0, 0, 1⟩) := by
  rfl

/-- **Queueing never ends**: the length of the first header is read one larger than it is, the walk
lands inside the second entry, and what it reads there never fits. -/
theorem ends_fails : ∃ st, runsIntoStored = some st ∧ st.bytesPerBuffer = 1024 ∧
    (∀ call ∈ runsInto, (call.packet st).payloadLength ≤ 1024) ∧
    ∀ answers, Accepting answers →
      (∀ fuel, (st.queueLoop answers fuel 0 0 st.currOffset 0).2 = .crashed .endless) ∧
      ¬ Ends st answers := by
  have hfacts : (runsIntoStored.map fun st => (st.bytesPerBuffer, st.dataLength, st.currOffset,
      runsInto.map fun call => (call.packet st).payloadLength)) =
        some (1024, 16, 0, [0, 1000]) := by
    decide +kernel
  obtain ⟨st, hst, hfacts⟩ := Option.map_eq_some_iff.mp hfacts
  have hrounds := accumulate_runsInto
  rw [hst, Option.map_some, Option.some.injEq, Prod.mk.injEq] at hrounds
  obtain ⟨hfirst, hstill⟩ := hrounds
  simp only [Prod.mk.injEq] at hfacts
  obtain ⟨hB, hlen, hcurr, hpayloads⟩ := hfacts
  refine ⟨st, hst, hB, fun call hcall => ?_, fun answers hanswers => ?_⟩
  · have hmem := List.mem_map_of_mem (f := fun call => (call.packet st).payloadLength) hcall
    rw [hpayloads] at hmem
    simp only [List.mem_cons, List.not_mem_nil, or_false] at hmem
    omega
  have hnever : ∀ fuel,
      (st.queueLoop answers fuel 0 0 st.currOffset 0).2 = .crashed .endless := by
    intro fuel
    cases fuel with
    | zero => rfl
    | succ fuel =>
      obtain ⟨count, hi⟩ := hanswers 0
      have hfuel : st.dataLength.toNat + 1 = 17 := by rw [hlen]; rfl
      rw [hcurr, FwIsoCtxState.queueLoop, hfuel, hfirst, if_pos (by rw [hlen]; decide)]
      simp only [hi, if_neg (show st.bytesPerBuffer ≠ 0 by rw [hB]; decide)]
      exact queueLoop_stuck hanswers (by rw [hlen]; decide) (by rw [hB]; decide)
        (by rw [hfuel]; exact hstill) (by rw [hB]; decide) fuel 1
  exact ⟨hnever, fun h => h.ends.elim fun fuel hfuel => hfuel _ (hnever fuel)⟩

/-- The theorem with the queue behind the end of the buffer, where an earlier, larger one has left
it. -/
theorem ends_skipBetween : ∃ st,
    registerAll (fourByteHeaders.mappedAt 8 3 100 grantMap) skipBetween = some st ∧
      st.currOffset = 100 ∧ st.bytesPerBuffer = 24 ∧ Ends st fun _ => .accepted 1 := by
  have hfacts : ((registerAll (fourByteHeaders.mappedAt 8 3 100 grantMap) skipBetween).map fun st =>
      (st.currOffset, st.bytesPerBuffer, skipBetween.map fun call =>
        (call.packet st).payloadLength)) = some (100, 24, [8, 0, 3]) := by
    decide +kernel
  obtain ⟨st, hst, hfacts⟩ := Option.map_eq_some_iff.mp hfacts
  simp only [Prod.mk.injEq] at hfacts
  obtain ⟨hcurr, hB, hpayloads⟩ := hfacts
  refine ⟨st, hst, hcurr, hB, ends_of_registered (by decide +kernel) (by decide +kernel) hst
    (by rw [hB]; decide) (fun call hcall => ?_) (fun call hcall _ => ?_) _⟩
  · have hmem := List.mem_map_of_mem (f := fun call => (call.packet st).payloadLength) hcall
    rw [hpayloads] at hmem
    rw [hB]
    simp only [List.mem_cons, List.not_mem_nil, or_false] at hmem
    have h24 : (24 : UInt32).toNat = 24 := rfl
    omega
  · simp only [skipBetween, List.mem_cons, List.not_mem_nil, or_false] at hcall
    rcases hcall with rfl | rfl | rfl <;> rfl

end Hinoko
