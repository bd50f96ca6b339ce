import Hinoko.Queue

/-!
# Where queued packets lie

A request says where the payload of its first packet starts; those of the others
follow.  If no payload crosses the end of the buffer, the requests of `queueChunks`
put every packet where the ring puts it.

* `rounds_of_fits`: the rounds put the packets at `Ring.places`, and end.
* `queueChunks_of_fits`: what `queueChunks` does to the state then.
* `requests_of_fits`: where each request puts its packets.
-/

namespace Hinoko

def payloadLengths (ps : List IsoPacket) : List Nat := ps.map IsoPacket.payloadLength

@[simp] theorem payloadLengths_nil : payloadLengths [] = [] := rfl

@[simp] theorem payloadLengths_cons (p : IsoPacket) (ps : List IsoPacket) :
    payloadLengths (p :: ps) = p.payloadLength :: payloadLengths ps := rfl

@[simp] theorem payloadLengths_append (ps qs : List IsoPacket) :
    payloadLengths (ps ++ qs) = payloadLengths ps ++ payloadLengths qs := List.map_append

@[simp] theorem length_payloadLengths (ps : List IsoPacket) :
    (payloadLengths ps).length = ps.length := List.length_map _

def Round.starts (r : Round) : List Nat := Ring.starts r.data.toNat (payloadLengths r.batch)

/-- The inner loop looks at nothing but the lengths of the payloads. -/
theorem gather_congr {B : UInt32} : ∀ (ps qs : List IsoPacket) (x len : UInt32),
    payloadLengths ps = payloadLengths qs →
    (gather B x len ps).bufOffset = (gather B x len qs).bufOffset ∧
      (gather B x len ps).bufLength = (gather B x len qs).bufLength ∧
      payloadLengths (gather B x len ps).rest = payloadLengths (gather B x len qs).rest := by
  intro ps
  induction ps with
  | nil =>
    intro qs x len h
    obtain rfl := List.map_eq_nil_iff.mp h.symm
    exact ⟨rfl, rfl, rfl⟩
  | cons p ps ih =>
    intro qs x len h
    obtain ⟨q, qs', rfl, hq, hqs⟩ := List.map_eq_cons_iff.mp h.symm
    have hlength : fwCdevIsoPacketControlToPayloadLength p.control =
        fwCdevIsoPacketControlToPayloadLength q.control := UInt32.toNat_inj.mp hq.symm
    simp only [gather, hlength]
    split
    · split
      · exact ⟨rfl, rfl, h⟩
      · exact ih qs' x _ hqs.symm
    · exact ⟨rfl, rfl, h⟩

/-- **How the rounds end depends on the lengths of the payloads only.** -/
theorem rounds_end_congr (B : UInt32) (answers : Nat → QueueAnswer) :
    ∀ (fuel i : Nat) (x : UInt32) (ps qs : List IsoPacket),
      payloadLengths ps = payloadLengths qs →
      (queueRounds B answers fuel i x ps).2 = (queueRounds B answers fuel i x qs).2 := by
  intro fuel
  induction fuel with
  | zero => exact fun _ _ _ _ _ => rfl
  | succ fuel ih =>
    intro i x ps qs h
    cases ps with
    | nil =>
      obtain rfl := List.map_eq_nil_iff.mp h.symm
      rfl
    | cons p ps =>
      obtain ⟨q, qs, rfl, _, _⟩ := List.map_eq_cons_iff.mp h.symm
      obtain ⟨hoffset, hlength, hrest⟩ := gather_congr (B := B) (p :: ps) (q :: qs) x 0 h
      simp only [queueRounds]
      cases answers i with
      | failed errno => rfl
      | accepted count =>
        simp only [hoffset, hlength]
        split
        · rfl
        · exact ih _ _ _ _ hrest

/-- **The inner loop does not leave its place**, takes a packet if there is room at all, and
leaves packets that fit again. -/
theorem gather_of_fits {B : UInt32} : ∀ (ps : List IsoPacket) (x len : UInt32),
    x.toNat + len.toNat ≤ B.toNat →
    Ring.Fits B.toNat ((x.toNat + len.toNat) % B.toNat) (payloadLengths ps) →
    let g := gather B x len ps
    g.bufOffset = x ∧ g.bufLength.toNat = len.toNat + (payloadLengths g.batch).sum ∧
      x.toNat + g.bufLength.toNat ≤ B.toNat ∧
      Ring.starts (x.toNat + len.toNat) (payloadLengths g.batch) =
        Ring.places B.toNat ((x.toNat + len.toNat) % B.toNat) (payloadLengths g.batch) := by
  intro ps
  induction ps with
  | nil => intro x len hle _; exact ⟨rfl, rfl, hle, rfl⟩
  | cons p ps ih =>
    intro x len hle hfits
    have hB := B.toNat_lt
    have hsum : (x + len).toNat = x.toNat + len.toNat := by
      rw [UInt32.toNat_add, Nat.mod_eq_of_lt (by omega)]
    simp only [gather]
    by_cases hroom : x + len < B
    · have hlt : x.toNat + len.toNat < B.toNat := by
        rw [UInt32.lt_iff_toNat_lt, hsum] at hroom
        exact hroom
      obtain ⟨hfit, hrest⟩ := hfits
      rw [Nat.mod_eq_of_lt hlt] at hfit hrest
      have hp : (fwCdevIsoPacketControlToPayloadLength p.control).toNat = p.payloadLength := rfl
      have hlen : (len + fwCdevIsoPacketControlToPayloadLength p.control).toNat =
          len.toNat + p.payloadLength := by
        rw [UInt32.toNat_add, hp, Nat.mod_eq_of_lt (by omega)]
      have hstay : ¬ B < x + len + fwCdevIsoPacketControlToPayloadLength p.control := by
        rw [UInt32.lt_iff_toNat_lt, UInt32.toNat_add, hsum, hp, Nat.mod_eq_of_lt (by omega)]
        omega
      have hnext := ih x (len + fwCdevIsoPacketControlToPayloadLength p.control)
        (by omega) (by rw [hlen, ← Nat.add_assoc]; exact hrest)
      simp only [hroom, hstay, if_true, if_false, payloadLengths_cons, List.sum_cons, Ring.starts,
        Ring.places, Nat.mod_eq_of_lt hlt]
      obtain ⟨h1, h2, h3, h4⟩ := hnext
      rw [hlen, ← Nat.add_assoc] at h4
      exact ⟨h1, by omega, h3, by rw [h4]⟩
    · simp only [hroom, if_false]
      exact ⟨trivial, by simp, hle, rfl⟩

theorem gather_ne_nil {B : UInt32} {p : IsoPacket} {ps : List IsoPacket} {x : UInt32}
    (hx : x.toNat < B.toNat) (hfit : x.toNat + p.payloadLength ≤ B.toNat) :
    (gather B x 0 (p :: ps)).batch ≠ [] := by
  have hB := B.toNat_lt
  have hp : (fwCdevIsoPacketControlToPayloadLength p.control).toNat = p.payloadLength := rfl
  have hroom : x + 0 < B := by
    rw [UInt32.lt_iff_toNat_lt, UInt32.add_zero]
    exact hx
  have hstay : ¬ B < x + 0 + fwCdevIsoPacketControlToPayloadLength p.control := by
    rw [UInt32.lt_iff_toNat_lt, UInt32.add_zero, UInt32.toNat_add, hp,
      Nat.mod_eq_of_lt (by omega)]
    omega
  simp only [gather, hroom, hstay, if_true, if_false]
  simp

/-- **Packets that fit are put at their places in the ring.**  The loop ends behind the last one,
or at the first request that fails. -/
theorem rounds_of_fits {B : UInt32} (answers : Nat → QueueAnswer) :
    ∀ (fuel i : Nat) (x : UInt32) (ps : List IsoPacket), x.toNat < B.toNat →
      Ring.Fits B.toNat x.toNat (payloadLengths ps) → ps.length < fuel →
      let r := queueRounds B answers fuel i x ps
      r.1.flatMap Round.starts = Ring.places B.toNat x.toNat (payloadLengths (handedOut r.1)) ∧
        ((∃ x', r.2 = .finished x' ∧
            x'.toNat = (x.toNat + (payloadLengths ps).sum) % B.toNat) ∨
          ∃ j errno, i ≤ j ∧ answers j = .failed errno ∧ r.2 = .failed errno) := by
  intro fuel
  induction fuel with
  | zero => intro i x ps _ _ hfuel; omega
  | succ fuel ih =>
    intro i x ps hx hfits hfuel
    have hBlt := B.toNat_lt
    cases ps with
    | nil => exact ⟨rfl, .inl ⟨x, rfl, by simp [Nat.mod_eq_of_lt hx]⟩⟩
    | cons p ps =>
      have hne : (gather B x 0 (p :: ps)).batch ≠ [] := gather_ne_nil hx hfits.1
      have happ := gather_append B (p :: ps) x 0
      have hfits' : Ring.Fits B.toNat ((x.toNat + (0 : UInt32).toNat) % B.toNat)
          (payloadLengths (p :: ps)) := by
        rw [UInt32.toNat_zero, Nat.add_zero, Nat.mod_eq_of_lt hx]
        exact hfits
      have hg := gather_of_fits (p :: ps) x 0 (by simp; omega) hfits'
      simp only [queueRounds]
      generalize gather B x 0 (p :: ps) = g at hne happ hg ⊢
      obtain ⟨hoff, hlen, hle, hstarts⟩ := hg
      simp only [UInt32.toNat_zero, Nat.add_zero, Nat.zero_add, Nat.mod_eq_of_lt hx] at hlen hstarts
      have hround : Round.starts ⟨g.bufOffset, g.batch⟩ =
          Ring.places B.toNat x.toNat (payloadLengths g.batch) := by
        rw [Round.starts, hoff, hstarts]
      cases ha : answers i with
      | failed errno =>
        exact ⟨by simp [hround], .inr ⟨i, errno, Nat.le_refl i, ha, rfl⟩⟩
      | accepted n =>
        have hB : B ≠ 0 := by
          rintro rfl
          simp at hx
        simp only [hB, if_false]
        have hx' : ((g.bufOffset + g.bufLength) % B).toNat =
            (x.toNat + (payloadLengths g.batch).sum) % B.toNat := by
          rw [UInt32.toNat_mod, UInt32.toNat_add, hoff, hlen, Nat.mod_eq_of_lt (a := _ + _)
              (by omega)]
        rw [← happ, payloadLengths_append, Ring.fits_append hx] at hfits
        have hrest : g.rest.length < fuel := by
          have := congrArg List.length happ
          have := List.length_pos_iff.mpr hne
          simp only [List.length_append] at *
          omega
        obtain ⟨h1, h2⟩ := ih (i + 1) ((g.bufOffset + g.bufLength) % B) g.rest
          (by rw [hx']; exact Nat.mod_lt _ (by omega)) (by rw [hx']; exact hfits.2) hrest
        refine ⟨?_, ?_⟩
        · rw [List.flatMap_cons, hround, h1, handedOut_cons, payloadLengths_append,
            Ring.places_append _ _ _ _ hx, hx']
        · rcases h2 with ⟨x', he, hx''⟩ | ⟨j, errno, hj, hf, he⟩
          · refine .inl ⟨x', he, ?_⟩
            rw [hx'', hx', Nat.mod_add_mod, ← happ, payloadLengths_append, List.sum_append,
              Nat.add_assoc]
          · exact .inr ⟨j, errno, by omega, hf, he⟩

/-! ### Requests -/

def designated (it : Bool) (arg : QueueIso) (packets : List UInt8) : List Nat :=
  Ring.starts arg.data.toNat (payloadLengths (packetsOfRequest it packets))

theorem mem_requests {handle : UInt32} {answers : Nat → QueueAnswer} {e : Effect} :
    ∀ {rounds : List Round} {i : Nat} {pre : List IsoPacket},
      e ∈ requests handle answers i pre rounds →
      ∃ front r back j, rounds = front ++ r :: back ∧
        e = .queueIso ⟨UInt32.ofNat (packetBytes (pre ++ handedOut front)).length,
          UInt32.ofNat (packetBytes r.batch).length, r.data, handle⟩ (packetBytes r.batch)
          (answers j) := by
  intro rounds
  induction rounds with
  | nil => intro i pre h; simp [requests] at h
  | cons r rounds ih =>
    intro i pre h
    rcases List.mem_cons.mp h with rfl | h
    · exact ⟨[], r, rounds, i, rfl, by simp⟩
    · obtain ⟨front, r', back, j, rfl, he⟩ := ih h
      exact ⟨r :: front, r', back, j, rfl, by simpa using he⟩

/-- What `queueChunks` does when no payload crosses the end of the buffer. -/
structure Queued (st : FwIsoCtxState) (answers : Nat → QueueAnswer) (ps : List IsoPacket)
    (rounds : List Round) (rest : List IsoPacket) : Prop where
  split : ps = handedOut rounds ++ rest
  effects : (st.queueChunks answers).effects = requests st.handle answers 0 [] rounds
  starts : rounds.flatMap Round.starts =
    Ring.places st.bytesPerBuffer.toNat st.currOffset.toNat (payloadLengths (handedOut rounds))
  outcome :
    (rest = [] ∧ (st.queueChunks answers).ret = .success ∧
      ∃ x : UInt32, x.toNat =
          (st.currOffset.toNat + (payloadLengths ps).sum) % st.bytesPerBuffer.toNat ∧
        (st.queueChunks answers).state =
          { st with currOffset := x, dataLength := 0, registeredChunkCount := 0 }) ∨
    ∃ j errno, answers j = .failed errno ∧
      (st.queueChunks answers).ret = .failure (.ioctl .queueIso errno) ∧
      (st.queueChunks answers).state = st

/-- **The chunks are queued in rounds, each packet at its place.** -/
theorem queueChunks_of_fits {st : FwIsoCtxState} {ps : List IsoPacket}
    (answers : Nat → QueueAnswer) (hst : Stores st ps) (hsized : ∀ p ∈ ps, Sized st p)
    (hx : st.currOffset.toNat < st.bytesPerBuffer.toNat)
    (hfits : Ring.Fits st.bytesPerBuffer.toNat st.currOffset.toNat (payloadLengths ps)) :
    ∃ rounds rest, Queued st answers ps rounds rest := by
  have hfuel : ps.length < st.queueFuel := by
    have := four_mul_length_le ps
    have := hst.length
    simp only [FwIsoCtxState.queueFuel]
    omega
  have heq := queueChunks_eq answers hst hsized
  obtain ⟨rest, hsplit, hend⟩ :=
    rounds_partition st.bytesPerBuffer answers st.queueFuel 0 st.currOffset ps
  obtain ⟨hstarts, hout⟩ := rounds_of_fits answers st.queueFuel 0 st.currOffset ps hx hfits hfuel
  simp only [FwIsoCtxState.rounds] at heq
  generalize queueRounds st.bytesPerBuffer answers st.queueFuel 0 st.currOffset ps = r at *
  obtain ⟨rounds, roundsEnd⟩ := r
  refine ⟨rounds, rest, hsplit, ?_, hstarts, ?_⟩
  · rcases hout with ⟨x, he, _⟩ | ⟨j, errno, _, _, he⟩ <;> simp only at he <;> subst he <;>
      simp [heq]
  · rcases hout with ⟨x, he, hx'⟩ | ⟨j, errno, _, hf, he⟩
    · simp only at he
      subst he
      exact .inl ⟨hend x rfl, by simp [heq], x, hx', by simp [heq]⟩
    · simp only at he
      subst he
      exact .inr ⟨j, errno, hf, by simp [heq], by simp [heq]⟩

/-- **Each request puts its packets at their places.** -/
theorem Queued.request {st : FwIsoCtxState} {answers : Nat → QueueAnswer}
    {ps rest : List IsoPacket} {rounds : List Round} (h : Queued st answers ps rounds rest)
    (hst : Stores st ps) (hx : st.currOffset.toNat < st.bytesPerBuffer.toNat)
    {arg : QueueIso} {packets : List UInt8} {answer : QueueAnswer}
    (he : .queueIso arg packets answer ∈ (st.queueChunks answers).effects) :
    ∃ front batch back, ps = front ++ batch ++ back ∧
      arg.packets.toNat = (packetBytes front).length ∧ packets = packetBytes batch ∧
      Ring.starts arg.data.toNat (payloadLengths batch) = Ring.places st.bytesPerBuffer.toNat
        ((st.currOffset.toNat + (payloadLengths front).sum) % st.bytesPerBuffer.toNat)
        (payloadLengths batch) := by
  rw [h.effects] at he
  obtain ⟨front, r, back, j, rfl, hreq⟩ := mem_requests he
  obtain ⟨rfl, rfl, -⟩ := Effect.queueIso.inj hreq
  have hlen := hst.length
  have hlt := st.dataLength.toNat_lt
  have hsplit := h.split
  have hstarts := h.starts
  simp only [handedOut, List.flatMap_append, List.flatMap_cons, payloadLengths_append] at hstarts
  rw [Ring.places_append _ _ _ _ hx] at hstarts
  have hcut := (List.append_inj hstarts (by simp [Round.starts, List.length_flatMap])).2
  rw [Ring.places_append _ _ _ _ (Nat.mod_lt _ (by omega))] at hcut
  have hround := (List.append_inj hcut (by simp [Round.starts])).1
  have e : ps = handedOut front ++ r.batch ++ (handedOut back ++ rest) := by
    rw [hsplit]
    simp [handedOut]
  refine ⟨handedOut front, r.batch, handedOut back ++ rest, e, ?_, rfl, hround⟩
  rw [e, packetBytes_append, packetBytes_append, List.length_append, List.length_append] at hlen
  rw [List.nil_append, UInt32.toNat_ofNat', Nat.mod_eq_of_lt (by omega)]

theorem flatMap_requests {st : FwIsoCtxState} {answers : Nat → QueueAnswer} :
    ∀ (rounds : List Round) (i : Nat) (pre : List IsoPacket),
      (∀ p ∈ handedOut rounds, Sized st p) →
      ((requests st.handle answers i pre rounds).flatMap fun
        | .queueIso arg packets _ => designated (st.mode = .it) arg packets
        | _ => []) = rounds.flatMap Round.starts := by
  intro rounds
  induction rounds with
  | nil => intro i pre _; rfl
  | cons r rounds ih =>
    intro i pre hsized
    rw [requests, List.flatMap_cons, List.flatMap_cons, ih _ _ fun p hp => hsized p (by simp [hp])]
    simp only [designated]
    rw [packetsOfRequest_packetBytes fun p hp => hsized p (by simp [hp])]
    rfl

end Hinoko
