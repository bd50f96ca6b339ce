import Hinoko.Payloads
import Hinoko.Sizes
import Hinoko.StopInside

/-!
# What an event of a multiple-channel IR context reads and stores

The loop of `fw_iso_ir_multiple_handle_event` goes from packet to packet, by the lengths that the
headers tell.  It reads each header at the place it has come to, and stores a record for each
packet that is complete, without a look at the end of the buffer or of the array.  `visited` and
`stores` are the packets that it comes to and those that it stores, in memory of any content and
with any number of records; `parse` is the same loop as far as nothing outside is touched.

* `recordsInside_iff`: when the records of an event stay in their array.
* `headersInside_of_run`: every header is read in the buffer, where all data are padded.
-/

namespace Hinoko

open Reentrant

namespace FwIsoIrMultiple

/-- The packet that a round of the loop comes to: the place of its header, and its length as told
there. -/
def packetAt (self : FwIsoIrMultiple) (accumLength : UInt32) : CtxPayload :=
  let offset := (self.prevOffset + accumLength) % self.state.bytesPerBuffer
  ⟨offset, ieee1394IsoHeaderToDataLength (self.mem.le32At offset.toNat) + 8⟩

/-- The packets whose headers the loop reads: the complete ones, and the one it stops at. -/
def visited (self : FwIsoIrMultiple) (accumEnd : UInt32) : Nat → UInt32 → List CtxPayload
  | 0, _ => []
  | fuel + 1, accumLength =>
    let avail := accumEnd - self.prevOffset - accumLength
    if avail < 4 then []
    else
      let packet := self.packetAt accumLength
      packet :: if avail < packet.length then []
        else visited self accumEnd fuel (accumLength + packet.length)

/-- The records that the loop stores. -/
def stores (self : FwIsoIrMultiple) (accumEnd : UInt32) : Nat → UInt32 → List CtxPayload
  | 0, _ => []
  | fuel + 1, accumLength =>
    let avail := accumEnd - self.prevOffset - accumLength
    if avail < 4 then []
    else
      let packet := self.packetAt accumLength
      if avail < packet.length then []
      else packet :: stores self accumEnd fuel (accumLength + packet.length)

def eventStores (self : FwIsoIrMultiple) (completed : UInt32) : List CtxPayload :=
  self.stores (self.accumEnd completed) ((self.accumEnd completed - self.prevOffset).toNat + 1) 0

variable {self : FwIsoIrMultiple} {accumEnd : UInt32}

theorem quadletAt_eq {offset quadlet : UInt32} (h : self.quadletAt offset = some quadlet) :
    quadlet = self.mem.le32At offset.toNat := by
  simp only [quadletAt] at h
  split at h
  next frames _ hframes =>
    rw [(FwIsoCtxState.readFrame_fst_iff.mp hframes).2] at h
    split at h
    · exact (Option.some.inj h).symm
    · cases h
  · cases h

/-- **What the loop gives is what it stores.** -/
theorem stores_of_parse : ∀ (fuel : Nat) {accumLength total : UInt32} {n : Nat}
    {records : List CtxPayload}, self.parse accumEnd fuel accumLength n = .ok (total, records) →
    records = self.stores accumEnd fuel accumLength := by
  intro fuel
  induction fuel with
  | zero => exact fun h => by cases h
  | succ fuel ih =>
    intro accumLength total n records h
    rw [parse] at h
    rw [stores]
    simp only at h ⊢
    split at h
    next hshort =>
      cases h
      exact (if_pos hshort).symm
    next hshort =>
    split at h
    · cases h
    split at h
    · cases h
    next quadlet hquadlet =>
    have hpacket : self.packetAt accumLength = ⟨(self.prevOffset + accumLength) %
        self.state.bytesPerBuffer, ieee1394IsoHeaderToDataLength quadlet + 8⟩ := by
      rw [quadletAt_eq hquadlet]
      rfl
    rw [if_neg hshort, hpacket]
    split at h
    next hcut =>
      cases h
      exact (if_pos hcut).symm
    next hcut =>
    rw [if_neg hcut]
    split at h
    · cases h
    split at h
    · cases h
    next hrest =>
      cases h
      rw [ih hrest]

/-! ### The array -/

def lengthAt (self : FwIsoIrMultiple) (distance : Nat) : Nat :=
  (self.packetAt (UInt32.ofNat distance)).length.toNat

theorem eight_le_lengthAt (self : FwIsoIrMultiple) (distance : Nat) :
    8 ≤ self.lengthAt distance := by
  have h8 : (8 : UInt32).toNat = 8 := rfl
  have hlt := (self.mem.le32At ((self.prevOffset + UInt32.ofNat distance) %
    self.state.bytesPerBuffer).toNat).toNat_lt
  simp only [lengthAt, packetAt]
  rw [UInt32.toNat_add, toNat_isoHeaderToDataLength, h8]
  omega

/-- What is left behind the bytes that earlier rounds have walked over. -/
theorem toNat_avail {accumLength : UInt32}
    (hle : accumLength.toNat ≤ (accumEnd - self.prevOffset).toNat) :
    (accumEnd - self.prevOffset - accumLength).toNat =
      (accumEnd - self.prevOffset).toNat - accumLength.toNat :=
  UInt32.toNat_sub_of_le _ _ (UInt32.le_iff_toNat_le.mpr hle)

/-- **The records are those of a walk** over the received bytes. -/
theorem stores_lengths : ∀ (fuel : Nat) {accumLength : UInt32},
    accumLength.toNat ≤ (accumEnd - self.prevOffset).toNat →
    (self.stores accumEnd fuel accumLength).map (·.length.toNat) =
      Framing.walk 4 self.lengthAt fuel accumLength.toNat
        ((accumEnd - self.prevOffset).toNat - accumLength.toNat) := by
  intro fuel
  induction fuel with
  | zero => exact fun _ => rfl
  | succ fuel ih =>
    intro accumLength hle
    have havail := toNat_avail hle
    have h4 : (4 : UInt32).toNat = 4 := rfl
    have hlen : self.lengthAt accumLength.toNat = (self.packetAt accumLength).length.toNat := by
      rw [lengthAt, UInt32.ofNat_toNat]
    have hreceived := (accumEnd - self.prevOffset).toNat_lt
    simp only [stores, Framing.walk, UInt32.lt_iff_toNat_lt, havail, h4, hlen]
    split
    · rfl
    split
    · rfl
    next hcut =>
      have hnext : (accumLength + (self.packetAt accumLength).length).toNat =
          accumLength.toNat + (self.packetAt accumLength).length.toNat := by
        rw [UInt32.toNat_add, Nat.mod_eq_of_lt (by omega)]
      rw [List.map_cons, ih (by omega), hnext, Nat.sub_add_eq]

/-- An event stores more than `k` records if its first `k + 1` packets have been received. -/
theorem lt_length_eventStores_iff (self : FwIsoIrMultiple) (completed : UInt32) (k : Nat) :
    k < (self.eventStores completed).length ↔ Framing.reach self.lengthAt 0 (k + 1) ≤
      (self.accumEnd completed - self.prevOffset).toNat := by
  have hlengths : (self.eventStores completed).map _ = _ := stores_lengths _ (Nat.zero_le _)
  have hmap := congrArg List.length hlengths
  rw [List.length_map, UInt32.toNat_zero, Nat.sub_zero] at hmap
  rw [hmap]
  exact Framing.lt_length_walk_iff (by decide)
    (fun distance => (self.eight_le_lengthAt distance).trans' (by decide)) _ _ _ _
    (Nat.lt_succ_self _)

theorem parse_fault (hbuffer : self.state.bytesPerBuffer ≠ 0) : ∀ (fuel : Nat)
    {accumLength : UInt32} {n : Nat} {fault : Fault},
    accumLength.toNat ≤ (accumEnd - self.prevOffset).toNat →
    (accumEnd - self.prevOffset).toNat - accumLength.toNat < fuel →
    self.parse accumEnd fuel accumLength n = .error fault → fault = .outOfBounds := by
  intro fuel
  induction fuel with
  | zero => exact fun _ h => absurd h (Nat.not_lt_zero _)
  | succ fuel ih =>
    intro accumLength n fault hle hfuel h
    have havail := toNat_avail hle
    have hreceived := (accumEnd - self.prevOffset).toNat_lt
    have h8 : (8 : UInt32).toNat = 8 := rfl
    rw [parse] at h
    simp only [if_neg hbuffer] at h
    split at h
    · cases h
    split at h
    · exact (Except.error.inj h).symm
    next quadlet _ =>
    split at h
    · cases h
    next hcut =>
    split at h
    · exact (Except.error.inj h).symm
    split at h
    next hrest =>
      cases h
      have hquadlet := quadlet.toNat_lt
      have hlen : (ieee1394IsoHeaderToDataLength quadlet + 8).toNat =
          quadlet.toNat / 65536 + 8 := by
        rw [UInt32.toNat_add, toNat_isoHeaderToDataLength, h8, Nat.mod_eq_of_lt (by omega)]
      rw [UInt32.lt_iff_toNat_lt, havail, hlen] at hcut
      have hnext : (accumLength + (ieee1394IsoHeaderToDataLength quadlet + 8)).toNat =
          accumLength.toNat + (quadlet.toNat / 65536 + 8) := by
        rw [UInt32.toNat_add, hlen, Nat.mod_eq_of_lt (by omega)]
      exact ih (by omega) (by omega) hrest
    · cases h

/-- More records than there is room for are stored outside. -/
theorem parseEvent_of_lt (hbuffer : self.state.bytesPerBuffer ≠ 0) {completed : UInt32}
    (hroom : self.capacity < (self.eventStores completed).length) :
    self.parseEvent completed = .error .outOfBounds := by
  cases hparse : self.parseEvent completed with
  | error fault =>
    have hfault := parse_fault hbuffer _ (Nat.zero_le _) (by simp) hparse
    rw [hfault]
  | ok result =>
    obtain ⟨total, records⟩ := result
    have hrecords : records = self.eventStores completed := stores_of_parse _ hparse
    have hne : records ≠ [] := by
      rintro rfl
      rw [← hrecords, List.length_nil] at hroom
      exact absurd hroom (Nat.not_lt_zero _)
    have hle := ((parse_records self _ _ hparse).2 hne).2
    rw [hrecords] at hle
    omega

theorem capacity_of_mapBuffer {bytes chunks : UInt32} {env : MapMultipleEnv}
    (hret : (self.mapBuffer bytes chunks env).ret = .success) :
    (self.mapBuffer bytes chunks env).state.capacity =
        ((self.mapBuffer bytes chunks env).state.state.bytesPerBuffer / 8 / 2).toNat ∧
      (self.mapBuffer bytes chunks env).state.state.bytesPerBuffer =
        (bytes + 3) / 4 * 4 * chunks ∧ (bytes + 3) / 4 * 4 ≠ 0 ∧ chunks ≠ 0 := by
  obtain ⟨hstate, hret', _⟩ := self.mapBuffer_state bytes chunks env
  have hinner := hret'.symm.trans hret
  obtain ⟨hbytes, hchunks, id, _, ho⟩ := FwIsoCtxState.mapBuffer_of_success hinner
  refine ⟨?_, by rw [hstate, ho]; rfl, hbytes, hchunks⟩
  simp only [mapBuffer, hinner, Out.map_state, FwIsoCtxState.bytesPerBuffer]
  generalize (_ / 8 / 2 : UInt32).toNat = n
  by_cases hn : n = 0 <;> simp [capacity, hn]

/-- **The records of an event stay in their array** exactly when the first packet too many has not
been received as a whole. -/
theorem recordsInside_iff {bytes chunks : UInt32} {env : MapMultipleEnv}
    (hret : (self.mapBuffer bytes chunks env).ret = .success)
    (hfits : wholeQuadlets bytes.toNat * chunks.toNat < 4294967296) (prev completed : UInt32)
    (mem : ByteMem) :
    let room := wholeQuadlets bytes.toNat * chunks.toNat / 8 / 2
    let it := { (self.mapBuffer bytes chunks env).state with prevOffset := prev, mem := mem }
    ((it.eventStores completed).length ≤ room ↔
        (it.accumEnd completed - prev).toNat < Framing.reach it.lengthAt 0 (room + 1)) ∧
      (room < (it.eventStores completed).length →
        it.parseEvent completed = .error .outOfBounds) := by
  intro room it
  obtain ⟨hcapacity, hbuffer, hbytes, hchunks⟩ := capacity_of_mapBuffer hret
  have hproduct : it.state.bytesPerBuffer.toNat = wholeQuadlets bytes.toNat * chunks.toNat := by
    show (self.mapBuffer bytes chunks env).state.state.bytesPerBuffer.toNat = _
    rw [hbuffer, UInt32.toNat_mul, toNat_rounded hbytes, Nat.mod_eq_of_lt hfits]
  have hroom : it.capacity = room := by
    show (self.mapBuffer bytes chunks env).state.capacity = _
    rw [hcapacity, UInt32.toNat_div, UInt32.toNat_div]
    exact congrArg (· / 8 / 2) hproduct
  have hne : it.state.bytesPerBuffer ≠ 0 := by
    rw [← UInt32.toNat_inj.ne, hproduct, ← toNat_rounded hbytes]
    exact Nat.mul_ne_zero (UInt32.toNat_inj.ne.mpr hbytes) (UInt32.toNat_inj.ne.mpr hchunks)
  refine ⟨?_, fun hlt => parseEvent_of_lt hne (hroom ▸ hlt)⟩
  exact (not_lt.symm.trans (not_congr (it.lt_length_eventStores_iff completed room))).trans not_le

def filled (mem : ByteMem) : FwIsoIrMultiple :=
  { (irMultipleReady.mapBuffer 16 2 grantMapMultiple).state with prevOffset := 0, mem := mem }

/-- **Empty packets overrun the array**: four of eight bytes fit in a buffer of 32, and there is
room for two. -/
theorem records_overrun :
    (irMultipleReady.mapBuffer 16 2 grantMapMultiple).ret = .success ∧
      ((filled fun _ => 0).eventStores 32).length = 4 ∧
      ¬ ((filled fun _ => 0).eventStores 32).length ≤ 16 * 2 / 8 / 2 ∧
      (filled fun _ => 0).parseEvent 32 = .error .outOfBounds := by
  refine ⟨?_, ?_, ?_, ?_⟩ <;> decide +kernel

def eightBytes : ByteMem := fun n => if n % 16 = 2 then 8 else 0

/-- The theorem at packets of eight bytes of data. -/
theorem recordsInside_eightBytes : ((filled eightBytes).eventStores 32).length ≤ 2 := by
  have hret : (irMultipleReady.mapBuffer 16 2 grantMapMultiple).ret = .success := by decide +kernel
  exact (recordsInside_iff hret (by decide +kernel) 0 32 eightBytes).1.mpr (by decide +kernel)

/-! ### The headers -/

/-- The data of every packet that an event finds complete are whole quadlets, and so is the packet
with its header and its timestamp. -/
def Padded (self : FwIsoIrMultiple) (completed : UInt32) : Prop :=
  ∀ packet ∈ self.eventStores completed, packet.length.toNat % 4 = 0

def Op.Pads : Op → Ctx FwIsoIrMultiple → Prop
  | .dispatch (.event (.isoInterruptMc ev) env), c =>
    { c.priv with mem := env.buffer }.Padded ev.completed
  | _, _ => True

/-- The context parses from a quadlet on. -/
structure Aligned (it : FwIsoIrMultiple) : Prop where
  ground : Grounded it
  prev : it.prevOffset.toNat % 4 = 0

theorem toNat_add_mod_four (a b : UInt32) :
    (a + b).toNat % 4 = (a.toNat + b.toNat) % 4 := by
  rw [UInt32.toNat_add]
  omega

theorem Grounded.bytesPerBuffer_mod (h : Grounded self) :
    self.state.bytesPerBuffer.toNat % 4 = 0 := by
  rw [FwIsoCtxState.bytesPerBuffer, UInt32.toNat_mul, Nat.mod_mod_of_dvd _ (by decide), Nat.mul_mod,
    h.quadlets, Nat.zero_mul, Nat.zero_mod]

namespace Aligned

theorem visited (h : Aligned self) (hbuffer : self.state.bytesPerBuffer ≠ 0) : ∀ (fuel : Nat)
    {accumLength : UInt32}, accumLength.toNat % 4 = 0 →
    (∀ packet ∈ self.stores accumEnd fuel accumLength, packet.length.toNat % 4 = 0) →
    ∀ packet ∈ self.visited accumEnd fuel accumLength,
      packet.offset.toNat + 4 ≤ self.state.bytesPerBuffer.toNat ∧
        packet.offset.toNat % 4 = 0 := by
  intro fuel
  induction fuel with
  | zero => exact fun _ _ => nofun
  | succ fuel ih =>
    intro accumLength hquad hstores
    have hB := h.ground.bytesPerBuffer_mod
    have hprev := h.prev
    have hoffset : (self.packetAt accumLength).offset.toNat % 4 = 0 := by
      have hsum := toNat_add_mod_four self.prevOffset accumLength
      rw [packetAt, UInt32.toNat_mod, Nat.mod_mod_of_dvd _ (Nat.dvd_of_mod_eq_zero hB)]
      omega
    have hlt : (self.packetAt accumLength).offset.toNat < self.state.bytesPerBuffer.toNat :=
      UInt32.lt_iff_toNat_lt.mp (UInt32.mod_lt _ (UInt32.pos_iff_ne_zero.mpr hbuffer))
    simp only [FwIsoIrMultiple.visited, stores] at hstores ⊢
    split at hstores
    next hshort =>
      rw [if_pos hshort]
      nofun
    next hshort =>
    rw [if_neg hshort]
    intro packet hpacket
    rcases List.mem_cons.mp hpacket with rfl | hrest
    · exact ⟨by omega, hoffset⟩
    split at hstores
    next hcut =>
      rw [if_pos hcut] at hrest
      cases hrest
    next hcut =>
      rw [if_neg hcut] at hrest
      have hlength := hstores _ List.mem_cons_self
      have hsum := toNat_add_mod_four accumLength (self.packetAt accumLength).length
      exact ih (by omega) (fun p hp => hstores p (List.mem_cons_of_mem _ hp)) packet hrest

theorem parse (self : FwIsoIrMultiple) (accumEnd : UInt32) : ∀ (fuel : Nat)
    {accumLength total : UInt32} {n : Nat} {records : List CtxPayload},
    accumLength.toNat % 4 = 0 → self.parse accumEnd fuel accumLength n = .ok (total, records) →
    (∀ packet ∈ records, packet.length.toNat % 4 = 0) → total.toNat % 4 = 0 := by
  intro fuel
  induction fuel with
  | zero => exact fun _ h => by cases h
  | succ fuel ih =>
    intro accumLength total n records hquad h hrecords
    rw [FwIsoIrMultiple.parse] at h
    simp only at h
    split at h
    · cases h
      exact hquad
    split at h
    · cases h
    split at h
    · cases h
    next quadlet hquadlet =>
    split at h
    · cases h
      exact hquad
    split at h
    · cases h
    split at h
    · cases h
    next hrest =>
      cases h
      have hlength : (ieee1394IsoHeaderToDataLength quadlet + 8).toNat % 4 = 0 :=
        hrecords _ List.mem_cons_self
      have hsum := toNat_add_mod_four accumLength (ieee1394IsoHeaderToDataLength quadlet + 8)
      exact ih (by omega) hrest fun p hp => hrecords p (List.mem_cons_of_mem _ hp)

theorem congr {self' : FwIsoIrMultiple} (h : Aligned self) (hground : Grounded self')
    (hprev : self'.prevOffset = self.prevOffset) : Aligned self' :=
  ⟨hground, hprev ▸ h.prev⟩

theorem start (h : Aligned self) (cycleMatch : Option (UInt16 × UInt16))
    (syncCode tags chunksPerIrq : UInt32) (env : StartEnv) :
    Aligned (self.start cycleMatch syncCode tags chunksPerIrq env).state := by
  refine ⟨h.ground.start cycleMatch syncCode tags chunksPerIrq env, ?_⟩
  have hprev := h.prev
  simp only [FwIsoIrMultiple.start]
  split
  · exact hprev
  split
  · exact hprev
  split
  · exact hprev
  obtain ⟨_, st, count, ho⟩ := registerChunks_same self.state.chunksPerBuffer.toNat
    { self with chunksPerIrq := chunksPerIrq, accumulatedChunkCount := 0 }
  split
  · rfl
  · rw [ho]
    exact hprev

theorem finishEvent (h : Aligned self) (bytesPerChunk : UInt32)
    {bytesPerBuffer accumLength : UInt32} (answers : Nat → QueueAnswer)
    (hbuffer : bytesPerBuffer.toNat % 4 = 0) (hlength : accumLength.toNat % 4 = 0) :
    Aligned (finishEvent bytesPerChunk bytesPerBuffer accumLength answers self).state := by
  refine ⟨h.ground.finishEvent bytesPerChunk bytesPerBuffer accumLength answers, ?_⟩
  have hprev := h.prev
  simp only [FwIsoIrMultiple.finishEvent]
  split
  · exact hprev
  obtain ⟨_, st, count, ho⟩ := registerChunks_same
    (((self.prevOffset + accumLength) / bytesPerChunk).toNat -
      (self.prevOffset / bytesPerChunk).toNat) self
  split
  · split
    · rw [ho]
      exact hprev
    · have hsum := toNat_add_mod_four self.prevOffset accumLength
      simp only [ho]
      rw [UInt32.toNat_mod, Nat.mod_mod_of_dvd _ (Nat.dvd_of_mod_eq_zero hbuffer)]
      omega
  · rw [ho]
    exact hprev

theorem stop (h : Aligned self) : Aligned (Ctx.onState FwIsoCtxState.stop self).state :=
  h.congr h.ground.stop rfl

theorem unmapBuffer (h : Aligned self) :
    Aligned self.unmapBuffer.state ∧ self.unmapBuffer.state.state.addr = .null :=
  ⟨h.congr h.ground.unmapBuffer.1 rfl, rfl⟩

theorem keeps_release {c : Ctx FwIsoIrMultiple} (h : Aligned c.priv) :
    c.release.Keeps (fun c => Aligned c.priv) fun _ c => Aligned c.priv :=
  Ctx.release_keeps (Q := fun c => Aligned c.priv ∧ c.priv.state.addr = .null)
    (fun _ hc => hc.stop) (fun _ hc => hc) (fun _ hc => hc.unmapBuffer)
    (fun _ hc => hc.1.congr (hc.1.ground.release hc.2) rfl) h

theorem exec (op : Op) (c : Ctx FwIsoIrMultiple) (hop : op.Pads c) (h : Aligned c.priv) :
    (exec op c).Keeps (fun c => Aligned c.priv) fun _ c => Aligned c.priv := by
  have hstop : ∀ c : Ctx FwIsoIrMultiple, Aligned c.priv →
      Aligned (c.after (Ctx.onState FwIsoCtxState.stop c.priv)).priv := fun _ hc => hc.stop
  cases op with
  | allocate path channels env set bigEndian =>
    exact allocate_keeps (fun c hc => hc.congr (hc.ground.allocateState path env) rfl)
      (fun _ hc => hc) (fun _ hc => keeps_release hc)
      (fun _ _ hc => hc.congr (hc.ground.congr hc.ground.state rfl rfl rfl) rfl) h
  | mapBuffer bytes chunks env =>
    refine h.congr (h.ground.mapBuffer bytes chunks env) ?_
    simp only [FwIsoIrMultiple.mapBuffer]
    split <;> rfl
  | start cycleMatch syncCode tags irq env => exact h.start cycleMatch syncCode tags irq env
  | getPayload index =>
    refine h.congr (h.ground.getPayload index) ?_
    obtain ⟨concat, hpriv, _⟩ := asked_getPayload c.priv index
    show (c.priv.getPayload index).1.prevOffset = c.priv.prevOffset
    rw [hpriv]
  | stop => exact Ctx.stop_keeps hstop (fun _ hc => hc) h
  | unmapBuffer =>
    exact Ctx.unmapBuffer_keeps hstop (fun _ hc => hc) (fun _ hc => hc.unmapBuffer.1) h
  | release => exact keeps_release h
  | dispatch w =>
    refine Ctx.dispatch_keeps_of_event hstop (fun _ hc => hc) (fun ev env hw => ?_) h
    subst hw
    cases ev with
    | isoInterrupt ev => exact h
    | isoInterruptMc ev =>
      simp only [FwIsoCtx.handleEvent, handleEvent]
      split
      · exact h
      next total records hparse =>
        have hmem : Grounded { c.priv with mem := env.buffer } :=
          h.ground.congr h.ground.state rfl rfl rfl
        have hrecords : ∀ packet ∈ records, packet.length.toNat % 4 = 0 := by
          rw [stores_of_parse _ hparse]
          exact hop
        have htotal := parse _ _ _ rfl hparse hrecords
        exact ⟨h.congr (hmem.stored records) rfl, fun c' hc' =>
          hc'.finishEvent _ _ hmem.bytesPerBuffer_mod htotal⟩
    | other => exact h

end Aligned

end FwIsoIrMultiple

end Hinoko
