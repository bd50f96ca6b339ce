import Hinoko.Control
import Hinoko.Grounded
import Hinoko.Lib.Framing
import Hinoko.Lib.Ring

/-!
# What an event of a multiple-channel context finds

The parsing loop goes from `prev_offset` to the end of the received data.  With the
wrapping of `guint` out of the way it is a walk over frames (`Lib/Framing.lean`), each
with a header, data, and a trailing timestamp, in the ring of the mapped buffer.

* `Reading`: a mapped buffer, and the place to go on with.
* `Reading.parseEvent`: the records of an event are those of the walk.
-/

namespace Hinoko

theorem toNat_isoHeaderToDataLength (isoHeader : UInt32) :
    (ieee1394IsoHeaderToDataLength isoHeader).toNat = isoHeader.toNat / 65536 := by
  have hlt := isoHeader.toNat_lt
  rw [ieee1394IsoHeaderToDataLength, UInt32.shiftRight_and, UInt32.toNat_and,
    UInt32.toNat_shiftRight]
  show (isoHeader.toNat >>> 16) &&& (2 ^ 16 - 1) = isoHeader.toNat / 65536
  rw [Nat.and_two_pow_sub_one_eq_mod, Nat.shiftRight_eq_div_pow]
  omega

theorem toNat_clamp (a b : UInt32) : (if a < b then a else b).toNat = min a.toNat b.toNat := by
  split
  next hlt =>
    rw [UInt32.lt_iff_toNat_lt] at hlt
    exact (Nat.min_eq_left hlt.le).symm
  next hge =>
    rw [UInt32.lt_iff_toNat_lt, not_lt] at hge
    exact (Nat.min_eq_right hge).symm

namespace FwIsoIrMultiple

def frameLength (mem : ByteMem) (offset : Nat) : Nat := (mem.le32At offset).toNat / 65536 + 8

def received (self : FwIsoIrMultiple) (completed : UInt32) : Nat :=
  (self.accumEnd completed).toNat - self.prevOffset.toNat

def frames (self : FwIsoIrMultiple) (mem : ByteMem) (completed : UInt32) : List Nat :=
  Framing.walk 4
    (fun k => frameLength mem ((self.prevOffset.toNat + k) % self.state.bytesPerBuffer.toNat))
    (self.received completed + 1) 0 (self.received completed)

def record (B pos n : Nat) : CtxPayload := ⟨UInt32.ofNat (pos % B), UInt32.ofNat n⟩

def recordsAt (B pos : Nat) (ns : List Nat) : List CtxPayload :=
  List.zipWith (record B) (Ring.starts pos ns) ns

@[simp] theorem length_recordsAt (B pos : Nat) (ns : List Nat) :
    (recordsAt B pos ns).length = ns.length := by
  simp [recordsAt]

/-- A mapped buffer of whole quadlets, and the place in it where parsing goes on. -/
structure Reading (it : FwIsoIrMultiple) : Prop where
  mapped : ∃ id, it.state.addr = .mapped id
  buffer : it.state.bytesPerBuffer.toNat < 2147483648
  quadlets : it.state.bytesPerBuffer.toNat % 4 = 0
  prev_lt : it.prevOffset.toNat < it.state.bytesPerBuffer.toNat
  prev_quadlet : it.prevOffset.toNat % 4 = 0

namespace Reading

variable {self : FwIsoIrMultiple}

theorem congr {self' : FwIsoIrMultiple} (h : Reading self)
    (haddr : self'.state.addr = self.state.addr)
    (hbuffer : self'.state.bytesPerBuffer = self.state.bytesPerBuffer)
    (hprev : self'.prevOffset = self.prevOffset) : Reading self' := by
  obtain ⟨hmapped, hsmall, hquad, hlt, hprevquad⟩ := h
  refine ⟨?_, ?_, ?_, ?_, ?_⟩ <;> simpa only [haddr, hbuffer, hprev]

/-- The end of the received data does not wrap, and lies at most one round ahead. -/
theorem accumEnd (h : Reading self) {completed : UInt32}
    (hcompleted : completed.toNat ≤ self.state.bytesPerBuffer.toNat) :
    (self.accumEnd completed).toNat = (if completed.toNat < self.prevOffset.toNat
      then completed.toNat + self.state.bytesPerBuffer.toNat else completed.toNat) ∧
    self.prevOffset.toNat ≤ (self.accumEnd completed).toNat ∧
    (self.accumEnd completed).toNat < 4294967296 := by
  have hsmall := h.buffer
  have hprev := h.prev_lt
  have hlt := (self.accumEnd completed).toNat_lt
  simp only [FwIsoIrMultiple.accumEnd, UInt32.lt_iff_toNat_lt] at hlt ⊢
  split
  next hback =>
    rw [UInt32.toNat_add, Nat.mod_eq_of_lt (by omega)]
    exact ⟨rfl, by omega, by omega⟩
  next hahead => exact ⟨rfl, by omega, by omega⟩

theorem quadletAt (h : Reading self) {offset : UInt32}
    (hlt : offset.toNat < self.state.bytesPerBuffer.toNat) (hquad : offset.toNat % 4 = 0) :
    self.quadletAt offset = some (self.mem.le32At offset.toNat) := by
  obtain ⟨id, hid⟩ := h.mapped
  have hB := h.quadlets
  rw [FwIsoIrMultiple.quadletAt, hid, self.state.readFrame_fst _ hlt.le]
  exact if_pos (by omega)

theorem header (h : Reading self) {a : UInt32}
    (hsum : self.prevOffset.toNat + a.toNat < 4294967296) (hquad : a.toNat % 4 = 0) :
    let offset := (self.prevOffset + a) % self.state.bytesPerBuffer
    offset.toNat = (self.prevOffset.toNat + a.toNat) % self.state.bytesPerBuffer.toNat ∧
      self.quadletAt offset = some (self.mem.le32At offset.toNat) := by
  have hlt := h.prev_lt
  have hBquad := h.quadlets
  have hpquad := h.prev_quadlet
  have hoffset : ((self.prevOffset + a) % self.state.bytesPerBuffer).toNat =
      (self.prevOffset.toNat + a.toNat) % self.state.bytesPerBuffer.toNat := by
    rw [UInt32.toNat_mod, UInt32.toNat_add, Nat.mod_eq_of_lt (a := _ + _) hsum]
  refine ⟨hoffset, h.quadletAt ?_ ?_⟩
  · rw [hoffset]
    exact Nat.mod_lt _ (by omega)
  · rw [hoffset, Nat.mod_mod_of_dvd _ (Nat.dvd_of_mod_eq_zero hBquad)]
    omega

theorem toNat_length (mem : ByteMem) (offset : Nat) :
    (ieee1394IsoHeaderToDataLength (mem.le32At offset) + 8).toNat = frameLength mem offset := by
  have hlt := (mem.le32At offset).toNat_lt
  have h8 : (8 : UInt32).toNat = 8 := rfl
  rw [UInt32.toNat_add, toNat_isoHeaderToDataLength, h8, Nat.mod_eq_of_lt (by omega), frameLength]

/-- **The loop is a walk over frames.**  The induction follows its rounds, and `accumLength` is
what the earlier rounds have walked over. -/
theorem parse (h : Reading self) {accumEnd : UInt32}
    (hend : self.prevOffset.toNat ≤ accumEnd.toNat) :
    ∀ (fuel : Nat) (accumLength : UInt32) (n : Nat),
    self.prevOffset.toNat + accumLength.toNat ≤ accumEnd.toNat → accumLength.toNat % 4 = 0 →
    accumEnd.toNat - self.prevOffset.toNat - accumLength.toNat < fuel →
    let ns := Framing.walk 4 (fun k =>
        frameLength self.mem ((self.prevOffset.toNat + k) % self.state.bytesPerBuffer.toNat)) fuel
      accumLength.toNat (accumEnd.toNat - self.prevOffset.toNat - accumLength.toNat)
    (∀ k ∈ ns, k % 4 = 0) → n + ns.length ≤ self.capacity →
    self.parse accumEnd fuel accumLength n = .ok (UInt32.ofNat (accumLength.toNat + ns.sum),
      recordsAt self.state.bytesPerBuffer.toNat (self.prevOffset.toNat + accumLength.toNat)
          ns) := by
  intro fuel
  induction fuel with
  | zero => exact fun _ _ _ _ hfuel => absurd hfuel (Nat.not_lt_zero _)
  | succ fuel ih =>
    intro accumLength n hin hquad hfuel ns hns hcap
    have hlt := accumEnd.toNat_lt
    have hne : self.state.bytesPerBuffer ≠ 0 := by
      intro h0
      have hprev := h.prev_lt
      rw [h0] at hprev
      exact absurd hprev (Nat.not_lt_zero _)
    have havail : (accumEnd - self.prevOffset - accumLength).toNat =
        accumEnd.toNat - self.prevOffset.toNat - accumLength.toNat := by
      have hle := UInt32.toNat_sub_of_le _ _ (UInt32.le_iff_toNat_le.mpr hend)
      rw [UInt32.toNat_sub_of_le _ _ (UInt32.le_iff_toNat_le.mpr (by omega)), hle]
    obtain ⟨hoffset, hread⟩ := h.header (a := accumLength) (by omega) hquad
    rw [hoffset] at hread
    have hlen := toNat_length self.mem
      ((self.prevOffset.toNat + accumLength.toNat) % self.state.bytesPerBuffer.toNat)
    have h4 : (4 : UInt32).toNat = 4 := rfl
    simp only [FwIsoIrMultiple.parse, hread, UInt32.lt_iff_toNat_lt, havail, hlen, h4, hne,
        if_false]
    simp only [ns, Framing.walk] at hns hcap ⊢
    split
    next hshort => simp [recordsAt, Ring.starts]
    next hshort =>
    split
    next hcut => simp [recordsAt, Ring.starts]
    next hcut =>
    rw [if_neg hshort, if_neg hcut] at hns hcap
    rw [List.length_cons] at hcap
    have hlquad := hns _ List.mem_cons_self
    have hpos : 8 ≤ frameLength self.mem
        ((self.prevOffset.toNat + accumLength.toNat) % self.state.bytesPerBuffer.toNat) :=
      Nat.le_add_left _ _
    generalize ieee1394IsoHeaderToDataLength _ + 8 = length at hlen ⊢
    generalize frameLength self.mem
      ((self.prevOffset.toNat + accumLength.toNat) % self.state.bytesPerBuffer.toNat) = l at *
    subst hlen
    have hnext : (accumLength + length).toNat = accumLength.toNat + length.toNat := by
      rw [UInt32.toNat_add, Nat.mod_eq_of_lt (by omega)]
    have hrest := ih (accumLength + length) (n + 1) (by omega) (by omega) (by omega)
    simp only [hnext, Nat.sub_add_eq] at hrest
    rw [if_neg (by omega), hrest (fun k hk => hns k (List.mem_cons_of_mem _ hk)) (by omega)]
    simp only [List.sum_cons, Nat.add_assoc, recordsAt, Ring.starts, List.zipWith_cons_cons, record,
      ← hoffset, UInt32.ofNat_toNat]

/-- **The records of an event** are those of the complete frames. -/
theorem parseEvent (h : Reading self) (completed : UInt32)
    (hcompleted : completed.toNat ≤ self.state.bytesPerBuffer.toNat)
    (hquad : ∀ n ∈ self.frames self.mem completed, n % 4 = 0)
    (hroom : (self.frames self.mem completed).length ≤ self.capacity) :
    self.parseEvent completed = .ok (UInt32.ofNat (self.frames self.mem completed).sum,
      recordsAt self.state.bytesPerBuffer.toNat self.prevOffset.toNat
        (self.frames self.mem completed)) := by
  obtain ⟨_, hend, _⟩ := h.accumEnd hcompleted
  have hsub := UInt32.toNat_sub_of_le _ _ (UInt32.le_iff_toNat_le.mpr hend)
  have hparse := h.parse hend (self.received completed + 1) 0 0 (by simpa using hend) rfl
    (by simp [received])
  simp only [UInt32.toNat_zero, Nat.sub_zero, Nat.zero_add, Nat.add_zero] at hparse
  rw [FwIsoIrMultiple.parseEvent, hsub]
  exact hparse hquad hroom

end Reading

end FwIsoIrMultiple

end Hinoko
