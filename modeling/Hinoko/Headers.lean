import Hinoko.Parse
import Hinoko.SingleSlots

/-!
# The headers of an event

An event of a single-channel IR context brings the headers of its packets, each of
`header_size` bytes.  `get_payload` looks up the one of an index and works out from it how many
bytes of the packet are in its chunk.

* `FwIsoIrSingle.headerBounded_iff`: when the header that is looked up is one of the event.
* `FwIsoIrSingle.measured_iff`: when the length is that of the data in the chunk.
-/

namespace Hinoko

open Reentrant

namespace FwIsoIrSingle

/-- An event is being handled, of a context that `allocate` has accepted this header size for. -/
structure Handling (it : FwIsoIrSingle) (ev : IsoInterrupt) : Prop where
  ev : it.ev = some ev
  least : 4 ≤ it.headerSize.toNat
  quadlets : it.headerSize.toNat % 4 = 0

variable {self : FwIsoIrSingle} {ev : IsoInterrupt}

def countOf (self : FwIsoIrSingle) (ev : IsoInterrupt) : Nat :=
  (ev.headerLength / self.headerSize).toNat

def headerAt (self : FwIsoIrSingle) (index : UInt32) : Nat :=
  4 * (index * self.headerSize / 4).toNat

/-! ### The index -/

/-- The call is rejected, or the index is one of the announced packets and the quadlet that is read
lies in the header of the event; indexes whose product with the header size wraps are rejected. -/
structure HeaderBounded (it : FwIsoIrSingle) (ev : IsoInterrupt) (index : UInt32) : Prop where
  inside : it.getPayload index = .rejected ∨
    index.toNat < it.countOf ev ∧ it.headerAt index + 4 ≤ ev.headerLength.toNat
  wrap : 4294967296 ≤ index.toNat * it.headerSize.toNat → it.getPayload index = .rejected

/-- **What the check rejects.** -/
theorem rejected_iff (h : Handling self ev) (index : UInt32) :
    self.getPayload index = .rejected ↔
      ev.headerLength.toNat < index.toNat * self.headerSize.toNat % 4294967296 := by
  have hcheck : ev.headerLength < index * self.headerSize ↔
      ev.headerLength.toNat < index.toNat * self.headerSize.toNat % 4294967296 := by
    rw [UInt32.lt_iff_toNat_lt, UInt32.toNat_mul]
  rw [← hcheck]
  simp only [getPayload, h.ev]
  split
  next hlt => exact iff_of_true rfl hlt
  next hge =>
    refine iff_of_false (fun hrejected => ?_) hge
    split at hrejected
    · cases hrejected
    · split at hrejected <;> cases hrejected

theorem mul_le_of_lt_count {index : UInt32} (hindex : index.toNat < self.countOf ev) :
    index.toNat * self.headerSize.toNat + self.headerSize.toNat ≤ ev.headerLength.toNat := by
  rw [countOf, UInt32.toNat_div] at hindex
  rw [← Nat.succ_mul]
  exact (Nat.mul_le_mul_right _ hindex).trans (Nat.div_mul_le_self _ _)

theorem lt_mul_of_count_lt {index : UInt32} (hpos : 0 < self.headerSize.toNat)
    (hindex : self.countOf ev < index.toNat) :
    ev.headerLength.toNat < index.toNat * self.headerSize.toNat := by
  rw [countOf, UInt32.toNat_div] at hindex
  exact (Nat.lt_mul_of_div_lt hindex hpos)

theorem headerAt_of_lt (h : Handling self ev) {index : UInt32}
    (hindex : index.toNat < self.countOf ev) :
    self.headerAt index = index.toNat * self.headerSize.toNat ∧
      self.headerAt index + 4 ≤ ev.headerLength.toNat := by
  have hle := mul_le_of_lt_count hindex
  have hlt := ev.headerLength.toNat_lt
  have h4 : (4 : UInt32).toNat = 4 := rfl
  have hleast := h.least
  have hquadlets : index.toNat * self.headerSize.toNat % 4 = 0 := by
    rw [Nat.mul_mod, h.quadlets, Nat.mul_zero, Nat.zero_mod]
  have hat : self.headerAt index = index.toNat * self.headerSize.toNat := by
    rw [headerAt, UInt32.toNat_div, h4, UInt32.toNat_mul, Nat.mod_eq_of_lt (by omega)]
    omega
  exact ⟨hat, by omega⟩

/-- **The header is one of the event** unless the index is the count itself, which the check lets
pass, or one whose product wraps to something that passes. -/
theorem headerBounded_iff (h : Handling self ev) (index : UInt32) :
    HeaderBounded self ev index ↔ index.toNat ≠ self.countOf ev ∧
      (4294967296 ≤ index.toNat * self.headerSize.toNat →
        ev.headerLength.toNat < index.toNat * self.headerSize.toNat % 4294967296) := by
  have hpos : 0 < self.headerSize.toNat := Nat.lt_of_lt_of_le (by decide) h.least
  have hlength := ev.headerLength.toNat_lt
  refine ⟨fun hb => ⟨fun heq => ?_, fun hwrap => (rejected_iff h index).mp (hb.wrap hwrap)⟩,
    fun ⟨hne, hwrap⟩ => ⟨?_, fun hge => (rejected_iff h index).mpr (hwrap hge)⟩⟩
  · rcases hb.inside with hrejected | ⟨hlt, _⟩
    · have hle : index.toNat * self.headerSize.toNat ≤ ev.headerLength.toNat := by
        rw [heq, countOf, UInt32.toNat_div]
        exact Nat.div_mul_le_self _ _
      have hgt := (rejected_iff h index).mp hrejected
      rw [Nat.mod_eq_of_lt (by omega)] at hgt
      omega
    · omega
  · rcases Nat.lt_or_gt_of_ne hne with hlt | hgt
    · exact .inr ⟨hlt, (headerAt_of_lt h hlt).2⟩
    · refine .inl ((rejected_iff h index).mpr ?_)
      by_cases hge : 4294967296 ≤ index.toNat * self.headerSize.toNat
      · exact hwrap hge
      · rw [Nat.mod_eq_of_lt (by omega)]
        exact lt_mul_of_count_lt hpos hgt

/-! ### The length -/

def dataLength (self : FwIsoIrSingle) (ev : IsoInterrupt) (index : UInt32) : Nat :=
  (ieee1394IsoHeaderToDataLength (ev.header.be32At (self.headerAt index))).toNat

def slot (self : FwIsoIrSingle) (index : UInt32) : Nat :=
  ((self.chunkCursor + index) % self.state.chunksPerBuffer).toNat

/-- The call gives the data of the packet that is in its chunk: what is behind the part that has
come with the header, as far as the chunk reaches.  The chunk is one of the mapped buffer. -/
def Measured (self : FwIsoIrSingle) (ev : IsoInterrupt) (index : UInt32) : Prop :=
  (∃ id, self.state.addr = .mapped id) ∧
  ∃ offset length, self.getPayload index = .frames (some offset) length ∧
    length.toNat = min self.state.bytesPerChunk.toNat
      (self.dataLength ev index - (self.headerSize.toNat - 8)) ∧
    offset.toNat = self.slot index * self.state.bytesPerChunk.toNat ∧
    length.toNat ≤ self.state.bytesPerChunk.toNat ∧
    offset.toNat + self.state.bytesPerChunk.toNat ≤ self.state.bytesPerBuffer.toNat

def payloadLength (self : FwIsoIrSingle) (ev : IsoInterrupt) (index : UInt32) : UInt32 :=
  let length := ieee1394IsoHeaderToDataLength (ev.header.be32At (self.headerAt index))
  let length := if 8 < self.headerSize then length - (self.headerSize - 8) else length
  if self.state.bytesPerChunk < length then self.state.bytesPerChunk else length

theorem Handling.header_inside (h : Handling self ev) {index : UInt32}
    (hindex : index.toNat < self.countOf ev) :
    ¬ ev.headerLength < index * self.headerSize ∧
      ¬ ev.headerLength.toNat < 4 * (index * self.headerSize / 4).toNat + 4 :=
  FwIsoIrSingle.header_inside (UInt32.le_iff_toNat_le.mpr h.least)
    (UInt32.lt_iff_toNat_lt.mpr hindex)

theorem getPayload_of_no_chunks (h : Handling self ev) (hchunks : self.state.chunksPerBuffer = 0)
    {index : UInt32} (hindex : index.toNat < self.countOf ev) :
    self.getPayload index = .crashed .divByZero := by
  obtain ⟨haccepts, hheader⟩ := h.header_inside hindex
  simp only [getPayload, h.ev, if_neg haccepts, if_neg hheader, if_pos hchunks]

/-- **What the call gives** for a packet of the event. -/
theorem getPayload_of_lt (h : Handling self ev) (hchunks : self.state.chunksPerBuffer ≠ 0)
    {index : UInt32} (hindex : index.toNat < self.countOf ev) :
    self.getPayload index = .frames (self.state.readFrame ((self.chunkCursor + index) %
      self.state.chunksPerBuffer * self.state.bytesPerChunk) (self.payloadLength ev index)).1
        (self.payloadLength ev index) := by
  obtain ⟨haccepts, hheader⟩ := h.header_inside hindex
  simp only [getPayload, h.ev, if_neg haccepts, if_neg hheader, if_neg hchunks]
  rfl

/-- Taking off what has come with the header: the difference wraps when less data has come. -/
theorem toNat_behind_header (size : UInt32) {length : UInt32} (hlength : length.toNat < 65536) :
    (if 8 < size then length - (size - 8) else length).toNat =
      if size.toNat - 8 ≤ length.toNat then length.toNat - (size.toNat - 8)
      else 4294967296 + length.toNat - (size.toNat - 8) := by
  have hsize := size.toNat_lt
  have h8 : (8 : UInt32).toNat = 8 := rfl
  by_cases hbig : 8 < size
  · rw [if_pos hbig, UInt32.toNat_sub, UInt32.toNat_sub_of_le _ _ (UInt32.le_of_lt hbig), h8]
    rw [UInt32.lt_iff_toNat_lt, h8] at hbig
    split <;> omega
  · rw [if_neg hbig]
    rw [UInt32.lt_iff_toNat_lt, h8] at hbig
    rw [if_pos (by omega)]
    omega

theorem dataLength_lt (self : FwIsoIrSingle) (ev : IsoInterrupt) (index : UInt32) :
    self.dataLength ev index < 65536 := by
  have hlt := (ev.header.be32At (self.headerAt index)).toNat_lt
  rw [dataLength, toNat_isoHeaderToDataLength]
  omega

theorem toNat_payloadLength (self : FwIsoIrSingle) (ev : IsoInterrupt) (index : UInt32) :
    (self.payloadLength ev index).toNat = min self.state.bytesPerChunk.toNat
      (if self.headerSize.toNat - 8 ≤ self.dataLength ev index then
        self.dataLength ev index - (self.headerSize.toNat - 8)
      else 4294967296 + self.dataLength ev index - (self.headerSize.toNat - 8)) := by
  rw [payloadLength, toNat_clamp]
  exact congrArg _ (toNat_behind_header _ (self.dataLength_lt ev index))

/-- The length is the claimed one, unless less data has come than the header takes. -/
theorem payloadLength_eq_iff (self : FwIsoIrSingle) (ev : IsoInterrupt) (index : UInt32) :
    (self.payloadLength ev index).toNat = min self.state.bytesPerChunk.toNat
        (self.dataLength ev index - (self.headerSize.toNat - 8)) ↔
      self.state.bytesPerChunk.toNat = 0 ∨
        self.headerSize.toNat - 8 ≤ self.dataLength ev index := by
  have hsize := self.headerSize.toNat_lt
  rw [toNat_payloadLength]
  generalize self.dataLength ev index = length
  split <;> omega

/-- **The length is that of the data in the chunk** unless less data has come than the header takes,
which makes the length wrap, nothing is mapped, or the chunk is not in the buffer, whose size does
not fit in its type then. -/
theorem measured_iff (h : Handling self ev) {index : UInt32}
    (hindex : index.toNat < self.countOf ev) :
    Measured self ev index ↔ (∃ id, self.state.addr = .mapped id) ∧
      self.state.chunksPerBuffer ≠ 0 ∧
      (self.state.bytesPerChunk.toNat = 0 ∨
        self.headerSize.toNat - 8 ≤ self.dataLength ev index) ∧
      self.slot index * self.state.bytesPerChunk.toNat + self.state.bytesPerChunk.toNat ≤
        self.state.bytesPerBuffer.toNat := by
  have hbuffer := self.state.bytesPerBuffer.toNat_lt
  have hoffset : ((self.chunkCursor + index) % self.state.chunksPerBuffer *
      self.state.bytesPerChunk).toNat =
        self.slot index * self.state.bytesPerChunk.toNat % 4294967296 := by
    rw [UInt32.toNat_mul, slot]
  by_cases hchunks : self.state.chunksPerBuffer = 0
  · refine iff_of_false (fun ⟨_, offset, length, hget, _⟩ => ?_) (fun hc => hc.2.1 hchunks)
    rw [getPayload_of_no_chunks h hchunks hindex] at hget
    cases hget
  · rw [Measured, getPayload_of_lt h hchunks hindex, ← payloadLength_eq_iff]
    refine and_congr_right fun _ => ?_
    constructor
    · rintro ⟨offset, length, hget, hlength, hat, -, hchunk⟩
      obtain ⟨_, rfl⟩ := Payload.frames.inj hget
      rw [hat] at hchunk
      exact ⟨hchunks, hlength, hchunk⟩
    · rintro ⟨-, hlength, hinside⟩
      have hat := hoffset.trans (Nat.mod_eq_of_lt (by omega))
      have hframe : (self.state.readFrame _ (self.payloadLength ev index)).1 = some _ :=
        self.state.readFrame_fst _ (hat.le.trans (Nat.le_of_add_right_le hinside))
      exact ⟨_, _, congrArg (Payload.frames · _) hframe, hlength, hat,
        hlength.le.trans (Nat.min_le_left _ _), (congrArg (· + _) hat).le.trans hinside⟩

/-! ### An event -/

def longHeaders : FwIsoIrSingle :=
  ((new.allocate (some "/dev/fw0") 0 16 grantAllocate).state.mapBuffer 8 2 grantMap).state

def inEvent (self : FwIsoIrSingle) : FwIsoIrSingle :=
  (run exec ⟨⟨self, []⟩, []⟩ [.call (.registerPacket true), .call (.start none 0 0 (grantStart 1)),
    .call (.dispatch (.event (.isoInterrupt ⟨0, 16, fun _ => 0⟩)
      ⟨fun _ => 0, fun _ => .accepted 1⟩))]).state.priv

theorem handling_twoSlots : Handling (inEvent twoSlots) ⟨0, 16, fun _ => 0⟩ :=
  ⟨rfl, by decide +kernel, by decide +kernel⟩

/-- **The check lets the count itself pass**: four packets are announced, and the header of a fifth
is read behind the end of the event. -/
theorem headerBounded_fails :
    (inEvent twoSlots).countOf ⟨0, 16, fun _ => 0⟩ = 4 ∧
      ¬ HeaderBounded (inEvent twoSlots) ⟨0, 16, fun _ => 0⟩ 4 := by
  refine ⟨by decide +kernel, fun h => ?_⟩
  rcases h.inside with hrejected | ⟨hlt, _⟩
  · rw [rejected_iff handling_twoSlots] at hrejected
    exact absurd hrejected (by decide +kernel)
  · exact absurd hlt (by decide +kernel)

/-- The theorem at the last packet of the four. -/
theorem headerBounded_last : HeaderBounded (inEvent twoSlots) ⟨0, 16, fun _ => 0⟩ 3 :=
  (headerBounded_iff handling_twoSlots 3).mpr ⟨by decide +kernel, by decide +kernel⟩

/-- **An empty packet is given the length of its chunk** when its header takes four quadlets. -/
theorem measured_fails :
    (inEvent longHeaders).getPayload 0 = .frames (some 0) 8 ∧
      ¬ Measured (inEvent longHeaders) ⟨0, 16, fun _ => 0⟩ 0 := by
  refine ⟨by decide +kernel, fun ⟨_, offset, length, hget, hlength, _⟩ => ?_⟩
  have heq : (inEvent longHeaders).getPayload 0 = .frames (some 0) 8 := by decide +kernel
  obtain ⟨_, rfl⟩ := Payload.frames.inj (heq.symm.trans hget)
  exact absurd hlength (by decide +kernel)

/-- The theorem at the second of the four packets, whose chunk is the other one. -/
theorem measured_second : Measured (inEvent twoSlots) ⟨0, 16, fun _ => 0⟩ 1 :=
  (measured_iff handling_twoSlots (by decide +kernel)).mpr
    ⟨⟨1, by decide +kernel⟩, by decide +kernel, .inr (by decide +kernel), by decide +kernel⟩

end FwIsoIrSingle

end Hinoko
