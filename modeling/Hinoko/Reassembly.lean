import Hinoko.Decoding
import Hinoko.Payloads

/-!
# Packets that cross the end of the buffer

The function for payloads puts a packet that crosses the end of the buffer together in
`concat_frames`, a block of four times the size of a chunk.  How much it copies comes from the
header of the packet.

* `getPayload_crashed_iff`: it writes behind the block when it copies more than the block has.
* `copied_le_iff`: how much it copies.
* `reassembled_iff`: when the packets of an event fit in the block.
-/

namespace Hinoko

open Reentrant

namespace FwIsoIrMultiple

variable {self : FwIsoIrMultiple} {r : CtxPayload}

/-- The number of bytes that are copied for a record. -/
def copied (self : FwIsoIrMultiple) (r : CtxPayload) : Nat :=
  let done := (self.state.readFrame r.offset r.length).2
  let rest := r.length - done
  if done < r.length then
    if (self.state.readFrame 0 rest).2 = rest then done.toNat + rest.toNat else done.toNat
  else 0

/-- **The copies leave the block** exactly when they are more than it has room for. -/
theorem getPayload_crashed_iff {index : UInt32} {array : PayloadArray} {block : Block} {id : Nat}
    (harray : self.ctxPayloads = some array) (hindex : index < self.ctxPayloadCount)
    (hroom : index.toNat < array.capacity) (haddr : self.state.addr = .mapped id)
    (hblock : self.concatFrames = some block) :
    (self.getPayload index).2 = .crashed .outOfBounds ↔
      block.size < self.copied (array.entries index.toNat) := by
  simp only [getPayload, harray, hindex, not_true, Nat.not_le.mpr hroom, if_false, haddr, hblock,
    copied]
  generalize self.state.readFrame (array.entries index.toNat).offset
    (array.entries index.toNat).length = frame
  obtain ⟨payload, done⟩ := frame
  simp only
  generalize self.state.readFrame 0 ((array.entries index.toNat).length - done) = frame
  obtain ⟨payload', frameSize⟩ := frame
  simp only
  split
  next hsplit =>
    split
    next hdone =>
      refine iff_of_true rfl ?_
      split <;> omega
    next hdone =>
    split
    next hshort => exact iff_of_false (by rintro ⟨⟩) hdone
    next hwhole =>
      obtain rfl := Decidable.not_not.mp hwhole
      rw [if_pos rfl]
      split
      next hlt => exact iff_of_true rfl hlt
      next hge => exact iff_of_false (by rintro ⟨⟩) hge
  next hwhole => exact iff_of_false (by rintro ⟨⟩) (Nat.not_lt_zero _)

/-- The packet of a record does not cross the end of the buffer, or what is copied of it, all of it
unless it is longer than the buffer, is no more than four chunks. -/
def Assembles (self : FwIsoIrMultiple) (r : CtxPayload) : Prop :=
  r.offset.toNat + r.length.toNat ≤ self.state.bytesPerBuffer.toNat ∨
    4294967296 ≤ r.offset.toNat + r.length.toNat ∨
    (if r.offset.toNat + r.length.toNat ≤ 2 * self.state.bytesPerBuffer.toNat then r.length.toNat
      else self.state.bytesPerBuffer.toNat - r.offset.toNat) ≤ 4 * self.state.bytesPerChunk.toNat

/-- **How much is copied.** -/
theorem copied_le_iff (hoffset : r.offset < self.state.bytesPerBuffer) :
    self.copied r ≤ 4 * self.state.bytesPerChunk.toNat ↔ self.Assembles r := by
  rw [UInt32.lt_iff_toNat_lt] at hoffset
  have hdone := FwIsoCtxState.readFrame_cases r.length hoffset.le
  simp only [copied, Assembles]
  generalize (self.state.readFrame r.offset r.length).2 = done at hdone
  rcases hdone with ⟨hfit, rfl⟩ | ⟨hwrap, rfl⟩ | ⟨hcross, hnowrap, hdone⟩
  · rw [if_neg (UInt32.lt_irrefl _)]
    exact iff_of_true (Nat.zero_le _) (.inl hfit)
  · rw [if_neg (UInt32.lt_irrefl _)]
    exact iff_of_true (Nat.zero_le _) (.inr (.inl hwrap))
  · have hsplit : done < r.length := by
      rw [UInt32.lt_iff_toNat_lt, hdone]
      omega
    have hrest : (r.length - done).toNat = r.length.toNat - done.toNat :=
      UInt32.toNat_sub_of_le _ _ (UInt32.le_of_lt hsplit)
    have hwhole : (self.state.readFrame 0 (r.length - done)).2 = r.length - done ↔
        r.offset.toNat + r.length.toNat ≤ 2 * self.state.bytesPerBuffer.toNat := by
      rw [readFrame_zero_eq_iff]
      omega
    rw [if_pos hsplit]
    simp only [hwhole]
    split <;> omega

theorem store_entries (hground : Grounded self) {records : List CtxPayload}
    {completed total : UInt32} (hparse : self.parseEvent completed = .ok (total, records))
    {index : Nat} (hindex : index < records.length) :
    ∃ array id, (self.store records).ctxPayloads = some array ∧
      UInt32.ofNat index < (self.store records).ctxPayloadCount ∧
      (UInt32.ofNat index).toNat < array.capacity ∧
      array.entries (UInt32.ofNat index).toNat = records[index] ∧
      self.state.addr = .mapped id ∧ records[index].offset < self.state.bytesPerBuffer := by
  obtain ⟨hoffsets, hrecords⟩ := parse_records self _ _ hparse
  have hne : records ≠ [] := List.ne_nil_of_length_pos (Nat.zero_lt_of_lt hindex)
  obtain ⟨⟨id, haddr⟩, hroom⟩ := hrecords hne
  rw [Nat.zero_add] at hroom
  have hcapacity := (self.state.bytesPerBuffer / 8 / 2).toNat_lt
  rw [← hground.capacity] at hcapacity
  have hsize : UInt32.size = 4294967296 := rfl
  have hat : (UInt32.ofNat index).toNat = index := UInt32.toNat_ofNat_of_lt' (by omega)
  cases harray : self.ctxPayloads with
  | none =>
    simp only [capacity, harray] at hroom
    omega
  | some array =>
    have hindexed : (UInt32.ofNat index).toNat < array.capacity := by
      simp only [FwIsoIrMultiple.capacity, harray] at hroom
      omega
    refine ⟨_, id, congrArg (Option.map _) harray, ?_, hindexed, ?_, haddr,
      hoffsets _ (List.getElem_mem hindex)⟩
    · rw [UInt32.lt_iff_toNat_lt, hat, store, UInt32.toNat_ofNat_of_lt' (by omega)]
      exact hindex
    · simp only [hat, List.getElem?_eq_getElem hindex, Option.getD_some]

/-- **The packets of an event are put together in their block** exactly when those that cross the
end of the buffer are no longer than four chunks.  The block has this size where no buffer is mapped
in the place of another. -/
theorem reassembled_iff (ms : List (Move Op)) (mem : ByteMem) {completed total : UInt32}
    {records : List CtxPayload} :
    let it := { (run exec ⟨⟨new, []⟩, []⟩ ms).state.priv with mem := mem }
    it.parseEvent completed = .ok (total, records) →
    (Guarded exec Op.MapsOnce ⟨⟨new, []⟩, []⟩ ms → 0 < records.length →
      ∃ block, it.concatFrames = some block ∧ 4 * it.state.bytesPerChunk.toNat ≤ block.size) ∧
    ∀ (index : Nat) (h : index < records.length),
      ((it.store records).copied records[index] ≤ 4 * it.state.bytesPerChunk.toNat ↔
        it.Assembles records[index]) ∧
      ∀ block, it.concatFrames = some block →
        (((it.store records).getPayload (UInt32.ofNat index)).2 = .crashed .outOfBounds ↔
          block.size < (it.store records).copied records[index]) := by
  intro it hparse
  have hrun := grounded_of_run ms
  have hground : Grounded it := hrun.congr hrun.state rfl rfl rfl
  refine ⟨fun hms hpos => ?_, fun index hindex => ?_⟩
  · have hfurnished := run_keeps_of_guarded (I := fun c : Ctx FwIsoIrMultiple => Furnished c.priv)
      (fun op c hop hc => Furnished.exec op c hop hc) ms hms ⟨⟨⟨.init, rfl, rfl⟩, nofun⟩, nofun⟩
    obtain ⟨_, id, _, _, _, _, haddr, _⟩ := store_entries hground hparse hpos
    exact (hfurnished.state.mapped id haddr).2
  · obtain ⟨array, id, harray, hcount, hroom, hentry, haddr, hoffset⟩ :=
      store_entries hground hparse hindex
    refine ⟨copied_le_iff hoffset, fun block hblock => ?_⟩
    have hcrashed := getPayload_crashed_iff harray hcount hroom haddr hblock
    rwa [hentry] at hcrashed

/-! ### Packets across the end -/

def twoLengths (m n : UInt8) : EventEnv :=
  ⟨fun i => if i = 2 then m else if i = m.toNat + 10 then n else 0, fun _ => .accepted 1⟩

def afterFirst (completed : UInt32) (env : EventEnv) : List (Move Op) :=
  [.call (.allocate (some "/dev/fw0") [1] grantAllocate (.ok 2) false),
    .call (.mapBuffer 4 8 ⟨grantMap, 2, fun _ => 0, 3, fun _ => ⟨0, 0⟩⟩),
    .call (.start none 0 0 1 (grantStart 8)),
    .call (.dispatch (.event (.isoInterruptMc ⟨completed⟩) env)), .resume]

def secondFinds (completed : UInt32) (env : EventEnv) : FwIsoIrMultiple :=
  { (run exec ⟨⟨new, []⟩, []⟩ (afterFirst completed env)).state.priv with mem := env.buffer }

/-- **A long packet overruns the block**: 24 bytes go into one of 16. -/
theorem reassembled_fails :
    let it := secondFinds 16 (twoLengths 8 16)
    it.parseEvent 8 = .ok (24, [⟨16, 24⟩]) ∧ (it.store [⟨16, 24⟩]).copied ⟨16, 24⟩ = 24 ∧
      ¬ (it.store [⟨16, 24⟩]).copied ⟨16, 24⟩ ≤ 4 * it.state.bytesPerChunk.toNat ∧
      ((it.store [⟨16, 24⟩]).getPayload 0).2 = .crashed .outOfBounds := by
  refine ⟨?_, ?_, ?_, ?_⟩ <;> decide +kernel

/-- The theorem at a packet of 16 bytes across the end. -/
theorem reassembled_short :
    let it := secondFinds 20 (twoLengths 12 8)
    (it.store [⟨20, 16⟩]).copied ⟨20, 16⟩ ≤ 4 * it.state.bytesPerChunk.toNat := by
  intro it
  have hparse : (secondFinds 20 (twoLengths 12 8)).parseEvent 4 = .ok (16, [⟨20, 16⟩]) := by
    decide +kernel
  have h := reassembled_iff (afterFirst 20 (twoLengths 12 8)) (twoLengths 12 8).buffer hparse
  exact (h.2 0 (by decide)).1.mpr (.inr (.inr (by decide +kernel)))

end FwIsoIrMultiple

end Hinoko
