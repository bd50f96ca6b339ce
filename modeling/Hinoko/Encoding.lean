import Hinoko.Control
import Hinoko.Grounded

/-!
# The fields of the control word

`register_chunk` shifts six values into one word.  None of them is masked, so a value that is
larger than its field runs into the next one.

* `decodes_iff`: when the fields of a packet tell what has been registered.
* `encodes_iff`: when the fields of two packets tell what has been registered.
-/

namespace Hinoko

open Bitfield

/-! ### What the fields are to tell -/

structure ChunkArgs where
  skip : Bool
  tags : UInt32
  syncCode : UInt32
  header : ArrayArg
  payloadLength : UInt32
  scheduleInterrupt : Bool

namespace ChunkArgs

def register (a : ChunkArgs) (st : FwIsoCtxState) : Out FwIsoCtxState :=
  st.registerChunk a.skip a.tags a.syncCode a.header a.payloadLength a.scheduleInterrupt

def payload (a : ChunkArgs) (st : FwIsoCtxState) : UInt32 :=
  if st.mode = .it then a.payloadLength else st.bytesPerChunk

def headerLength (a : ChunkArgs) (st : FwIsoCtxState) : UInt32 :=
  if st.mode = .irSingle then st.headerSize else a.header.length

def word (a : ChunkArgs) (st : FwIsoCtxState) : UInt32 :=
  controlWord (a.payload st) a.tags a.syncCode (a.headerLength st)
    (controlFlags a.skip a.scheduleInterrupt)

end ChunkArgs

def tagOf (control : UInt32) : Nat := field control.toNat 18 2

/-- A control word tells what has been registered, field by field; the tag has no value of its own
here, it only has to tell apart. -/
structure Decodes (st : FwIsoCtxState) (a : ChunkArgs) (control : UInt32) : Prop where
  payloadLength : field control.toNat 0 16 = (a.payload st).toNat
  headerLength : field control.toNat 24 8 = (a.headerLength st).toNat
  sy : field control.toNat 20 4 = a.syncCode.toNat
  interrupt : field control.toNat 16 1 = if a.scheduleInterrupt then 1 else 0
  skip : field control.toNat 17 1 = if a.skip then 1 else 0

/-- Every value fits its field: the tags, which are flags, leave the sync code alone. -/
structure Fits (st : FwIsoCtxState) (a : ChunkArgs) : Prop where
  payloadLength : (a.payload st).toNat < 65536
  headerLength : (a.headerLength st).toNat < 256
  tags : a.tags = 0 ∨ a.tags = 1 ∨ a.tags = 2 ∨ a.tags = 4 ∧ a.syncCode.toNat % 2 = 1 ∨
    a.tags = 8 ∧ a.syncCode.toNat / 2 % 2 = 1

theorem accepts_of_register {st : FwIsoCtxState} {a : ChunkArgs}
    (h : (a.register st).ret = .success) :
    (a.tags = 0 ∨ a.tags = 1 ∨ a.tags = 2 ∨ a.tags = 4 ∨ a.tags = 8) ∧ a.syncCode.toNat < 16 := by
  rcases st.registerChunk_cases a.skip a.tags a.syncCode a.header a.payloadLength
    a.scheduleInterrupt with hr | ⟨⟨hacc, _⟩, _⟩
  · have hfalse := hr.ret
    change (a.register st).ret.IsFalse at hfalse
    rw [h] at hfalse
    exact hfalse.elim
  · simp only [FwIsoCtxState.acceptsChunk, decide_eq_true_eq] at hacc
    exact ⟨hacc.1, Nat.lt_succ_of_le (UInt32.le_iff_toNat_le.mp hacc.2.1)⟩

/-! ### One packet -/

section Fields

variable (pl tags sy hl : UInt32) (skip irq : Bool)

theorem field_sy (hpl : pl.toNat < 65536) (htags : tags.toNat < 64) (hsy : sy.toNat < 16) :
    field (controlWord pl tags sy hl (controlFlags skip irq)).toNat 20 4 =
      tags.toNat / 4 ||| sy.toNat := by
  have hflags : field (controlFlags skip irq).toNat 20 4 = 0 := by
    cases skip <;> cases irq <;> rfl
  rw [field_controlWord pl tags sy hl _ (by omega), field_of_lt (n := pl.toNat) (by omega),
    field_shift_of_le (by omega), field_shift_of_le (by omega), field_shift_of_lt (by omega),
    hflags, Nat.zero_or, Nat.or_zero, Nat.or_zero, field, field]
  congr 1 <;> omega

theorem field_tag (hpl : pl.toNat < 65536) :
    tagOf (controlWord pl tags sy hl (controlFlags skip irq)) = tags.toNat % 4 := by
  have hflags : field (controlFlags skip irq).toNat 18 2 = 0 := by
    cases skip <;> cases irq <;> rfl
  rw [tagOf, field_controlWord pl tags sy hl _ (by omega), field_of_lt (n := pl.toNat) (by omega),
    field_shift_of_le (by omega), field_shift_of_lt (by omega), field_shift_of_lt (by omega),
    hflags]
  simp [field]

theorem field_interrupt (hpl : pl.toNat < 65536) :
    field (controlWord pl tags sy hl (controlFlags skip irq)).toNat 16 1 =
      if irq then 1 else 0 := by
  have hflags : field (controlFlags skip irq).toNat 16 1 = if irq then 1 else 0 := by
    cases skip <;> cases irq <;> rfl
  rw [field_controlWord pl tags sy hl _ (by omega), field_of_lt (n := pl.toNat) (by omega),
    field_shift_of_lt (by omega), field_shift_of_lt (by omega), field_shift_of_lt (by omega),
    hflags]
  simp

theorem field_skip (hpl : pl.toNat < 65536) :
    field (controlWord pl tags sy hl (controlFlags skip irq)).toNat 17 1 =
      if skip then 1 else 0 := by
  have hflags : field (controlFlags skip irq).toNat 17 1 = if skip then 1 else 0 := by
    cases skip <;> cases irq <;> rfl
  rw [field_controlWord pl tags sy hl _ (by omega), field_of_lt (n := pl.toNat) (by omega),
    field_shift_of_lt (by omega), field_shift_of_lt (by omega), field_shift_of_lt (by omega),
    hflags]
  simp

end Fields

theorem or_tags_iff {tags : UInt32} {sy : Nat}
    (htags : tags = 0 ∨ tags = 1 ∨ tags = 2 ∨ tags = 4 ∨ tags = 8) (hsy : sy < 16) :
    tags.toNat / 4 ||| sy = sy ↔
      tags = 0 ∨ tags = 1 ∨ tags = 2 ∨ tags = 4 ∧ sy % 2 = 1 ∨ tags = 8 ∧ sy / 2 % 2 = 1 := by
  rcases htags with rfl | rfl | rfl | rfl | rfl
  · simp
  · simp
  · simp
  · have h4 : ∀ n < 16, (1 ||| n = n ↔ n % 2 = 1) := by decide
    simpa using h4 sy hsy
  · have h8 : ∀ n < 16, (2 ||| n = n ↔ n / 2 % 2 = 1) := by decide
    simpa using h8 sy hsy

/-- **When the fields tell what has been registered**, for a packet that is accepted. -/
theorem decodes_iff {st : FwIsoCtxState} {a : ChunkArgs} (h : (a.register st).ret = .success) :
    Decodes st a (a.word st) ↔ Fits st a := by
  obtain ⟨htags, hsy⟩ := accepts_of_register h
  have hlt := toNat_tags_lt htags
  refine ⟨fun hd => ?_, fun hf => ?_⟩
  · have hpl : (a.payload st).toNat < 65536 := by
      rw [← hd.payloadLength]
      exact field_lt
    refine ⟨hpl, ?_, ?_⟩
    · rw [← hd.headerLength]
      exact field_lt
    · refine (or_tags_iff htags hsy).mp ?_
      rw [← field_sy _ _ _ (a.headerLength st) a.skip a.scheduleInterrupt hpl hlt hsy]
      exact hd.sy
  · have hpl := hf.payloadLength
    refine ⟨?_, ?_, ?_, field_interrupt _ _ _ _ _ _ hpl, field_skip _ _ _ _ _ _ hpl⟩
    · rw [ChunkArgs.word, field_payloadLength, Nat.mod_eq_of_lt hpl]
    · rw [ChunkArgs.word, field_headerLength _ _ _ _ _ _ hlt hsy, field_of_lt (by omega),
        Nat.zero_or, Nat.mod_eq_of_lt hf.headerLength]
    · rw [ChunkArgs.word, field_sy _ _ _ _ _ _ hpl hlt hsy]
      exact (or_tags_iff htags hsy).mpr hf.tags

/-! ### The store -/

/-- The states that allocating and mapping lead to, with any number of packets registered. -/
inductive Prepared : FwIsoCtxState → Prop where
  | new : Prepared {}
  | allocate {st : FwIsoCtxState} (path : Option String) (mode : FwIsoCtxMode)
      (scode channel headerSize : UInt32) (env : AllocateEnv) (h : Prepared st)
      (hret : (st.allocate path mode scode channel headerSize env).ret = .success) :
      Prepared (st.allocate path mode scode channel headerSize env).state
  | mapBuffer {st : FwIsoCtxState} (bytesPerChunk chunksPerBuffer : UInt32) (env : MapEnv)
      (h : Prepared st) (hret : (st.mapBuffer bytesPerChunk chunksPerBuffer env).ret = .success) :
      Prepared (st.mapBuffer bytesPerChunk chunksPerBuffer env).state
  | register {st : FwIsoCtxState} (a : ChunkArgs) (h : Prepared st)
      (hret : (a.register st).ret = .success) : Prepared (a.register st).state

def Roomy (st : FwIsoCtxState) : Prop :=
  ∀ block, st.data = some block → st.allocDataLength.toNat ≤ block.size

theorem Prepared.roomy {st : FwIsoCtxState} (h : Prepared st) : Roomy st := by
  induction h with
  | new => exact nofun
  | allocate path mode scode channel headerSize env h hret ih =>
    obtain ⟨fd, handle, hstate⟩ := FwIsoCtxState.allocate_of_success hret
    rw [hstate]
    exact ih
  | mapBuffer bytes chunks env h hret ih =>
    obtain ⟨_, _, _, _, hstate⟩ := FwIsoCtxState.mapBuffer_of_success hret
    rw [hstate]
    intro block hblock
    simp only [gMallocN] at hblock
    split at hblock
    · cases hblock
    · cases hblock
      exact (UInt32.toNat_mul ..).trans_le (Nat.mod_le _ _)
  | @register st a h hret ih =>
    rcases st.registerChunk_cases a.skip a.tags a.syncCode a.header a.payloadLength
      a.scheduleInterrupt with hr | ⟨_, ⟨_, ho⟩ | ⟨block, hdata, ho⟩⟩
    · rw [ChunkArgs.register, hr.state]
      exact ih
    · rw [ChunkArgs.register, ho]
      exact ih
    · rw [ChunkArgs.register, ho]
      intro block' hblock'
      cases hblock'
      exact ih block hdata

theorem controlAt_register {st : FwIsoCtxState} (h : Roomy st) {a : ChunkArgs}
    (hret : (a.register st).ret = .success) :
    (a.register st).state.controlAt st.dataLength = some (a.word st) := by
  rcases st.registerChunk_cases a.skip a.tags a.syncCode a.header a.payloadLength
    a.scheduleInterrupt with hr | ⟨⟨_, hroom, _⟩, ⟨_, ho⟩ | ⟨block, hdata, ho⟩⟩
  · have hfalse := hr.ret
    change (a.register st).ret.IsFalse at hfalse
    rw [hret] at hfalse
    exact hfalse.elim
  · rw [ChunkArgs.register, ho] at hret
    cases hret
  · have hsize := h block hdata
    rw [ChunkArgs.register, ho, FwIsoCtxState.controlAt]
    simp only
    rw [if_pos (by omega), ByteMem.le32At_of_read]
    generalize hp : st.datum a.skip a.tags a.syncCode a.header a.payloadLength
      a.scheduleInterrupt = packet
    have hword : packet.control = a.word st := by
      rw [← hp, control_datum]
      rfl
    have hread := ByteMem.read_write_self block.bytes st.dataLength.toNat packet.bytes
    rw [← ByteMem.take_read _ _ (show 4 ≤ packet.bytes.length by rw [packet.length_bytes]; omega),
      hread, IsoPacket.bytes, hword, List.take_left' (length_le32 _)]

/-- **The fields of two packets** that are accepted tell what has been registered, and their tags
apart, exactly when every value fits its field and the tags have no value of the tag field in
common. -/
theorem encodes_iff {st : FwIsoCtxState} (h : Prepared st) {a b : ChunkArgs}
    (ha : (a.register st).ret = .success) (hb : (b.register st).ret = .success) :
    (∃ control control', (a.register st).state.controlAt st.dataLength = some control ∧
        (b.register st).state.controlAt st.dataLength = some control' ∧ Decodes st a control ∧
        Decodes st b control' ∧ (a.tags ≠ b.tags → tagOf control ≠ tagOf control')) ↔
      Fits st a ∧ Fits st b ∧ (a.tags = b.tags ∨ a.tags.toNat % 4 ≠ b.tags.toNat % 4) := by
  have htag : ∀ c : ChunkArgs, Fits st c → tagOf (c.word st) = c.tags.toNat % 4 := fun c hc =>
    field_tag _ _ _ _ _ _ hc.payloadLength
  rw [controlAt_register h.roomy ha, controlAt_register h.roomy hb]
  refine ⟨?_, fun ⟨hfa, hfb, hne⟩ => ⟨_, _, rfl, rfl, (decodes_iff ha).mpr hfa,
    (decodes_iff hb).mpr hfb, fun htags => ?_⟩⟩
  · rintro ⟨_, _, ⟨rfl⟩, ⟨rfl⟩, hda, hdb, hapart⟩
    have hfa := (decodes_iff ha).mp hda
    have hfb := (decodes_iff hb).mp hdb
    rw [htag a hfa, htag b hfb] at hapart
    exact ⟨hfa, hfb, or_iff_not_imp_left.mpr hapart⟩
  · rw [htag a hfa, htag b hfb]
    exact hne.resolve_left htags

def itPrepared : FwIsoCtxState :=
  (((({} : FwIsoCtxState).allocate (some "/dev/fw0") .it 0 0 0 grantAllocate).state).mapBuffer 8 2
    grantMap).state

theorem prepared_itPrepared : Prepared itPrepared :=
  .mapBuffer 8 2 grantMap (.allocate (some "/dev/fw0") .it 0 0 0 grantAllocate .new
    (by decide +kernel)) (by decide +kernel)

def tagged (tags : UInt32) : ChunkArgs := ⟨false, tags, 0, .null, 8, true⟩

/-- **A tag flag runs into the sync code**: the packet with the flag of tag 2 is stored with sync
code 1, and in its tag field it looks like one without tags. -/
theorem encodes_fails :
    ((tagged 4).register itPrepared).ret = .success ∧
      ((tagged 4).register itPrepared).state.controlAt 0 = some 0x00110008 ∧
      ((tagged 0).register itPrepared).state.controlAt 0 = some 0x00010008 ∧
      ¬ Decodes itPrepared (tagged 4) 0x00110008 ∧
      tagOf 0x00110008 = tagOf 0x00010008 := by
  refine ⟨by decide +kernel, by decide +kernel, by decide +kernel, fun h => ?_, by decide +kernel⟩
  exact absurd h.sy (by decide +kernel)

/-- The theorem at two packets whose tags fit. -/
theorem encodes_tagged : ∃ control control',
    ((tagged 1).register itPrepared).state.controlAt 0 = some control ∧
      ((tagged 2).register itPrepared).state.controlAt 0 = some control' ∧
      Decodes itPrepared (tagged 1) control ∧ Decodes itPrepared (tagged 2) control' ∧
      ((1 : UInt32) ≠ 2 → tagOf control ≠ tagOf control') :=
  (encodes_iff prepared_itPrepared (a := tagged 1) (b := tagged 2) (by decide +kernel)
    (by decide +kernel)).mpr ⟨⟨by decide +kernel, by decide +kernel, .inr (.inl rfl)⟩,
      ⟨by decide +kernel, by decide +kernel, .inr (.inr (.inl rfl))⟩, .inr (by decide)⟩

end Hinoko
