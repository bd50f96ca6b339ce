import Hinoko.CtxState
import Hinoko.Lib.Bitfield

/-!
# The control word

`register_chunk` shifts the fields of a packet into one word without masking them,
and `queue_chunks` takes two of them out again.

* `field_controlWord`: what a field of the word reads.
* `payloadLength_datum`: the low sixteen bits are those of the payload length,
  whatever the other fields are.
* `headerLength_datum_or`: the high eight bits are those of the header length, or-ed
  with what the payload length has there.
-/

namespace Hinoko

open Bitfield

theorem toNat_controlToPayloadLength (control : UInt32) :
    (fwCdevIsoPacketControlToPayloadLength control).toNat = control.toNat % 65536 := by
  rw [fwCdevIsoPacketControlToPayloadLength, UInt32.toNat_and]
  exact Nat.and_two_pow_sub_one_eq_mod control.toNat 16

theorem toNat_controlToHeaderLength (control : UInt32) :
    (fwCdevIsoPacketControlToHeaderLength control).toNat = control.toNat / 16777216 := by
  have hlt := control.toNat_lt
  rw [fwCdevIsoPacketControlToHeaderLength, UInt32.shiftRight_and, UInt32.toNat_and,
    UInt32.toNat_shiftRight]
  show (control.toNat >>> 24) &&& (2 ^ 8 - 1) = control.toNat / 16777216
  rw [Nat.and_two_pow_sub_one_eq_mod, Nat.shiftRight_eq_div_pow]
  omega

theorem toNat_shiftLeft_mod (v : UInt32) {k : Nat} (hk : k < 32) :
    (v <<< UInt32.ofNat k).toNat = v.toNat * 2 ^ k % 4294967296 := by
  have e : (UInt32.ofNat k).toNat % 32 = k := by
    rw [UInt32.toNat_ofNat', Nat.mod_eq_of_lt (show k < 2 ^ 32 by omega), Nat.mod_eq_of_lt hk]
  rw [UInt32.toNat_shiftLeft, Nat.shiftLeft_eq, e]

/-- The fields of a control word, and the two flags. -/
def controlWord (payloadLength tags syncCode headerLength flags : UInt32) : UInt32 :=
  (fwCdevIsoPayloadLength payloadLength ||| fwCdevIsoTag tags ||| fwCdevIsoSy syncCode |||
    fwCdevIsoHeaderLength headerLength) ||| flags

def controlFlags (skip scheduleInterrupt : Bool) : UInt32 :=
  (if skip then fwCdevIsoSkip else 0) ||| (if scheduleInterrupt then fwCdevIsoInterrupt else 0)

theorem control_datum (st : FwIsoCtxState) (skip : Bool) (tags syncCode : UInt32)
    (header : ArrayArg) (payloadLength : UInt32) (irq : Bool) :
    (st.datum skip tags syncCode header payloadLength irq).control =
      controlWord (if st.mode = .it then payloadLength else st.bytesPerChunk) tags syncCode
        (if st.mode = .irSingle then st.headerSize else header.length) (controlFlags skip irq) := by
  cases skip <;> cases irq <;>
    simp [FwIsoCtxState.datum, controlWord, controlFlags, UInt32.or_assoc]

/-! ### Fields -/

/-- **A field of a control word** reads what the values that reach it have there. -/
theorem field_controlWord (pl tags sy hl flags : UInt32) {start len : Nat} (h : start + len ≤ 32) :
    field (controlWord pl tags sy hl flags).toNat start len =
      field pl.toNat start len ||| field (tags.toNat * 2 ^ 18) start len |||
        field (sy.toNat * 2 ^ 20) start len ||| field (hl.toNat * 2 ^ 24) start len |||
        field flags.toNat start len := by
  have hcut : ∀ n, field (n % 4294967296) start len = field n start len := fun n =>
    field_mod (k := 32) h
  have htag : (fwCdevIsoTag tags).toNat = tags.toNat * 2 ^ 18 % 4294967296 :=
    toNat_shiftLeft_mod tags (k := 18) (by omega)
  have hsy : (fwCdevIsoSy sy).toNat = sy.toNat * 2 ^ 20 % 4294967296 :=
    toNat_shiftLeft_mod sy (k := 20) (by omega)
  have hhl : (fwCdevIsoHeaderLength hl).toNat = hl.toNat * 2 ^ 24 % 4294967296 :=
    toNat_shiftLeft_mod hl (k := 24) (by omega)
  simp only [controlWord, UInt32.toNat_or, field_or, htag, hsy, hhl, hcut, fwCdevIsoPayloadLength]

section Fields

variable (pl tags sy hl : UInt32) (skip irq : Bool)

theorem field_payloadLength :
    field (controlWord pl tags sy hl (controlFlags skip irq)).toNat 0 16 = pl.toNat % 65536 := by
  have hflags : field (controlFlags skip irq).toNat 0 16 = 0 := by
    cases skip <;> cases irq <;> rfl
  rw [field_controlWord pl tags sy hl _ (by omega), field_shift_of_lt (by omega),
    field_shift_of_lt (by omega), field_shift_of_lt (by omega), hflags]
  simp [field]

/-- The header length is or-ed with the high byte of the payload length. -/
theorem field_headerLength (htags : tags.toNat < 64) (hsy : sy.toNat < 16) :
    field (controlWord pl tags sy hl (controlFlags skip irq)).toNat 24 8 =
      field pl.toNat 24 8 ||| hl.toNat % 256 := by
  have hflags : field (controlFlags skip irq).toNat 24 8 = 0 := by
    cases skip <;> cases irq <;> rfl
  rw [field_controlWord pl tags sy hl _ (by omega),
    field_of_lt (n := tags.toNat * 2 ^ 18) (by omega),
    field_of_lt (n := sy.toNat * 2 ^ 20) (by omega), field_shift_of_le (by omega), hflags]
  simp [field]

/-- **The payload length is the low half of the word.** -/
theorem payloadLength_controlWord :
    (fwCdevIsoPacketControlToPayloadLength
        (controlWord pl tags sy hl (controlFlags skip irq))).toNat
      = pl.toNat % 65536 := by
  rw [toNat_controlToPayloadLength, ← field_payloadLength pl tags sy hl skip irq, field,
    Nat.pow_zero, Nat.div_one]
  rfl

/-- **The high byte of the word** is that of the header length, or-ed with that of the payload
length. -/
theorem headerLength_controlWord (htags : tags.toNat < 64) (hsy : sy.toNat < 16) :
    (fwCdevIsoPacketControlToHeaderLength (controlWord pl tags sy hl (controlFlags skip irq))).toNat
      = field pl.toNat 24 8 ||| hl.toNat % 256 := by
  have hlt := (controlWord pl tags sy hl (controlFlags skip irq)).toNat_lt
  rw [toNat_controlToHeaderLength, ← field_headerLength pl tags sy hl skip irq htags hsy, field,
    Nat.mod_eq_of_lt (by omega)]
  rfl

end Fields

/-! ### Packets -/

theorem toNat_tags_lt {tags : UInt32} (h : tags = 0 ∨ tags = 1 ∨ tags = 2 ∨ tags = 4 ∨ tags = 8) :
    tags.toNat < 64 := by
  rcases h with rfl | rfl | rfl | rfl | rfl <;> decide

theorem payloadLength_datum (st : FwIsoCtxState) (skip : Bool) (tags syncCode : UInt32)
    (header : ArrayArg) (payloadLength : UInt32) (irq : Bool) :
    (st.datum skip tags syncCode header payloadLength irq).payloadLength =
      (if st.mode = .it then payloadLength else st.bytesPerChunk).toNat % 65536 := by
  rw [IsoPacket.payloadLength, control_datum, payloadLength_controlWord]

/-- A packet of an IT context that `register_chunk` accepts says the length of its header,
modulo 256, or-ed with what the payload length has there. -/
theorem headerLength_datum_or {st : FwIsoCtxState} {skip : Bool} {tags syncCode : UInt32}
    {header : ArrayArg} {payloadLength : UInt32} (irq : Bool) (hmode : st.mode = .it)
    (hacc : st.acceptsChunk skip tags syncCode header payloadLength = true) :
    (fwCdevIsoPacketControlToHeaderLength
      (st.datum skip tags syncCode header payloadLength irq).control).toNat
        = field payloadLength.toNat 24 8 ||| header.length.toNat % 256 := by
  simp only [FwIsoCtxState.acceptsChunk, decide_eq_true_eq] at hacc
  have hsy : syncCode.toNat < 16 := Nat.lt_succ_of_le (UInt32.le_iff_toNat_le.mp hacc.2.1)
  rw [control_datum, if_pos hmode, if_neg (by rw [hmode]; decide),
    headerLength_controlWord _ _ _ _ _ _ (toNat_tags_lt hacc.1) hsy]

/-- That is the length alone, if chunks are not absurdly large. -/
theorem headerLength_datum {st : FwIsoCtxState} {skip : Bool} {tags syncCode : UInt32}
    {header : ArrayArg} {payloadLength : UInt32} (irq : Bool) (hmode : st.mode = .it)
    (hacc : st.acceptsChunk skip tags syncCode header payloadLength = true)
    (hpl : payloadLength.toNat < 16777216) :
    (fwCdevIsoPacketControlToHeaderLength
      (st.datum skip tags syncCode header payloadLength irq).control).toNat
        = header.length.toNat % 256 := by
  rw [headerLength_datum_or irq hmode hacc, field_of_lt (by omega), Nat.zero_or]

end Hinoko
