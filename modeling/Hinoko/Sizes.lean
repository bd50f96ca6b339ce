import Hinoko.Interrupts
import Hinoko.Lifecycle

/-!
# The sizes of a mapping

`map_buffer` multiplies guint values, and so do the functions that work on the buffer.

* `FwIsoCtxState.exactSizes_iff`: when the products are those of the numbers.
* `exactSizes_of_mapBuffer`: the same for the three kinds of context.
-/

namespace Hinoko

namespace FwIsoCtxState

def entrySize (st : FwIsoCtxState) : Nat := 4 + if st.mode = .it then st.headerSize.toNat else 0

/-- What `map_buffer` leaves has the sizes it has been asked for, as numbers: the length given to
`mmap`, the size of the buffer that is worked out again later, and the length of the store. -/
structure ExactSizes (bytes chunks entry : Nat) (o : Out FwIsoCtxState) : Prop where
  length : ∃ length writable answer, o.effects = [.mmap length writable answer] ∧
    length.toNat = bytes * chunks
  bytesPerBuffer : o.state.bytesPerBuffer.toNat = bytes * chunks
  allocDataLength : o.state.allocDataLength.toNat = chunks * entry
  slots : ∀ i < chunks, i * bytes + bytes ≤ o.state.bytesPerBuffer.toNat
  entries : ∃ block, o.state.data = some block ∧ chunks * entry ≤ block.size
  chunk : bytes ≤ o.state.bytesPerBuffer.toNat

def Products (bytes chunks entry : Nat) : Prop :=
  bytes * chunks < 4294967296 ∧ chunks * entry < 4294967296

theorem toNat_datumSize {st : FwIsoCtxState} (h : st.entrySize < 4294967296) :
    st.datumSize.toNat = st.entrySize := by
  have h4 : sizeofFwCdevIsoPacket.toNat = 4 := rfl
  simp only [entrySize] at h ⊢
  rw [datumSize, UInt32.toNat_add, h4]
  split at h <;> simp_all

/-- **The sizes are exact** when no product reaches `2 ^ 32`. -/
theorem exactSizes_iff (st : FwIsoCtxState) {bytes chunks : UInt32} {env : MapEnv}
    (hret : (st.mapBuffer bytes chunks env).ret = .success) :
    ExactSizes bytes.toNat chunks.toNat st.entrySize (st.mapBuffer bytes chunks env) ↔
      Products bytes.toNat chunks.toNat st.entrySize := by
  obtain ⟨_, hchunks, id, _, hstate⟩ := mapBuffer_of_success hret
  have heffects : ∃ writable answer, (st.mapBuffer bytes chunks env).effects =
      [.mmap (bytes * chunks) writable answer] := by
    rcases st.mapBuffer_cases bytes chunks env with hr | ⟨_, heffects, _⟩
    · have hfalse := hr.ret
      rw [hret] at hfalse
      exact hfalse.elim
    · exact ⟨_, _, heffects⟩
  refine ⟨fun h => ?_, fun ⟨hbuffer, hstore⟩ => ?_⟩
  · have hlt := (st.mapBuffer bytes chunks env).state.bytesPerBuffer.toNat_lt
    have hlt' := (st.mapBuffer bytes chunks env).state.allocDataLength.toNat_lt
    rw [h.bytesPerBuffer] at hlt
    rw [h.allocDataLength] at hlt'
    exact ⟨hlt, hlt'⟩
  · have hpos : 0 < chunks.toNat := by
      have := UInt32.toNat_inj.not.mpr hchunks
      rw [UInt32.toNat_zero] at this
      omega
    have hone : bytes.toNat ≤ bytes.toNat * chunks.toNat := Nat.le_mul_of_pos_right _ hpos
    have hentry : st.entrySize ≤ chunks.toNat * st.entrySize := Nat.le_mul_of_pos_left _ hpos
    have hdatum : st.datumSize.toNat = st.entrySize := toNat_datumSize (by omega)
    have hbytes : (bytes * chunks).toNat = bytes.toNat * chunks.toNat := by
      rw [UInt32.toNat_mul, Nat.mod_eq_of_lt hbuffer]
    have hB : (st.mapBuffer bytes chunks env).state.bytesPerBuffer = bytes * chunks := by
      rw [hstate]
      rfl
    have hfour : 4 ≤ st.entrySize := Nat.le_add_right _ _
    obtain ⟨writable, answer, heffects⟩ := heffects
    refine ⟨⟨_, writable, answer, heffects, hbytes⟩, hB ▸ hbytes, ?_, fun i hi => ?_, ?_, ?_⟩
    · rw [hstate, ← hdatum]
      exact (UInt32.toNat_mul ..).trans (Nat.mod_eq_of_lt (hdatum ▸ hstore))
    · rw [hB, hbytes, ← Nat.succ_mul, Nat.mul_comm]
      exact Nat.mul_le_mul_left _ hi
    · rw [hstate]
      refine ⟨_, if_neg ?_, ?_⟩
      · rw [hdatum]
        exact Nat.mul_ne_zero hpos.ne' (by omega)
      · simp only [hdatum, Nat.le_refl]
    · rw [hB, hbytes]
      exact hone

end FwIsoCtxState

/-- The number of bytes of a chunk of a multiple-channel IR context: whole quadlets. -/
def wholeQuadlets (bytes : Nat) : Nat := (bytes + 3) / 4 * 4

/-- Where a size is accepted, rounding it up has not wrapped. -/
theorem toNat_rounded {bytes : UInt32} (h : (bytes + 3) / 4 * 4 ≠ 0) :
    ((bytes + 3) / 4 * 4).toNat = wholeQuadlets bytes.toNat := by
  have h4 : (4 : UInt32).toNat = 4 := rfl
  have h3 : (3 : UInt32).toNat = 3 := rfl
  have hlt := bytes.toNat_lt
  rw [ne_eq, ← UInt32.toNat_inj, UInt32.toNat_zero] at h
  rw [wholeQuadlets]
  simp only [UInt32.toNat_mul, UInt32.toNat_div, UInt32.toNat_add, h4, h3] at h ⊢
  omega

/-- **The sizes of a mapping that succeeds are exact** when no product reaches `2 ^ 32`. -/
theorem exactSizes_of_mapBuffer (it : FwIsoIt) (irSingle : FwIsoIrSingle)
    (irMultiple : FwIsoIrMultiple) (bytes chunks : UInt32) (env : MapEnv) (mem : ByteMem)
    (menv : MapMultipleEnv) :
    ((it.mapBuffer bytes chunks env mem).ret = .success →
      (FwIsoCtxState.ExactSizes bytes.toNat chunks.toNat it.state.entrySize
          ((it.mapBuffer bytes chunks env mem).map FwIsoIt.state) ↔
        FwIsoCtxState.Products bytes.toNat chunks.toNat it.state.entrySize)) ∧
    ((irSingle.mapBuffer bytes chunks env).ret = .success →
      (FwIsoCtxState.ExactSizes bytes.toNat chunks.toNat irSingle.state.entrySize
          ((irSingle.mapBuffer bytes chunks env).map FwIsoIrSingle.state) ↔
        FwIsoCtxState.Products bytes.toNat chunks.toNat irSingle.state.entrySize)) ∧
    ((irMultiple.mapBuffer bytes chunks menv).ret = .success →
      (FwIsoCtxState.ExactSizes (wholeQuadlets bytes.toNat) chunks.toNat
          irMultiple.state.entrySize
          ((irMultiple.mapBuffer bytes chunks menv).map FwIsoIrMultiple.state) ↔
        FwIsoCtxState.Products (wholeQuadlets bytes.toNat) chunks.toNat
          irMultiple.state.entrySize)) := by
  refine ⟨fun hret => it.state.exactSizes_iff hret, fun hret => irSingle.state.exactSizes_iff hret,
    fun hret => ?_⟩
  obtain ⟨hstate, hret', heffects⟩ := irMultiple.mapBuffer_state bytes chunks menv
  rw [hret'] at hret
  have hexact := irMultiple.state.exactSizes_iff hret
  obtain ⟨hbytes, _⟩ := FwIsoCtxState.mapBuffer_of_success hret
  have hsame : (irMultiple.mapBuffer bytes chunks menv).map FwIsoIrMultiple.state =
      irMultiple.state.mapBuffer ((bytes + 3) / 4 * 4) chunks menv.toMapEnv := by
    rw [Out.map, hstate, hret', heffects]
  rw [hsame, ← toNat_rounded hbytes]
  exact hexact

def itReady : FwIsoIt := (FwIsoIt.new.allocate (some "/dev/fw0") 0 0 4 grantAllocate).state
def irSingleReady : FwIsoIrSingle :=
  (FwIsoIrSingle.new.allocate (some "/dev/fw0") 0 4 grantAllocate).state
def irMultipleReady : FwIsoIrMultiple :=
  (FwIsoIrMultiple.new.allocateState (some "/dev/fw0") grantAllocate).state

def grantMapMultiple : MapMultipleEnv := ⟨grantMap, 2, fun _ => 0, 3, fun _ => ⟨0, 0⟩⟩

/-- **Sizes wrap unnoticed**: a buffer for 65537 chunks of 65536 bytes is one of 65536 bytes. -/
theorem exactSizes_fails :
    (irSingleReady.mapBuffer 65536 65537 grantMap).ret = .success ∧
      (irSingleReady.mapBuffer 65536 65537 grantMap).effects = [.mmap 65536 false (.ok 1)] ∧
      ¬ FwIsoCtxState.ExactSizes 65536 65537 4
        ((irSingleReady.mapBuffer 65536 65537 grantMap).map FwIsoIrSingle.state) := by
  refine ⟨by decide +kernel, by decide +kernel, fun h => ?_⟩
  exact absurd h.bytesPerBuffer (by decide +kernel)

/-- The theorem at a buffer for two chunks of seven bytes. -/
theorem exactSizes_small :
    FwIsoCtxState.ExactSizes 7 2 8 ((itReady.mapBuffer 7 2 grantMap fun _ => 0).map FwIsoIt.state) ∧
      FwIsoCtxState.ExactSizes 7 2 4
        ((irSingleReady.mapBuffer 7 2 grantMap).map FwIsoIrSingle.state) ∧
      FwIsoCtxState.ExactSizes 8 2 4
        ((irMultipleReady.mapBuffer 7 2 grantMapMultiple).map FwIsoIrMultiple.state) := by
  obtain ⟨hit, hsingle, hmultiple⟩ := exactSizes_of_mapBuffer itReady irSingleReady
    irMultipleReady 7 2 grantMap (fun _ => 0) grantMapMultiple
  exact ⟨(hit (by decide +kernel)).mpr ⟨by decide +kernel, by decide +kernel⟩,
    (hsingle (by decide +kernel)).mpr ⟨by decide +kernel, by decide +kernel⟩,
    (hmultiple (by decide +kernel)).mpr ⟨by decide +kernel, by decide +kernel⟩⟩

end Hinoko
