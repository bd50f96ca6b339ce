import Mathlib

/-!
# The bandwidth of a packet

`hinoko_fw_iso_resource_calculate_bandwidth`, which tells how many allocation units a packet
takes: a unit is the time of one quadlet at S1600, so a packet of `n` bytes takes `n` units at
S400, and at each speed above it half of those of the speed below.

* `reserves_iff`: when the result is the least number of units that is enough.
* `bandwidth_iff`: that, and what follows of it for payloads and speeds in order.
-/

namespace Hinoko

/-- `HinokoFwScode`. -/
inductive FwScode where
  | s100
  | s200
  | s400
  | s800
  | s1600
  | s3200
deriving DecidableEq, Repr

def FwScode.code : FwScode → UInt32
  | .s100 => 0
  | .s200 => 1
  | .s400 => 2
  | .s800 => 3
  | .s1600 => 4
  | .s3200 => 5

/-- `hinoko_fw_iso_resource_calculate_bandwidth`. -/
def calculateBandwidth (bytesPerPayload : UInt32) (scode : FwScode) : UInt32 :=
  let bytesPerPacket := 3 * 4 + (bytesPerPayload + 3) / 4 * 4
  if scode.code ≤ FwScode.s400.code then
    bytesPerPacket * (1 : UInt32) <<< (FwScode.s400.code - scode.code)
  else bytesPerPacket / (1 : UInt32) <<< (scode.code - FwScode.s400.code)

/-! ### What is to be reserved -/

/-- The bytes of a packet: three header quadlets, and the payload padded to quadlets. -/
def bytesOnBus (bytesPerPayload : Nat) : Nat := 12 + 4 * (bytesPerPayload ⌈/⌉ 4)

/-- The units are enough for the packet, and no fewer are. -/
def Reserves (bytesPerPayload : Nat) (scode : FwScode) (units : Nat) : Prop :=
  IsLeast {u | 4 * bytesOnBus bytesPerPayload ≤ u * 2 ^ scode.code.toNat} units

theorem isLeast_ceilDiv (n : Nat) {k : Nat} (hk : 0 < k) : IsLeast {u | n ≤ u * k} (n ⌈/⌉ k) := by
  have hle : ∀ u, n ⌈/⌉ k ≤ u ↔ n ≤ u * k := fun u => by
    rw [Nat.mul_comm]
    exact ceilDiv_le_iff_le_mul hk
  exact ⟨(hle _).mp (le_refl _), fun u hu => (hle u).mpr hu⟩

theorem reserves_iff_eq {bytes units : Nat} {scode : FwScode} :
    Reserves bytes scode units ↔ units = 4 * bytesOnBus bytes ⌈/⌉ 2 ^ scode.code.toNat := by
  have hleast := isLeast_ceilDiv (4 * bytesOnBus bytes) (Nat.two_pow_pos scode.code.toNat)
  refine ⟨fun h => h.unique hleast, ?_⟩
  rintro rfl
  exact hleast

theorem Reserves.mono {bytes bytes' units units' : Nat} {scode : FwScode}
    (h : Reserves bytes scode units) (h' : Reserves bytes' scode units') (hle : bytes ≤ bytes') :
    units ≤ units' := by
  have hceil : bytes ⌈/⌉ 4 ≤ bytes' ⌈/⌉ 4 := by
    simp only [Nat.ceilDiv_eq_add_pred_div]
    omega
  have hbytes : 4 * bytesOnBus bytes ≤ 4 * bytesOnBus bytes' := by
    simp only [bytesOnBus]
    omega
  exact h.2 (hbytes.trans h'.1)

theorem Reserves.anti {bytes units units' : Nat} {scode scode' : FwScode}
    (h : Reserves bytes scode units) (h' : Reserves bytes scode' units')
    (hle : scode.code ≤ scode'.code) : units' ≤ units := by
  have hpow : 2 ^ scode.code.toNat ≤ 2 ^ scode'.code.toNat :=
    Nat.pow_le_pow_right (by decide) (UInt32.le_iff_toNat_le.mp hle)
  have henough : 4 * bytesOnBus bytes ≤ units * 2 ^ scode.code.toNat := h.1
  exact h'.2 (henough.trans (Nat.mul_le_mul_left units hpow))

/-! ### What is computed -/

/-- The result over the integers: every sum and product is cut to 32 bits, and from S800 on the
units are rounded down. -/
theorem toNat_calculateBandwidth (bytesPerPayload : UInt32) (scode : FwScode) :
    (calculateBandwidth bytesPerPayload scode).toNat =
      if scode.code.toNat ≤ 2 then
        bytesOnBus bytesPerPayload.toNat * 2 ^ (2 - scode.code.toNat) % 4294967296
      else bytesOnBus bytesPerPayload.toNat % 4294967296 / 2 ^ (scode.code.toNat - 2) := by
  have hlt := bytesPerPayload.toNat_lt
  have hpacket : (3 * 4 + (bytesPerPayload + 3) / 4 * 4 : UInt32).toNat =
      bytesOnBus bytesPerPayload.toNat % 4294967296 := by
    simp only [bytesOnBus, Nat.ceilDiv_eq_add_pred_div, UInt32.toNat_add, UInt32.toNat_mul,
      UInt32.toNat_div, UInt32.reduceToNat]
    omega
  rw [calculateBandwidth]
  generalize (3 * 4 + (bytesPerPayload + 3) / 4 * 4 : UInt32) = packet at hpacket
  cases scode <;>
    simp only [FwScode.code, UInt32.reduceLE, UInt32.reduceSub, if_true, if_false, UInt32.toNat_mul,
      UInt32.toNat_div, hpacket] <;>
    simp

/-- The units fit in 32 bits on the way, and no half of a unit of S1600 is lost. -/
structure Countable (bytesPerPayload : UInt32) (scode : FwScode) : Prop where
  wrap : bytesOnBus bytesPerPayload.toNat * 2 ^ (2 - scode.code.toNat) < 4294967296
  round : scode = .s3200 → 8 ∣ bytesOnBus bytesPerPayload.toNat

/-- **When the result is the least number of units that is enough.** -/
theorem reserves_iff {bytesPerPayload : UInt32} {scode : FwScode} :
    Reserves bytesPerPayload.toNat scode (calculateBandwidth bytesPerPayload scode).toNat ↔
      Countable bytesPerPayload scode := by
  have hlt := bytesPerPayload.toNat_lt
  obtain ⟨n, hn, hle⟩ : ∃ n, bytesOnBus bytesPerPayload.toNat = 4 * n ∧
      4 * n ≤ 4294967296 + 12 := by
    refine ⟨3 + bytesPerPayload.toNat ⌈/⌉ 4, ?_, ?_⟩
    · rw [bytesOnBus]
      omega
    · simp only [Nat.ceilDiv_eq_add_pred_div]
      omega
  rw [reserves_iff_eq, toNat_calculateBandwidth, Nat.ceilDiv_eq_add_pred_div]
  have hiff : Countable bytesPerPayload scode ↔ 4 * n * 2 ^ (2 - scode.code.toNat) < 4294967296 ∧
      (scode = .s3200 → 8 ∣ 4 * n) := by
    rw [← hn]
    exact ⟨fun h => ⟨h.1, h.2⟩, fun h => ⟨h.1, h.2⟩⟩
  rw [hiff, hn]
  cases scode <;> simp [FwScode.code] <;> omega

/-- **What is reserved**: the least number of units that is enough, exactly where nothing is lost in
computing it; and where that holds more is reserved for larger payloads, and less at higher
speeds. -/
theorem bandwidth_iff (bytesPerPayload : UInt32) (scode : FwScode) :
    (Reserves bytesPerPayload.toNat scode (calculateBandwidth bytesPerPayload scode).toNat ↔
      Countable bytesPerPayload scode) ∧
    (∀ larger, bytesPerPayload ≤ larger → Countable bytesPerPayload scode →
      Countable larger scode →
        calculateBandwidth bytesPerPayload scode ≤ calculateBandwidth larger scode) ∧
    ∀ faster, scode.code ≤ FwScode.code faster → Countable bytesPerPayload scode →
      Countable bytesPerPayload faster →
        calculateBandwidth bytesPerPayload faster ≤ calculateBandwidth bytesPerPayload scode := by
  refine ⟨reserves_iff, fun larger hle h h' => ?_, fun faster hle h h' => ?_⟩
  · exact UInt32.le_iff_toNat_le.mpr
      ((reserves_iff.mpr h).mono (reserves_iff.mpr h') (UInt32.le_iff_toNat_le.mp hle))
  · exact UInt32.le_iff_toNat_le.mpr ((reserves_iff.mpr h).anti (reserves_iff.mpr h') hle)

/-- **An empty payload at S3200 is given too little**: twelve bytes need two units, and one is
reserved; and a packet that does not fit in 32 bits is given none. -/
theorem reserves_fails :
    ¬ Reserves 0 .s3200 (calculateBandwidth 0 .s3200).toNat ∧
      calculateBandwidth 0 .s3200 = 1 ∧ calculateBandwidth 0xfffffff1 .s400 = 0 := by
  refine ⟨fun h => ?_, by decide, by decide⟩
  have henough : 4 * bytesOnBus 0 ≤ (calculateBandwidth 0 .s3200).toNat * 2 ^ 5 := h.1
  exact absurd henough (by decide)

/-- The theorem at payloads of one and of three quadlets. -/
theorem bandwidth_quadlets : Reserves 4 .s3200 2 ∧
    calculateBandwidth 4 .s3200 ≤ calculateBandwidth 12 .s3200 ∧
    calculateBandwidth 4 .s3200 ≤ calculateBandwidth 4 .s100 := by
  have hone : Countable 4 .s3200 := ⟨by decide, fun _ => by decide⟩
  have hthree : Countable 12 .s3200 := ⟨by decide, fun _ => by decide⟩
  have hslow : Countable 4 .s100 := ⟨by decide, fun h => absurd h (by decide)⟩
  exact ⟨(bandwidth_iff 4 .s3200).1.mpr hone,
    (bandwidth_iff 4 .s3200).2.1 12 (by decide) hone hthree,
    (bandwidth_iff 4 .s100).2.2 .s3200 (by decide) hslow hone⟩

end Hinoko
