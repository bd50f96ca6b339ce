import Mathlib

/-!
# Masks

A word of 64 bits that says which positions below 64 are meant.

* `ext`: a mask is known by its positions, in whatever order they have been put into it.
* `has_foldl`: a loop that puts positions into a mask puts in those of every item.
* `has_iff_and`: the usual test of a position.
* `positions`: the positions of a mask, in order.
-/

namespace Mask

def Has (m : UInt64) (i : Nat) : Prop := m.toNat.testBit i = true

instance (m : UInt64) : DecidablePred (Has m) := fun i =>
  inferInstanceAs (Decidable (m.toNat.testBit i = true))

variable {m m' : UInt64} {i : Nat}

theorem ext (h : ∀ i, Has m i ↔ Has m' i) : m = m' :=
  UInt64.toNat_inj.mp (Nat.eq_of_testBit_eq fun i => Bool.eq_iff_iff.mpr (h i))

theorem Has.lt (h : Has m i) : i < 64 := by
  by_contra hge
  have hzero : m.toNat.testBit i = false := Nat.testBit_lt_two_pow (m.toNat_lt.trans_le
    (Nat.pow_le_pow_right (by decide) (Nat.not_lt.mp hge)))
  rw [Has, hzero] at h
  cases h

theorem not_has_zero : ¬ Has 0 i := by
  rw [Has, UInt64.toNat_zero, Nat.zero_testBit]
  exact Bool.false_ne_true

theorem eq_zero_iff : m = 0 ↔ ∀ i, ¬ Has m i := by
  refine ⟨?_, fun h => ext fun i => iff_of_false (h i) not_has_zero⟩
  rintro rfl i
  exact not_has_zero

theorem has_or : Has (m ||| m') i ↔ Has m i ∨ Has m' i := by
  rw [Has, UInt64.toNat_or, Nat.testBit_or, Bool.or_eq_true]
  exact Iff.rfl

theorem has_single {k : UInt64} (hk : k.toNat < 64) : Has (1 <<< k) i ↔ i = k.toNat := by
  have hone : ((1 : UInt64) <<< k).toNat = 2 ^ k.toNat := by
    have hpow : 2 ^ k.toNat < 2 ^ 64 := Nat.pow_lt_pow_right (by decide) hk
    rw [UInt64.toNat_shiftLeft, Nat.mod_eq_of_lt hk, UInt64.toNat_one, Nat.one_shiftLeft,
      Nat.mod_eq_of_lt hpow]
  rw [Has, hone, Nat.testBit_two_pow, decide_eq_true_eq, eq_comm]

/-- **What a loop puts into a mask.** -/
theorem has_foldl {α : Type} {step : UInt64 → α → UInt64} {P : α → Nat → Prop} :
    ∀ (l : List α) {m : UInt64}, (∀ a ∈ l, ∀ m i, Has (step m a) i ↔ Has m i ∨ P a i) →
      (Has (l.foldl step m) i ↔ Has m i ∨ ∃ a ∈ l, P a i) := by
  intro l
  induction l with
  | nil =>
    intro m _
    simp
  | cons a l ih =>
    intro m hstep
    rw [List.foldl_cons, ih fun b hb => hstep b (List.mem_cons_of_mem _ hb),
      hstep a List.mem_cons_self, or_assoc]
    simp only [List.mem_cons, exists_eq_or_imp]

theorem has_iff_and (hi : i < 64) : Has m i ↔ m &&& (1 : UInt64) <<< UInt64.ofNat i ≠ 0 := by
  have hnat : (UInt64.ofNat i).toNat = i := by
    rw [UInt64.toNat_ofNat', Nat.mod_eq_of_lt (hi.trans (by decide))]
  have hand : ∀ j, Has (m &&& (1 : UInt64) <<< UInt64.ofNat i) j ↔ Has m j ∧ j = i := by
    intro j
    have hsingle := has_single (i := j) (k := UInt64.ofNat i) (by rwa [hnat])
    rw [hnat] at hsingle
    rw [← hsingle, Has, UInt64.toNat_and, Nat.testBit_and, Bool.and_eq_true]
    exact Iff.rfl
  rw [Ne, eq_zero_iff]
  refine ⟨fun h hnone => hnone i ((hand i).mpr ⟨h, rfl⟩), fun h => ?_⟩
  obtain ⟨j, hj⟩ := not_forall_not.mp h
  obtain ⟨hm, rfl⟩ := (hand j).mp hj
  exact hm

def positions (m : UInt64) : List Nat := (List.range 64).filter (Has m)

theorem mem_positions : i ∈ positions m ↔ Has m i := by
  rw [positions, List.mem_filter, List.mem_range, decide_eq_true_eq]
  exact ⟨And.right, fun h => ⟨h.lt, h⟩⟩

theorem positions_increase : (positions m).Pairwise (· < ·) :=
  (List.pairwise_lt_range).filter _

end Mask
