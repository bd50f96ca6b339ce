import Mathlib

/-!
# Bit fields

A word made of fields that are shifted to their places and or-ed.  `field n start len` is the
number in the `len` bits of `n` from bit `start` on.

* `field_or`: reading a field of words that are or-ed.
* `field_shift_of_le`, `field_shift_of_lt`: reading a field of a shifted word, at its place and
  below it.
* `field_of_lt`: a number has no bits above its size.
-/

namespace Bitfield

/-- The number in the bits from `start` up to `start + len`. -/
def field (n start len : Nat) : Nat := n / 2 ^ start % 2 ^ len

variable {n a b start len k : Nat}

theorem field_or : field (a ||| b) start len = field a start len ||| field b start len := by
  simp only [field, ← Nat.shiftRight_eq_div_pow, Nat.shiftRight_or_distrib, Nat.or_mod_two_pow]

theorem field_of_lt (h : n < 2 ^ start) : field n start len = 0 := by
  rw [field, Nat.div_eq_of_lt h, Nat.zero_mod]

theorem field_lt : field n start len < 2 ^ len := Nat.mod_lt _ (Nat.two_pow_pos len)

theorem field_shift_of_le (h : k ≤ start) :
    field (n * 2 ^ k) start len = field n (start - k) len := by
  rw [field, field, ← Nat.sub_add_cancel h, Nat.pow_add, Nat.add_sub_cancel,
    Nat.mul_div_mul_right _ _ (Nat.two_pow_pos k)]

theorem field_shift_of_lt (h : start + len ≤ k) : field (n * 2 ^ k) start len = 0 := by
  obtain ⟨d, rfl⟩ := Nat.exists_eq_add_of_le h
  rw [field, Nat.pow_add, Nat.pow_add, show n * (2 ^ start * 2 ^ len * 2 ^ d) =
    (n * 2 ^ d * 2 ^ len) * 2 ^ start by ring, Nat.mul_div_cancel _ (Nat.two_pow_pos start),
    Nat.mul_mod_left]

theorem field_mod (h : start + len ≤ k) : field (n % 2 ^ k) start len = field n start len := by
  obtain ⟨d, rfl⟩ := Nat.exists_eq_add_of_le h
  rw [field, field, Nat.add_assoc, Nat.pow_add, Nat.mod_mul_right_div_self, Nat.pow_add,
    Nat.mod_mul_right_mod]

end Bitfield
