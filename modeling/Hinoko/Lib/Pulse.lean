import Mathlib

/-!
# Every so many

A counter that counts on, and from a limit on keeps only its remainder, so that it stays small; and
lists in which every so many entries have a property.

* `tick_mod`, `tick_lt`: such a counter still tells the multiples, and does not pass its bound.
* `countP_window`: among so many entries in a row, one has the property.
-/

namespace Pulse

/-! ### Counters -/

/-- Count on; at the limit only the remainder is kept. -/
def tick (p limit c : Nat) : Nat := if limit ≤ c + 1 then (c + 1) % p else c + 1

variable {p limit c n : Nat}

theorem tick_mod : tick p limit c % p = (c + 1) % p := by
  rw [tick]
  split
  · exact Nat.mod_mod _ _
  · rfl

theorem tick_lt (hp : 0 < p) : tick p limit c < max p limit := by
  rw [tick]
  split
  · exact lt_max_of_lt_left (Nat.mod_lt _ hp)
  next hlimit => exact lt_max_of_lt_right (not_le.mp hlimit)

/-! ### Lists -/

variable {α : Type} {q : α → Bool} {as : List α}

/-- Where every `p`-th entry has the property, counted from 1, the first `n` entries have it `n / p`
times. -/
theorem countP_take (h : ∀ k (hk : k < as.length), q as[k] = true ↔ p ∣ k + 1) :
    n ≤ as.length → (as.take n).countP q = n / p := by
  induction n with
  | zero => exact fun _ => (Nat.zero_div p).symm
  | succ n ih =>
    intro hn
    rw [List.take_succ_eq_append_getElem hn, List.countP_append, ih (Nat.le_of_succ_le hn),
      List.countP_singleton, Nat.succ_div]
    simp only [h n hn]

/-- **Among `p` entries in a row** one has the property. -/
theorem countP_window (hp : 0 < p) (h : ∀ k (hk : k < as.length), q as[k] = true ↔ p ∣ k + 1)
    (hn : n + p ≤ as.length) : ((as.drop n).take p).countP q = 1 := by
  have hboth := countP_take h hn
  rw [List.take_add, List.countP_append, countP_take h (by omega), Nat.add_div_right n hp] at hboth
  omega

end Pulse
