import Mathlib

/-!
# Steps that stand still

A list of steps, some of which make no progress.  `Bounded P k n as` says that no more than `k`
steps in a row stand still, and no more than `n` at the beginning.

* `exists_moving`: of `k + 1` steps in a row one moves.
* `bounded_congr`: lists of steps that correspond to each other.
-/

namespace Stutter

variable {α β : Type}

/-- At most `n` steps stand still before the first that moves, and at most `k` behind one. -/
def Bounded (P : α → Prop) (k : Nat) : Nat → List α → Prop
  | _, [] => True
  | n, a :: as => (P a → 0 < n ∧ Bounded P k (n - 1) as) ∧ (¬ P a → Bounded P k k as)

variable {P : α → Prop} {Q : β → Prop} {k : Nat}

theorem Bounded.mono : ∀ {as : List α} {n n' : Nat}, Bounded P k n as → n ≤ n' →
    Bounded P k n' as := by
  intro as
  induction as with
  | nil => exact fun _ _ => trivial
  | cons a as ih =>
    intro n n' h hle
    refine ⟨fun hstill => ?_, h.2⟩
    obtain ⟨hpos, hrest⟩ := h.1 hstill
    exact ⟨by omega, ih hrest (by omega)⟩

/-- At the beginning one of `n + 1` steps moves. -/
theorem Bounded.exists_first : ∀ {block : List α} {n : Nat} {post : List α},
    Bounded P k n (block ++ post) → n < block.length → ∃ a ∈ block, ¬ P a := by
  intro block
  induction block with
  | nil => exact fun _ h => absurd h (Nat.not_lt_zero _)
  | cons a block ih =>
    intro n post h hlen
    by_cases hstill : P a
    · obtain ⟨hpos, hrest⟩ := h.1 hstill
      obtain ⟨b, hb, hmoves⟩ := ih hrest (by rw [List.length_cons] at hlen; omega)
      exact ⟨b, List.mem_cons_of_mem _ hb, hmoves⟩
    · exact ⟨a, List.mem_cons_self, hstill⟩

/-- **Of `k + 1` steps in a row one moves.** -/
theorem Bounded.exists_moving {block post : List α} (hlen : k < block.length) :
    ∀ {pre : List α} {n : Nat}, n ≤ k → Bounded P k n (pre ++ (block ++ post)) →
      ∃ a ∈ block, ¬ P a := by
  intro pre
  induction pre with
  | nil =>
    intro n hn h
    rw [List.nil_append] at h
    exact h.exists_first (Nat.lt_of_le_of_lt hn hlen)
  | cons a pre ih =>
    intro n hn h
    by_cases hstill : P a
    · exact ih (by omega) (h.1 hstill).2
    · exact ih (Nat.le_refl k) (h.2 hstill)

/-- **Steps that correspond to each other.** -/
theorem bounded_congr : ∀ {as : List α} {bs : List β} {n : Nat},
    List.Forall₂ (fun a b => P a ↔ Q b) as bs → (Bounded P k n as ↔ Bounded Q k n bs) := by
  intro as bs n h
  induction h generalizing n with
  | nil => exact Iff.rfl
  | cons hab _ ih => rw [Bounded, Bounded, hab, ih, ih]

end Stutter
