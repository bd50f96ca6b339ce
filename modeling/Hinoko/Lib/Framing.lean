import Mathlib

/-!
# Frames of a stream that arrives in pieces

A stream is a list of frames, one after the other, of which only the first `n` elements
have arrived.  `complete fs n` are the frames that have arrived as a whole.

A reader finds them by walking: from the start of a frame it learns the length of the
frame, once `head` elements of it are there, and goes on behind it if all of it is
there (`walk`).

* `complete_feed`: what arrives later only adds frames.
* `lt_length_walk_iff`: how many frames the walk takes.
* `walk_eq_complete`: the walk finds the complete frames.
-/

namespace Framing

variable {α : Type}

/-- The frames that lie wholly within the first `n` elements of the stream. -/
def complete : List (List α) → Nat → List (List α)
  | [], _ => []
  | f :: fs, n => if f.length ≤ n then f :: complete fs (n - f.length) else []

@[simp] theorem complete_nil (n : Nat) : complete ([] : List (List α)) n = [] := rfl

theorem complete_isPrefix (fs : List (List α)) : ∀ n : Nat, complete fs n <+: fs := by
  induction fs with
  | nil => exact fun n => List.prefix_refl _
  | cons f fs ih =>
    intro n
    rw [complete]
    split
    · exact List.cons_prefix_cons.mpr ⟨rfl, ih _⟩
    · exact List.nil_prefix

theorem length_flatten_complete_le (fs : List (List α)) :
    ∀ n : Nat, (complete fs n).flatten.length ≤ n := by
  induction fs with
  | nil => exact fun n => Nat.zero_le n
  | cons f fs ih =>
    intro n
    rw [complete]
    split
    · have := ih (n - f.length)
      rw [List.flatten_cons, List.length_append]
      omega
    · exact Nat.zero_le n

def rest (fs : List (List α)) (n : Nat) : List (List α) := fs.drop (complete fs n).length

theorem complete_append_rest (fs : List (List α)) (n : Nat) : complete fs n ++ rest fs n = fs :=
  List.prefix_iff_eq_append.mp (complete_isPrefix fs n)

/-- **More of the stream adds the frames that are complete behind those before.** -/
theorem complete_feed (fs : List (List α)) : ∀ {n n' : Nat}, n ≤ n' →
    complete fs n' =
      complete fs n ++ complete (rest fs n) (n' - (complete fs n).flatten.length) := by
  induction fs with
  | nil => exact fun _ => rfl
  | cons f fs ih =>
    intro n n' hle
    by_cases hf : f.length ≤ n
    · have h := @ih (n - f.length) (n' - f.length) (by omega)
      have hlen : n' - f.length - (complete fs (n - f.length)).flatten.length =
          n' - (f :: complete fs (n - f.length)).flatten.length := by
        rw [List.flatten_cons, List.length_append, Nat.sub_sub]
      rw [complete, if_pos (by omega), h, rest, rest, complete, if_pos hf, hlen]
      rfl
    · have hnone : complete (f :: fs) n = [] := if_neg hf
      rw [rest, hnone]
      rfl

/-- The lengths that a walk from `pos` over `avail` elements finds; `len` is the length that the
head at a position tells. -/
def walk (head : Nat) (len : Nat → Nat) : Nat → Nat → Nat → List Nat
  | 0, _, _ => []
  | fuel + 1, pos, avail =>
    if avail < head then []
    else if avail < len pos then []
    else len pos :: walk head len fuel (pos + len pos) (avail - len pos)

/-- How far the first frames behind `pos` reach. -/
def reach (len : Nat → Nat) : Nat → Nat → Nat
  | _, 0 => 0
  | pos, k + 1 => len pos + reach len (pos + len pos) k

/-- **A walk takes more than `k` frames** if the first `k + 1` are all there. -/
theorem lt_length_walk_iff {head : Nat} {len : Nat → Nat} (hpos : 0 < head)
    (hlen : ∀ pos, head ≤ len pos) : ∀ (k fuel pos avail : Nat), avail < fuel →
      (k < (walk head len fuel pos avail).length ↔ reach len pos (k + 1) ≤ avail) := by
  intro k fuel
  induction fuel generalizing k with
  | zero => exact fun _ _ h => absurd h (Nat.not_lt_zero _)
  | succ fuel ih =>
    intro pos avail hfuel
    have hhead := hlen pos
    rw [walk, reach]
    split
    next hshort => exact iff_of_false (Nat.not_lt_zero _) (by omega)
    next hshort =>
    split
    next hcut => exact iff_of_false (Nat.not_lt_zero _) (by omega)
    next hcut =>
    cases k with
    | zero => exact iff_of_true (Nat.succ_pos _) (by rw [reach]; omega)
    | succ k =>
      rw [List.length_cons, Nat.succ_lt_succ_iff, ih k _ _ (by omega)]
      omega

theorem sum_walk_le {head : Nat} {len : Nat → Nat} : ∀ fuel pos avail : Nat,
    (walk head len fuel pos avail).sum ≤ avail := by
  intro fuel
  induction fuel with
  | zero => exact fun _ _ => Nat.zero_le _
  | succ fuel ih =>
    intro pos avail
    rw [walk]
    split
    · exact Nat.zero_le _
    split
    · exact Nat.zero_le _
    · have := ih (pos + len pos) (avail - len pos)
      rw [List.sum_cons]
      omega

/-- **The walk finds the complete frames**, if each head that has arrived tells the length. -/
theorem walk_eq_complete {head : Nat} {len : Nat → Nat} (hhead : 0 < head) :
    ∀ (fuel : Nat) (fs : List (List α)) (pos avail : Nat), (∀ f ∈ fs, head ≤ f.length) →
      (∀ pre f post, fs = pre ++ f :: post → pre.flatten.length + head ≤ avail →
        len (pos + pre.flatten.length) = f.length) →
      avail ≤ fs.flatten.length → avail < fuel →
      walk head len fuel pos avail = (complete fs avail).map List.length := by
  intro fuel
  induction fuel with
  | zero => exact fun _ _ _ _ _ _ h => absurd h (Nat.not_lt_zero _)
  | succ fuel ih =>
    intro fs pos avail hlong hlen havail hfuel
    cases fs with
    | nil =>
      rw [walk, if_pos (by simp at havail; omega)]
      rfl
    | cons f fs =>
      have hf := hlong f (by simp)
      rw [walk, complete]
      by_cases hshort : avail < head
      · rw [if_pos hshort, if_neg (by omega)]
        rfl
      have hlenf : len pos = f.length := by
        simpa using hlen [] f fs rfl (by simpa using Nat.le_of_not_lt hshort)
      rw [if_neg hshort, hlenf]
      by_cases hcut : avail < f.length
      · rw [if_pos hcut, if_neg (by omega)]
        rfl
      rw [if_neg hcut, if_pos (by omega), List.map_cons]
      rw [List.flatten_cons, List.length_append] at havail
      congr 1
      refine ih fs (pos + f.length) (avail - f.length) (fun g hg => hlong g (by simp [hg])) ?_
        (by omega) (by omega)
      intro pre g post hfs hin
      have h := hlen (f :: pre) g post (by rw [hfs]; rfl) (by
        rw [List.flatten_cons, List.length_append]
        omega)
      rwa [List.flatten_cons, List.length_append, ← Nat.add_assoc] at h

end Framing
