import Mathlib

/-!
# Protocols

A protocol says which events may come where: in a state `q` the event `e` is permitted or not,
and if it is, `next q e` is the state behind it.  `follow` is the state behind a list of events,
if every event of it is permitted.

* `follow_append`: lists of events, one behind the other.
* `count_of_follow`: the rule for events that come in pairs.
-/

namespace Protocol

/-- Which events may come in a state, and where they lead to. -/
structure Rules (θ ε : Type) where
  permits : θ → ε → Bool
  next : θ → ε → θ

variable {θ ε : Type} (r : Rules θ ε)

/-- Where a list of events leads to, if each of them is permitted where it comes. -/
def follow : θ → List ε → Option θ
  | q, [] => some q
  | q, e :: es => if r.permits q e then follow (r.next q e) es else none

variable {r}

@[simp] theorem follow_nil (q : θ) : follow r q [] = some q := rfl

theorem follow_cons {q : θ} {e : ε} (h : r.permits q e) (es : List ε) :
    follow r q (e :: es) = follow r (r.next q e) es := by
  rw [follow, if_pos h]

theorem follow_cons_eq_some {q q' : θ} {e : ε} {es : List ε} :
    follow r q (e :: es) = some q' ↔ r.permits q e ∧ follow r (r.next q e) es = some q' := by
  by_cases h : r.permits q e
  · rw [follow_cons h]
    exact ⟨fun hf => ⟨h, hf⟩, fun hf => hf.2⟩
  · rw [follow, if_neg h]
    refine iff_of_false (fun hf => ?_) fun hf => h hf.1
    cases hf

theorem follow_append : ∀ {es fs : List ε} {q q' : θ}, follow r q es = some q' →
    follow r q (es ++ fs) = follow r q' fs := by
  intro es
  induction es with
  | nil =>
    intro fs q q' h
    obtain rfl := Option.some.inj h
    rfl
  | cons e es ih =>
    intro fs q q' h
    obtain ⟨hpermits, hrest⟩ := follow_cons_eq_some.mp h
    rw [List.cons_append, follow_cons hpermits, ih hrest]

/-- **A flag that some events raise and others take back** tells how many there have been. -/
theorem count_of_follow (flag : θ → Bool) (gains pays : ε → Bool)
    (hstep : ∀ q e, r.permits q e → (gains e).toNat + (flag q).toNat =
      (pays e).toNat + (flag (r.next q e)).toNat) :
    ∀ {es : List ε} {q q' : θ}, follow r q es = some q' →
      es.countP gains + (flag q).toNat = es.countP pays + (flag q').toNat := by
  intro es
  induction es with
  | nil =>
    intro q q' h
    obtain rfl := Option.some.inj h
    rfl
  | cons e es ih =>
    intro q q' h
    obtain ⟨hpermits, hrest⟩ := follow_cons_eq_some.mp h
    have hes := ih hrest
    have hone := hstep q e hpermits
    rw [List.countP_cons, List.countP_cons]
    cases hg : gains e <;> cases hp : pays e <;>
      simp only [hg, hp, Bool.toNat_true, Bool.toNat_false, if_true, Bool.false_eq_true,
        if_false] at hone ⊢ <;> omega

end Protocol
