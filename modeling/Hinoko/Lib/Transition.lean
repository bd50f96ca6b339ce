import Mathlib

/-!
# Runs of a machine

A machine goes from state to state, one move after the other.  `run` is where a list of
moves leads to, and `Allowed` says that each of them is made where a guard permits it:
what the surroundings of the machine promise, or a condition under study.

* `run_keeps`: the rule for invariants.
* `run_relates`: the rule for what holds between the start and the end of a run.
-/

namespace Transition

variable {σ μ : Type}

def run (step : σ → μ → σ) (s : σ) (ms : List μ) : σ := ms.foldl step s

/-- Each move is made in a state where `g` allows it. -/
def Allowed (step : σ → μ → σ) (g : μ → σ → Prop) : σ → List μ → Prop
  | _, [] => True
  | s, m :: ms => g m s ∧ Allowed step g (step s m) ms

variable {step : σ → μ → σ} {g : μ → σ → Prop}

@[simp] theorem run_nil (s : σ) : run step s [] = s := rfl

@[simp] theorem run_cons (s : σ) (m : μ) (ms : List μ) :
    run step s (m :: ms) = run step (step s m) ms := rfl

theorem run_append (s : σ) (ms ns : List μ) : run step s (ms ++ ns) = run step (run step s ms) ns :=
  List.foldl_append

theorem allowed_append : ∀ {ms ns : List μ} {s : σ},
    Allowed step g s (ms ++ ns) ↔ Allowed step g s ms ∧ Allowed step g (run step s ms) ns := by
  intro ms
  induction ms with
  | nil =>
    intro ns s
    rw [List.nil_append, run_nil, Allowed, true_and]
  | cons m ms ih =>
    intro ns s
    rw [List.cons_append, Allowed, Allowed, ih, run_cons, and_assoc]

theorem Allowed.mono {h : μ → σ → Prop} (hle : ∀ m s, g m s → h m s) :
    ∀ {ms : List μ} {s : σ}, Allowed step g s ms → Allowed step h s ms := by
  intro ms
  induction ms with
  | nil => exact fun _ => trivial
  | cons m ms ih => exact fun hms => ⟨hle _ _ hms.1, ih hms.2⟩

theorem allowed_of_forall (h : ∀ m s, g m s) : ∀ (ms : List μ) (s : σ), Allowed step g s ms := by
  intro ms
  induction ms with
  | nil => exact fun _ => trivial
  | cons m ms ih => exact fun s => ⟨h m s, ih (step s m)⟩

/-- **A run keeps what every move keeps where it is allowed.** -/
theorem run_keeps {I : σ → Prop} (hstep : ∀ m s, g m s → I s → I (step s m)) :
    ∀ {ms : List μ} {s : σ}, Allowed step g s ms → I s → I (run step s ms) := by
  intro ms
  induction ms with
  | nil => exact fun _ hs => hs
  | cons m ms ih => exact fun hms hs => ih hms.2 (hstep _ _ hms.1 hs)

/-- A run keeps what every move keeps, wherever it is made. -/
theorem run_keeps_always {I : σ → Prop} (hstep : ∀ m s, I s → I (step s m)) :
    ∀ (ms : List μ) {s : σ}, I s → I (run step s ms) := by
  intro ms
  induction ms with
  | nil => exact fun hs => hs
  | cons m ms ih => exact fun hs => ih (hstep m _ hs)

/-- **A run relates its ends** as each move relates the states before and after it. -/
theorem run_relates {I : σ → Prop} {R : σ → σ → Prop} (hrefl : ∀ s, R s s)
    (htrans : ∀ a b c, R a b → R b c → R a c) (hstep : ∀ m s, g m s → I s → I (step s m))
    (hrel : ∀ m s, g m s → I s → R s (step s m)) :
    ∀ {ms : List μ} {s : σ}, Allowed step g s ms → I s → R s (run step s ms) := by
  intro ms
  induction ms with
  | nil => exact fun _ _ => hrefl _
  | cons m ms ih =>
    exact fun hms hs => htrans _ _ _ (hrel _ _ hms.1 hs) (ih hms.2 (hstep _ _ hms.1 hs))

end Transition
