import Hinoko.Lib.Labelled

/-!
# Records

What an operation does on its way need not show in the states.  `recording` runs the operations with
a record beside the state, to which each adds what it does when it is called, and what it does when
it is let go on for the first time.

* `erased_of_run`: without the record, the run is the one of the operations themselves.
* `run_paced`: the rule for what holds between the two ends of a run, whatever waited before it.
-/

namespace Reentrant

variable {σ κ α ο : Type}

namespace Act

/-- The operation beside a record, to which it adds nothing. -/
def silent : Act σ α → List κ → Act (σ × List κ) α
  | .done a s, log => .done a (s, log)
  | .emit s k, log => .emit (s, log) fun r => (k r.1).silent r.2

/-- The operation beside a record, to which it adds `g s` where it is let go on for the first time
in the state `s`. -/
def recordResume (g : σ → List κ) : Act σ α → List κ → Act (σ × List κ) α
  | .done a s, log => .done a (s, log)
  | .emit s k, log => .emit (s, log) fun r => (k r.1).silent (r.2 ++ g r.1)

/-- The first operation is the second beside a record. -/
def Erases : Act (σ × List κ) α → Act σ α → Prop
  | x, .done a s => ∃ log, x = .done a (s, log)
  | x, .emit s k => ∃ log k', x = .emit (s, log) k' ∧ ∀ r, (k' r).Erases (k r.1)

theorem erases_silent : ∀ (x : Act σ α) (log : List κ), (x.silent log).Erases x := by
  intro x
  induction x with
  | done a s => exact fun log => ⟨log, rfl⟩
  | emit s k ih => exact fun log => ⟨log, _, rfl, fun r => ih r.1 r.2⟩

theorem erases_recordResume (g : σ → List κ) (x : Act σ α) (log : List κ) :
    (x.recordResume g log).Erases x := by
  cases x with
  | done a s => exact ⟨log, rfl⟩
  | emit s k => exact ⟨log, _, rfl, fun r => erases_silent (k r.1) (r.2 ++ g r.1)⟩

end Act

/-- The operations with a record beside the state: `atOnce` is what a call does before it first
waits for the user, and `onResume` what it does after that. -/
def recording (exec : ο → σ → Act σ α) (atOnce : ο → σ → List κ) (onResume : ο → σ → σ → List κ)
    (op : ο) (r : σ × List κ) : Act (σ × List κ) α :=
  (exec op r.1).recordResume (onResume op r.1) (r.2 ++ atOnce op r.1)

/-! ### Erasing the record -/

/-- The first configuration is the second beside a record. -/
structure Erased (c' : Config (σ × List κ) α) (c : Config σ α) : Prop where
  state : c'.state.1 = c.state
  stack : List.Forall₂ (fun k' k => ∀ r, Act.Erases (k' r) (k r.1)) c'.stack c.stack

theorem Erased.enter {stack' : List (σ × List κ → Act (σ × List κ) α)} {stack : List (σ → Act σ α)}
    (hstack : List.Forall₂ (fun k' k => ∀ r, Act.Erases (k' r) (k r.1)) stack' stack)
    {x' : Act (σ × List κ) α} {x : Act σ α} (hx : x'.Erases x) :
    Erased (enter stack' x') (enter stack x) := by
  cases x with
  | done a s =>
    obtain ⟨log, rfl⟩ := hx
    exact ⟨rfl, hstack⟩
  | emit s k =>
    obtain ⟨log, k', rfl, hk⟩ := hx
    exact ⟨rfl, .cons hk hstack⟩

variable {exec : ο → σ → Act σ α} {exec' : ο → σ × List κ → Act (σ × List κ) α}

theorem step_erased (hexec : ∀ op r, (exec' op r).Erases (exec op r.1))
    {c' : Config (σ × List κ) α} {c : Config σ α} (hc : Erased c' c) (m : Move ο) :
    Erased (step exec' c' m) (step exec c m) := by
  obtain ⟨r, stack'⟩ := c'
  obtain ⟨s, stack⟩ := c
  obtain ⟨hstate, hstack⟩ := hc
  dsimp only at hstate hstack
  subst hstate
  cases m with
  | call op => exact Erased.enter hstack (hexec op r)
  | resume =>
    cases hstack with
    | nil => exact ⟨rfl, .nil⟩
    | cons hk hrest => exact Erased.enter hrest (hk r)

/-- **A run beside a record is the run without it.** -/
theorem erased_of_run (hexec : ∀ op r, (exec' op r).Erases (exec op r.1)) : ∀ (ms : List (Move ο))
    {c' : Config (σ × List κ) α} {c : Config σ α}, Erased c' c →
    Erased (run exec' c' ms) (run exec c ms) := by
  intro ms
  induction ms with
  | nil => exact fun hc => hc
  | cons m ms ih => exact fun hc => ih (step_erased hexec hc m)

/-! ### Runs by stretches -/

variable {R : σ → σ → Prop}

/-- **A run is a step of `R`** if every stretch of the operations that it calls is one, and of those
that waited before. -/
theorem run_paced (hrefl : ∀ s, R s s) (htrans : ∀ a b c, R a b → R b c → R a c) :
    ∀ (ms : List (Move ο)), (∀ op, .call op ∈ ms → ∀ s, (exec op s).Paced R R s) →
      ∀ {c : Config σ α}, (∀ k ∈ c.stack, ∀ s, (k s).Paced R R s) →
      R c.state (run exec c ms).state := by
  intro ms
  induction ms with
  | nil => exact fun _ c _ => hrefl c.state
  | cons m ms ih =>
    intro hexec c hstack
    obtain ⟨hstep, hnext⟩ := step_paced hrefl hstack (m := m) fun op hop =>
      hexec op (by rw [hop]; exact List.mem_cons_self ..) c.state
    exact htrans _ _ _ hstep (ih (fun op hop => hexec op (List.mem_cons_of_mem m hop)) hnext)

/-- What waits after a run is paced as well, if an operation that is not does not wait. -/
theorem stack_paced_of_run (hrefl : ∀ s, R s s)
    (hexec : ∀ op s, (exec op s).Paced R R s ∨ ∃ a s', exec op s = .done a s') :
    ∀ (ms : List (Move ο)) {c : Config σ α}, (∀ k ∈ c.stack, ∀ s, (k s).Paced R R s) →
      ∀ k ∈ (run exec c ms).stack, ∀ s, (k s).Paced R R s := by
  intro ms
  induction ms with
  | nil => exact fun hc => hc
  | cons m ms ih =>
    intro c hc
    refine ih ?_
    cases m with
    | call op =>
      rcases hexec op c.state with hpaced | ⟨a, s', hdone⟩
      · refine (step_paced hrefl hc fun op' hop => ?_).2
        obtain rfl := Move.call.inj hop
        exact hpaced
      · rw [step, hdone]
        exact hc
    | resume => exact (step_paced hrefl hc fun op hop => by cases hop).2

/-! ### What is recorded -/

/-- The record grows by things that lead from one state to the other. -/
def Extends (S : σ → List κ → σ → Prop) (r r' : σ × List κ) : Prop :=
  ∃ as, r'.2 = r.2 ++ as ∧ S r.1 as r'.1

variable {S : σ → List κ → σ → Prop}

theorem Extends.refl (hrefl : ∀ s, S s [] s) (r : σ × List κ) : Extends S r r :=
  ⟨[], (List.append_nil _).symm, hrefl r.1⟩

theorem Extends.trans (htrans : ∀ a b c as bs, S a as b → S b bs c → S a (as ++ bs) c)
    (a b c : σ × List κ) (h : Extends S a b) (h' : Extends S b c) : Extends S a c := by
  obtain ⟨as, has, hS⟩ := h
  obtain ⟨bs, hbs, hS'⟩ := h'
  exact ⟨as ++ bs, by rw [hbs, has, List.append_assoc], htrans _ _ _ _ _ hS hS'⟩

namespace Act

/-- An operation that does nothing of what is recorded before it first waits, then `g s`, and
nothing more after that. -/
def PacedBy (S : σ → List κ → σ → Prop) (g : σ → List κ) (s : σ) : Act σ α → Prop
  | .done _ s' => S s [] s'
  | .emit s' k => S s [] s' ∧ ∀ s'', ∃ s₁, S s'' (g s'') s₁ ∧
      (k s'').Paced (fun a b => S a [] b) (fun a b => S a [] b) s₁

/-- An operation that does nothing at all of what is recorded. -/
theorem Paced.pacedBy (hrefl : ∀ s, S s [] s) {x : Act σ α} {s : σ}
    (hx : x.Paced (fun a b => S a [] b) (fun a b => S a [] b) s) :
    x.PacedBy S (fun _ => []) s := by
  cases x with
  | done a s' => exact hx
  | emit s' k => exact ⟨hx.1, fun s'' => ⟨s'', hrefl s'', hx.2 s''⟩⟩

theorem silent_paced : ∀ {x : Act σ α} {s : σ} (log : List κ),
    x.Paced (fun a b => S a [] b) (fun a b => S a [] b) s →
      (x.silent log).Paced (Extends S) (Extends S) (s, log) := by
  intro x
  induction x with
  | done a s' => exact fun log hx => ⟨[], (List.append_nil _).symm, hx⟩
  | emit s' k ih =>
    exact fun log hx => ⟨⟨[], (List.append_nil _).symm, hx.1⟩, fun r => ih r.1 r.2 (hx.2 r.1)⟩

theorem recordResume_paced (htrans : ∀ a b c as bs, S a as b → S b bs c → S a (as ++ bs) c)
    {g : σ → List κ} {x : Act σ α} {s : σ} (log : List κ) (hx : x.PacedBy S g s) :
    (x.recordResume g log).Paced (Extends S) (Extends S) (s, log) := by
  cases x with
  | done a s' => exact ⟨[], (List.append_nil _).symm, hx⟩
  | emit s' k =>
    refine ⟨⟨[], (List.append_nil _).symm, hx.1⟩, fun r => ?_⟩
    obtain ⟨s₁, hs₁, hk⟩ := hx.2 r.1
    exact (silent_paced (r.2 ++ g r.1) hk).behind (Extends.trans htrans) (Extends.trans htrans)
      ⟨g r.1, rfl, hs₁⟩

end Act

end Reentrant
