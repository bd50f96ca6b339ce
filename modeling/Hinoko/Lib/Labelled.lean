import Hinoko.Lib.Reentrant

/-!
# Waiting operations by name

The stack of a configuration holds functions, which do not tell what operation they are the
rest of.  `waiting` keeps the operations beside it, so that one can say where an operation
may go on.

* `run_keeps_of_watched`: the rule for a predicate that an operation keeps only if it goes on
  where that is allowed.
* `count_of_run`: the rule for counting, of something that is to happen as often as a property
  gets lost.
* `tally_of_run`: the rule for an account to which each call adds what it weighs.
-/

namespace Reentrant

variable {σ α β ο : Type}

namespace Act

/-- `I` holds at every state handed to the user, and when `I` and `R` hold at the state given back
the operation meets `Q`. -/
def KeepsIf (I R : σ → Prop) (Q : α → σ → Prop) : Act σ α → Prop
  | .done a s => Q a s
  | .emit s k => I s ∧ ∀ s', I s' → R s' → (k s').KeepsIf I R Q

variable {I R : σ → Prop} {Q : α → σ → Prop} {T L : σ → σ → Prop}

theorem Keeps.keepsIf (R : σ → Prop) : ∀ {x : Act σ α}, x.Keeps I Q → x.KeepsIf I R Q := by
  intro x
  induction x with
  | done a s => exact id
  | emit s k ih => exact fun hx => ⟨hx.1, fun s' hs _ => ih s' (hx.2 s' hs)⟩

theorem KeepsIf.bind {P : β → σ → Prop} {f : α → σ → Act σ β}
    (hf : ∀ a s, Q a s → (f a s).KeepsIf I R P) :
    ∀ {x : Act σ α}, x.KeepsIf I R Q → (x.bind f).KeepsIf I R P := by
  intro x
  induction x with
  | done a s => exact hf a s
  | emit s k ih => exact fun hx => ⟨hx.1, fun s' hs hr => ih s' (hx.2 s' hs hr)⟩

theorem KeepsIf.mono {P : α → σ → Prop} (h : ∀ a s, Q a s → P a s) :
    ∀ {x : Act σ α}, x.KeepsIf I R Q → x.KeepsIf I R P := by
  intro x
  induction x with
  | done a s => exact h a s
  | emit s k ih => exact fun hx => ⟨hx.1, fun s' hs hr => ih s' (hx.2 s' hs hr)⟩

/-- Every stretch of the operation, from a state where the user has let it go on to the next one
where the user has control, is a step of `T`, and the last one a step of `L`. -/
def Paced (T L : σ → σ → Prop) : σ → Act σ α → Prop
  | s, .done _ s' => L s s'
  | s, .emit s' k => T s s' ∧ ∀ s'', Paced T L s'' (k s'')

theorem Paced.mono {M : σ → σ → Prop} (h : ∀ s s', L s s' → M s s') :
    ∀ {x : Act σ α} {s : σ}, x.Paced T L s → x.Paced T M s := by
  intro x
  induction x with
  | done a s' => exact fun hx => h _ _ hx
  | emit s' k ih => exact fun hx => ⟨hx.1, fun s'' => ih s'' (hx.2 s'')⟩

/-- A stretch may begin with a step that both relations absorb. -/
theorem Paced.behind {M : σ → σ → Prop} (hT : ∀ r s s', L r s → T s s' → T r s')
    (hM : ∀ r s s', L r s → M s s' → M r s') {r s : σ} (hrs : L r s) {x : Act σ α}
    (hx : x.Paced T M s) : x.Paced T M r := by
  cases x with
  | done a s' => exact hM r s s' hrs hx
  | emit s' k => exact ⟨hT r s s' hrs hx.1, hx.2⟩

theorem Paced.bind {M : σ → σ → Prop} {f : α → σ → Act σ β}
    (hf : ∀ a r s, L r s → (f a s).Paced T M r) :
    ∀ {x : Act σ α} {s : σ}, x.Paced T L s → (x.bind f).Paced T M s := by
  intro x
  induction x with
  | done a s' => exact fun hx => hf a _ s' hx
  | emit s' k ih => exact fun hx => ⟨hx.1, fun s'' => ih s'' (hx.2 s'')⟩

/-- One operation after the other, when a stretch may begin with the end of the first. -/
theorem Paced.andThen {M : σ → σ → Prop} (hT : ∀ r s s', L r s → T s s' → T r s')
    (hM : ∀ r s s', L r s → M s s' → M r s') {f : α → σ → Act σ β}
    (hf : ∀ a r s, L r s → (f a s).Paced T M s) {x : Act σ α} {s : σ} (hx : x.Paced T L s) :
    (x.bind f).Paced T M s :=
  hx.bind fun a r s hrs => (hf a r s hrs).behind hT hM hrs

/-- What every stretch keeps, the operation keeps. -/
theorem Paced.keeps {x : Act σ α} {s : σ}
    (hx : x.Paced (fun s s' => I s → I s') (fun s s' => I s → I s') s) (hs : I s) :
    x.Keeps I fun _ => I := by
  induction x generalizing s with
  | done a s' => exact hx hs
  | emit s' k ih => exact ⟨hx.1 hs, fun s'' hs'' => ih s'' (hx.2 s'') hs''⟩

end Act

/-! ### Names -/

/-- The operations that wait after a move, when `ops` did before it. -/
def waiting (exec : ο → σ → Act σ α) (c : Config σ α) (ops : List ο) : Move ο → List ο
  | .call op =>
    match exec op c.state with
    | .done _ _ => ops
    | .emit _ _ => op :: ops
  | .resume =>
    match c.stack with
    | [] => ops
    | k :: _ =>
      match k c.state with
      | .done _ _ => ops.tail
      | .emit _ _ => ops

/-- Where a move may be made: `g` allows the call, or `r` allows the innermost waiting operation
to go on. -/
def Allows (g r : ο → σ → Prop) (ops : List ο) (s : σ) : Move ο → Prop
  | .call op => g op s
  | .resume => ∀ op ∈ ops.head?, r op s

/-- Each move of the run is made where it is allowed. -/
def Watched (exec : ο → σ → Act σ α) (g r : ο → σ → Prop) :
    List ο → Config σ α → List (Move ο) → Prop
  | _, _, [] => True
  | ops, c, m :: ms =>
    Allows g r ops c.state m ∧ Watched exec g r (waiting exec c ops m) (step exec c m) ms

/-- The predicate holds of the state, and every waiting operation keeps it if it goes on where it
may. -/
structure Labelled (I : σ → Prop) (r : ο → σ → Prop) (ops : List ο) (c : Config σ α) : Prop where
  state : I c.state
  stack : List.Forall₂ (fun op k => ∀ s, I s → r op s → (k s).KeepsIf I (r op) fun _ => I)
    ops c.stack

variable {I : σ → Prop} {exec : ο → σ → Act σ α} {g r : ο → σ → Prop}

/-- **One move keeps what every operation keeps.** -/
theorem step_keeps_labelled (hexec : ∀ op s, g op s → I s → (exec op s).KeepsIf I (r op) fun _ => I)
    {ops : List ο} {c : Config σ α} {m : Move ο} (hm : Allows g r ops c.state m)
    (hc : Labelled I r ops c) : Labelled I r (waiting exec c ops m) (step exec c m) := by
  obtain ⟨s, stack⟩ := c
  obtain ⟨hs, hstack⟩ := hc
  cases m with
  | call op =>
    have hx := hexec op s hm hs
    simp only [waiting, step]
    cases hdone : exec op s with
    | done a s' =>
      rw [hdone] at hx
      exact ⟨hx, hstack⟩
    | emit s' k =>
      rw [hdone] at hx
      exact ⟨hx.1, .cons hx.2 hstack⟩
  | resume =>
    cases hstack with
    | nil => exact ⟨hs, .nil⟩
    | @cons op k ops stack hk hrest =>
      have hx := hk s hs (hm op rfl)
      simp only [waiting, step]
      cases hdone : k s with
      | done a s' =>
        rw [hdone] at hx
        exact ⟨hx, hrest⟩
      | emit s' k' =>
        rw [hdone] at hx
        exact ⟨hx.1, .cons hx.2 hrest⟩

/-- **A watched run keeps what every operation keeps.** -/
theorem run_keeps_of_watched
    (hexec : ∀ op s, g op s → I s → (exec op s).KeepsIf I (r op) fun _ => I) :
    ∀ (ms : List (Move ο)) {ops : List ο} {c : Config σ α}, Watched exec g r ops c ms →
      Labelled I r ops c → I (run exec c ms).state := by
  intro ms
  induction ms with
  | nil => exact fun _ hc => hc.state
  | cons m ms ih => exact fun hw hc => ih hw.2 (step_keeps_labelled hexec hw.1 hc)

/-! ### Counting -/

/-- How often a property gets lost in a run. -/
def losses (exec : ο → σ → Act σ α) (p : σ → Bool) : Config σ α → List (Move ο) → Nat
  | _, [] => 0
  | c, m :: ms =>
    (if p c.state ∧ ¬ p (step exec c m).state then 1 else 0) + losses exec p (step exec c m) ms

/-- `f` counts one where the property gets lost. -/
def Counts (f : σ → Nat) (p : σ → Bool) (s s' : σ) : Prop :=
  f s' = f s + if p s ∧ ¬ p s' then 1 else 0

variable {f : σ → Nat} {p : σ → Bool}

/-- **One move is a step of `R`** if every stretch of the operation that it calls is one, and of
those that wait. -/
theorem step_paced {R : σ → σ → Prop} (hrefl : ∀ s, R s s) {c : Config σ α}
    (hstack : ∀ k ∈ c.stack, ∀ s, (k s).Paced R R s) {m : Move ο}
    (hexec : ∀ op, m = .call op → (exec op c.state).Paced R R c.state) :
    R c.state (step exec c m).state ∧
      ∀ k ∈ (step exec c m).stack, ∀ s, (k s).Paced R R s := by
  have henter : ∀ (stack : List (σ → Act σ α)) {s : σ} {x : Act σ α},
      (∀ k ∈ stack, ∀ s, (k s).Paced R R s) → x.Paced R R s → R s (enter stack x).state ∧
        ∀ k ∈ (enter stack x).stack, ∀ s, (k s).Paced R R s := by
    intro stack s x hstack hx
    cases x with
    | done a s' => exact ⟨hx, hstack⟩
    | emit s' k =>
      refine ⟨hx.1, fun k' hk' => ?_⟩
      rcases List.mem_cons.mp hk' with rfl | hmem
      · exact hx.2
      · exact hstack k' hmem
  cases m with
  | call op => exact henter c.stack hstack (hexec op rfl)
  | resume =>
    obtain ⟨s, stack⟩ := c
    cases stack with
    | nil => exact ⟨hrefl s, nofun⟩
    | cons k stack =>
      exact henter stack (fun k' hk' => hstack k' (List.mem_cons_of_mem k hk'))
        (hstack k List.mem_cons_self s)

theorem Counts.refl (f : σ → Nat) (p : σ → Bool) (s : σ) : Counts f p s s := by
  simp only [Counts, and_not_self, if_false, Nat.add_zero]

/-- **A run counts** if every stretch of every operation does. -/
theorem count_of_run (hexec : ∀ op s, (exec op s).Paced (Counts f p) (Counts f p) s) :
    ∀ (ms : List (Move ο)) {c : Config σ α},
      (∀ k ∈ c.stack, ∀ s, (k s).Paced (Counts f p) (Counts f p) s) →
      f (run exec c ms).state = f c.state + losses exec p c ms := by
  intro ms
  induction ms with
  | nil => exact fun _ => rfl
  | cons m ms ih =>
    intro c hstack
    obtain ⟨hcount, hnext⟩ := step_paced (Counts.refl f p) hstack (m := m) fun op _ =>
      hexec op c.state
    rw [run_cons, ih hnext, hcount, losses, Nat.add_assoc]

/-- What the calls of a run weigh, each where it is made. -/
def tally (exec : ο → σ → Act σ α) (w : ο → σ → Nat) : Config σ α → List (Move ο) → Nat
  | _, [] => 0
  | c, .call op :: ms => w op c.state + tally exec w (step exec c (.call op)) ms
  | c, .resume :: ms => tally exec w (step exec c .resume) ms

/-- The second state has every account that the first one has. -/
def KeepsAccount (J : Nat → σ → Prop) (s s' : σ) : Prop := ∀ n, J n s → J n s'

/-- **A run adds up** if every operation either keeps the account, wherever it stops, or is done at
once and adds its weight. -/
theorem tally_of_run {J : Nat → σ → Prop} {w : ο → σ → Nat}
    (hexec : ∀ op s,
      w op s = 0 ∧ (exec op s).Paced (KeepsAccount J) (KeepsAccount J) s ∨
        ∃ a s', exec op s = .done a s' ∧ ∀ n, J n s → J (n + w op s) s') :
    ∀ (ms : List (Move ο)) {c : Config σ α} {n : Nat}, J n c.state →
      (∀ k ∈ c.stack, ∀ s, (k s).Paced (KeepsAccount J) (KeepsAccount J) s) →
      J (n + tally exec w c ms) (run exec c ms).state := by
  intro ms
  induction ms with
  | nil => exact fun hJ _ => hJ
  | cons m ms ih =>
    intro c n hJ hstack
    cases m with
    | call op =>
      rw [run_cons, tally, ← Nat.add_assoc]
      rcases hexec op c.state with ⟨hzero, hpaced⟩ | ⟨a, s', hdone, hadds⟩
      · obtain ⟨hkeeps, hnext⟩ := step_paced (fun _ _ => id) hstack (m := .call op) fun op' hop =>
          Move.call.inj hop ▸ hpaced
        rw [hzero, Nat.add_zero]
        exact ih (hkeeps n hJ) hnext
      · have hstep : step exec c (.call op) = ⟨s', c.stack⟩ := by rw [step, hdone, enter]
        rw [hstep]
        exact ih (hadds n hJ) hstack
    | resume =>
      obtain ⟨hkeeps, hnext⟩ := step_paced (fun _ _ => id) hstack (m := .resume) fun op' hop => by
        cases hop
      exact ih (hkeeps n hJ) hnext

end Reentrant
