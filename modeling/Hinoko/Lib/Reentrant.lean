import Mathlib

/-!
# Operations that call back

An operation of an object may stop half way to call the object's user, and the
user may call further operations of the same object before it lets the first one
go on.  `Act σ α` is such an operation in execution: it is `done` with an answer
and a state, or it hands the state `s` to the user (`emit s k`) and goes on with
`k s'` when the user gives back the state `s'`.

A `Config` is the state with the operations that wait for the user, the innermost
first.  A run is a list of moves: the user calls an operation, or lets the
innermost waiting one go on.  `run_keeps` is the rule for invariants: a predicate
that every operation keeps, wherever it stops and however the user changed the
state meanwhile within the predicate, holds in every configuration of a run.
`answer_of_phases` is the rule for answers, for an object that must be set up first.
-/

namespace Reentrant

/-- An operation in execution over states `σ`, with an answer in `α`. -/
inductive Act (σ α : Type) where
  | done (a : α) (s : σ)
  | emit (s : σ) (k : σ → Act σ α)

namespace Act

variable {σ α β : Type}

def bind : Act σ α → (α → σ → Act σ β) → Act σ β
  | .done a s, f => f a s
  | .emit s k, f => .emit s fun s' => (k s').bind f

def inert : Act σ α → α × σ
  | .done a s => (a, s)
  | .emit s k => (k s).inert

/-- The operation meets `Q` with whatever answer it gives, when `I` holds at every
state handed to the user and whenever it holds at the state given back. -/
def Keeps (I : σ → Prop) (Q : α → σ → Prop) : Act σ α → Prop
  | .done a s => Q a s
  | .emit s k => I s ∧ ∀ s', I s' → (k s').Keeps I Q

theorem Keeps.mono {I : σ → Prop} {Q R : α → σ → Prop} (h : ∀ a s, Q a s → R a s) :
    ∀ {x : Act σ α}, x.Keeps I Q → x.Keeps I R := by
  intro x
  induction x with
  | done a s => exact h a s
  | emit s k ih => exact fun hx => ⟨hx.1, fun s' hs => ih s' (hx.2 s' hs)⟩

theorem Keeps.bind {I : σ → Prop} {Q : α → σ → Prop} {R : β → σ → Prop}
    {f : α → σ → Act σ β} (hf : ∀ a s, Q a s → (f a s).Keeps I R) :
    ∀ {x : Act σ α}, x.Keeps I Q → (x.bind f).Keeps I R := by
  intro x
  induction x with
  | done a s => exact hf a s
  | emit s k ih => exact fun hx => ⟨hx.1, fun s' hs => ih s' (hx.2 s' hs)⟩

theorem Keeps.congr {I J : σ → Prop} {Q R : α → σ → Prop} (hI : ∀ s, I s ↔ J s)
    (hQ : ∀ a s, Q a s → R a s) : ∀ {x : Act σ α}, x.Keeps I Q → x.Keeps J R := by
  intro x
  induction x with
  | done a s => exact hQ a s
  | emit s k ih =>
    exact fun hx => ⟨(hI s).mp hx.1, fun s' hs => ih s' (hx.2 s' ((hI s').mpr hs))⟩

theorem Keeps.and {I J : σ → Prop} {Q R : α → σ → Prop} : ∀ {x : Act σ α}, x.Keeps I Q →
    x.Keeps J R → x.Keeps (fun s => I s ∧ J s) fun a s => Q a s ∧ R a s := by
  intro x
  induction x with
  | done a s => exact fun hQ hR => ⟨hQ, hR⟩
  | emit s k ih =>
    exact fun hQ hR => ⟨⟨hQ.1, hR.1⟩, fun s' hs => ih s' (hQ.2 s' hs.1) (hR.2 s' hs.2)⟩

/-- A user that only looks at the state is one that keeps to `I`. -/
theorem Keeps.inert {I : σ → Prop} {Q : α → σ → Prop} :
    ∀ {x : Act σ α}, x.Keeps I Q → Q x.inert.1 x.inert.2 := by
  intro x
  induction x with
  | done a s => exact id
  | emit s k ih => exact fun hx => ih s (hx.2 s hx.1)

end Act

variable {σ α ο : Type}

structure Config (σ α : Type) where
  state : σ
  stack : List (σ → Act σ α)

/-- The user calls an operation, or lets the innermost waiting one go on. -/
inductive Move (ο : Type) where
  | call (op : ο)
  | resume

def enter (stack : List (σ → Act σ α)) : Act σ α → Config σ α
  | .done _ s => ⟨s, stack⟩
  | .emit s k => ⟨s, k :: stack⟩

def step (exec : ο → σ → Act σ α) (c : Config σ α) : Move ο → Config σ α
  | .call op => enter c.stack (exec op c.state)
  | .resume =>
    match c.stack with
    | [] => c
    | k :: stack => enter stack (k c.state)

def run (exec : ο → σ → Act σ α) (c : Config σ α) (ms : List (Move ο)) : Config σ α :=
  ms.foldl (step exec) c

@[simp] theorem run_nil (exec : ο → σ → Act σ α) (c : Config σ α) : run exec c [] = c := rfl

@[simp] theorem run_cons (exec : ο → σ → Act σ α) (c : Config σ α) (m : Move ο)
    (ms : List (Move ο)) : run exec c (m :: ms) = run exec (step exec c m) ms := rfl

theorem run_append (exec : ο → σ → Act σ α) (c : Config σ α) (ms ns : List (Move ο)) :
    run exec c (ms ++ ns) = run exec (run exec c ms) ns :=
  List.foldl_append

/-- The predicate holds of the state, and every waiting operation keeps it. -/
structure Sound (I : σ → Prop) (c : Config σ α) : Prop where
  state : I c.state
  stack : ∀ k ∈ c.stack, ∀ s, I s → (k s).Keeps I fun _ => I

theorem Sound.enter {I : σ → Prop} {stack : List (σ → Act σ α)}
    (hs : ∀ k ∈ stack, ∀ s, I s → (k s).Keeps I fun _ => I) {x : Act σ α}
    (hx : x.Keeps I fun _ => I) : Sound I (enter stack x) := by
  cases x with
  | done a s => exact ⟨hx, hs⟩
  | emit s k =>
    refine ⟨hx.1, fun k' hk' => ?_⟩
    rcases List.mem_cons.mp hk' with rfl | hmem
    · exact hx.2
    · exact hs k' hmem

/-- **One move keeps what every operation keeps.** -/
theorem step_keeps {I : σ → Prop} {exec : ο → σ → Act σ α} {c : Config σ α} (m : Move ο)
    (hexec : ∀ op, m = .call op → (exec op c.state).Keeps I fun _ => I)
    (hc : Sound I c) : Sound I (step exec c m) := by
  cases m with
  | call op => exact Sound.enter hc.stack (hexec op rfl)
  | resume =>
    obtain ⟨s, stack⟩ := c
    cases stack with
    | nil => exact hc
    | cons k stack =>
      exact Sound.enter (fun k' hk' => hc.stack k' (List.mem_cons_of_mem k hk'))
        (hc.stack k (by simp) s hc.state)

/-- **A run keeps what every operation it calls keeps.** -/
theorem run_keeps {I : σ → Prop} {exec : ο → σ → Act σ α} : ∀ (ms : List (Move ο)),
    (∀ op, .call op ∈ ms → ∀ s, I s → (exec op s).Keeps I fun _ => I) →
    ∀ {c : Config σ α}, Sound I c → Sound I (run exec c ms) := by
  intro ms
  induction ms with
  | nil => exact fun _ _ hc => hc
  | cons m ms ih =>
    intro hexec c hc
    refine ih (fun op hop => hexec op (by simp [hop])) (step_keeps m ?_ hc)
    rintro op rfl
    exact hexec op (by simp) c.state hc.state

/-- Each operation of the run is called in a state where `g` allows it. -/
def Guarded (exec : ο → σ → Act σ α) (g : ο → σ → Prop) : Config σ α → List (Move ο) → Prop
  | _, [] => True
  | c, .call op :: ms => g op c.state ∧ Guarded exec g (step exec c (.call op)) ms
  | c, .resume :: ms => Guarded exec g (step exec c .resume) ms

/-- **A guarded run keeps what every move keeps where it is allowed.** -/
theorem run_keeps_of_steps {J : Config σ α → Prop} {exec : ο → σ → Act σ α} {g : ο → σ → Prop}
    (hcall : ∀ op c, g op c.state → J c → J (step exec c (.call op)))
    (hresume : ∀ c, J c → J (step exec c .resume)) : ∀ (ms : List (Move ο)) {c : Config σ α},
    Guarded exec g c ms → J c → J (run exec c ms) := by
  intro ms
  induction ms with
  | nil => exact fun _ hc => hc
  | cons m ms ih =>
    intro c hg hc
    cases m with
    | call op => exact ih hg.2 (hcall op c hg.1 hc)
    | resume => exact ih hg (hresume c hc)

/-- **A guarded run keeps what every operation keeps where it is allowed.** -/
theorem run_keeps_of_guarded {I : σ → Prop} {exec : ο → σ → Act σ α} {g : ο → σ → Prop}
    (hexec : ∀ op s, g op s → I s → (exec op s).Keeps I fun _ => I) (ms : List (Move ο))
    {c : Config σ α} (hg : Guarded exec g c ms) (hc : Sound I c) : Sound I (run exec c ms) := by
  refine run_keeps_of_steps (fun op c hop hc => step_keeps (.call op) ?_ hc)
    (fun c hc => step_keeps .resume (fun op h => by cases h) hc) ms hg hc
  rintro op' ⟨rfl⟩
  exact hexec op c.state hop hc.state

theorem run_keeps_of_init {I : σ → Prop} {exec : ο → σ → Act σ α} {s : σ} (ms : List (Move ο))
    (hs : I s) (hexec : ∀ op, .call op ∈ ms → ∀ s, I s → (exec op s).Keeps I fun _ => I) :
    I (run exec ⟨s, []⟩ ms).state :=
  (run_keeps ms hexec ⟨hs, by simp⟩).state

/-! ### Answers -/

theorem guarded_append {exec : ο → σ → Act σ α} {g : ο → σ → Prop} : ∀ {ms ns : List (Move ο)}
    {c : Config σ α}, Guarded exec g c (ms ++ ns) ↔
      Guarded exec g c ms ∧ Guarded exec g (run exec c ms) ns := by
  intro ms
  induction ms with
  | nil =>
    intro ns c
    rw [List.nil_append, run_nil, Guarded, true_and]
  | cons m ms ih =>
    intro ns c
    cases m with
    | call op => rw [List.cons_append, Guarded, Guarded, ih, run_cons, and_assoc]
    | resume => rw [List.cons_append, Guarded, Guarded, ih, run_cons]

def Act.answer : Act σ α → Option α
  | .done a _ => some a
  | .emit _ _ => none

def answer (exec : ο → σ → Act σ α) (c : Config σ α) : Move ο → Option α
  | .call op => (exec op c.state).answer
  | .resume =>
    match c.stack with
    | [] => none
    | k :: _ => (k c.state).answer

/-- Before the object is set up `V` holds, and no operation waits; from then on `I` holds, and the
waiting operations meet `Q`. -/
def Phased (V I : σ → Prop) (Q : α → σ → Prop) (c : Config σ α) : Prop :=
  V c.state ∧ c.stack = [] ∨ I c.state ∧ ∀ k ∈ c.stack, ∀ s, I s → (k s).Keeps I Q

variable {V I : σ → Prop} {Q : α → σ → Prop} {P : α → Prop} {exec : ο → σ → Act σ α}
  {g : ο → σ → Prop}

theorem Act.Keeps.answer {x : Act σ α} (h : x.Keeps I Q) (hQ : ∀ a s, Q a s → P a ∧ I s) {a : α}
    (ha : x.answer = some a) : P a := by
  cases x with
  | done b s =>
    obtain rfl := Option.some.inj ha
    exact (hQ b s h).1
  | emit s k => cases ha

theorem Phased.enter {stack : List (σ → Act σ α)} (hQ : ∀ a s, Q a s → P a ∧ I s)
    (hs : ∀ k ∈ stack, ∀ s, I s → (k s).Keeps I Q) {x : Act σ α} (hx : x.Keeps I Q) :
    Phased V I Q (enter stack x) := by
  cases x with
  | done a s => exact .inr ⟨(hQ a s hx).2, hs⟩
  | emit s k =>
    refine .inr ⟨hx.1, fun k' hk' => ?_⟩
    rcases List.mem_cons.mp hk' with rfl | hmem
    · exact hx.2
    · exact hs k' hmem

/-- **A run goes from one phase to the other.** -/
theorem phased_of_run (hQ : ∀ a s, Q a s → P a ∧ I s)
    (hbefore : ∀ op s, g op s → V s → ∃ a s', exec op s = .done a s' ∧ P a ∧ (V s' ∨ I s'))
    (hafter : ∀ op s, g op s → I s → (exec op s).Keeps I Q) {ms : List (Move ο)} {s : σ} (hs : V s)
    (hg : Guarded exec g ⟨s, []⟩ ms) : Phased V I Q (run exec ⟨s, []⟩ ms) := by
  refine run_keeps_of_steps (J := Phased V I Q) (fun op c hop hc => ?_) (fun c hc => ?_) ms hg
    (.inl ⟨hs, rfl⟩)
  · obtain ⟨s, stack⟩ := c
    rcases hc with ⟨hV, rfl⟩ | ⟨hI, hstack⟩
    · obtain ⟨a, s', hdone, _, hphase⟩ := hbefore op s hop hV
      rw [step, hdone, enter]
      rcases hphase with hV' | hI'
      · exact .inl ⟨hV', rfl⟩
      · exact .inr ⟨hI', nofun⟩
    · exact Phased.enter hQ hstack (hafter op s hop hI)
  · obtain ⟨s, stack⟩ := c
    cases stack with
    | nil => exact hc
    | cons k stack =>
      rcases hc with ⟨_, hnone⟩ | ⟨hI, hstack⟩
      · cases hnone
      · exact Phased.enter hQ (fun k' hk' => hstack k' (List.mem_cons_of_mem k hk'))
          (hstack k (List.mem_cons_self ..) s hI)

/-- **No move of a run gives another answer than `P`.** -/
theorem answer_of_phases (hQ : ∀ a s, Q a s → P a ∧ I s)
    (hbefore : ∀ op s, g op s → V s → ∃ a s', exec op s = .done a s' ∧ P a ∧ (V s' ∨ I s'))
    (hafter : ∀ op s, g op s → I s → (exec op s).Keeps I Q) {ms : List (Move ο)}
        {m : Move ο} {s : σ}
    (hs : V s) (hg : Guarded exec g ⟨s, []⟩ (ms ++ [m])) {a : α}
    (ha : answer exec (run exec ⟨s, []⟩ ms) m = some a) : P a := by
  obtain ⟨hms, hm⟩ := guarded_append.mp hg
  have hphased := phased_of_run hQ hbefore hafter hs hms
  generalize run exec ⟨s, []⟩ ms = c at hphased hm ha
  obtain ⟨s, stack⟩ := c
  cases m with
  | call op =>
    rcases hphased with ⟨hV, _⟩ | ⟨hI, _⟩
    · obtain ⟨b, s', hdone, hb, _⟩ := hbefore op s hm.1 hV
      rw [answer, hdone] at ha
      obtain rfl := Option.some.inj ha
      exact hb
    · exact (hafter op s hm.1 hI).answer hQ ha
  | resume =>
    cases stack with
    | nil => cases ha
    | cons k stack =>
      rcases hphased with ⟨_, hnone⟩ | ⟨hI, hstack⟩
      · cases hnone
      · exact (hstack k (List.mem_cons_self ..) s hI).answer hQ ha

/-- The state meets `I`, and every operation that waits goes on to meet `Q`. -/
structure Meets (I : σ → Prop) (Q : α → σ → Prop) (c : Config σ α) : Prop where
  state : I c.state
  stack : ∀ k ∈ c.stack, ∀ s, I s → (k s).Keeps I Q

theorem Meets.enter {stack : List (σ → Act σ α)} (hQ : ∀ a s, Q a s → I s)
    (hs : ∀ k ∈ stack, ∀ s, I s → (k s).Keeps I Q) {x : Act σ α} (hx : x.Keeps I Q) :
    Meets I Q (enter stack x) := by
  cases x with
  | done a s => exact ⟨hQ a s hx, hs⟩
  | emit s k =>
    refine ⟨hx.1, fun k' hk' => ?_⟩
    rcases List.mem_cons.mp hk' with rfl | hmem
    · exact hx.2
    · exact hs k' hmem

theorem Act.Keeps.answered {stack : List (σ → Act σ α)} {x : Act σ α} (h : x.Keeps I Q) {a : α}
    (ha : x.answer = some a) : Q a (enter stack x).state := by
  cases x with
  | done b s =>
    obtain rfl := Option.some.inj ha
    exact h
  | emit s k => cases ha

/-- **A move answers what meets `Q` in the state that it leaves**, in a run from a state of `I`. -/
theorem answer_of_guarded (hQ : ∀ a s, Q a s → I s)
    (hexec : ∀ op s, g op s → I s → (exec op s).Keeps I Q) {ms : List (Move ο)} {m : Move ο} {s : σ}
    (hs : I s) (hg : Guarded exec g ⟨s, []⟩ (ms ++ [m])) {a : α}
    (ha : answer exec (run exec ⟨s, []⟩ ms) m = some a) :
    Q a (step exec (run exec ⟨s, []⟩ ms) m).state := by
  obtain ⟨hms, hm⟩ := guarded_append.mp hg
  have hmeets : Meets I Q (run exec ⟨s, []⟩ ms) := by
    refine run_keeps_of_steps (J := Meets I Q) (fun op c hop hc => ?_) (fun c hc => ?_) ms hms
      ⟨hs, by simp⟩
    · exact Meets.enter hQ hc.stack (hexec op c.state hop hc.state)
    · obtain ⟨s, stack⟩ := c
      cases stack with
      | nil => exact hc
      | cons k stack =>
        exact Meets.enter hQ (fun k' hk' => hc.stack k' (List.mem_cons_of_mem k hk'))
          (hc.stack k (List.mem_cons_self ..) s hc.state)
  generalize run exec ⟨s, []⟩ ms = c at hmeets hm ha
  obtain ⟨s, stack⟩ := c
  cases m with
  | call op => exact (hexec op s hm.1 hmeets.state).answered ha
  | resume =>
    cases stack with
    | nil => cases ha
    | cons k stack => exact (hmeets.stack k (List.mem_cons_self ..) s hmeets.state).answered ha

end Reentrant
