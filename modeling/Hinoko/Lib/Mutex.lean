import Hinoko.Lib.Transition

/-!
# Sections under a mutex

Threads share data that a mutex protects, and deal with a world that goes its own way.  A thread
brings a job, waits for the mutex, works on the data step by step, and lets go of the mutex; in
between it may make one request to the world (`Sect.Once`), which answers at once and is changed by
it.  Other threads may arrive, and the world may go on, between any two of its steps.

`Split` is such a system in its steps, and `Whole` the one in which a thread does all its work in
one step.

* `whole_of_run`: whatever the steps of `Split`, the data, the world and the results are those of a
  run of `Whole`.
* `keeps_of_run`: so an invariant needs to be looked at for whole jobs only.
-/

namespace Mutex

open Transition

variable {τ σ ω ι κ α β ε η ρ : Type}

/-! ### Sections -/

/-- What a thread does under the mutex: it reads the data, changes them, makes a request to the
world, and comes to a result. -/
inductive Sect (σ ι α ρ : Type) where
  | done (r : ρ)
  | look (k : σ → Sect σ ι α ρ)
  | write (f : σ → σ) (k : Sect σ ι α ρ)
  | ask (i : ι) (k : α → Sect σ ι α ρ)

namespace Sect

def Silent : Sect σ ι α ρ → Prop
  | .done _ => True
  | .look k => ∀ s, (k s).Silent
  | .write _ k => k.Silent
  | .ask _ _ => False

def Once : Sect σ ι α ρ → Prop
  | .done _ => True
  | .look k => ∀ s, (k s).Once
  | .write _ k => k.Once
  | .ask _ k => ∀ a, (k a).Silent

def asks : Sect σ ι α ρ → σ → Option ι
  | .done _, _ => none
  | .look k, s => (k s).asks s
  | .write f k, s => k.asks (f s)
  | .ask i _, _ => some i

/-- The data, the world and the result when nothing comes between. -/
def whole (serve : ι → ω → ω × α) : Sect σ ι α ρ → σ → ω → σ × ω × ρ
  | .done r, s, w => (s, w, r)
  | .look k, s, w => (k s).whole serve s w
  | .write f k, s, w => k.whole serve (f s) w
  | .ask i k, s, w => (k (serve i w).2).whole serve s (serve i w).1

/-- What is left of a section, and the data, after some steps without a request. -/
inductive Reaches : Sect σ ι α ρ → σ → Sect σ ι α ρ → σ → Prop where
  | refl (p : Sect σ ι α ρ) (s : σ) : Reaches p s p s
  | look {k s q s'} (h : Reaches (k s) s q s') : Reaches (.look k) s q s'
  | write {f k s q s'} (h : Reaches k (f s) q s') : Reaches (.write f k) s q s'

namespace Reaches

variable {p q : Sect σ ι α ρ} {s s' : σ}

theorem trans {r : Sect σ ι α ρ} {s'' : σ} (h : Reaches p s q s') (h' : Reaches q s' r s'') :
    Reaches p s r s'' := by
  induction h with
  | refl p s => exact h'
  | look h ih => exact .look (ih h')
  | write h ih => exact .write (ih h')

theorem once (h : Reaches p s q s') (hp : p.Once) : q.Once := by
  induction h with
  | refl p s => exact hp
  | look h ih => exact ih (hp _)
  | write h ih => exact ih hp

theorem whole_eq (h : Reaches p s q s') (serve : ι → ω → ω × α) (w : ω) :
    p.whole serve s w = q.whole serve s' w := by
  induction h with
  | refl p s => rfl
  | look h ih => exact ih
  | write h ih => exact ih

theorem asks_eq (h : Reaches p s q s') : p.asks s = q.asks s' := by
  induction h with
  | refl p s => rfl
  | look h ih => exact ih
  | write h ih => exact ih

end Reaches

/-- A section that makes no request has nothing to do with the world. -/
theorem Silent.whole_eq : ∀ {p : Sect σ ι α ρ}, p.Silent → ∀ s : σ, ∃ s' r,
    ∀ (serve : ι → ω → ω × α) (w : ω), p.whole serve s w = (s', w, r) := by
  intro p
  induction p with
  | done r => exact fun _ s => ⟨s, r, fun _ _ => rfl⟩
  | look k ih => exact fun hp s => ih s (hp s) s
  | write f k ih => exact fun hp s => ih hp (f s)
  | ask i k _ => exact fun hp => hp.elim

end Sect

/-! ### The two systems -/

/-- A world with the jobs that are done for it: how it answers a request, with a choice of its own;
what becomes of a thread that arrives, which needs the mutex for a job or has its result at once;
and how it goes on. -/
structure Office (σ ω ι κ α β ε η ρ : Type) where
  serve : κ → ι → ω → ω × α
  arrive : ε → ω → ω × (ρ ⊕ β)
  body : β → Sect σ ι α ρ
  once : ∀ b, (body b).Once
  evolve : η → ω → ω

structure Whole (τ σ ω β ρ : Type) where
  data : σ
  world : ω
  jobs : τ → Option β
  results : τ → List ρ

/-- The same, with the thread that holds the mutex and the rest of its section. -/
structure Split (τ σ ω ι α β ρ : Type) extends Whole τ σ ω β ρ where
  inside : Option (τ × Sect σ ι α ρ)

/-- A thread arrives, a thread does its job, or the world goes on. -/
inductive WholeMove (τ κ ε η : Type) where
  | arrive (t : τ) (e : ε)
  | work (t : τ) (o : κ)
  | evolve (e : η)

/-- A thread arrives, takes the mutex, or makes a step; or the world goes on. -/
inductive SplitMove (τ κ ε η : Type) where
  | arrive (t : τ) (e : ε)
  | lock (t : τ)
  /-- with the choice of the world, for a request -/
  | step (o : κ)
  | evolve (e : η)

variable [DecidableEq τ]

namespace Whole

/-- A thread arrives; one that has a job already does not. -/
def arrive (m : Office σ ω ι κ α β ε η ρ) (s : Whole τ σ ω β ρ) (t : τ) (e : ε) :
    Whole τ σ ω β ρ :=
  match s.jobs t with
  | some _ => s
  | none =>
    match m.arrive e s.world with
    | (w, .inl r) =>
      { s with world := w, results := Function.update s.results t (s.results t ++ [r]) }
    | (w, .inr b) => { s with world := w, jobs := Function.update s.jobs t (some b) }

def finish (s : Whole τ σ ω β ρ) (t : τ) (x : σ × ω × ρ) : Whole τ σ ω β ρ where
  data := x.1
  world := x.2.1
  jobs := Function.update s.jobs t none
  results := Function.update s.results t (s.results t ++ [x.2.2])

def step (m : Office σ ω ι κ α β ε η ρ) (s : Whole τ σ ω β ρ) :
    WholeMove τ κ ε η → Whole τ σ ω β ρ
  | .arrive t e => s.arrive m t e
  | .work t o =>
    match s.jobs t with
    | none => s
    | some b => s.finish t ((m.body b).whole (m.serve o) s.data s.world)
  | .evolve e => { s with world := m.evolve e s.world }

end Whole

namespace Split

def step (m : Office σ ω ι κ α β ε η ρ) (s : Split τ σ ω ι α β ρ) :
    SplitMove τ κ ε η → Split τ σ ω ι α β ρ
  | .arrive t e => { s with toWhole := s.toWhole.arrive m t e }
  | .lock t =>
    match s.inside, s.jobs t with
    | none, some b => { s with inside := some (t, m.body b) }
    | _, _ => s
  | .step o =>
    match s.inside with
    | none => s
    | some (t, .done r) => ⟨s.toWhole.finish t (s.data, s.world, r), none⟩
    | some (t, .look k) => { s with inside := some (t, k s.data) }
    | some (t, .write f k) => { s with data := f s.data, inside := some (t, k) }
    | some (t, .ask i k) =>
      let x := m.serve o i s.world
      { s with world := x.1, inside := some (t, k x.2) }
  | .evolve e => { s with world := m.evolve e s.world }

end Split

/-! ### What the world promises -/

/-- Which answers the world gives, in view of the jobs that are not done, and how it goes on. -/
structure Promise (τ ω ι κ β η : Type) where
  serve : κ → ι → (τ → Option β) → ω → Prop
  evolve : η → (τ → Option β) → ω → Prop

def Promise.whole (g : Promise τ ω ι κ β η) (m : Office σ ω ι κ α β ε η ρ) :
    WholeMove τ κ ε η → Whole τ σ ω β ρ → Prop
  | .arrive _ _, _ => True
  | .work t o, s => ∀ b i, s.jobs t = some b → (m.body b).asks s.data = some i →
      g.serve o i s.jobs s.world
  | .evolve e, s => g.evolve e s.jobs s.world

def Promise.split (g : Promise τ ω ι κ β η) : SplitMove τ κ ε η → Split τ σ ω ι α β ρ → Prop
  | .arrive _ _, _ => True
  | .lock _, _ => True
  | .step o, s => ∀ t i k, s.inside = some (t, .ask i k) → g.serve o i s.jobs s.world
  | .evolve e, s => g.evolve e s.jobs s.world

/-- What the world may do on its own does not get less when a job is done. -/
def Promise.Steady (g : Promise τ ω ι κ β η) : Prop :=
  ∀ e (jobs : τ → Option β) t w, g.evolve e jobs w → g.evolve e (Function.update jobs t none) w

/-! ### From steps to whole jobs -/

namespace Whole

variable {m : Office σ ω ι κ α β ε η ρ} {s : Whole τ σ ω β ρ} {t t' : τ} {e : ε}

theorem arrive_data (d : σ) :
    ({ s with data := d } : Whole τ σ ω β ρ).arrive m t e = { s.arrive m t e with data := d } := by
  simp only [arrive]
  cases s.jobs t with
  | some b => rfl
  | none =>
    obtain ⟨w, r | b⟩ := m.arrive e s.world <;> rfl

theorem data_arrive : (s.arrive m t e).data = s.data := by
  simp only [arrive]
  cases s.jobs t with
  | some b => rfl
  | none =>
    obtain ⟨w, r | b⟩ := m.arrive e s.world <;> rfl

theorem jobs_arrive {b : β} (h : s.jobs t = some b) : (s.arrive m t' e).jobs t = some b := by
  simp only [arrive]
  cases hjob : s.jobs t' with
  | some b' => exact h
  | none =>
    have hne : t ≠ t' := by
      rintro rfl
      rw [h] at hjob
      cases hjob
    obtain ⟨w, r | b'⟩ := m.arrive e s.world
    · exact h
    · exact (Function.update_of_ne hne _ _).trans h

theorem arrive_of_job {b : β} (h : s.jobs t = some b) : s.arrive m t e = s := by
  simp only [arrive, h]

theorem jobs_finish_self (x : σ × ω × ρ) : (s.finish t x).jobs t = none := Function.update_self ..

theorem jobs_finish_of_ne (hne : t' ≠ t) (x : σ × ω × ρ) : (s.finish t x).jobs t' = s.jobs t' :=
  Function.update_of_ne hne ..

/-- Another thread may arrive before or after the job is done. -/
theorem arrive_finish (hne : t' ≠ t) (d : σ) (r : ρ) :
    (s.finish t (d, s.world, r)).arrive m t' e =
      (s.arrive m t' e).finish t (d, (s.arrive m t' e).world, r) := by
  simp only [arrive, finish, Function.update_of_ne hne]
  cases s.jobs t' with
  | some b => rfl
  | none =>
    obtain ⟨w, r' | b⟩ := m.arrive e s.world
    · simp only [Function.update_of_ne hne.symm, Function.update_comm hne]
    · simp only [Function.update_comm hne]

end Whole

/-- The split system is where the other is, but for the thread that holds the mutex: its job has
not been begun there, or is done already. -/
inductive Matches (m : Office σ ω ι κ α β ε η ρ) :
    Split τ σ ω ι α β ρ → Whole τ σ ω β ρ → Prop where
  | outside {s} (hin : s.inside = none) : Matches m s s.toWhole
  | before {s t b p} (d : σ) (hin : s.inside = some (t, p)) (hjob : s.jobs t = some b)
      (hreach : (m.body b).Reaches d p s.data) : Matches m s { s.toWhole with data := d }
  | after {s t b p} (d : σ) (r : ρ) (hin : s.inside = some (t, p)) (hjob : s.jobs t = some b)
      (hsilent : p.Silent)
      (hwhole : ∀ (serve : ι → ω → ω × α) (w : ω), p.whole serve s.data w = (d, w, r)) :
      Matches m s (s.toWhole.finish t (d, s.world, r))

/-- What the whole system does for a step of the split one: one move at most. -/
def Answers (m : Office σ ω ι κ α β ε η ρ) (g : Promise τ ω ι κ β η) (w : Whole τ σ ω β ρ)
    (s : Split τ σ ω ι α β ρ) : Prop :=
  Matches m s w ∨ ∃ mv, g.whole m mv w ∧ Matches m s (w.step m mv)

namespace Matches

variable {m : Office σ ω ι κ α β ε η ρ} {g : Promise τ ω ι κ β η} {s : Split τ σ ω ι α β ρ}
  {w : Whole τ σ ω β ρ}

/-- The data, the world and the results are the same while nobody holds the mutex. -/
theorem eq_of_outside (h : Matches m s w) (hin : s.inside = none) : w = s.toWhole := by
  cases h with
  | outside _ => rfl
  | before d hin' => rw [hin] at hin'; cases hin'
  | after d r hin' => rw [hin] at hin'; cases hin'

theorem world_eq (h : Matches m s w) : w.world = s.world := by
  cases h <;> rfl

theorem results_eq (h : Matches m s w) (t : τ) (ht : s.inside.map Prod.fst ≠ some t) :
    w.results t = s.results t := by
  cases h with
  | outside _ => rfl
  | before d _ => rfl
  | after d r hin =>
    refine Function.update_of_ne ?_ _ _
    rintro rfl
    rw [hin] at ht
    exact ht rfl

theorem arrive (h : Matches m s w) (t : τ) (e : ε) :
    Answers m g w (s.step m (.arrive t e)) := by
  cases h with
  | outside hin => exact .inr ⟨.arrive t e, trivial, .outside hin⟩
  | before d hin hjob hreach =>
    refine .inr ⟨.arrive t e, trivial, ?_⟩
    rw [Whole.step, Whole.arrive_data]
    refine .before d hin (Whole.jobs_arrive hjob) ?_
    rw [Split.step, Whole.data_arrive]
    exact hreach
  | @after t' b p d r hin hjob hsilent hwhole =>
    by_cases hne : t = t'
    · subst hne
      left
      have hsame : s.step m (.arrive t e) = s := by rw [Split.step, Whole.arrive_of_job hjob]
      rw [hsame]
      exact .after d r hin hjob hsilent hwhole
    · refine .inr ⟨.arrive t e, trivial, ?_⟩
      rw [Whole.step, Whole.arrive_finish hne]
      refine .after d r hin (Whole.jobs_arrive hjob) hsilent ?_
      rw [Split.step, Whole.data_arrive]
      exact hwhole

theorem lock (h : Matches m s w) (t : τ) : Matches m (s.step m (.lock t)) w := by
  cases h with
  | outside hin =>
    cases hjob : s.jobs t with
    | none =>
      simp only [Split.step, hin, hjob]
      exact .outside hin
    | some b =>
      simp only [Split.step, hin, hjob]
      exact .before s.data rfl hjob (.refl _ _)
  | before d hin hjob hreach =>
    simp only [Split.step, hin]
    exact .before d hin hjob hreach
  | after d r hin hjob hsilent hwhole =>
    simp only [Split.step, hin]
    exact .after d r hin hjob hsilent hwhole

theorem evolve (hsteady : g.Steady) (h : Matches m s w) {e : η} (hg : g.evolve e s.jobs s.world) :
    Answers m g w (s.step m (.evolve e)) := by
  cases h with
  | outside hin => exact .inr ⟨.evolve e, hg, .outside hin⟩
  | before d hin hjob hreach => exact .inr ⟨.evolve e, hg, .before d hin hjob hreach⟩
  | after d r hin hjob hsilent hwhole =>
    exact .inr ⟨.evolve e, hsteady e s.jobs _ s.world hg, .after d r hin hjob hsilent hwhole⟩

/-- **A step of the thread that holds the mutex**: the job is done as a whole when the request is
made, or when the thread is done without one. -/
theorem step (h : Matches m s w) {o : κ} (hg : g.split (.step o : SplitMove τ κ ε η) s) :
    Answers m g w (s.step m (.step o)) := by
  cases h with
  | outside hin =>
    left
    simp only [Split.step, hin]
    exact .outside hin
  | @before t b p d hin hjob hreach =>
    cases p with
    | done r =>
      refine .inr ⟨.work t o, fun b' i hb' hi => ?_, ?_⟩
      · obtain rfl : b = b' := Option.some.inj (hjob.symm.trans hb')
        rw [hreach.asks_eq] at hi
        cases hi
      · have hwork := hreach.whole_eq (m.serve o) s.world
        simp only [Split.step, hin, Whole.step, hjob, hwork, Sect.whole]
        exact .outside rfl
    | look k =>
      left
      simp only [Split.step, hin]
      exact .before d rfl hjob (hreach.trans (.look (.refl _ _)))
    | write f k =>
      left
      simp only [Split.step, hin]
      exact .before d rfl hjob (hreach.trans (.write (.refl _ _)))
    | ask i k =>
      -- from here on the world shows what the section has done
      refine .inr ⟨.work t o, fun b' i' hb' hi => ?_, ?_⟩
      · obtain rfl : b = b' := Option.some.inj (hjob.symm.trans hb')
        rw [hreach.asks_eq] at hi
        obtain rfl := Option.some.inj hi
        exact hg t i k hin
      · have honce := hreach.once (m.once b)
        obtain ⟨d', r, hrest⟩ := (honce (m.serve o i s.world).2).whole_eq (ω := ω) s.data
        have hwork := hreach.whole_eq (m.serve o) s.world
        rw [Sect.whole, hrest] at hwork
        simp only [Split.step, hin, Whole.step, hjob, hwork]
        exact .after (s := { s with
            world := (m.serve o i s.world).1, inside := some (t, k (m.serve o i s.world).2) })
          d' r rfl hjob (honce _) hrest
  | @after t b p d r hin hjob hsilent hwhole =>
    left
    cases p with
    | done r' =>
      have hdone := hwhole (m.serve o) s.world
      simp only [Sect.whole, Prod.mk.injEq, true_and] at hdone
      obtain ⟨rfl, rfl⟩ := hdone
      simp only [Split.step, hin]
      exact .outside rfl
    | look k =>
      simp only [Split.step, hin]
      exact .after d r rfl hjob (hsilent s.data) hwhole
    | write f k =>
      simp only [Split.step, hin]
      exact .after d r rfl hjob hsilent hwhole
    | ask i k => exact hsilent.elim

theorem answers (hsteady : g.Steady) (h : Matches m s w) {mv : SplitMove τ κ ε η}
    (hg : g.split mv s) : Answers m g w (s.step m mv) := by
  cases mv with
  | arrive t e => exact h.arrive t e
  | lock t => exact .inl (h.lock t)
  | step o => exact h.step hg
  | evolve e => exact h.evolve hsteady hg

end Matches

variable {m : Office σ ω ι κ α β ε η ρ} {g : Promise τ ω ι κ β η}

/-- **Whole jobs do**: what a run in steps comes to, a run of whole jobs comes to as well, and the
world keeps its promise there. -/
theorem whole_of_run (hsteady : g.Steady) : ∀ (ms : List (SplitMove τ κ ε η))
    {s : Split τ σ ω ι α β ρ} {w : Whole τ σ ω β ρ}, Matches m s w →
      Allowed (Split.step m) g.split s ms → ∃ ns, ns.length ≤ ms.length ∧
        Allowed (Whole.step m) (g.whole m) w ns ∧
        Matches m (run (Split.step m) s ms) (run (Whole.step m) w ns) := by
  intro ms
  induction ms with
  | nil => exact fun h _ => ⟨[], Nat.le_refl _, trivial, h⟩
  | cons mv ms ih =>
    intro s w h hms
    rcases h.answers hsteady hms.1 with hstay | ⟨nv, hnv, hmove⟩
    · obtain ⟨ns, hlen, hns, hmatches⟩ := ih hstay hms.2
      exact ⟨ns, Nat.le_succ_of_le hlen, hns, hmatches⟩
    · obtain ⟨ns, hlen, hns, hmatches⟩ := ih hmove hms.2
      exact ⟨nv :: ns, Nat.succ_le_succ hlen, ⟨hnv, hns⟩, hmatches⟩

/-- **What whole jobs keep** holds in a run in steps, of the state that it stands for. -/
theorem keeps_of_run (hsteady : g.Steady) {I : Whole τ σ ω β ρ → Prop}
    (hstep : ∀ mv w, g.whole m mv w → I w → I (w.step m mv)) {s : Split τ σ ω ι α β ρ}
    (hin : s.inside = none) (hs : I s.toWhole) {ms : List (SplitMove τ κ ε η)}
    (hms : Allowed (Split.step m) g.split s ms) :
    ∃ w, Matches m (run (Split.step m) s ms) w ∧ I w := by
  obtain ⟨ns, _, hns, hmatches⟩ := whole_of_run hsteady ms (.outside hin) hms
  exact ⟨_, hmatches, run_keeps hstep hns hs⟩

end Mutex
