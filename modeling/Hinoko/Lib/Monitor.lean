import Hinoko.Lib.Transition

/-!
# Waiting in a monitor

One thread waits until something has happened, or until a deadline; other threads, any number of
them, tell it.  They share data under a mutex: a notifier changes the data, signals a condition
variable, and lets go of the mutex; the waiter sleeps on the condition variable as long as the data
are not `ready`.  It may wake up for no reason, and it looks at the data for its answer when it has
let go of the mutex already.

* `inv_of_run`: the waiter is not told in vain (`asleep`), does not give up before the deadline
  (`patient`), and answers as if it had looked at the data once, between two notifications
  (`answer`).
* `Leaves.of_inv`: from everywhere the waiter is a few steps from its return, when it has been told
  or the deadline has passed.
* `quiet_of_run`: when no notifier is left behind in the monitor that the waiter has left.
-/

namespace Monitor

open Transition

variable {δ ν : Type}

/-- The data that the threads share, how long the waiter waits, and whether it does at all. -/
structure Shared (δ ν : Type) where
  start : δ
  ready : δ → Bool
  update : ν → δ → δ
  deadline : Nat
  waits : Bool

inductive Pc (δ : Type) where
  /-- it has not got the mutex yet -/
  | entering
  /-- it holds the mutex, and is about to look at the data -/
  | testing
  /-- it has let go of the mutex, and sleeps -/
  | asleep
  /-- it waits for the mutex again; the flag is the answer of the condition variable -/
  | roused (signalled : Bool)
  /-- it holds the mutex, behind the loop -/
  | leaving
  /-- no notifier is called from here on -/
  | detached
  /-- it has let go of the mutex -/
  | left
  /-- it has found the data ready -/
  | seen
  /-- it is gone, with the data if they were ready -/
  | returned (found : Option δ)
  /-- it is gone, and has not waited -/
  | abandoned

namespace Pc

def holds : Pc δ → Bool
  | .testing => true
  | .leaving => true
  | .detached => true
  | _ => false

def attached : Pc δ → Bool
  | .entering => true
  | .testing => true
  | .asleep => true
  | .roused _ => true
  | .leaving => true
  | _ => false

def behind : Pc δ → Bool
  | .leaving => true
  | .detached => true
  | .left => true
  | .seen => true
  | .returned _ => true
  | _ => false

end Pc

/-- How far the notifier is that holds the mutex. -/
inductive Phase where
  | locked
  | written
  | signalled
deriving DecidableEq, Repr

/-- The time, the data, the waiter, the notifiers that wait for the mutex and the one that holds it,
and the notifications that have been written. -/
structure State (δ ν : Type) where
  now : Nat
  data : δ
  pc : Pc δ := .entering
  pending : List ν := []
  inside : Option (ν × Phase) := none
  heard : List ν := []

inductive Move (ν : Type) where
  | tick (n : Nat)
  | call (v : ν)
  | lock (i : Nat)
  | write
  | signal
  | unlock
  | abandon
  | enter
  | test
  /-- the condition variable answers for no reason -/
  | spurious
  | expire
  | relock
  | detach
  | leave
  | look
  | take

namespace State

def free (s : State δ ν) : Bool := s.inside.isNone ∧ ¬ s.pc.holds

def lock (s : State δ ν) (i : Nat) : State δ ν :=
  match s.pending[i]? with
  | none => s
  | some v =>
    if s.free then { s with pending := s.pending.eraseIdx i, inside := some (v, .locked) } else s

def write (m : Shared δ ν) (s : State δ ν) : State δ ν :=
  match s.inside with
  | some (v, .locked) =>
    { s with data := m.update v s.data, inside := some (v, .written), heard := s.heard ++ [v] }
  | _ => s

def signal (s : State δ ν) : State δ ν :=
  match s.inside with
  | some (v, .written) =>
    match s.pc with
    | .asleep => { s with inside := some (v, .signalled), pc := .roused true }
    | _ => { s with inside := some (v, .signalled) }
  | _ => s

def unlock (s : State δ ν) : State δ ν :=
  match s.inside with
  | some (_, .signalled) => { s with inside := none }
  | _ => s

theorem write_of_locked {m : Shared δ ν} {s : State δ ν} {v : ν}
    (h : s.inside = some (v, .locked)) : s.write m = { s with
      data := m.update v s.data, inside := some (v, .written), heard := s.heard ++ [v] } := by
  rw [write, h]

theorem signal_of_written {s : State δ ν} {v : ν} (h : s.inside = some (v, .written)) :
    ∃ pc, s.signal = { s with inside := some (v, .signalled), pc := pc } := by
  simp only [signal, h]
  split
  · exact ⟨_, rfl⟩
  · exact ⟨_, rfl⟩

theorem unlock_of_signalled {s : State δ ν} {v : ν} (h : s.inside = some (v, .signalled)) :
    s.unlock = { s with inside := none } := by
  rw [unlock, h]

/-- The test of the loop; a wait that begins behind the deadline does not sleep. -/
def test (m : Shared δ ν) (s : State δ ν) : State δ ν :=
  match s.pc with
  | .testing =>
    if m.ready s.data then { s with pc := .leaving }
    else if m.deadline < s.now then { s with pc := .leaving }
    else { s with pc := .asleep }
  | _ => s

/-- The way back to the mutex: the loop ends when the time was over. -/
def relock (s : State δ ν) : State δ ν :=
  match s.pc with
  | .roused signalled =>
    if s.free then { s with pc := if signalled then .testing else .leaving } else s
  | _ => s

def look (m : Shared δ ν) (s : State δ ν) : State δ ν :=
  match s.pc with
  | .left => { s with pc := if m.ready s.data then .seen else .returned none }
  | _ => s

def go (s : State δ ν) (place : Pc δ → Option (Pc δ)) : State δ ν :=
  match place s.pc with
  | none => s
  | some pc => { s with pc := pc }

end State

def step (m : Shared δ ν) (s : State δ ν) : Move ν → State δ ν
  | .tick n => { s with now := s.now + n }
  | .call v => if s.pc.attached then { s with pending := s.pending ++ [v] } else s
  | .lock i => s.lock i
  | .write => s.write m
  | .signal => s.signal
  | .unlock => s.unlock
  | .abandon => if m.waits then s else s.go fun | .entering => some .abandoned | _ => none
  | .enter =>
    if m.waits ∧ s.free then s.go fun | .entering => some .testing | _ => none else s
  | .test => s.test m
  | .spurious => s.go fun | .asleep => some (.roused true) | _ => none
  | .expire =>
    if m.deadline ≤ s.now then s.go fun | .asleep => some (.roused false) | _ => none else s
  | .relock => s.relock
  | .detach => s.go fun | .leaving => some .detached | _ => none
  | .leave => s.go fun | .detached => some .left | _ => none
  | .look => s.look m
  | .take => s.go fun | .seen => some (.returned (some s.data)) | _ => none

/-! ### The invariant -/

def Shared.after (m : Shared δ ν) (vs : List ν) : δ := vs.foldl (fun d v => m.update v d) m.start

def Shared.answer (m : Shared δ ν) (d : δ) : Option δ := if m.ready d then some d else none

def Shared.Stable (m : Shared δ ν) : Prop :=
  ∀ v d, m.ready d = true → m.ready (m.update v d) = true

/-- What holds in every state of a run. -/
structure Inv (m : Shared δ ν) (s : State δ ν) : Prop where
  /-- one thread holds the mutex -/
  exclusive : s.inside ≠ none → s.pc.holds = false
  data : s.data = m.after s.heard
  /-- the waiter does not sleep on, unless it is about to be signalled -/
  asleep : s.pc = .asleep → m.ready s.data = true → ∃ v, s.inside = some (v, .written)
  roused : s.pc = .roused false → m.deadline ≤ s.now
  /-- the loop ends when the data are ready, or at the deadline -/
  patient : s.pc.behind = true → m.ready s.data = true ∨ m.deadline ≤ s.now
  seen : s.pc = .seen → m.ready s.data = true
  answer : ∀ found, s.pc = .returned found →
    ∃ pre, pre <+: s.heard ∧ found = m.answer (m.after pre)
  missed : s.pc = .returned none → m.deadline ≤ s.now

namespace Inv

variable {m : Shared δ ν} {s : State δ ν}

theorem init (m : Shared δ ν) (now : Nat) : Inv m { now := now, data := m.start } :=
  ⟨fun h => absurd rfl h, rfl, fun h => (by cases h), fun h => (by cases h), fun h => (by cases h),
    fun h => (by cases h), fun _ h => (by cases h), fun h => (by cases h)⟩

theorem go (h : Inv m s) {pc : Pc δ} (hpc : s.inside ≠ none → pc.holds = false)
    (hasleep : pc = .asleep → m.ready s.data = false)
    (hroused : pc = .roused false → m.deadline ≤ s.now)
    (hpatient : pc.behind = true → m.ready s.data = true ∨ m.deadline ≤ s.now)
    (hseen : pc = .seen → m.ready s.data = true)
    (hanswer : ∀ found, pc = .returned found → found = m.answer s.data)
    (hmissed : pc = .returned none → m.deadline ≤ s.now) : Inv m { s with pc := pc } := by
  refine ⟨hpc, h.data, fun hp hr => ?_, hroused, hpatient, hseen, fun found hp => ?_, hmissed⟩
  · rw [hasleep hp] at hr
    cases hr
  · exact ⟨s.heard, List.prefix_rfl, h.data ▸ hanswer found hp⟩

theorem tick (h : Inv m s) (n : Nat) : Inv m { s with now := s.now + n } := by
  refine ⟨h.exclusive, h.data, h.asleep, fun hp => ?_, fun hp => ?_, h.seen, h.answer, fun hp => ?_⟩
  · exact (h.roused hp).trans (Nat.le_add_right ..)
  · exact (h.patient hp).imp_right fun hle => hle.trans (Nat.le_add_right ..)
  · exact (h.missed hp).trans (Nat.le_add_right ..)

/-- Data that are ready while nobody is about to signal keep the waiter awake. -/
theorem not_ready (h : Inv m s) (hpc : s.pc = .asleep)
    (hinside : ∀ v, s.inside ≠ some (v, .written)) : m.ready s.data = false := by
  cases hr : m.ready s.data with
  | false => rfl
  | true =>
    obtain ⟨v, hv⟩ := h.asleep hpc hr
    exact absurd hv (hinside v)

theorem lock (h : Inv m s) (i : Nat) : Inv m (s.lock i) := by
  rw [State.lock]
  split
  · exact h
  split
  next hfree =>
    simp only [State.free, decide_eq_true_eq, Option.isNone_iff_eq_none] at hfree
    refine ⟨fun _ => by simpa using hfree.2, h.data, fun hp hr => ?_, h.roused, h.patient, h.seen,
      h.answer, h.missed⟩
    have hnot := h.not_ready hp (by simp [hfree.1])
    rw [hnot] at hr
    cases hr
  · exact h

theorem write (h : Inv m s) (hstable : m.Stable) : Inv m (s.write m) := by
  rw [State.write]
  split
  next v hinside =>
    refine ⟨fun _ => h.exclusive (by simp [hinside]), ?_, fun _ _ => ⟨v, rfl⟩, h.roused,
      fun hp => (h.patient hp).imp_left (hstable v _), fun hp => hstable v _ (h.seen hp),
      fun found hp => ?_, h.missed⟩
    · rw [Shared.after, List.foldl_append, h.data]
      rfl
    · obtain ⟨pre, hpre, hfound⟩ := h.answer found hp
      exact ⟨pre, hpre.trans (List.prefix_append ..), hfound⟩
  · exact h

theorem signal (h : Inv m s) : Inv m s.signal := by
  rw [State.signal]
  split
  next v hinside =>
    split
    next hpc =>
      refine ⟨fun _ => rfl, h.data, fun hp => ?_, fun hp => ?_, fun hp => ?_, fun hp => ?_,
        fun found hp => ?_, fun hp => ?_⟩ <;> cases hp
    next hpc =>
      exact ⟨fun _ => h.exclusive (by simp [hinside]), h.data, fun hp => absurd hp hpc, h.roused,
        h.patient, h.seen, h.answer, h.missed⟩
  · exact h

theorem unlock (h : Inv m s) : Inv m s.unlock := by
  rw [State.unlock]
  split
  next v hinside =>
    refine ⟨fun hne => absurd rfl hne, h.data, fun hp hr => ?_, h.roused, h.patient, h.seen,
      h.answer, h.missed⟩
    have hnot := h.not_ready hp (by simp [hinside])
    rw [hnot] at hr
    cases hr
  · exact h

theorem inside_of_holds (h : Inv m s) (hpc : s.pc.holds = true) : s.inside = none := by
  by_contra hne
  rw [h.exclusive hne] at hpc
  cases hpc

theorem leaving (h : Inv m s) (hinside : s.inside = none)
    (hor : m.ready s.data = true ∨ m.deadline ≤ s.now) : Inv m { s with pc := .leaving } :=
  h.go (fun hne => absurd hinside hne) (by rintro ⟨⟩) (by rintro ⟨⟩) (fun _ => hor) (by rintro ⟨⟩)
    (by rintro _ ⟨⟩) (by rintro ⟨⟩)

theorem testing (h : Inv m s) (hinside : s.inside = none) : Inv m { s with pc := .testing } :=
  h.go (fun hne => absurd hinside hne) (by rintro ⟨⟩) (by rintro ⟨⟩) (by rintro ⟨⟩) (by rintro ⟨⟩)
    (by rintro _ ⟨⟩) (by rintro ⟨⟩)

theorem test (h : Inv m s) : Inv m (s.test m) := by
  rw [State.test]
  split
  next hpc =>
    have hinside : s.inside = none := h.inside_of_holds (by rw [hpc]; rfl)
    split
    next hready => exact h.leaving hinside (.inl hready)
    split
    next hlate => exact h.leaving hinside (.inr (Nat.le_of_lt hlate))
    next hready _ =>
      exact h.go (fun _ => rfl) (fun _ => Bool.not_eq_true _ ▸ hready) (by rintro ⟨⟩)
        (by rintro ⟨⟩) (by rintro ⟨⟩) (by rintro _ ⟨⟩) (by rintro ⟨⟩)
  · exact h

theorem relock (h : Inv m s) : Inv m s.relock := by
  rw [State.relock]
  split
  next signalled hpc =>
    split
    next hfree =>
      simp only [State.free, decide_eq_true_eq, Option.isNone_iff_eq_none] at hfree
      cases signalled with
      | true => exact h.testing hfree.1
      | false => exact h.leaving hfree.1 (.inr (h.roused hpc))
    · exact h
  · exact h

theorem look (h : Inv m s) : Inv m (s.look m) := by
  rw [State.look]
  split
  next hpc =>
    have hor := h.patient (by rw [hpc]; rfl)
    split
    next hready =>
      exact h.go (fun _ => rfl) (by rintro ⟨⟩) (by rintro ⟨⟩) (fun _ => hor) (fun _ => hready)
        (by rintro _ ⟨⟩) (by rintro ⟨⟩)
    next hready =>
      refine h.go (fun _ => rfl) (by rintro ⟨⟩) (by rintro ⟨⟩) (fun _ => hor) (by rintro ⟨⟩)
        (fun found hp => ?_) fun _ => hor.resolve_left hready
      cases hp
      rw [Shared.answer, if_neg hready]
  · exact h

theorem goes {place : Pc δ → Option (Pc δ)} (h : Inv m s)
    (hplace : ∀ pc, place s.pc = some pc → Inv m { s with pc := pc }) : Inv m (s.go place) := by
  rw [State.go]
  split
  · exact h
  next pc hpc => exact hplace pc hpc

/-- **One step keeps the invariant.** -/
theorem step (hstable : m.Stable) (h : Inv m s) (mv : Move ν) : Inv m (step m s mv) := by
  cases mv with
  | tick n => exact h.tick n
  | call v =>
    rw [Monitor.step]
    split
    · exact ⟨h.exclusive, h.data, h.asleep, h.roused, h.patient, h.seen, h.answer, h.missed⟩
    · exact h
  | lock i => exact h.lock i
  | write => exact h.write hstable
  | signal => exact h.signal
  | unlock => exact h.unlock
  | test => exact h.test
  | relock => exact h.relock
  | look => exact h.look
  | abandon =>
    rw [Monitor.step]
    split
    · exact h
    refine h.goes fun pc hpc => ?_
    split at hpc <;> cases hpc
    exact h.go (fun _ => rfl) (by rintro ⟨⟩) (by rintro ⟨⟩) (by rintro ⟨⟩) (by rintro ⟨⟩)
      (by rintro _ ⟨⟩) (by rintro ⟨⟩)
  | enter =>
    rw [Monitor.step]
    split
    next hfree =>
      simp only [State.free, decide_eq_true_eq, Option.isNone_iff_eq_none] at hfree
      refine h.goes fun pc hpc => ?_
      split at hpc <;> cases hpc
      exact h.testing hfree.2.1
    · exact h
  | spurious =>
    rw [Monitor.step]
    refine h.goes fun pc hpc => ?_
    split at hpc <;> cases hpc
    exact h.go (fun _ => rfl) (by rintro ⟨⟩) (by rintro ⟨⟩) (by rintro ⟨⟩) (by rintro ⟨⟩)
      (by rintro _ ⟨⟩) (by rintro ⟨⟩)
  | expire =>
    rw [Monitor.step]
    split
    next hlate =>
      refine h.goes fun pc hpc => ?_
      split at hpc <;> cases hpc
      exact h.go (fun _ => rfl) (by rintro ⟨⟩) (fun _ => hlate) (by rintro ⟨⟩) (by rintro ⟨⟩)
        (by rintro _ ⟨⟩) (by rintro ⟨⟩)
    · exact h
  | detach =>
    rw [Monitor.step]
    refine h.goes fun pc hpc => ?_
    split at hpc
    next hleaving =>
      cases hpc
      have hinside := h.inside_of_holds (by rw [hleaving]; rfl)
      exact h.go (fun hne => absurd hinside hne) (by rintro ⟨⟩) (by rintro ⟨⟩)
        (fun _ => h.patient (by rw [hleaving]; rfl)) (by rintro ⟨⟩) (by rintro _ ⟨⟩) (by rintro ⟨⟩)
    · cases hpc
  | leave =>
    rw [Monitor.step]
    refine h.goes fun pc hpc => ?_
    split at hpc
    next hdetached =>
      cases hpc
      exact h.go (fun _ => rfl) (by rintro ⟨⟩) (by rintro ⟨⟩)
        (fun _ => h.patient (by rw [hdetached]; rfl)) (by rintro ⟨⟩) (by rintro _ ⟨⟩)
        (by rintro ⟨⟩)
    · cases hpc
  | take =>
    rw [Monitor.step]
    refine h.goes fun pc hpc => ?_
    split at hpc
    next hseen =>
      cases hpc
      refine h.go (fun _ => rfl) (by rintro ⟨⟩) (by rintro ⟨⟩)
        (fun _ => h.patient (by rw [hseen]; rfl)) (by rintro ⟨⟩) (fun found hp => ?_)
        (by rintro ⟨⟩)
      cases hp
      rw [Shared.answer, if_pos (h.seen hseen)]
    · cases hpc

end Inv

/-- **The invariant holds in every run.** -/
theorem inv_of_run {m : Shared δ ν} (hstable : m.Stable) (now : Nat) (ms : List (Move ν)) :
    Inv m (run (step m) { now := now, data := m.start } ms) := by
  exact run_keeps_always (fun mv s h => h.step hstable mv) ms (Inv.init m now)

/-! ### The way out -/

namespace Pc

def gone : Pc δ → Bool
  | .returned _ => true
  | .abandoned => true
  | _ => false

/-- The waiter has gone the way of one that waits. -/
def entered : Pc δ → Bool
  | .entering => false
  | .abandoned => false
  | _ => true

end Pc

/-- The waiter goes the way of one that waits, or the other one. -/
structure Decided (m : Shared δ ν) (s : State δ ν) : Prop where
  entered : s.pc.entered = true → m.waits = true
  abandoned : s.pc = .abandoned → m.waits = false

namespace Decided

variable {m : Shared δ ν} {s : State δ ν}

theorem goes {place : Pc δ → Option (Pc δ)} (h : Decided m s)
    (hplace : ∀ pc, place s.pc = some pc → s.pc.entered = true ∧ pc.entered = true) :
    Decided m (s.go place) := by
  rw [State.go]
  split
  · exact h
  next pc hpc =>
    obtain ⟨hentered, hon⟩ := hplace pc hpc
    refine ⟨fun _ => h.entered hentered, fun habandoned => ?_⟩
    simp only at habandoned
    rw [habandoned] at hon
    cases hon

/-- **One step keeps it.** -/
theorem step (h : Decided m s) (mv : Move ν) : Decided m (step m s mv) := by
  have hon : ∀ {s' : State δ ν}, s.pc.entered = true → s'.pc.entered = true → Decided m s' :=
    fun hentered hon => ⟨fun _ => h.entered hentered, fun habandoned => by
      rw [habandoned] at hon
      cases hon⟩
  cases mv with
  | tick n => exact ⟨h.entered, h.abandoned⟩
  | call v =>
    rw [Monitor.step]
    split
    · exact ⟨h.entered, h.abandoned⟩
    · exact h
  | lock i =>
    simp only [Monitor.step, State.lock]
    repeat' split
    all_goals exact ⟨h.entered, h.abandoned⟩
  | write =>
    simp only [Monitor.step, State.write]
    split <;> exact ⟨h.entered, h.abandoned⟩
  | signal =>
    simp only [Monitor.step, State.signal]
    split
    · split
      next hpc => exact hon (by rw [hpc]; rfl) rfl
      · exact ⟨h.entered, h.abandoned⟩
    · exact h
  | unlock =>
    simp only [Monitor.step, State.unlock]
    split <;> exact ⟨h.entered, h.abandoned⟩
  | abandon =>
    rw [Monitor.step]
    split
    · exact h
    next hwaits =>
      rw [State.go]
      split
      · exact h
      next pc hpc =>
        split at hpc <;> cases hpc
        exact ⟨by rintro ⟨⟩, fun _ => Bool.not_eq_true _ ▸ hwaits⟩
  | enter =>
    rw [Monitor.step]
    split
    next hwaits =>
      rw [State.go]
      split
      · exact h
      next pc hpc =>
        split at hpc <;> cases hpc
        exact ⟨fun _ => hwaits.1, by rintro ⟨⟩⟩
    · exact h
  | test =>
    simp only [Monitor.step, State.test]
    split
    next hpc =>
      repeat' split
      all_goals exact hon (by rw [hpc]; rfl) rfl
    · exact h
  | relock =>
    simp only [Monitor.step, State.relock]
    split
    next hpc =>
      split
      · refine hon (by rw [hpc]; rfl) ?_
        simp only
        split <;> rfl
      · exact h
    · exact h
  | look =>
    simp only [Monitor.step, State.look]
    split
    next hpc =>
      refine hon (by rw [hpc]; rfl) ?_
      simp only
      split <;> rfl
    · exact h
  | expire =>
    rw [Monitor.step]
    split
    · refine h.goes fun pc hpc => ?_
      split at hpc <;> cases hpc
      next hasleep => exact ⟨by rw [hasleep]; rfl, rfl⟩
    · exact h
  | _ =>
    rw [Monitor.step]
    refine h.goes fun pc hpc => ?_
    split at hpc <;> cases hpc
    next hplace => exact ⟨by rw [hplace]; rfl, rfl⟩

/-- **A waiter that waits returns**, and one that does not is gone without. -/
theorem of_gone (h : Decided m s) (hgone : s.pc.gone = true) :
    (m.waits = true → ∃ found, s.pc = .returned found) ∧
      (m.waits = false → s.pc = .abandoned) := by
  cases hpc : s.pc with
  | returned found =>
    have hwaits := h.entered (by rw [hpc]; rfl)
    exact ⟨fun _ => ⟨found, rfl⟩, fun hnot => absurd (hnot.symm.trans hwaits) Bool.false_ne_true⟩
  | abandoned =>
    have hwaits := h.abandoned hpc
    exact ⟨fun hnot => absurd (hwaits.symm.trans hnot) Bool.false_ne_true, fun _ => rfl⟩
  | _ =>
    rw [hpc] at hgone
    cases hgone

end Decided

theorem decided_of_run (m : Shared δ ν) (now : Nat) (ms : List (Move ν)) :
    Decided m (run (step m) { now := now, data := m.start } ms) :=
  run_keeps_always (fun mv _ h => h.step mv) ms ⟨by rintro ⟨⟩, by rintro ⟨⟩⟩

/-- Steps of the waiter and of the notifier that holds the mutex; nothing else has to happen. -/
def Move.isInner : Move ν → Bool
  | .tick _ => false
  | .call _ => false
  | .lock _ => false
  | .spurious => false
  | _ => true

/-- From the state the waiter can be gone within `n` steps that wait for nothing to happen. -/
def Leaves (m : Shared δ ν) (n : Nat) (s : State δ ν) : Prop :=
  ∃ ms : List (Move ν), ms.length ≤ n ∧ (∀ mv ∈ ms, mv.isInner = true) ∧
    (run (step m) s ms).pc.gone = true

namespace Leaves

variable {m : Shared δ ν} {s : State δ ν} {n : Nat}

theorem of_gone (h : s.pc.gone = true) : Leaves m 0 s :=
  ⟨[], Nat.le_refl 0, List.forall_mem_nil _, h⟩

theorem cons (mv : Move ν) (hmv : mv.isInner = true) (h : Leaves m n (step m s mv)) :
    Leaves m (n + 1) s := by
  obtain ⟨ms, hlen, hinner, hgone⟩ := h
  refine ⟨mv :: ms, ?_, List.forall_mem_cons.mpr ⟨hmv, hinner⟩, hgone⟩
  rw [List.length_cons]
  omega

theorem mono {k : Nat} (h : Leaves m n s) (hle : n ≤ k) : Leaves m k s := by
  obtain ⟨ms, hlen, hinner, hgone⟩ := h
  exact ⟨ms, hlen.trans hle, hinner, hgone⟩

theorem seen (hpc : s.pc = .seen) : Leaves m 1 s := by
  refine cons .take rfl (of_gone ?_)
  simp [step, State.go, hpc, Pc.gone]

theorem left (hpc : s.pc = .left) : Leaves m 2 s := by
  refine cons .look rfl ?_
  cases hready : m.ready s.data with
  | true => exact seen (by simp [step, State.look, hpc, hready])
  | false =>
    refine (of_gone ?_).mono (Nat.zero_le 1)
    simp [step, State.look, hpc, hready, Pc.gone]

theorem detached (hpc : s.pc = .detached) : Leaves m 3 s :=
  cons .leave rfl (left (by simp [step, State.go, hpc]))

theorem leaving (hpc : s.pc = .leaving) : Leaves m 4 s :=
  cons .detach rfl (detached (by simp [step, State.go, hpc]))

theorem testing (hpc : s.pc = .testing) (hor : m.ready s.data = true ∨ m.deadline < s.now) :
    Leaves m 5 s := by
  refine cons .test rfl (leaving ?_)
  simp only [step, State.test, hpc]
  split
  · rfl
  next hready => rw [if_pos (hor.resolve_left hready)]

theorem entering (hpc : s.pc = .entering) (hinside : s.inside = none)
    (hor : m.ready s.data = true ∨ m.deadline < s.now) : Leaves m 6 s := by
  have hfree : s.free = true := by simp [State.free, hinside, hpc, Pc.holds]
  cases hwaits : m.waits with
  | true =>
    refine cons .enter rfl ?_
    rw [step, if_pos ⟨hwaits, hfree⟩]
    simp only [State.go, hpc]
    exact testing rfl hor
  | false =>
    refine (cons .abandon rfl (of_gone ?_)).mono (by omega)
    simp [step, State.go, hpc, hwaits, Pc.gone]

theorem roused {signalled : Bool} (hpc : s.pc = .roused signalled) (hinside : s.inside = none)
    (hor : m.ready s.data = true ∨ m.deadline < s.now) : Leaves m 6 s := by
  have hfree : s.free = true := by simp [State.free, hinside, hpc, Pc.holds]
  refine cons .relock rfl ?_
  simp only [step, State.relock, hpc, hfree, if_true]
  cases signalled with
  | true => exact testing rfl hor
  | false => exact (leaving rfl).mono (by omega)

theorem of_alone (h : Inv m s) (hinside : s.inside = none)
    (hor : m.ready s.data = true ∨ m.deadline < s.now) : Leaves m 7 s := by
  cases hpc : s.pc with
  | entering => exact (entering hpc hinside hor).mono (by omega)
  | testing => exact (testing hpc hor).mono (by omega)
  | asleep =>
    -- nobody is about to signal, so the data are not ready
    have hnot := h.not_ready hpc (by simp [hinside])
    have hlate : m.deadline < s.now := hor.resolve_left (by simp [hnot])
    refine cons .expire rfl ?_
    rw [step, if_pos (Nat.le_of_lt hlate)]
    simp only [State.go, hpc]
    exact roused rfl hinside hor
  | roused signalled => exact (roused hpc hinside hor).mono (by omega)
  | leaving => exact (leaving hpc).mono (by omega)
  | detached => exact (detached hpc).mono (by omega)
  | left => exact (left hpc).mono (by omega)
  | seen => exact (seen hpc).mono (by omega)
  | returned found => exact (of_gone (by rw [hpc]; rfl)).mono (by omega)
  | abandoned => exact (of_gone (by rw [hpc]; rfl)).mono (by omega)

/-- **The waiter is never stuck**: from everywhere it is a few steps from its return, when it has
been told or the deadline has passed. -/
theorem of_inv (hstable : m.Stable) (h : Inv m s)
    (hor : m.ready s.data = true ∨ m.deadline < s.now) : Leaves m 10 s := by
  have hunlock : ∀ {s : State δ ν} {v : ν}, Inv m s → s.inside = some (v, .signalled) →
      (m.ready s.data = true ∨ m.deadline < s.now) → Leaves m 8 s := by
    intro s v h hinside hor
    have hleaves := of_alone (s := s.unlock) h.unlock
    rw [State.unlock_of_signalled hinside] at hleaves
    refine cons .unlock rfl ?_
    rw [step, State.unlock_of_signalled hinside]
    exact hleaves rfl hor
  have hsignal : ∀ {s : State δ ν} {v : ν}, Inv m s → s.inside = some (v, .written) →
      (m.ready s.data = true ∨ m.deadline < s.now) → Leaves m 9 s := by
    intro s v h hinside hor
    obtain ⟨pc, hsignal⟩ := State.signal_of_written hinside
    have hinv := h.signal
    refine cons .signal rfl ?_
    rw [step]
    rw [hsignal] at hinv ⊢
    exact hunlock hinv rfl hor
  cases hinside : s.inside with
  | none => exact (of_alone h hinside hor).mono (by omega)
  | some x =>
    obtain ⟨v, phase⟩ := x
    cases phase with
    | locked =>
      have hinv := h.write hstable
      refine cons .write rfl ?_
      rw [step]
      rw [State.write_of_locked hinside] at hinv ⊢
      exact hsignal hinv rfl (hor.imp_left (hstable v _))
    | written => exact (hsignal h hinside hor).mono (by omega)
    | signalled => exact (hunlock h hinside hor).mono (by omega)

end Leaves

/-! ### Who is left behind -/

namespace State

/-- The notifiers that have not written yet. -/
def unheard (s : State δ ν) : Nat :=
  match s.inside with
  | some (_, .locked) => s.pending.length + 1
  | _ => s.pending.length

def called (s : State δ ν) : Nat := s.heard.length + s.unheard

def Quiet (s : State δ ν) : Prop := s.pending = [] ∧ s.inside = none

theorem unheard_of_not_locked {s : State δ ν} (h : ∀ v, s.inside ≠ some (v, .locked)) :
    s.unheard = s.pending.length := by
  rw [unheard]
  split
  next v hinside => exact absurd hinside (h v)
  · rfl

theorem Quiet.lock {s : State δ ν} (h : s.Quiet) (i : Nat) : s.lock i = s := by
  simp [State.lock, h.1]

theorem Quiet.write {s : State δ ν} (h : s.Quiet) (m : Shared δ ν) : s.write m = s := by
  rw [State.write, h.2]

theorem Quiet.signal {s : State δ ν} (h : s.Quiet) : s.signal = s := by
  rw [State.signal, h.2]

theorem Quiet.unlock {s : State δ ν} (h : s.Quiet) : s.unlock = s := by
  rw [State.unlock, h.2]

end State

theorem called_le_step (m : Shared δ ν) (s : State δ ν) (mv : Move ν) :
    s.called ≤ (step m s mv).called := by
  have hgo : ∀ place : Pc δ → Option (Pc δ), (s.go place).called = s.called := by
    intro place
    rw [State.go]
    split <;> rfl
  cases mv with
  | tick n => exact Nat.le_refl _
  | call v =>
    rw [step]
    split
    · simp only [State.called, State.unheard, List.length_append, List.length_singleton]
      split <;> omega
    · exact Nat.le_refl _
  | lock i =>
    simp only [step, State.lock]
    split
    · exact Nat.le_refl _
    next v hv =>
    split
    next hfree =>
      simp only [State.free, decide_eq_true_eq, Option.isNone_iff_eq_none] at hfree
      obtain ⟨hi, _⟩ := List.getElem?_eq_some_iff.mp hv
      have hlen := List.length_eraseIdx_of_lt hi
      simp only [State.called, State.unheard, hfree.1, hlen]
      omega
    · exact Nat.le_refl _
  | write =>
    simp only [step, State.write]
    split
    next v hinside =>
      simp only [State.called, State.unheard, hinside, List.length_append, List.length_singleton]
      omega
    · exact Nat.le_refl _
  | signal =>
    simp only [step, State.signal]
    split
    next v hinside =>
      split <;> simp only [State.called, State.unheard, hinside] <;> exact Nat.le_refl _
    · exact Nat.le_refl _
  | unlock =>
    simp only [step, State.unlock]
    split
    next v hinside =>
      simp only [State.called, State.unheard, hinside]
      exact Nat.le_refl _
    · exact Nat.le_refl _
  | test =>
    simp only [step, State.test]
    repeat' split
    all_goals exact Nat.le_refl _
  | relock =>
    simp only [step, State.relock]
    repeat' split
    all_goals exact Nat.le_refl _
  | look =>
    simp only [step, State.look]
    split <;> exact Nat.le_refl _
  | enter =>
    rw [step]
    split
    · rw [hgo]
    · exact Nat.le_refl _
  | expire =>
    rw [step]
    split
    · rw [hgo]
    · exact Nat.le_refl _
  | abandon =>
    rw [step]
    split
    · exact Nat.le_refl _
    · rw [hgo]
  | spurious => rw [step, hgo]
  | detach => rw [step, hgo]
  | leave => rw [step, hgo]
  | take => rw [step, hgo]

/-- Before the deadline, and if no more than one notifier has been called, the waiter leaves its
loop when that one has gone. -/
def Alone (m : Shared δ ν) (s : State δ ν) : Prop :=
  s.pc.behind = true → s.now < m.deadline → s.called ≤ 1 → s.Quiet

namespace Alone

variable {m : Shared δ ν} {s : State δ ν}

theorem heard (h : Inv m s) (hstart : m.ready m.start = false)
    (hready : m.ready s.data = true) : 0 < s.heard.length := by
  rw [List.length_pos_iff]
  intro hnone
  rw [h.data, hnone] at hready
  exact absurd hready (by simp [Shared.after, hstart])

/-- Behind the loop: the only notifier has written, so none waits, and the waiter has the mutex. -/
theorem quiet (h : Inv m s) (hstart : m.ready m.start = false)
    (hready : m.ready s.data = true) (hinside : s.inside = none) (hcalled : s.called ≤ 1) :
    s.Quiet := by
  have hheard := heard h hstart hready
  rw [State.called, State.unheard_of_not_locked (by simp [hinside])] at hcalled
  exact ⟨List.length_eq_zero_iff.mp (by omega), hinside⟩

theorem goes {place : Pc δ → Option (Pc δ)} (hA : Alone m s)
    (hplace : ∀ pc, place s.pc = some pc → pc.behind = true → s.pc.behind = true) :
    Alone m (s.go place) := by
  rw [State.go]
  split
  · exact hA
  next pc hpc => exact fun hbehind => hA (hplace pc hpc hbehind)

theorem test (h : Inv m s) (hstart : m.ready m.start = false) (hA : Alone m s) :
    Alone m (s.test m) := by
  rw [State.test]
  split
  next hpc =>
    have hinside : s.inside = none := h.inside_of_holds (by rw [hpc]; rfl)
    split
    next hready => exact fun _ _ hcalled => quiet (s := s) h hstart hready hinside hcalled
    split
    next hlate => exact fun _ hnow => absurd hnow (Nat.lt_asymm hlate)
    · rintro ⟨⟩
  · exact hA

theorem relock (h : Inv m s) (hA : Alone m s) : Alone m s.relock := by
  rw [State.relock]
  split
  next signalled hpc =>
    split
    · cases signalled with
      | true => rintro ⟨⟩
      | false => exact fun _ hnow => absurd hnow (Nat.not_lt.mpr (h.roused hpc))
    · exact hA
  · exact hA

theorem look (hA : Alone m s) : Alone m (s.look m) := by
  rw [State.look]
  split
  next hpc => exact fun _ => hA (by rw [hpc]; rfl)
  · exact hA

theorem call (h : Inv m s) (hstart : m.ready m.start = false) (v : ν) (hA : Alone m s) :
    Alone m (step m s (.call v)) := by
  intro hbehind hnow hcalled
  have hbefore := (called_le_step m s (.call v)).trans hcalled
  rw [step] at hbehind hnow hcalled ⊢
  split at hbehind
  next hattached =>
    rw [if_pos hattached] at hnow hcalled
    have hquiet := hA hbehind hnow hbefore
    have hready := (h.patient hbehind).resolve_right (Nat.not_le.mpr hnow)
    have hheard := heard h hstart hready
    rw [State.called, State.unheard_of_not_locked (by simp [hquiet.2])] at hcalled
    simp only [List.length_append, List.length_singleton] at hcalled
    omega
  next hattached =>
    rw [if_neg hattached] at hnow hcalled ⊢
    exact hA hbehind hnow hcalled

theorem notifier {mv : Move ν} (hA : Alone m s) (hquiet : s.Quiet → Monitor.step m s mv = s)
    (hbehind : (Monitor.step m s mv).pc.behind = true → s.pc.behind = true)
    (hnow : (Monitor.step m s mv).now = s.now) : Alone m (Monitor.step m s mv) := by
  intro hb hn hc
  have hnone := hA (hbehind hb) (hnow ▸ hn) ((called_le_step m s mv).trans hc)
  rw [hquiet hnone]
  exact hnone

/-- **One step keeps it.** -/
theorem step (h : Inv m s) (hstart : m.ready m.start = false) (hA : Alone m s) (mv : Move ν) :
    Alone m (step m s mv) := by
  cases mv with
  | tick n => exact fun hb hn => hA hb (Nat.lt_of_le_of_lt (Nat.le_add_right ..) hn)
  | call v => exact call h hstart v hA
  | lock i =>
    refine hA.notifier (fun hq => hq.lock i) ?_ ?_ <;> simp only [Monitor.step, State.lock]
    · repeat' split
      all_goals exact id
    · repeat' split
      all_goals rfl
  | write =>
    refine hA.notifier (fun hq => hq.write m) ?_ ?_ <;> simp only [Monitor.step, State.write]
    · split <;> exact id
    · split <;> rfl
  | signal =>
    refine hA.notifier (fun hq => hq.signal) ?_ ?_ <;> simp only [Monitor.step, State.signal]
    · split
      · split
        · rintro ⟨⟩
        · exact id
      · exact id
    · repeat' split
      all_goals rfl
  | unlock =>
    refine hA.notifier (fun hq => hq.unlock) ?_ ?_ <;> simp only [Monitor.step, State.unlock]
    · split <;> exact id
    · split <;> rfl
  | test => exact hA.test h hstart
  | relock => exact hA.relock h
  | look => exact hA.look
  | abandon =>
    rw [Monitor.step]
    split
    · exact hA
    refine hA.goes fun pc hpc hbehind => ?_
    split at hpc <;> cases hpc
    cases hbehind
  | enter =>
    rw [Monitor.step]
    split
    · refine hA.goes fun pc hpc hbehind => ?_
      split at hpc <;> cases hpc
      cases hbehind
    · exact hA
  | spurious =>
    refine hA.goes fun pc hpc hbehind => ?_
    split at hpc <;> cases hpc
    cases hbehind
  | expire =>
    rw [Monitor.step]
    split
    · refine hA.goes fun pc hpc hbehind => ?_
      split at hpc <;> cases hpc
      cases hbehind
    · exact hA
  | detach =>
    refine hA.goes fun pc hpc _ => ?_
    split at hpc
    next hleaving => rw [hleaving]; rfl
    · cases hpc
  | leave =>
    refine hA.goes fun pc hpc _ => ?_
    split at hpc
    next hdetached => rw [hdetached]; rfl
    · cases hpc
  | take =>
    refine hA.goes fun pc hpc _ => ?_
    split at hpc
    next hseen => rw [hseen]; rfl
    · cases hpc

end Alone

/-- When the waiter is gone and no notifier is under way, only the time goes on. -/
theorem step_of_gone {m : Shared δ ν} {s : State δ ν} (h : s.Quiet) (hgone : s.pc.gone = true)
    (mv : Move ν) : (step m s mv).pc = s.pc ∧ (step m s mv).Quiet := by
  have hstays : ∀ place : Pc δ → Option (Pc δ), place s.pc = none →
      (s.go place).pc = s.pc ∧ (s.go place).Quiet := by
    intro place hplace
    rw [State.go, hplace]
    exact ⟨rfl, h⟩
  have hpc : (∃ found, s.pc = .returned found) ∨ s.pc = .abandoned := by
    cases hpc : s.pc with
    | returned found => exact .inl ⟨found, rfl⟩
    | abandoned => exact .inr rfl
    | _ =>
      rw [hpc] at hgone
      cases hgone
  cases mv with
  | tick n => exact ⟨rfl, h⟩
  | call v => rcases hpc with ⟨found, hpc⟩ | hpc <;> simpa [step, hpc, Pc.attached] using h
  | lock i => simpa [step, h.lock i] using h
  | write => simpa [step, h.write m] using h
  | signal => simpa [step, h.signal] using h
  | unlock => simpa [step, h.unlock] using h
  | test => rcases hpc with ⟨found, hpc⟩ | hpc <;> simpa [step, State.test, hpc] using h
  | relock => rcases hpc with ⟨found, hpc⟩ | hpc <;> simpa [step, State.relock, hpc] using h
  | look => rcases hpc with ⟨found, hpc⟩ | hpc <;> simpa [step, State.look, hpc] using h
  | enter =>
    rw [step]
    split
    · exact hstays _ (by rcases hpc with ⟨found, hpc⟩ | hpc <;> rw [hpc])
    · exact ⟨rfl, h⟩
  | expire =>
    rw [step]
    split
    · exact hstays _ (by rcases hpc with ⟨found, hpc⟩ | hpc <;> rw [hpc])
    · exact ⟨rfl, h⟩
  | abandon =>
    rw [step]
    split
    · exact ⟨rfl, h⟩
    · exact hstays _ (by rcases hpc with ⟨found, hpc⟩ | hpc <;> rw [hpc])
  | _ => exact hstays _ (by rcases hpc with ⟨found, hpc⟩ | hpc <;> rw [hpc])

/-- **Nobody is left behind** by a waiter that has gone before the deadline, when no more than one
notifier has been called; and nobody comes later. -/
theorem quiet_of_run {m : Shared δ ν} (hstable : m.Stable) (hstart : m.ready m.start = false)
    (now : Nat) {ms : List (Move ν)} {found : Option δ}
    (hpc : (run (step m) { now := now, data := m.start } ms).pc = .returned found)
    (hnow : (run (step m) { now := now, data := m.start } ms).now < m.deadline)
    (hcalled : (run (step m) { now := now, data := m.start } ms).called ≤ 1) (ns : List (Move ν)) :
    (run (step m) { now := now, data := m.start } (ms ++ ns)).Quiet := by
  have hboth : ∀ ms : List (Move ν),
      Inv m (run (step m) { now := now, data := m.start } ms) ∧
        Alone m (run (step m) { now := now, data := m.start } ms) := fun ms =>
    run_keeps_always (I := fun s => Inv m s ∧ Alone m s)
      (fun mv s h => ⟨h.1.step hstable mv, h.2.step h.1 hstart mv⟩) ms
      ⟨Inv.init m now, by rintro ⟨⟩⟩
  have hquiet := (hboth ms).2 (by rw [hpc]; rfl) hnow hcalled
  rw [run_append]
  refine (run_keeps_always (I := fun s : State δ ν => s.pc.gone = true ∧ s.Quiet)
    (fun mv s h => ?_) ns ⟨by rw [hpc]; rfl, hquiet⟩).2
  obtain ⟨hsame, hquiet'⟩ := step_of_gone (m := m) h.2 h.1 mv
  exact ⟨hsame ▸ h.1, hquiet'⟩

end Monitor
