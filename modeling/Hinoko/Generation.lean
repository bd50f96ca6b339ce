import Hinoko.ResourceAuto
import Hinoko.ResourceOnce

/-!
# The generation of the bus

An object keeps the generation of the bus: it asks for it when the character device is
opened and when a source is created, and takes it from the event of each bus reset.  An
answer is as new as the bus, while events wait in the queue of the descriptor.

* `Cached`: what is kept is no newer than what waits in the queue.
* `generation_of_run`: it never goes back, if no event but the last is still waiting when
  the generation is asked for; and a change is notified, and nothing else.
-/

namespace Hinoko

open Transition

/-- An object, the generation of the bus, and the events of bus resets that wait in the queue of the
descriptor. -/
structure Bus (π : Type) where
  object : π
  generation : UInt32
  queue : List UInt32 := []

/-- What the bus and the application do.  While a device is being opened the bus may be reset,
between the opening and the question for the generation. -/
inductive BusMove where
  | reset (generation : UInt32)
  | openPath (path : Option String) (openResult : Except (Nat × Bool) Nat) (resets : List UInt32)
      (getInfo : Option Nat) (error : ErrorLocation)
  | createSource (source : Bool) (getInfo : Option Nat) (error : ErrorLocation)
  | dispatch

namespace Bus

variable {π : Type} [FwIsoResource π]

def shown (b : Bus π) : UInt32 := (FwIsoResource.state b.object).generation

def answer (generation : UInt32) : Option Nat → Except Nat UInt32
  | none => .ok generation
  | some errno => .error errno

def queueOf (p : π) (queue : List UInt32) : List UInt32 :=
  if 0 ≤ (FwIsoResource.state p).fd then queue else []

def latest (generation : UInt32) (resets : List UInt32) : UInt32 := resets.getLastD generation

def move (b : Bus π) : BusMove → Bus π × List ResourceEffect
  | .reset generation =>
    (⟨b.object, generation, queueOf b.object (b.queue ++ [generation])⟩, [])
  | .openPath path openResult resets getInfo error =>
    let generation := latest b.generation resets
    let o := FwIsoResource.openPath b.object path ⟨openResult, answer generation getInfo⟩ error
    (⟨o.state, generation, queueOf o.state (b.queue ++ resets)⟩, o.effects)
  | .createSource source getInfo error =>
    let o := FwIsoResource.createSource b.object source (answer b.generation getInfo) error
    ({ b with object := o.state }, o.effects)
  | .dispatch =>
    match b.queue with
    | [] => (b, [])
    | generation :: queue =>
      let h := FwIsoResource.handleEvent (.busReset generation) b.object
      (⟨h.1, b.generation, queue⟩, h.2)

def step (b : Bus π) (m : BusMove) : Bus π := (b.move m).1

def Increases (m : BusMove) (b : Bus π) : Prop :=
  match m with
  | .reset generation => b.generation < generation
  | .openPath _ _ resets _ _ => (b.generation :: resets).Pairwise (· < ·)
  | _ => True

def Asks (m : BusMove) (b : Bus π) : Prop :=
  match m with
  | .openPath path openResult _ getInfo error =>
    path ≠ none ∧ path ≠ some "" ∧ error.admits ∧ (FwIsoResource.state b.object).fd < 0 ∧
      openResult.isOk ∧ getInfo = none
  | .createSource source getInfo error =>
    source ∧ error = .at none ∧ 0 ≤ (FwIsoResource.state b.object).fd ∧ getInfo = none
  | _ => False

/-- No event but the last is still waiting when the generation is asked for. -/
def UpToDate (m : BusMove) (b : Bus π) : Prop :=
  Asks m b →
    match m with
    | .openPath _ _ resets _ _ => (b.queue ++ resets).length ≤ 1
    | _ => b.queue.length ≤ 1

/-- What is shown is no newer than what waits in the queue, and that no newer than the bus; what
waits last is the generation of the bus. -/
structure Cached (b : Bus π) : Prop where
  shown_le : b.shown ≤ b.generation
  shown_le_queue : ∀ g ∈ b.queue, b.shown ≤ g
  queue_le : ∀ g ∈ b.queue, g ≤ b.generation
  sorted : b.queue.Pairwise (· < ·)
  last : ∀ g, b.queue.getLast? = some g → g = b.generation
  closed : (FwIsoResource.state b.object).fd < 0 → b.queue = []

end Bus

/-! ### What the functions of the object can do -/

theorem FwIsoResourceState.openPath_cases (st : FwIsoResourceState) (path : Option String)
    (env : OpenEnv) (error : ErrorLocation) :
    let o := st.openPath path env error
    o.state = st ∨ st.fd < 0 ∧ (o.state = { st with fd := -1 } ∨
      (path ≠ none ∧ path ≠ some "" ∧ error.admits) ∧
        ∃ (fd : Nat) (generation : UInt32), env.openResult = .ok fd ∧ env.getInfo = .ok generation ∧
          o.state = ⟨fd, generation⟩) := by
  simp only [openPath]
  split
  · exact .inl rfl
  next hpath =>
  split
  · exact .inl rfl
  next herror =>
  split
  · exact .inl rfl
  next hfd =>
    refine .inr ⟨Int.not_le.mp hfd, ?_⟩
    split
    · exact .inl rfl
    · exact .inl rfl
    next fd hopen =>
      cases hinfo : env.getInfo with
      | error errno => exact .inl rfl
      | ok generation =>
        exact .inr ⟨⟨fun h => hpath (.inl h), fun h => hpath (.inr h), not_not.mp herror⟩,
          fd, generation, hopen, rfl, rfl⟩

theorem FwIsoResourceState.createSource_cases (st : FwIsoResourceState) (source : Bool)
    (getInfo : Except Nat UInt32) (error : ErrorLocation) :
    let o := st.createSource source getInfo error
    o.state = st ∧ o.ret = .returned false ∧ .notifyGeneration ∉ o.effects ∨
      (source ∧ error = .at none ∧ 0 ≤ st.fd) ∧
        ∃ generation, getInfo = .ok generation ∧ o.state = { st with generation := generation } ∧
          o.ret = .returned true ∧ .notifyGeneration ∉ o.effects := by
  simp only [createSource]
  split
  · exact .inl ⟨rfl, rfl, List.not_mem_nil⟩
  next hsource =>
  split
  · exact .inl ⟨rfl, rfl, List.not_mem_nil⟩
  next herror =>
  split
  · exact .inl ⟨rfl, rfl, List.not_mem_nil⟩
  next hfd =>
  cases getInfo with
  | error errno => exact .inl ⟨rfl, rfl, by simp [cacheBusState]⟩
  | ok generation =>
    exact .inr ⟨⟨not_not.mp hsource, not_not.mp herror, Int.not_lt.mp hfd⟩,
      generation, rfl, rfl, rfl, by simp [cacheBusState]⟩

namespace FwIsoResource

variable {π : Type} [FwIsoResource π]

/-- A source is created and the generation asked for, with a notification if it has changed; or
nothing comes of it. -/
theorem createSource_cases (p : π) (source : Bool) (getInfo : Except Nat UInt32)
    (error : ErrorLocation) :
    let o := createSource p source getInfo error
    state o.state = state p ∧ .notifyGeneration ∉ o.effects ∨
      (source ∧ error = .at none ∧ 0 ≤ (state p).fd) ∧
        ∃ generation, getInfo = .ok generation ∧
          state o.state = { state p with generation := generation } ∧
          (.notifyGeneration ∈ o.effects ↔ generation ≠ (state p).generation) := by
  simp only [createSource]
  split
  · exact .inl ⟨rfl, List.not_mem_nil⟩
  split
  · exact .inl ⟨rfl, List.not_mem_nil⟩
  simp only [createSourceOf]
  rcases (state p).createSource_cases source getInfo error with
    ⟨hstate, hret, hquiet⟩ | ⟨hasks, generation, hinfo, hstate, hret, hquiet⟩
  · simp only [hret]
    exact .inl ⟨by rw [state_setState, hstate], hquiet⟩
  · simp only [hret, hstate]
    refine .inr ⟨hasks, generation, hinfo, state_setState _ _, ?_⟩
    by_cases hsame : (state p).generation = generation
    · simp [hsame, hquiet]
    · simp [hsame, hquiet, Ne.symm hsame]

end FwIsoResource

/-! ### Moves -/

namespace Bus

variable {π : Type} [FwIsoResource π]

theorem le_latest : ∀ {resets : List UInt32} {generation : UInt32},
    (generation :: resets).Pairwise (· < ·) →
      ∀ g ∈ generation :: resets, g ≤ latest generation resets := by
  intro resets
  induction resets with
  | nil =>
    intro generation _ g hg
    rw [List.mem_singleton.mp hg]
    exact UInt32.le_refl _
  | cons reset resets ih =>
    intro generation hpair g hg
    have hlatest : latest generation (reset :: resets) = latest reset resets :=
      List.getLastD_cons
    rw [hlatest]
    have htail := ih hpair.tail
    rcases List.mem_cons.mp hg with rfl | hg
    · have hlt : g < reset := List.rel_of_pairwise_cons hpair (List.mem_cons_self ..)
      exact UInt32.le_trans (UInt32.le_of_lt hlt) (htail reset (List.mem_cons_self ..))
    · exact htail g hg

theorem Cached.of_nil {p : π} {generation : UInt32}
    (hshown : (⟨p, generation, []⟩ : Bus π).shown ≤ generation) :
    Cached (⟨p, generation, []⟩ : Bus π) :=
  ⟨hshown, nofun, nofun, .nil, nofun, fun _ => rfl⟩

theorem Cached.resets {b : Bus π} (h : b.Cached) {p : π}
    (hp : FwIsoResource.state p = FwIsoResource.state b.object) {resets : List UInt32}
    (hpair : (b.generation :: resets).Pairwise (· < ·)) :
    Cached (⟨p, latest b.generation resets, queueOf p (b.queue ++ resets)⟩ : Bus π) := by
  have hlatest := le_latest hpair
  have hgen : b.generation ≤ latest b.generation resets := hlatest _ (List.mem_cons_self ..)
  have hshown : ∀ queue, (⟨p, latest b.generation resets, queue⟩ : Bus π).shown = b.shown := by
    intro queue
    rw [shown, shown, hp]
  have hreset : ∀ g ∈ resets, b.generation < g := fun g hg => List.rel_of_pairwise_cons hpair hg
  rw [queueOf]
  split
  next hfd =>
    refine ⟨hshown _ ▸ UInt32.le_trans h.shown_le hgen, ?_, ?_, ?_, ?_, ?_⟩
    · rw [hshown]
      intro g hg
      rcases List.mem_append.mp hg with hg | hg
      · exact h.shown_le_queue g hg
      · exact UInt32.le_trans h.shown_le (UInt32.le_of_lt (hreset g hg))
    · intro g hg
      rcases List.mem_append.mp hg with hg | hg
      · exact UInt32.le_trans (h.queue_le g hg) hgen
      · exact hlatest g (List.mem_cons_of_mem _ hg)
    · exact List.pairwise_append.mpr ⟨h.sorted, hpair.tail, fun g hg g' hg' =>
        UInt32.lt_of_le_of_lt (h.queue_le g hg) (hreset g' hg')⟩
    · intro g hg
      cases resets with
      | nil =>
        rw [List.append_nil] at hg
        exact h.last g hg
      | cons reset resets =>
        rw [List.getLast?_append_of_ne_nil _ (List.cons_ne_nil _ _)] at hg
        rw [latest, List.getLastD_eq_getLast?, hg, Option.getD_some]
    · intro hneg
      exact absurd hneg (Int.not_lt.mpr hfd)
  next =>
    refine .of_nil ?_
    rw [hshown]
    exact UInt32.le_trans h.shown_le hgen

theorem Cached.asked {b : Bus π} (h : b.Cached) {p : π}
    (hp : (FwIsoResource.state p).generation = b.generation)
    (hfd : (FwIsoResource.state p).fd < 0 → b.queue = []) (hqueue : b.queue.length ≤ 1) :
    Cached (⟨p, b.generation, b.queue⟩ : Bus π) := by
  refine ⟨by rw [shown, hp]; exact UInt32.le_refl _, ?_, h.queue_le, h.sorted, h.last, hfd⟩
  intro g hg
  rw [shown, hp]
  obtain ⟨g', hg'⟩ := List.length_eq_one_iff.mp
    (Nat.le_antisymm hqueue (List.length_pos_of_mem hg))
  have hlast : g' = b.generation := h.last g' (by rw [hg', List.getLast?_singleton])
  rw [hg'] at hg
  rw [List.mem_singleton.mp hg, hlast]
  exact UInt32.le_refl _

theorem Cached.taken {p q : π} {generation g : UInt32} {queue : List UInt32}
    (h : Cached (⟨p, generation, g :: queue⟩ : Bus π))
    (hq : FwIsoResource.state q = { FwIsoResource.state p with generation := g }) :
    Cached (⟨q, generation, queue⟩ : Bus π) := by
  have hshown : (⟨q, generation, queue⟩ : Bus π).shown = g := by
    rw [shown, hq]
  refine ⟨?_, ?_, ?_, h.sorted.tail, ?_, ?_⟩
  · rw [hshown]
    exact h.queue_le g (List.mem_cons_self ..)
  · rw [hshown]
    exact fun g' hg' => UInt32.le_of_lt (List.rel_of_pairwise_cons h.sorted hg')
  · exact fun g' hg' => h.queue_le g' (List.mem_cons_of_mem _ hg')
  · intro g' hg'
    cases queue with
    | nil => cases hg'
    | cons g'' queue => exact h.last g' (by rw [List.getLast?_cons_cons, hg'])
  · intro hfd
    rw [hq] at hfd
    cases h.closed hfd

theorem Cached.opened {b : Bus π} (h : b.Cached) {path : Option String}
    {openResult : Except (Nat × Bool) Nat} {resets : List UInt32} {getInfo : Option Nat}
    {error : ErrorLocation} (hpair : (b.generation :: resets).Pairwise (· < ·))
    (hresets : UpToDate (.openPath path openResult resets getInfo error) b) :
    (b.step (.openPath path openResult resets getInfo error)).Cached ∧
      b.shown ≤ (b.step (.openPath path openResult resets getInfo error)).shown := by
  have hgen : b.generation ≤ latest b.generation resets :=
    le_latest hpair _ (List.mem_cons_self ..)
  simp only [step, move, FwIsoResource.openPath, ResourceOut.map_state]
  rcases (FwIsoResource.state b.object).openPath_cases path
    ⟨openResult, answer (latest b.generation resets) getInfo⟩ error with
    hsame | ⟨hfd, hclosed | ⟨⟨hpath, hempty, herror⟩, fd, generation, hopen, hinfo, hopened⟩⟩
  · rw [hsame]
    refine ⟨h.resets (FwIsoResource.state_setState _ _) hpair, ?_⟩
    rw [shown, shown, FwIsoResource.state_setState]
    exact UInt32.le_refl _
  · rw [hclosed]
    have hshown : ∀ g queue, shown (⟨FwIsoResource.setState b.object
        { FwIsoResource.state b.object with fd := -1 }, g, queue⟩ : Bus π) = b.shown := by
      intro g queue
      rw [shown, shown, FwIsoResource.state_setState]
    have hqueue : queueOf (FwIsoResource.setState b.object
        { FwIsoResource.state b.object with fd := -1 }) (b.queue ++ resets) = [] := by
      rw [queueOf, FwIsoResource.state_setState]
      exact if_neg (Int.not_le.mpr (Int.negSucc_lt_zero 0))
    rw [hqueue]
    refine ⟨.of_nil ?_, ?_⟩
    · rw [hshown]
      exact UInt32.le_trans h.shown_le hgen
    · rw [hshown]
      exact UInt32.le_refl _
  · have hnone : getInfo = none ∧ generation = latest b.generation resets := by
      cases getInfo with
      | none => exact ⟨rfl, (Except.ok.inj hinfo).symm⟩
      | some errno => cases hinfo
    obtain ⟨hnone, rfl⟩ := hnone
    rw [hopened]
    -- the events of a closed descriptor are none, so those of the call are all that wait
    have hqueue := h.closed hfd
    have hlength : resets.length ≤ 1 := by
      have hok : openResult.isOk := by
        rw [show openResult = .ok fd from hopen]
        rfl
      have hle : (b.queue ++ resets).length ≤ 1 :=
        hresets ⟨hpath, hempty, herror, hfd, hok, hnone⟩
      rwa [hqueue, List.nil_append] at hle
    have hshown : ∀ g queue, shown (⟨FwIsoResource.setState b.object
        ⟨fd, latest b.generation resets⟩, g, queue⟩ : Bus π) = latest b.generation resets := by
      intro g queue
      rw [shown, FwIsoResource.state_setState]
    have hqueue : queueOf (FwIsoResource.setState b.object
        ⟨fd, latest b.generation resets⟩) (b.queue ++ resets) = resets := by
      rw [queueOf, FwIsoResource.state_setState, if_pos (Int.natCast_nonneg fd), hqueue,
        List.nil_append]
    rw [hqueue]
    refine ⟨⟨?_, ?_, ?_, hpair.tail, ?_, ?_⟩, ?_⟩
    · rw [hshown]
      exact UInt32.le_refl _
    · rw [hshown]
      intro g hg
      obtain ⟨g', hg'⟩ := List.length_eq_one_iff.mp
        (Nat.le_antisymm hlength (List.length_pos_of_mem hg))
      subst hg'
      rw [List.mem_singleton.mp hg]
      exact UInt32.le_refl _
    · exact fun g hg => le_latest hpair g (List.mem_cons_of_mem _ hg)
    · intro g hg
      rw [latest, List.getLastD_eq_getLast?, hg, Option.getD_some]
    · intro hneg
      rw [FwIsoResource.state_setState] at hneg
      exact absurd hneg (Int.not_lt.mpr (Int.natCast_nonneg fd))
    · rw [hshown]
      exact UInt32.le_trans h.shown_le hgen

/-- **A move keeps what is known of the generations**, and what is shown does not go back. -/
theorem cached_step (m : BusMove) (b : Bus π) (hm : Increases m b ∧ UpToDate m b)
    (h : b.Cached) : (b.step m).Cached ∧ b.shown ≤ (b.step m).shown := by
  cases m with
  | reset generation =>
    have hpair : (b.generation :: [generation]).Pairwise (· < ·) :=
      List.pairwise_pair.mpr hm.1
    exact ⟨h.resets rfl hpair, UInt32.le_refl _⟩
  | openPath path openResult resets getInfo error => exact h.opened hm.1 hm.2
  | createSource source getInfo error =>
    simp only [step, move]
    rcases FwIsoResource.createSource_cases b.object source (answer b.generation getInfo) error with
      ⟨hsame, _⟩ | ⟨⟨hsource, herror, hfd⟩, generation, hinfo, hstate, _⟩
    · have hshown : ∀ q : π, FwIsoResource.state q = FwIsoResource.state b.object →
          shown ({ b with object := q } : Bus π) = b.shown := by
        intro q hq
        rw [shown, shown, hq]
      refine ⟨⟨?_, ?_, h.queue_le, h.sorted, h.last, ?_⟩, ?_⟩
      · rw [hshown _ hsame]
        exact h.shown_le
      · rw [hshown _ hsame]
        exact h.shown_le_queue
      · rw [hsame]
        exact h.closed
      · rw [hshown _ hsame]
        exact UInt32.le_refl _
    · have hnone : getInfo = none ∧ generation = b.generation := by
        cases getInfo with
        | none => exact ⟨rfl, (Except.ok.inj hinfo).symm⟩
        | some errno => cases hinfo
      obtain ⟨hnone, rfl⟩ := hnone
      refine ⟨h.asked (by rw [hstate]) (fun hneg => ?_) (hm.2 ⟨hsource, herror, hfd, hnone⟩), ?_⟩
      · rw [hstate] at hneg
        exact absurd hneg (Int.not_lt.mpr hfd)
      · have hle := h.shown_le
        simp only [shown, hstate]
        exact hle
  | dispatch =>
    obtain ⟨p, generation, queue⟩ := b
    cases queue with
    | nil => exact ⟨h, UInt32.le_refl _⟩
    | cons g queue =>
      have hstate : FwIsoResource.state (FwIsoResource.handleEvent (.busReset g) p).1 =
          { FwIsoResource.state p with generation := g } := FwIsoResource.state_setState _ _
      refine ⟨h.taken hstate, ?_⟩
      have hle := h.shown_le_queue g (List.mem_cons_self ..)
      simp only [step, move, shown, hstate]
      exact hle

def Notifies : BusMove → Prop
  | .createSource _ _ _ => True
  | .dispatch => True
  | _ => False

/-- **A change is notified**, and nothing else is. -/
theorem notify_iff (b : Bus π) {m : BusMove} (hm : Notifies m) :
    .notifyGeneration ∈ (b.move m).2 ↔ (b.step m).shown ≠ b.shown := by
  cases m with
  | reset generation => exact hm.elim
  | openPath path openResult resets getInfo error => exact hm.elim
  | createSource source getInfo error =>
    simp only [step, move, shown]
    rcases FwIsoResource.createSource_cases b.object source (answer b.generation getInfo) error with
      ⟨hsame, hquiet⟩ | ⟨_, generation, _, hstate, hnotify⟩
    · rw [hsame]
      exact iff_of_false hquiet (fun hne => hne rfl)
    · rw [hnotify, hstate]
  | dispatch =>
    obtain ⟨p, generation, queue⟩ := b
    cases queue with
    | nil => exact iff_of_false List.not_mem_nil (fun hne => hne rfl)
    | cons g queue =>
      simp only [step, move, shown, FwIsoResource.handleEvent, FwIsoResource.handleBusResetEvent,
        FwIsoResource.state_setState]
      by_cases hsame : (FwIsoResource.state p).generation = g
      · simp [hsame]
      · simp [hsame, Ne.symm hsame]

def start (p : π) (generation : UInt32) : Bus π := ⟨p, generation, []⟩

theorem cached_start {p : π} (hp : FwIsoResource.state p = {}) (generation : UInt32) :
    (start p generation).Cached := by
  refine ⟨?_, nofun, nofun, .nil, nofun, fun _ => rfl⟩
  rw [shown, start, hp]
  exact UInt32.zero_le

/-- What is shown at the end of a run is no older than at any time before, and the next move
notifies a change. -/
theorem forward_of_run {p : π} (hp : FwIsoResource.state p = {}) (generation : UInt32)
    (ms ns : List BusMove)
    (hrun : Allowed step (fun m b => Increases m b ∧ UpToDate m b) (start p generation)
        (ms ++ ns)) :
    (run step (start p generation) ms).shown ≤
      (run step (start p generation) (ms ++ ns)).shown := by
  obtain ⟨hms, hns⟩ := allowed_append.mp hrun
  have hcached : (run step (start p generation) ms).Cached :=
    run_keeps (fun m b hm hb => (cached_step m b hm hb).1) hms (cached_start hp generation)
  rw [run_append]
  exact run_relates (R := fun a b : Bus π => a.shown ≤ b.shown) (fun _ => UInt32.le_refl _)
    (fun _ _ _ => UInt32.le_trans) (fun m b hm hb => (cached_step m b hm hb).1)
    (fun m b hm hb => (cached_step m b hm hb).2) hns hcached

end Bus

/-! ### Both kinds of object -/

open Bus in
/-- **The generation does not go back** while whoever asks for it has taken every event but the
last, and its changes are notified in any case. -/
theorem generation_of_run (generation : UInt32) (ms ns : List BusMove) :
    (Allowed step (fun m b => Increases m b ∧ UpToDate m b)
        (start FwIsoResourceAuto.new generation) (ms ++ ns) →
      (run step (start FwIsoResourceAuto.new generation) ms).shown ≤
        (run step (start FwIsoResourceAuto.new generation) (ms ++ ns)).shown) ∧
    (Allowed step (fun m b => Increases m b ∧ UpToDate m b)
        (start FwIsoResourceOnce.new generation) (ms ++ ns) →
      (run step (start FwIsoResourceOnce.new generation) ms).shown ≤
        (run step (start FwIsoResourceOnce.new generation) (ms ++ ns)).shown) ∧
    ∀ m, Notifies m →
      (.notifyGeneration ∈ ((run step (start FwIsoResourceAuto.new generation) ms).move m).2 ↔
        (run step (start FwIsoResourceAuto.new generation) (ms ++ [m])).shown ≠
          (run step (start FwIsoResourceAuto.new generation) ms).shown) ∧
      (.notifyGeneration ∈ ((run step (start FwIsoResourceOnce.new generation) ms).move m).2 ↔
        (run step (start FwIsoResourceOnce.new generation) (ms ++ [m])).shown ≠
          (run step (start FwIsoResourceOnce.new generation) ms).shown) := by
  refine ⟨forward_of_run rfl generation ms ns, forward_of_run rfl generation ms ns, ?_⟩
  intro m hm
  rw [run_append, run_append, run_cons, run_cons, run_nil, run_nil]
  exact ⟨notify_iff _ hm, notify_iff _ hm⟩

def busMoves (generations : List UInt32) : List BusMove :=
  .openPath (some "/dev/fw0") (.ok 3) [] none (.at none) :: generations.map .reset

/-- The bus is reset once, a source is created, and the event is taken after that. -/
theorem generation_of_reset :
    (run Bus.step (Bus.start FwIsoResourceAuto.new 1) (busMoves [2])).shown ≤
        (run Bus.step (Bus.start FwIsoResourceAuto.new 1)
          (busMoves [2] ++ [.createSource true none (.at none), .dispatch])).shown ∧
      .notifyGeneration ∈ ((run Bus.step (Bus.start FwIsoResourceOnce.new 1) (busMoves [2])).move
        (.createSource true none (.at none))).2 := by
  refine ⟨(generation_of_run 1 (busMoves [2]) [.createSource true none (.at none), .dispatch]).1 ?_,
    (((generation_of_run 1 (busMoves [2]) []).2.2 (.createSource true none (.at none))
      trivial).2).mpr (by decide)⟩
  simp only [busMoves, List.map, List.cons_append, List.nil_append, Allowed, Bus.Increases,
    Bus.UpToDate, Bus.Asks]
  decide

/-- **An old event**: the bus is reset twice, a source is created, and the generation is the later
one; then the first event is taken, and it is the earlier one. -/
theorem generation_fails :
    Allowed Bus.step Bus.Increases (Bus.start FwIsoResourceAuto.new 1)
        (busMoves [2, 3] ++ [.createSource true none (.at none), .dispatch]) ∧
      Allowed Bus.step Bus.Increases (Bus.start FwIsoResourceOnce.new 1)
        (busMoves [2, 3] ++ [.createSource true none (.at none), .dispatch]) ∧
      (run Bus.step (Bus.start FwIsoResourceAuto.new 1)
        (busMoves [2, 3] ++ [.createSource true none (.at none)])).shown = 3 ∧
      (run Bus.step (Bus.start FwIsoResourceAuto.new 1)
        (busMoves [2, 3] ++ [.createSource true none (.at none), .dispatch])).shown = 2 ∧
      (run Bus.step (Bus.start FwIsoResourceOnce.new 1)
        (busMoves [2, 3] ++ [.createSource true none (.at none)])).shown = 3 ∧
      (run Bus.step (Bus.start FwIsoResourceOnce.new 1)
        (busMoves [2, 3] ++ [.createSource true none (.at none), .dispatch])).shown = 2 := by
  simp only [busMoves, List.map, List.cons_append, List.nil_append, Allowed, Bus.Increases]
  decide

end Hinoko
