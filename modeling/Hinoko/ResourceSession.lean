import Hinoko.ResourceAuto
import Hinoko.ResourceOnce
import Hinoko.Lib.Protocol

/-!
# What a resource says to the kernel

A resource opens the character device once, and keeps the descriptor as long as it lives.  The
sources that an application makes of it read from that descriptor, and each has a reference to the
resource, which it gives back when it is finalized itself.  So the resource lives as long as the
application or a source refers to it, and its last reference closes the descriptor.

`ResourceView` is the kernel's view of it: how far the descriptor has got, and how many sources there
are.

* `ResourceView.rules`: what may be done when.
* `ResourceLoop.step`: the operations of a resource, its references, and the main loop with its
  sources.
* `descriptor_of_run`: every run follows the rules, and no source is left without its descriptor.
-/

namespace Hinoko

open Transition Protocol

inductive ResourceStage where
  | closed
  | opened (fd : Nat)
deriving DecidableEq, Repr

def ResourceStage.opening (s : ResourceStage) : Except Nat Nat → ResourceStage
  | .ok fd => .opened fd
  | .error _ => s

structure ResourceView where
  stage : ResourceStage := .closed
  sources : Nat := 0
deriving DecidableEq, Repr

namespace ResourceView

/-- What may be done: a descriptor that sources read from is not closed. -/
def permits (q : ResourceView) : ResourceEffect → Bool
  | .open _ => q.stage = .closed
  | .getInfo => q.stage ≠ .closed
  | .close => q.stage ≠ .closed ∧ q.sources = 0
  | .newSource => q.stage ≠ .closed
  | .unrefSource => 0 < q.sources
  | .request _ _ _ => q.stage ≠ .closed
  | .deallocateIsoResource _ => q.stage ≠ .closed
  | .emit _ _ _ _ => true
  | .notifyGeneration => true

def next (q : ResourceView) : ResourceEffect → ResourceView
  | .open answer => { q with stage := q.stage.opening answer }
  | .close => { q with stage := .closed }
  | .newSource => { q with sources := q.sources + 1 }
  | .unrefSource => { q with sources := q.sources - 1 }
  | _ => q

def rules : Rules ResourceView ResourceEffect := ⟨permits, next⟩

end ResourceView

/-! ### A resource and its main loop -/

/-- A source of a resource: the descriptor that it reads from, whether the application has a reference
to it, and whether it is attached to the main loop, which has one then. -/
structure ResourceSource where
  fd : Int
  held : Bool := true
  attached : Bool := false
deriving DecidableEq, Repr

/-- A resource, the references to it and those of them that the application has, the sources that
have not been finalized, and what has been done. -/
structure ResourceLoop (π : Type) where
  object : π
  refs : Nat := 1
  held : Nat := 1
  sources : List ResourceSource := []
  done : List ResourceEffect := []

/-- The functions of a resource, `deallocate` with the arguments of its kind; what an application
does with a source and with its references to the resource; and a round of the loop for a source. -/
inductive ResourceMove (δ : Type) where
  | openPath (path : Option String) (env : OpenEnv) (error : ErrorLocation)
  | createSource (source : Bool) (getInfo : Except Nat UInt32) (error : ErrorLocation)
  | allocate (candidates : Option (List UInt8)) (bandwidth : UInt32) (answer : Except Nat UInt32)
      (error : ErrorLocation)
  | deallocate (args : δ)
  /-- `g_source_attach` -/
  | attach (n : Nat)
  /-- `g_source_destroy` -/
  | destroy (n : Nat)
  /-- `g_source_unref` -/
  | unrefSource (n : Nat)
  | dispatch (n : Nat) (w : ResourceWakeup)
  /-- `g_object_ref` -/
  | ref
  /-- `g_object_unref` -/
  | unref

/-- The references to a resource: a new source takes one, and `finalize_src` gives it back. -/
def ResourceEffect.counts (refs : Nat) : ResourceEffect → Nat
  | .newSource => refs + 1
  | .unrefSource => refs - 1
  | _ => refs

namespace ResourceLoop

variable {π δ : Type} [FwIsoResource π]

def record (l : ResourceLoop π) (object : π) (sources : List ResourceSource)
    (es : List ResourceEffect) : ResourceLoop π :=
  ⟨object, es.foldl ResourceEffect.counts l.refs, l.held, sources, l.done ++ es⟩

def after (l : ResourceLoop π) (o : ResourceOut π) (sources : List ResourceSource) :
    ResourceLoop π := l.record o.state sources o.effects

/-- What becomes of a source when somebody gives it up: the last one finalizes it. -/
def put (l : ResourceLoop π) (n : Nat) (s : ResourceSource) : ResourceLoop π :=
  if s.held ∨ s.attached then l.record l.object (l.sources.set n s) []
  else l.record l.object (l.sources.eraseIdx n) [.unrefSource]

/-- `fw_iso_resource_auto_finalize` and `fw_iso_resource_once_finalize`. -/
def finalize (l : ResourceLoop π) : ResourceLoop π :=
  l.record (FwIsoResource.setState l.object (FwIsoResource.state l.object).release.1) l.sources
    (FwIsoResource.state l.object).release.2

def dispatch (l : ResourceLoop π) (n : Nat) (s : ResourceSource) (w : ResourceWakeup) :
    ResourceLoop π :=
  if s.attached then
    let (object, effects, continues) := FwIsoResource.dispatch w l.object
    let l := l.record object l.sources effects
    if continues then l else l.put n { s with attached := false }
  else l

def act (deallocate : δ → π → ResourceOut π) (l : ResourceLoop π) : ResourceMove δ → ResourceLoop π
  | .openPath path env error => l.after (FwIsoResource.openPath l.object path env error) l.sources
  | .createSource source getInfo error =>
    let o := FwIsoResource.createSource l.object source getInfo error
    l.after o (if o.ret = .returned true then
      l.sources ++ [{ fd := (FwIsoResource.state l.object).fd }] else l.sources)
  | .allocate candidates bandwidth answer error =>
    l.after (FwIsoResource.allocateResource l.object candidates bandwidth answer error) l.sources
  | .deallocate args => l.after (deallocate args l.object) l.sources
  | .attach n => (l.sources[n]?).elim l fun s => l.put n { s with attached := true }
  | .destroy n => (l.sources[n]?).elim l fun s => l.put n { s with attached := false }
  | .unrefSource n => (l.sources[n]?).elim l fun s => l.put n { s with held := false }
  | .dispatch n w => (l.sources[n]?).elim l fun s => l.dispatch n s w
  | .ref => { l with refs := l.refs + 1, held := l.held + 1 }
  | .unref => if l.held = 0 then l else { l with refs := l.refs - 1, held := l.held - 1 }

/-- The last reference finalizes a resource. -/
def settle (l : ResourceLoop π) : ResourceLoop π := if l.refs = 0 then l.finalize else l

/-- One move; nothing is done with a resource that is gone. -/
def step (deallocate : δ → π → ResourceOut π) (l : ResourceLoop π) (m : ResourceMove δ) :
    ResourceLoop π :=
  if l.refs = 0 then l else (l.act deallocate m).settle

end ResourceLoop

/-! ### Following the rules -/

structure ResourceAgrees (q : ResourceView) (st : FwIsoResourceState) (sources : List Int) :
    Prop where
  opened : 0 ≤ st.fd → q.stage = .opened st.fd.toNat
  closed : st.fd < 0 → q.stage = .closed ∧ sources = []
  count : q.sources = sources.length
  reads : ∀ fd ∈ sources, fd = st.fd

theorem ResourceAgrees.not_closed {q : ResourceView} {st : FwIsoResourceState}
    {sources : List Int} (h : ResourceAgrees q st sources) (hfd : 0 ≤ st.fd) :
    q.stage ≠ .closed := by
  rw [h.opened hfd]
  rintro ⟨⟩

/-- A signal, a notification, or a request to a descriptor that is open. -/
def ResourceAsks (st : FwIsoResourceState) : ResourceEffect → Prop
  | .request _ _ _ => 0 ≤ st.fd
  | .deallocateIsoResource _ => 0 ≤ st.fd
  | .emit _ _ _ _ => True
  | .notifyGeneration => True
  | _ => False

namespace ResourceAsks

variable {st : FwIsoResourceState}

theorem nil : ∀ e ∈ ([] : List ResourceEffect), ResourceAsks st e :=
  fun _ => List.not_mem_nil.elim

theorem single {e : ResourceEffect} (h : ResourceAsks st e) : ∀ e' ∈ [e], ResourceAsks st e' := by
  intro e' he'
  obtain rfl := List.mem_singleton.mp he'
  exact h

end ResourceAsks

/-- What is done between two states follows the rules, and leaves them in agreement. -/
def ResourceConforms (st : FwIsoResourceState) (sources : List Int) (st' : FwIsoResourceState)
    (sources' : List Int) (es : List ResourceEffect) : Prop :=
  ∀ q, ResourceAgrees q st sources →
    ∃ q', follow ResourceView.rules q es = some q' ∧ ResourceAgrees q' st' sources'

namespace ResourceConforms

variable {st st' st'' : FwIsoResourceState} {sources sources' sources'' : List Int}
  {es fs : List ResourceEffect}

theorem refl (st : FwIsoResourceState) (sources : List Int) :
    ResourceConforms st sources st sources [] := fun q h => ⟨q, rfl, h⟩

theorem trans (h : ResourceConforms st sources st' sources' es)
    (h' : ResourceConforms st' sources' st'' sources'' fs) :
    ResourceConforms st sources st'' sources'' (es ++ fs) := by
  intro q hq
  obtain ⟨q', hfollow, hq'⟩ := h q hq
  obtain ⟨q'', hfollow', hq''⟩ := h' q' hq'
  exact ⟨q'', (follow_append hfollow).trans hfollow', hq''⟩

/-- Signals and requests leave the kernel's view as it is. -/
theorem of_asks (hes : ∀ e ∈ es, ResourceAsks st e) (hfd : st'.fd = st.fd) :
    ResourceConforms st sources st' sources es := by
  intro q hq
  refine ⟨q, ?_, ?_⟩
  · induction es with
    | nil => rfl
    | cons e es ih =>
      obtain ⟨he, hrest⟩ := List.forall_mem_cons.mp hes
      cases e with
      | request r channels bandwidth =>
        rw [follow_cons (decide_eq_true (hq.not_closed he))]
        exact ih hrest
      | deallocateIsoResource handle =>
        rw [follow_cons (decide_eq_true (hq.not_closed he))]
        exact ih hrest
      | emit signal channel bandwidth error =>
        rw [follow_cons rfl]
        exact ih hrest
      | notifyGeneration =>
        rw [follow_cons rfl]
        exact ih hrest
      | «open» => exact absurd he id
      | close => exact absurd he id
      | getInfo => exact absurd he id
      | newSource => exact absurd he id
      | unrefSource => exact absurd he id
  · refine ⟨?_, ?_, hq.count, ?_⟩
    · rw [hfd]
      exact hq.opened
    · rw [hfd]
      exact hq.closed
    · rw [hfd]
      exact hq.reads

theorem openPath (path : Option String) (env : OpenEnv) (error : ErrorLocation) :
    ResourceConforms st sources (st.openPath path env error).state sources
      (st.openPath path env error).effects := by
  simp only [FwIsoResourceState.openPath]
  split
  · exact refl st sources
  split
  · exact refl st sources
  split
  · exact refl st sources
  next hfd =>
  intro q h
  obtain ⟨hstage, hsources⟩ := h.closed (by omega)
  have hopen : ∀ answer, ResourceView.rules.permits q (.open answer) = true :=
    fun _ => decide_eq_true hstage
  have hcount : q.sources = 0 := by rw [h.count, hsources, List.length_nil]
  have hclosed : ResourceAgrees { q with stage := .closed } { st with fd := -1 } sources := by
    refine ⟨fun hneg => absurd hneg (by decide : ¬ (0 : Int) ≤ -1), fun _ => ⟨rfl, hsources⟩,
      h.count, fun fd hmem => ?_⟩
    rw [hsources] at hmem
    cases hmem
  have hkept : { q with stage := .closed } = q := by rw [← hstage]
  split
  · exact ⟨_, follow_cons (hopen _) [], hkept ▸ hclosed⟩
  · exact ⟨_, follow_cons (hopen _) [], hkept ▸ hclosed⟩
  next fd _ =>
  cases env.getInfo with
  | error errno =>
    refine ⟨{ q with stage := .closed }, ?_, hclosed⟩
    have hrelease : (0 : Int) ≤ (fd : Int) := Int.natCast_nonneg fd
    simp only [FwIsoResourceState.cacheBusState, FwIsoResourceState.release, hrelease, if_true]
    rw [List.cons_append, follow_cons (hopen _)]
    refine (follow_cons (r := ResourceView.rules) rfl _).trans ?_
    refine follow_cons ?_ []
    simp [ResourceView.rules, ResourceView.permits, ResourceView.next, ResourceStage.opening,
      hcount]
  | ok generation =>
    refine ⟨{ q with stage := .opened fd }, ?_, ?_⟩
    · simp only [FwIsoResourceState.cacheBusState]
      rw [follow_cons (hopen _)]
      exact follow_cons (r := ResourceView.rules) rfl []
    · refine ⟨fun _ => rfl, fun hneg => ?_, h.count, fun fd hmem => ?_⟩
      · exact absurd hneg (by simp [FwIsoResourceState.cacheBusState])
      · rw [hsources] at hmem
        cases hmem

theorem createSource (source : Bool) (getInfo : Except Nat UInt32) (error : ErrorLocation) :
    let o := st.createSource source getInfo error
    ResourceConforms st sources o.state
      (if o.ret = .returned true then sources ++ [st.fd] else sources) o.effects := by
  simp only [FwIsoResourceState.createSource]
  split
  · exact refl st sources
  split
  · exact refl st sources
  split
  · exact refl st sources
  next hfd =>
  intro q h
  have hopened := h.not_closed (Int.not_lt.mp hfd)
  have hnew : ResourceView.rules.permits q .newSource = true := decide_eq_true hopened
  have hinfo : ResourceView.rules.permits (q.next .newSource) .getInfo = true :=
    decide_eq_true hopened
  cases getInfo with
  | ok generation =>
    refine ⟨{ q with sources := q.sources + 1 }, ?_, ?_⟩
    · simp only [FwIsoResourceState.cacheBusState]
      rw [follow_cons hnew]
      exact follow_cons hinfo []
    · simp only [FwIsoResourceState.cacheBusState, if_true]
      refine ⟨h.opened, fun hneg => absurd hneg hfd, ?_, fun fd hmem => ?_⟩
      · rw [List.length_append, List.length_singleton, h.count]
      · rcases List.mem_append.mp hmem with hold | hlast
        · exact h.reads fd hold
        · exact List.mem_singleton.mp hlast
  | error errno =>
    refine ⟨q, ?_, h.opened, fun hneg => absurd hneg hfd, h.count, h.reads⟩
    simp only [FwIsoResourceState.cacheBusState, List.cons_append, List.nil_append]
    rw [follow_cons hnew]
    refine (follow_cons hinfo _).trans ?_
    have hunref : ResourceView.rules.permits ((q.next .newSource).next .getInfo) .unrefSource =
        true := decide_eq_true (Nat.succ_pos q.sources)
    exact follow_cons hunref []

theorem drop {n : Nat} (hn : n < sources.length) :
    ResourceConforms st sources st (sources.eraseIdx n) [.unrefSource] := by
  intro q h
  have hpos : 0 < q.sources := by
    rw [h.count]
    omega
  refine ⟨_, follow_cons (decide_eq_true hpos) [], h.opened, fun hneg => ?_, ?_, fun fd hmem => ?_⟩
  · rw [(h.closed hneg).2] at hn
    exact absurd hn (Nat.not_lt_zero n)
  · simp only [ResourceView.rules, ResourceView.next]
    rw [h.count, List.length_eraseIdx_of_lt hn]
  · exact h.reads fd (List.mem_of_mem_eraseIdx hmem)

theorem release : ResourceConforms st [] st.release.1 [] st.release.2 := by
  intro q h
  have hnone : ∀ fd ∈ ([] : List Int), fd = st.release.1.fd := fun _ => List.not_mem_nil.elim
  have hneg : ¬ 0 ≤ st.release.1.fd := by simp [FwIsoResourceState.release]
  by_cases hfd : 0 ≤ st.fd
  · have hclose : ResourceView.rules.permits q .close = true :=
      decide_eq_true ⟨h.not_closed hfd, h.count⟩
    refine ⟨{ q with stage := .closed }, ?_, ?_⟩
    · simp only [FwIsoResourceState.release, hfd, if_true]
      exact follow_cons hclose []
    · exact ⟨fun hpos => absurd hpos hneg, fun _ => ⟨rfl, rfl⟩, h.count, hnone⟩
  · refine ⟨q, ?_, ?_⟩
    · simp only [FwIsoResourceState.release, hfd, if_false]
      rfl
    · exact ⟨fun hpos => absurd hpos hneg, fun _ => h.closed (Int.not_le.mp hfd), h.count,
        hnone⟩

end ResourceConforms

/-! ### What is asked for -/

namespace FwIsoResourceAuto

theorem asks_allocate (self : FwIsoResourceAuto) (candidates : Option (List UInt8))
    (bandwidth : UInt32) (answer : Except Nat UInt32) (error : ErrorLocation) :
    ∀ e ∈ (self.allocate candidates bandwidth answer error).effects,
      ResourceAsks self.state e := by
  simp only [allocate]
  split
  · exact .nil
  split
  · exact .nil
  split
  · exact .nil
  next hfd =>
  split
  · exact .nil
  cases answer with
  | error errno => exact .single (Int.not_lt.mp hfd)
  | ok handle => exact .single (Int.not_lt.mp hfd)

theorem asks_deallocate (self : FwIsoResourceAuto) (answer : Option Nat) (error : ErrorLocation) :
    (self.deallocate answer error).state = self ∧
      ∀ e ∈ (self.deallocate answer error).effects, ResourceAsks self.state e := by
  simp only [deallocate]
  split
  · exact ⟨rfl, .nil⟩
  split
  · exact ⟨rfl, .nil⟩
  next hfd =>
  split
  · exact ⟨rfl, .nil⟩
  cases answer with
  | some errno => exact ⟨rfl, .single (Int.not_lt.mp hfd)⟩
  | none => exact ⟨rfl, .single (Int.not_lt.mp hfd)⟩

end FwIsoResourceAuto

namespace FwIsoResourceOnce

theorem asks_allocate (self : FwIsoResourceOnce) (candidates : Option (List UInt8))
    (bandwidth : UInt32) (answer : Except Nat UInt32) (error : ErrorLocation) :
    ∀ e ∈ (self.allocate candidates bandwidth answer error).effects,
      ResourceAsks self.state e := by
  simp only [allocate]
  split
  · exact .nil
  split
  · exact .nil
  split
  · exact .nil
  next hfd =>
  cases answer with
  | error errno => exact .single (Int.not_lt.mp hfd)
  | ok handle => exact .single (Int.not_lt.mp hfd)

theorem asks_deallocate (self : FwIsoResourceOnce) (channel bandwidth : UInt32)
    (answer : Option Nat) (error : ErrorLocation) :
    (self.deallocate channel bandwidth answer error).state = self ∧
      ∀ e ∈ (self.deallocate channel bandwidth answer error).effects,
        ResourceAsks self.state e := by
  simp only [deallocate]
  split
  · exact ⟨rfl, .nil⟩
  split
  · exact ⟨rfl, .nil⟩
  split
  · exact ⟨rfl, .nil⟩
  split
  · exact ⟨rfl, .nil⟩
  next hfd =>
  cases answer with
  | some errno => exact ⟨rfl, .single (Int.not_lt.mp hfd)⟩
  | none => exact ⟨rfl, .single (Int.not_lt.mp hfd)⟩

end FwIsoResourceOnce

namespace FwIsoResource

variable {π : Type} [FwIsoResource π]

theorem asks_dispatch (w : ResourceWakeup) (p : π) :
    (state (dispatch w p).1).fd = (state p).fd ∧
      ∀ e ∈ (dispatch w p).2.1, ResourceAsks (state p) e := by
  cases w with
  | closed => exact ⟨rfl, .nil⟩
  | ioErr => exact ⟨rfl, .nil⟩
  | again => exact ⟨rfl, .nil⟩
  | readError errno => exact ⟨rfl, .nil⟩
  | event ev =>
    cases ev with
    | isoResource ev =>
      constructor
      · simp only [dispatch, handleEvent, state_handleIsoResourceEvent]
      · simp only [dispatch, handleEvent, effects_handleIsoResourceEvent]
        exact .single trivial
    | busReset generation =>
      constructor
      · simp only [dispatch, handleEvent, handleBusResetEvent, state_setState]
      · simp only [dispatch, handleEvent, handleBusResetEvent]
        split
        · exact .single trivial
        · exact .nil
    | other => exact ⟨rfl, .nil⟩

theorem conforms_openPath (p : π) (sources : List Int) (path : Option String) (env : OpenEnv)
    (error : ErrorLocation) :
    ResourceConforms (state p) sources (state (openPath p path env error).state) sources
      (openPath p path env error).effects := by
  simp only [openPath, ResourceOut.map_state, ResourceOut.map_effects, state_setState]
  exact .openPath path env error

/-- A source that is given out reads from the descriptor, and no other is left. -/
theorem conforms_createSource (p : π) (sources : List Int) (source : Bool)
    (getInfo : Except Nat UInt32) (error : ErrorLocation) :
    let o := createSource p source getInfo error
    ResourceConforms (state p) sources (state o.state)
      (if o.ret = .returned true then sources ++ [(state p).fd] else sources) o.effects := by
  simp only [createSource]
  split
  · exact .refl (state p) sources
  split
  · exact .refl (state p) sources
  have hsource : ResourceConforms (state p) sources
      ((state p).createSource source getInfo error).state
      (if ((state p).createSource source getInfo error).ret = .returned true then
        sources ++ [(state p).fd] else sources)
      ((state p).createSource source getInfo error).effects :=
    .createSource source getInfo error
  simp only [createSourceOf]
  obtain ⟨ret, hret⟩ : ∃ ret, ((state p).createSource source getInfo error).ret = ret := ⟨_, rfl⟩
  cases ret with
  | crashed =>
    simp only [hret, state_setState] at hsource ⊢
    exact hsource
  | returned result =>
    cases result with
    | false =>
      simp only [hret, state_setState] at hsource ⊢
      exact hsource
    | true =>
      simp only [hret, state_setState, if_true] at hsource ⊢
      split
      · exact hsource.trans (.of_asks (.single trivial) rfl)
      · exact hsource

end FwIsoResource

/-! ### Runs -/

theorem counts_of_follow (held : Nat) : ∀ {es : List ResourceEffect} {q q' : ResourceView},
    follow ResourceView.rules q es = some q' →
      es.foldl ResourceEffect.counts (held + q.sources) = held + q'.sources := by
  intro es
  induction es with
  | nil =>
    intro q q' h
    obtain rfl := Option.some.inj h
    rfl
  | cons e es ih =>
    intro q q' h
    obtain ⟨hpermits, hrest⟩ := follow_cons_eq_some.mp h
    have hone : ResourceEffect.counts (held + q.sources) e = held + (q.next e).sources := by
      cases e with
      | unrefSource =>
        have hpos : 0 < q.sources := of_decide_eq_true hpermits
        exact Nat.add_sub_assoc hpos held
      | _ => rfl
    rw [List.foldl_cons, hone]
    exact ih hrest

namespace ResourceLoop

variable {π δ : Type} [FwIsoResource π]

def fds (sources : List ResourceSource) : List Int := sources.map ResourceSource.fd

/-- What has been done follows the rules, and agrees with what there is; the references to the
resource are those of the application, and one for each source that has not been finalized. -/
structure Accounted (l : ResourceLoop π) (q : ResourceView) : Prop where
  follows : follow ResourceView.rules {} l.done = some q
  agrees : ResourceAgrees q (FwIsoResource.state l.object) (fds l.sources)
  refs : l.refs = l.held + l.sources.length
  kept : ∀ s ∈ l.sources, s.held = true ∨ s.attached = true

/-- A resource that is gone has left neither a source nor a descriptor. -/
structure Orderly (l : ResourceLoop π) (q : ResourceView) : Prop extends Accounted l q where
  gone : l.refs = 0 → q.stage = .closed ∧ l.sources = []

/-- What a kind of resource asks for, while it keeps its descriptor. -/
structure Requests (deallocate : δ → π → ResourceOut π) : Prop where
  allocate : ∀ (p : π) candidates bandwidth answer error,
    ∀ e ∈ (FwIsoResource.allocate p candidates bandwidth answer error).effects,
      ResourceAsks (FwIsoResource.state p) e
  deallocate : ∀ args p, (deallocate args p).state = p ∧
    ∀ e ∈ (deallocate args p).effects, ResourceAsks (FwIsoResource.state p) e

namespace Accounted

variable {l : ResourceLoop π} {q : ResourceView}

theorem record (h : l.Accounted q) {p : π} {sources : List ResourceSource}
    {es : List ResourceEffect} (hkept : ∀ s ∈ sources, s.held = true ∨ s.attached = true)
    (hc : ResourceConforms (FwIsoResource.state l.object) (fds l.sources) (FwIsoResource.state p)
      (fds sources) es) : ∃ q', (l.record p sources es).Accounted q' := by
  obtain ⟨q', hfollow, hq'⟩ := hc q h.agrees
  refine ⟨q', (follow_append h.follows).trans hfollow, hq', ?_, hkept⟩
  have hcounts := counts_of_follow l.held hfollow
  have hbefore : q.sources = l.sources.length := h.agrees.count.trans (List.length_map _)
  have hbehind : q'.sources = sources.length := hq'.count.trans (List.length_map _)
  rw [hbefore, ← h.refs, hbehind] at hcounts
  exact hcounts

/-- A source that somebody gives up is kept by others, or finalized. -/
theorem put (h : l.Accounted q) {n : Nat} (hn : n < l.sources.length) {s : ResourceSource}
    (hs : s.fd = l.sources[n].fd) : ∃ q', (l.put n s).Accounted q' := by
  have hsame : fds (l.sources.set n s) = fds l.sources := by
    have hn' : n < (fds l.sources).length := by simpa [fds] using hn
    have hself : l.sources[n].fd = (fds l.sources)[n] := by simp [fds]
    rw [fds, List.map_set, hs, hself]
    exact List.set_getElem_self hn'
  rw [ResourceLoop.put]
  split
  next hkept =>
    refine h.record (fun s' hs' => ?_) ?_
    · rcases List.mem_or_eq_of_mem_set hs' with hold | rfl
      · exact h.kept s' hold
      · exact hkept
    · rw [hsame]
      exact .refl _ _
  next =>
    refine h.record (fun s' hs' => h.kept s' (List.mem_of_mem_eraseIdx hs')) ?_
    have herase : fds (l.sources.eraseIdx n) = (fds l.sources).eraseIdx n :=
      (List.eraseIdx_map ..).symm
    rw [herase]
    exact .drop (by simpa [fds] using hn)

theorem at_source (h : l.Accounted q) (n : Nat) {f : ResourceSource → ResourceLoop π}
    (hf : ∀ s (hn : n < l.sources.length), l.sources[n] = s → ∃ q', (f s).Accounted q') :
    ∃ q', ((l.sources[n]?).elim l f).Accounted q' := by
  cases hs : l.sources[n]? with
  | none => exact ⟨q, h⟩
  | some s =>
    obtain ⟨hn, hs⟩ := List.getElem?_eq_some_iff.mp hs
    exact hf s hn hs

theorem dispatch (h : l.Accounted q) {n : Nat} (hn : n < l.sources.length) {s : ResourceSource}
    (hs : l.sources[n] = s) (w : ResourceWakeup) : ∃ q', (l.dispatch n s w).Accounted q' := by
  rw [ResourceLoop.dispatch]
  split
  · obtain ⟨hfd, hasks⟩ := FwIsoResource.asks_dispatch w l.object
    obtain ⟨q', h'⟩ := h.record h.kept (.of_asks hasks hfd)
    simp only
    split
    · exact ⟨q', h'⟩
    · exact h'.put hn (by rw [← hs]; rfl)
  · exact ⟨q, h⟩

/-- **A move keeps the account.** -/
theorem act {deallocate : δ → π → ResourceOut π} (hd : Requests deallocate) (h : l.Accounted q)
    (m : ResourceMove δ) : ∃ q', (l.act deallocate m).Accounted q' := by
  cases m with
  | openPath path env error =>
    exact h.record h.kept (FwIsoResource.conforms_openPath l.object _ path env error)
  | createSource source getInfo error =>
    have hc := FwIsoResource.conforms_createSource l.object (fds l.sources) source getInfo error
    simp only at hc
    simp only [ResourceLoop.act]
    by_cases hret : (FwIsoResource.createSource l.object source getInfo error).ret = .returned true
    · rw [if_pos hret] at hc ⊢
      refine h.record (fun s hs => ?_) ?_
      · rcases List.mem_append.mp hs with hold | hnew
        · exact h.kept s hold
        · rw [List.mem_singleton.mp hnew]
          exact .inl rfl
      · have hfds : fds (l.sources ++ [{ fd := (FwIsoResource.state l.object).fd }]) =
            fds l.sources ++ [(FwIsoResource.state l.object).fd] := List.map_append
        rw [hfds]
        exact hc
    · rw [if_neg hret] at hc ⊢
      exact h.record h.kept hc
  | allocate candidates bandwidth answer error =>
    refine h.record h.kept ?_
    simp only [FwIsoResource.allocateResource]
    split
    · exact .refl _ _
    split
    · exact .refl _ _
    refine .of_asks (hd.allocate l.object candidates bandwidth answer error) ?_
    rw [FwIsoResource.state_allocate]
  | deallocate args =>
    obtain ⟨hstate, hasks⟩ := hd.deallocate args l.object
    refine h.record h.kept (.of_asks hasks ?_)
    rw [hstate]
  | attach n => exact h.at_source n fun s hn hs => h.put hn (by rw [hs])
  | destroy n => exact h.at_source n fun s hn hs => h.put hn (by rw [hs])
  | unrefSource n => exact h.at_source n fun s hn hs => h.put hn (by rw [hs])
  | dispatch n w => exact h.at_source n fun s hn hs => h.dispatch hn hs w
  | ref =>
    refine ⟨q, h.follows, h.agrees, ?_, h.kept⟩
    have hrefs := h.refs
    simp only [ResourceLoop.act]
    omega
  | unref =>
    simp only [ResourceLoop.act]
    split
    · exact ⟨q, h⟩
    · refine ⟨q, h.follows, h.agrees, ?_, h.kept⟩
      have hrefs := h.refs
      simp only
      omega

theorem settle (h : l.Accounted q) : ∃ q', l.settle.Orderly q' := by
  rw [ResourceLoop.settle]
  split
  next hgone =>
    have hrefs := h.refs
    have hsources : l.sources = [] := List.length_eq_zero_iff.mp (by omega)
    have hc : ResourceConforms (FwIsoResource.state l.object) (fds l.sources)
        (FwIsoResource.state l.finalize.object) (fds l.sources)
        (FwIsoResource.state l.object).release.2 := by
      simp only [hsources, finalize, ResourceLoop.record, FwIsoResource.state_setState]
      exact .release
    obtain ⟨q', h'⟩ := h.record h.kept hc
    refine ⟨q', h', fun _ => ⟨?_, hsources⟩⟩
    refine (h'.agrees.closed ?_).1
    simp [finalize, ResourceLoop.record, FwIsoResourceState.release]
  next hthere => exact ⟨q, h, fun hgone => absurd hgone hthere⟩

end Accounted

/-- **A move keeps to the rules.** -/
theorem orderly_step {deallocate : δ → π → ResourceOut π} (hd : Requests deallocate)
    (m : ResourceMove δ) {l : ResourceLoop π} (h : ∃ q, l.Orderly q) :
    ∃ q, (l.step deallocate m).Orderly q := by
  obtain ⟨q, h⟩ := h
  rw [step]
  split
  · exact ⟨q, h⟩
  next hthere =>
    obtain ⟨q', h'⟩ := h.toAccounted.act hd m
    exact h'.settle

theorem orderly_run {deallocate : δ → π → ResourceOut π} (hd : Requests deallocate) {p : π}
    (hp : (FwIsoResource.state p).fd < 0) (ms : List (ResourceMove δ)) :
    ∃ q, (run (step deallocate) { object := p } ms).Orderly q := by
  refine run_keeps_always (I := fun l : ResourceLoop π => ∃ q, l.Orderly q)
    (fun m l => orderly_step hd m) ms ⟨{}, ⟨rfl, ?_, rfl, fun s hs => absurd hs List.not_mem_nil⟩,
      fun hgone => absurd hgone Nat.one_ne_zero⟩
  exact ⟨fun hpos => absurd hp (Int.not_lt.mpr hpos), fun _ => ⟨rfl, rfl⟩, rfl,
    fun fd => List.not_mem_nil.elim⟩

end ResourceLoop

/-- **A descriptor outlives the sources that read from it.**  In every run of a resource of either
kind and its main loop, what the resource does follows the rules: it opens the device when it has no
descriptor, asks through a descriptor that is open, and closes it when no source reads from it.
Every source reads from the descriptor of its resource and has a reference to it, so the resource is
there as long as the application or a source refers to it; one that is gone has left neither a source
nor a descriptor. -/
theorem descriptor_of_run :
    (∀ ms : List (ResourceMove (Option Nat × ErrorLocation)),
      ∃ q, (run (ResourceLoop.step fun args p => p.deallocate args.1 args.2)
        { object := FwIsoResourceAuto.new } ms).Orderly q) ∧
    ∀ ms : List (ResourceMove (UInt32 × UInt32 × Option Nat × ErrorLocation)),
      ∃ q, (run (ResourceLoop.step fun args p =>
        p.deallocate args.1 args.2.1 args.2.2.1 args.2.2.2)
        { object := FwIsoResourceOnce.new } ms).Orderly q := by
  refine ⟨ResourceLoop.orderly_run ⟨FwIsoResourceAuto.asks_allocate, fun args p => ?_⟩ ?_,
    ResourceLoop.orderly_run ⟨FwIsoResourceOnce.asks_allocate, fun args p => ?_⟩ ?_⟩
  · exact p.asks_deallocate args.1 args.2
  · exact Int.negSucc_lt_zero 0
  · exact p.asks_deallocate args.1 args.2.1 args.2.2.1 args.2.2.2
  · exact Int.negSucc_lt_zero 0

/-- The application gives up the resource before its source: the source keeps the descriptor, and
closes it in the end. -/
example : (run (ResourceLoop.step fun (args : Option Nat × ErrorLocation) p =>
      p.deallocate args.1 args.2) { object := FwIsoResourceAuto.new }
    [.openPath (some "/dev/fw0") ⟨.ok 3, .ok 1⟩ (.at none), .createSource true (.ok 1) (.at none),
      .unref, .unrefSource 0]).done =
    [.open (.ok 3), .getInfo, .newSource, .getInfo, .unrefSource, .close] := by
  decide

end Hinoko
