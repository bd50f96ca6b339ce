import Hinoko.Session
import Hinoko.Lib.Beside

/-!
# The sources of a context

`fw_iso_ctx_state_create_source`, and the source that it makes.  A source keeps the descriptor that
the context had when it was made, and a buffer for one event; the main loop polls the descriptor and
dispatches the source.  An application may make any number of sources, release the context while
they are attached, and allocate it again.

* `MainLoop.exec`: the operations of a context and of the main loop that its sources are attached
  to.
* `context_of_run`: what happens to the context under a main loop is a run of its operations.
* `sources_of_run`: a source reads from the descriptor of its context, as long as this has not been
  released; one that has outlived it watches a descriptor that has been closed.
-/

namespace Hinoko

open Reentrant

/-! ### Sources -/

def sizeofFwCdevEventIsoInterrupt : Nat := 24

def sizeofFwCdevEventIsoInterruptMc : Nat := 16

def eAgain : Nat := 11

/-- `GIOCondition`, as far as a source looks at it. -/
structure IoCondition where
  input : Bool
  err : Bool
deriving DecidableEq, Repr

/-- `FwIsoCtxSource`, without the content of its buffer. -/
structure FwIsoCtxSource where
  fd : Int
  len : Nat
deriving DecidableEq, Repr

def FwIsoCtxMode.sourceLength (mode : FwIsoCtxMode) (pageSize : Nat) : Nat :=
  if mode ≠ .irMultiple then sizeofFwCdevEventIsoInterrupt + pageSize
  else sizeofFwCdevEventIsoInterruptMc

/-- `fw_iso_ctx_state_create_source`; `source` says whether there is a place for the new source. -/
def FwIsoCtxState.createSource (st : FwIsoCtxState) (source : Bool) (pageSize : Nat) :
    Ret × Option FwIsoCtxSource :=
  if ¬ source then (.rejected, none)
  else if st.fd < 0 then (.failure (.coded .notAllocated), none)
  else (.success, some ⟨st.fd, st.mode.sourceLength pageSize⟩)

def checkSrc (condition : IoCondition) : Bool := condition.input ∨ condition.err

/-- `dispatch_src`, with what `read` gives; the flag says whether the source goes on. -/
def dispatchSrc {π : Type} [FwIsoCtx π] (condition : IoCondition)
    (read : Except Nat (CdevEvent × EventEnv)) (c : Ctx π) : Act (Ctx π) (Ret × Bool) :=
  if condition.err then .done (.success, false) c
  else
    match read with
    | .error errno =>
      if errno ≠ eAgain then c.stop.bind fun ret c => .done (ret, false) c
      else .done (.success, true) c
    | .ok (event, env) =>
      (FwIsoCtx.handleEvent event env c).bind fun ret c =>
        match ret with
        | .success => .done (.success, true) c
        | .crashed fault => .done (.crashed fault, false) c
        | _ => c.stop.bind fun ret c => .done (ret, false) c

def wakeup (condition : IoCondition) (read : Except Nat (CdevEvent × EventEnv)) : Wakeup :=
  if condition.err then .ioErr
  else
    match read with
    | .error errno => if errno ≠ eAgain then .readError errno else .again
    | .ok (event, env) => .event event env

/-- **Dispatching a source** does to the context what `Ctx.dispatch` says. -/
theorem dispatchSrc_answer {π : Type} [FwIsoCtx π] (condition : IoCondition)
    (read : Except Nat (CdevEvent × EventEnv)) (c : Ctx π) :
    ((dispatchSrc condition read c).bind fun x c => .done x.1 c) =
      c.dispatch (wakeup condition read) := by
  have hstop : ∀ c : Ctx π, (c.stop.bind fun ret c => (.done (ret, false) c : Act _ _)).bind
      (fun x c => .done x.1 c) = c.stop := by
    intro c
    cases hrun : (FwIsoCtx.state c.priv).running with
    | false => rw [Ctx.stop_idle hrun]; rfl
    | true => rw [Ctx.stop_running hrun]; rfl
  simp only [dispatchSrc, wakeup]
  split
  · rfl
  cases read with
  | error errno =>
    dsimp only
    split
    · exact hstop c
    · rfl
  | ok x =>
    obtain ⟨event, env⟩ := x
    dsimp only
    rw [Act.bind_assoc, Ctx.dispatch]
    congr 1
    funext ret c
    cases ret with
    | success => rfl
    | failure error => exact hstop c
    | rejected => exact hstop c
    | crashed fault => rfl

/-! ### A main loop -/

/-- A source that is attached to the main loop: who it is, and how much its context had done when it
was made. -/
structure Attached where
  id : Nat
  src : FwIsoCtxSource
  made : Nat
deriving DecidableEq, Repr

structure MainLoop where
  sources : List Attached := []
  next : Nat := 0
deriving DecidableEq, Repr

def Ctx.since {π : Type} (c : Ctx π) (a : Attached) : List (Effect × π) := c.trace.drop a.made

namespace MainLoop

def attach (l : MainLoop) (src : FwIsoCtxSource) (made : Nat) : MainLoop :=
  ⟨l.sources ++ [⟨l.next, src, made⟩], l.next + 1⟩

def remove (l : MainLoop) (id : Nat) : MainLoop :=
  { l with sources := l.sources.filter fun a => a.id ≠ id }

/-- An operation of the context, what an application does with sources, or one round of the loop for
one source. -/
inductive Op (ο : Type) where
  | call (op : ο)
  | createSource (source : Bool)
  | destroy (id : Nat)
  | iterate (id : Nat) (condition : IoCondition) (read : Except Nat (CdevEvent × EventEnv))

variable {π ο : Type} [FwIsoCtx π]

def exec (kind : ο → Ctx π → Act (Ctx π) Ret) (pageSize : Nat) :
    Op ο → Ctx π × MainLoop → Act (Ctx π × MainLoop) Ret
  | .call op, (c, l) => (kind op c).beside (fun ret l => (ret, l)) l
  | .createSource source, (c, l) =>
    match (FwIsoCtx.state c.priv).createSource source pageSize with
    | (ret, none) => .done ret (c, l)
    | (ret, some src) => .done ret (c, l.attach src c.trace.length)
  | .destroy id, (c, l) => .done .success (c, l.remove id)
  | .iterate id condition read, (c, l) =>
    match l.sources.find? fun a => a.id = id with
    | none => .done .success (c, l)
    | some _ =>
      if ¬ checkSrc condition then .done .success (c, l)
      else
        (dispatchSrc condition read c).beside
          (fun x l => (x.1, if x.2 then l else l.remove id)) l

end MainLoop

/-! ### The context under a main loop -/

theorem covers_dispatchSrc {π : Type} [FwIsoCtx π] (condition : IoCondition)
    (read : Except Nat (CdevEvent × EventEnv)) (c : Ctx π)
    (f : Ret × Bool → MainLoop → Ret × MainLoop) (l : MainLoop) :
    ((dispatchSrc condition read c).beside f l).Covers (c.dispatch (wakeup condition read)) := by
  rw [← dispatchSrc_answer]
  exact (Act.covers_beside f _ l).answer Prod.fst

namespace MainLoop

variable {π ο : Type} [FwIsoCtx π] {kind : ο → Ctx π → Act (Ctx π) Ret}

theorem exec_covers (dispatch : Wakeup → ο) (hdispatch : ∀ w c, kind (dispatch w) c = c.dispatch w)
    (pageSize : Nat) (op : Op ο) (y : Ctx π × MainLoop) :
    (∃ op₀, (exec kind pageSize op y).Covers (kind op₀ y.1)) ∨
      ∃ ret l, exec kind pageSize op y = .done ret (y.1, l) := by
  obtain ⟨c, l⟩ := y
  cases op with
  | call op => exact .inl ⟨op, Act.covers_beside _ _ l⟩
  | createSource source =>
    right
    simp only [exec]
    obtain ⟨ret, none | src⟩ := (FwIsoCtx.state c.priv).createSource source pageSize
    · exact ⟨ret, l, rfl⟩
    · exact ⟨ret, _, rfl⟩
  | destroy id => exact .inr ⟨_, _, rfl⟩
  | iterate id condition read =>
    simp only [exec]
    split
    · exact .inr ⟨_, _, rfl⟩
    split
    · exact .inr ⟨_, _, rfl⟩
    · refine .inl ⟨dispatch (wakeup condition read), ?_⟩
      rw [hdispatch]
      exact covers_dispatchSrc condition read c _ l

end MainLoop

/-- **Under a main loop** a context goes through a run of its own operations. -/
theorem context_of_run (pageSize : Nat) :
    (∀ ms : List (Move (MainLoop.Op FwIsoIt.Op)), ∃ ns,
      (run (MainLoop.exec FwIsoIt.exec pageSize) ⟨(⟨.new, []⟩, {}), []⟩ ms).state.1 =
        (run FwIsoIt.exec ⟨⟨.new, []⟩, []⟩ ns).state) ∧
    (∀ ms : List (Move (MainLoop.Op FwIsoIrSingle.Op)), ∃ ns,
      (run (MainLoop.exec FwIsoIrSingle.exec pageSize) ⟨(⟨.new, []⟩, {}), []⟩ ms).state.1 =
        (run FwIsoIrSingle.exec ⟨⟨.new, []⟩, []⟩ ns).state) ∧
    ∀ ms : List (Move (MainLoop.Op FwIsoIrMultiple.Op)), ∃ ns,
      (run (MainLoop.exec FwIsoIrMultiple.exec pageSize) ⟨(⟨.new, []⟩, {}), []⟩ ms).state.1 =
        (run FwIsoIrMultiple.exec ⟨⟨.new, []⟩, []⟩ ns).state := by
  refine ⟨fun ms => ?_, fun ms => ?_, fun ms => ?_⟩
  · exact covered_of_init (MainLoop.exec_covers .dispatch (fun _ _ => rfl) pageSize) ms _ _
  · exact covered_of_init (MainLoop.exec_covers .dispatch (fun _ _ => rfl) pageSize) ms _ _
  · exact covered_of_init (MainLoop.exec_covers .dispatch (fun _ _ => rfl) pageSize) ms _ _

/-! ### Descriptors -/

/-- A state function closes the descriptor, or leaves it and the mode alone. -/
def Attends (st st' : FwIsoCtxState) (es : List Effect) : Prop :=
  0 ≤ st.fd → .close ∈ es ∨ st'.fd = st.fd ∧ st'.mode = st.mode

namespace Attends

variable {st : FwIsoCtxState}

theorem of_refused {o : Out FwIsoCtxState} (h : Refused st o) : Attends st o.state o.effects :=
  fun _ => .inr (by rw [h.state]; exact ⟨rfl, rfl⟩)

theorem queueChunks (answers : Nat → QueueAnswer) :
    (st.queueChunks answers).state.fd = st.fd ∧ (st.queueChunks answers).state.mode = st.mode := by
  rcases (st.queueChunks_cases answers).2 with ⟨hstate, _⟩ | ⟨_, x, hstate⟩
  · rw [hstate]
    exact ⟨rfl, rfl⟩
  · rw [hstate]
    exact ⟨rfl, rfl⟩

theorem traced : Traced Attends where
  refl st _ := .inr ⟨rfl, rfl⟩
  trans h _ h' hfd := by
    rcases h hfd with hclose | ⟨hsame, hmode⟩
    · exact .inl (List.mem_append_left _ hclose)
    · rcases h' (by rw [hsame]; exact hfd) with hclose | ⟨hsame', hmode'⟩
      · exact .inl (List.mem_append_right _ hclose)
      · exact .inr ⟨hsame'.trans hsame, hmode'.trans hmode⟩
  allocate st path mode scode channel headerSize env := by
    rcases st.allocate_cases path mode scode channel headerSize env with hr | ⟨hneg, _⟩
    · exact of_refused hr
    · exact fun hfd => by omega
  mapBuffer st bytesPerChunk chunksPerBuffer env := by
    rcases st.mapBuffer_cases bytesPerChunk chunksPerBuffer env with
      hr | ⟨_, _, ⟨_, _, _, hstate⟩ | ⟨_, _, _, hstate⟩⟩
    · exact of_refused hr
    · rw [hstate]
      exact fun _ => .inr ⟨rfl, rfl⟩
    · rw [hstate]
      exact fun _ => .inr ⟨rfl, rfl⟩
  unmapBuffer st _ := .inr ⟨rfl, rfl⟩
  release st _ hfd := .inl (by simp [FwIsoCtxState.release, hfd])
  registerChunk st skip tags syncCode header payloadLength irq := by
    rcases st.registerChunk_cases skip tags syncCode header payloadLength irq with
      hr | ⟨_, ⟨_, ho⟩ | ⟨_, _, ho⟩⟩
    · exact of_refused hr
    · rw [ho]
      exact fun _ => .inr ⟨rfl, rfl⟩
    · rw [ho]
      exact fun _ => .inr ⟨rfl, rfl⟩
  packet st _ _ _ _ := .inr ⟨rfl, rfl⟩
  queueChunks st answers _ := .inr (queueChunks answers)
  start st cycleMatch syncCode tags env := by
    rcases st.start_cases cycleMatch syncCode tags env with
      hr | ⟨_, ⟨_, ho⟩ | ⟨_, ⟨_, _, ho⟩ | ⟨_, ho⟩⟩⟩
    · exact of_refused hr
    · rw [ho]
      exact fun _ => .inr (queueChunks env.queueIso)
    · rw [ho]
      exact fun _ => .inr (queueChunks env.queueIso)
    · rw [ho]
      exact fun _ => .inr (queueChunks env.queueIso)

end Attends

/-- A source and its context: the context has not been released since, and the source has its
descriptor, with room for what is read from it; or it has, and closed the descriptor. -/
structure Watches {π : Type} [FwIsoCtx π] (pageSize : Nat) (c : Ctx π) (a : Attached) : Prop where
  opened : 0 ≤ a.src.fd
  made : a.made ≤ c.trace.length
  since : (∀ p, (.close, p) ∉ c.since a) ∧ (FwIsoCtx.state c.priv).fd = a.src.fd ∧
      a.src.len = (FwIsoCtx.state c.priv).mode.sourceLength pageSize ∨
    ∃ p, (.close, p) ∈ c.since a ∧ (FwIsoCtx.state p).fd = a.src.fd

namespace Watches

variable {π : Type} [FwIsoCtx π] {pageSize : Nat} {c c' : Ctx π} {a : Attached}

theorem congr (h : Watches pageSize c a) {p : π}
    (hstate : FwIsoCtx.state p = FwIsoCtx.state c.priv) :
    Watches pageSize { c with priv := p } a := by
  refine ⟨h.opened, h.made, ?_⟩
  simp only [hstate]
  exact h.since

theorem after (h : Watches pageSize c a) {o : Out π}
    (ho : Attends (FwIsoCtx.state c.priv) (FwIsoCtx.state o.state) o.effects) :
    Watches pageSize (c.after o) a := by
  have hsince : (c.after o).since a = c.since a ++ o.effects.map fun e => (e, c.priv) :=
    List.drop_append_of_le_length h.made
  refine ⟨h.opened, ?_, ?_⟩
  · exact h.made.trans (by rw [Ctx.after, List.length_append]; exact Nat.le_add_right ..)
  rw [hsince]
  rcases h.since with ⟨hnone, hfd, hlen⟩ | ⟨p, hp, hfd⟩
  · by_cases hclose : .close ∈ o.effects
    · exact .inr ⟨c.priv, List.mem_append_right _ (List.mem_map.mpr ⟨_, hclose, rfl⟩), hfd⟩
    · have hkept := (ho (by rw [hfd]; exact h.opened)).resolve_left hclose
      refine .inl ⟨fun p hp => ?_, hkept.1.trans hfd, ?_⟩
      · rcases List.mem_append.mp hp with hold | hnew
        · exact hnone p hold
        · obtain ⟨e, he, hx⟩ := List.mem_map.mp hnew
          obtain ⟨rfl, _⟩ := Prod.mk.inj hx
          exact hclose he
      · rw [hlen, Ctx.after_priv, hkept.2]
  · exact .inr ⟨p, List.mem_append_left _ hp, hfd⟩

theorem note (h : Watches pageSize c a) (e : Effect) : Watches pageSize (c.note e) a :=
  h.after (o := ⟨c.priv, .success, [e]⟩) fun _ => .inr ⟨rfl, rfl⟩

theorem advances : Advances Attends
    fun c c' : Ctx π => ∀ a, Watches pageSize c a → Watches pageSize c' a where
  refl _ _ := id
  trans _ _ _ h h' a hc := h' a (h a hc)
  after _ _ ho _ h := h.after ho
  congr _ _ hstate _ h := h.congr hstate
  stopped c hrun a h := by
    refine (h.after fun _ => .inr ?_).note _
    simp only [Ctx.onState, Out.map_state, FwIsoCtx.state_setState,
      FwIsoCtxState.stop_of_running hrun]
    exact ⟨trivial, trivial⟩
  interrupted _ count _ h := h.note _
  setIsoChannels _ channels _ _ h := h.note _

theorem of_createSource {source : Bool} {ret : Ret} {src : FwIsoCtxSource}
    (h : (FwIsoCtx.state c.priv).createSource source pageSize = (ret, some src)) (id : Nat) :
    Watches pageSize c ⟨id, src, c.trace.length⟩ := by
  rw [FwIsoCtxState.createSource] at h
  split at h
  · cases h
  split at h
  · cases h
  next hfd =>
    cases h
    refine ⟨by simpa using hfd, Nat.le_refl _, .inl ⟨fun p hp => ?_, rfl, rfl⟩⟩
    rw [Ctx.since, List.drop_length] at hp
    cases hp

end Watches

def Attends.All {π : Type} [FwIsoCtx π] (pageSize : Nat) (c : Ctx π) (l : MainLoop) : Prop :=
  ∀ a ∈ l.sources, Watches pageSize c a

namespace MainLoop

variable {π ο : Type} [FwIsoCtx π] {kind : ο → Ctx π → Act (Ctx π) Ret} {pageSize : Nat}

theorem exec_keeps
    (hkind : ∀ op (c : Ctx π), (kind op c).Paced
      (fun c c' => ∀ a, Watches pageSize c a → Watches pageSize c' a)
      (fun c c' => ∀ a, Watches pageSize c a → Watches pageSize c' a) c)
    (dispatch : Wakeup → ο) (hdispatch : ∀ w c, kind (dispatch w) c = c.dispatch w)
    (op : Op ο) {y : Ctx π × MainLoop} (hy : Attends.All pageSize y.1 y.2) :
    (exec kind pageSize op y).Keeps (fun y => Attends.All pageSize y.1 y.2)
      fun _ y => Attends.All pageSize y.1 y.2 := by
  obtain ⟨c, l⟩ := y
  cases op with
  | call op =>
    exact (hkind op c).beside_keeps (fun c c' l h hl a ha => h a (hl a ha)) (fun _ _ _ h => h) hy
  | createSource source =>
    simp only [exec]
    split
    · exact hy
    next src hsrc =>
      intro a ha
      rcases List.mem_append.mp ha with hold | hnew
      · exact hy a hold
      · rw [List.mem_singleton.mp hnew]
        exact .of_createSource hsrc l.next
  | destroy id => exact fun a ha => hy a (List.mem_of_mem_filter ha)
  | iterate id condition read =>
    simp only [exec]
    split
    · exact hy
    split
    · exact hy
    have hpaced := hkind (dispatch (wakeup condition read)) c
    rw [hdispatch, ← dispatchSrc_answer] at hpaced
    refine hpaced.of_answer.beside_keeps (fun c c' l h hl a ha => h a (hl a ha)) ?_ hy
    intro x c l hl
    show Attends.All pageSize c (if x.2 then l else l.remove id)
    split
    · exact hl
    · exact fun a ha => hl a (List.mem_of_mem_filter ha)

theorem all_of_run
    (hkind : ∀ op (c : Ctx π), (kind op c).Paced
      (fun c c' => ∀ a, Watches pageSize c a → Watches pageSize c' a)
      (fun c c' => ∀ a, Watches pageSize c a → Watches pageSize c' a) c)
    (dispatch : Wakeup → ο) (hdispatch : ∀ w c, kind (dispatch w) c = c.dispatch w) (new : π)
    (ms : List (Move (Op ο))) :
    Attends.All pageSize (run (exec kind pageSize) ⟨(⟨new, []⟩, {}), []⟩ ms).state.1
      (run (exec kind pageSize) ⟨(⟨new, []⟩, {}), []⟩ ms).state.2 :=
  run_keeps_of_init ms (I := fun y : Ctx π × MainLoop => Attends.All pageSize y.1 y.2)
    (fun _ ha => absurd ha List.not_mem_nil) fun op _ _ hy =>
      exec_keeps hkind dispatch hdispatch op hy

end MainLoop

/-- A source belongs to a context of this kind: it reads from the descriptor of the context, with
room for what the kernel writes at once; or the context has been released since, and has closed the
descriptor. -/
def Serves {π : Type} [FwIsoCtx π] (mode : FwIsoCtxMode) (pageSize : Nat) (c : Ctx π)
    (a : Attached) : Prop :=
  0 ≤ a.src.fd ∧ a.made ≤ c.trace.length ∧
    ((∀ p, (.close, p) ∉ c.since a) ∧ a.src.fd = (FwIsoCtx.state c.priv).fd ∧
        a.src.len = mode.sourceLength pageSize ∨
      ∃ p, (.close, p) ∈ c.since a ∧ a.src.fd = (FwIsoCtx.state p).fd)

theorem Watches.serves {π : Type} [FwIsoCtx π] {pageSize : Nat} {c : Ctx π} {a : Attached}
    {mode : FwIsoCtxMode} (h : Watches pageSize c a)
    (hmode : 0 ≤ (FwIsoCtx.state c.priv).fd → (FwIsoCtx.state c.priv).mode = mode) :
    Serves mode pageSize c a := by
  refine ⟨h.opened, h.made, ?_⟩
  rcases h.since with ⟨hnone, hfd, hlen⟩ | ⟨p, hp, hfd⟩
  · refine .inl ⟨hnone, hfd.symm, ?_⟩
    rw [hlen, hmode (by rw [hfd]; exact h.opened)]
  · exact .inr ⟨p, hp, hfd.symm⟩

/-- **A source goes with its context** until this is released. -/
theorem sources_of_run (pageSize : Nat) :
    (∀ (ms : List (Move (MainLoop.Op FwIsoIt.Op))),
      ∀ a ∈ (run (MainLoop.exec FwIsoIt.exec pageSize) ⟨(⟨.new, []⟩, {}), []⟩ ms).state.2.sources,
        Serves .it pageSize
          (run (MainLoop.exec FwIsoIt.exec pageSize) ⟨(⟨.new, []⟩, {}), []⟩ ms).state.1 a) ∧
    (∀ (ms : List (Move (MainLoop.Op FwIsoIrSingle.Op))),
      ∀ a ∈ (run (MainLoop.exec FwIsoIrSingle.exec pageSize)
          ⟨(⟨.new, []⟩, {}), []⟩ ms).state.2.sources,
        Serves .irSingle pageSize
          (run (MainLoop.exec FwIsoIrSingle.exec pageSize) ⟨(⟨.new, []⟩, {}), []⟩ ms).state.1 a) ∧
    ∀ (ms : List (Move (MainLoop.Op FwIsoIrMultiple.Op))),
      ∀ a ∈ (run (MainLoop.exec FwIsoIrMultiple.exec pageSize)
          ⟨(⟨.new, []⟩, {}), []⟩ ms).state.2.sources,
        Serves .irMultiple pageSize
          (run (MainLoop.exec FwIsoIrMultiple.exec pageSize) ⟨(⟨.new, []⟩, {}), []⟩ ms).state.1
          a := by
  obtain ⟨hit, hsingle, hmultiple⟩ := context_of_run pageSize
  refine ⟨fun ms a ha => ?_, fun ms a ha => ?_, fun ms a ha => ?_⟩
  · refine (MainLoop.all_of_run (FwIsoIt.exec_advances Attends.traced Watches.advances) .dispatch
      (fun _ _ => rfl) .new ms a ha).serves ?_
    obtain ⟨ns, hns⟩ := hit ms
    rw [hns]
    exact (FwIsoIt.grounded_of_run ns).mode
  · refine (MainLoop.all_of_run (FwIsoIrSingle.exec_advances Attends.traced Watches.advances)
      .dispatch (fun _ _ => rfl) .new ms a ha).serves ?_
    obtain ⟨ns, hns⟩ := hsingle ms
    rw [hns]
    exact (FwIsoIrSingle.grounded_of_run ns).state.mode
  · refine (MainLoop.all_of_run (FwIsoIrMultiple.exec_advances Attends.traced Watches.advances)
      .dispatch (fun _ _ => rfl) .new ms a ha).serves ?_
    obtain ⟨ns, hns⟩ := hmultiple ms
    rw [hns]
    exact (FwIsoIrMultiple.grounded_of_run ns).state.mode

end Hinoko
