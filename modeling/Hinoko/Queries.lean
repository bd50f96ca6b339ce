import Hinoko.Session
import Hinoko.Lib.Beside

/-!
# What a context is asked

`fw_iso_ctx_state_flush_completions`, `fw_iso_ctx_state_read_cycle_time` and
`fw_iso_ctx_state_get_property` look at a context and change nothing in it.  An application may call
them at any time, also in a handler of a signal.

* `Queried.exec`: the operations of a context with the queries between them, and a record of what
  they have asked of the kernel, or shown.
* `queries_of_run`: each query goes to the context that the descriptor has at that time, and shows
  the size of the buffer that is mapped, or was last.  Flushing does not look whether there is one.
-/

namespace Hinoko

open Reentrant Protocol

def eBadF : Nat := 9

inductive QueryRequest where
  | flushIso
  | getCycleTimer2
deriving DecidableEq, Repr

def QueryRequest.name : QueryRequest → String
  | .flushIso => "FW_CDEV_IOC_FLUSH_ISO"
  | .getCycleTimer2 => "FW_CDEV_IOC_GET_CYCLE_TIMER2"

inductive QueryGError where
  /-- `generate_fw_iso_ctx_error_coded` -/
  | coded (code : FwIsoCtxError)
  /-- `generate_fw_iso_ctx_error_ioctl` -/
  | ioctl (request : QueryRequest) (errno : Nat)
deriving DecidableEq, Repr

def QueryGError.message (strerror : Nat → String) : QueryGError → String
  | .coded code => code.toLabel
  | .ioctl request errno => s!"ioctl({request.name}) {errno} ({strerror errno})"

inductive QueryRet where
  | success
  | failure (error : QueryGError)
  | rejected
deriving DecidableEq, Repr

/-- `struct fw_cdev_get_cycle_timer2`, which `HinawaCycleTime` holds. -/
structure CycleTime where
  tvSec : Int
  tvNsec : Int
  clkId : Int
  cycleTimer : UInt32
deriving DecidableEq, Repr

/-- What has been asked of the kernel with which descriptor, or shown. -/
inductive Asking where
  | flushIso (fd : Int) (handle : UInt32)
  | getCycleTimer2 (fd : Int) (clkId : Int)
  | shown (bytesPerChunk chunksPerBuffer : UInt32)
deriving DecidableEq, Repr

inductive Query where
  | flushCompletions (answer : Option Nat)
  | readCycleTime (clockId : Int) (cycleTime : Option CycleTime) (answer : Except Nat CycleTime)
  | getProperties

/-- The answer of the kernel, which knows no descriptor below zero. -/
def answerOn {α : Type} (fd : Int) (answer : Except Nat α) : Except Nat α :=
  if fd < 0 then .error eBadF else answer

namespace FwIsoCtxState

/-- `fw_iso_ctx_state_flush_completions`. -/
def flushCompletions (st : FwIsoCtxState) (answer : Option Nat) : QueryRet × List Asking :=
  let answer := answer.elim (.ok ()) fun errno => .error errno
  match answerOn st.fd answer with
  | .error errno => (.failure (.ioctl .flushIso errno), [.flushIso st.fd st.handle])
  | .ok () => (.success, [.flushIso st.fd st.handle])

/-- `fw_iso_ctx_state_read_cycle_time`, with what it leaves in the structure. -/
def readCycleTime (st : FwIsoCtxState) (clockId : Int) (cycleTime : Option CycleTime)
    (answer : Except Nat CycleTime) : QueryRet × Option CycleTime × List Asking :=
  match cycleTime with
  | none => (.rejected, none, [])
  | some time =>
    if st.fd < 0 then (.failure (.coded .notAllocated), some time, [])
    else
      let time := { time with clkId := clockId }
      match answerOn st.fd answer with
      | .error errno =>
        (.failure (.ioctl .getCycleTimer2 errno), some time, [.getCycleTimer2 st.fd clockId])
      | .ok time => (.success, some time, [.getCycleTimer2 st.fd clockId])

/-- `fw_iso_ctx_state_get_property`, of both properties. -/
def getProperties (st : FwIsoCtxState) : List Asking :=
  [.shown st.bytesPerChunk st.chunksPerBuffer]

def query (st : FwIsoCtxState) : Query → QueryRet × List Asking
  | .flushCompletions answer => st.flushCompletions answer
  | .readCycleTime clockId cycleTime answer =>
    let (ret, _, asked) := st.readCycleTime clockId cycleTime answer
    (ret, asked)
  | .getProperties => (.success, st.getProperties)

end FwIsoCtxState

namespace Queried

inductive Op (ο : Type) where
  | call (op : ο)
  | query (query : Query)

variable {π ο : Type} [FwIsoCtx π]

/-- One operation, over those of a kind of context.  The record has what was asked, each with how
much the context had done before. -/
def exec (kind : ο → Ctx π → Act (Ctx π) Ret) :
    Op ο → Ctx π × List (Nat × Asking) → Act (Ctx π × List (Nat × Asking)) (Ret ⊕ QueryRet)
  | .call op, (c, log) => (kind op c).beside (fun ret log => (.inl ret, log)) log
  | .query query, (c, log) =>
    let (ret, asked) := (FwIsoCtx.state c.priv).query query
    .done (.inr ret) (c, log ++ asked.map fun a => (c.trace.length, a))

end Queried

/-! ### What may be asked -/

/-- What is asked goes to the descriptor that is open and names its context, and what is shown is the
size of the mapping, or of the last one where there is none.  Only flushing asks where there is no
descriptor. -/
def Suits (q : Session) : Asking → Prop
  | .flushIso fd handle =>
    if 0 ≤ fd then q.stage = .created fd.toNat handle else q.stage = .closed
  | .getCycleTimer2 fd _ => 0 ≤ fd ∧ ∃ handle, q.stage = .created fd.toNat handle
  | .shown bytesPerChunk chunksPerBuffer =>
    match q.mapping with
    | .mapped _ length => length = bytesPerChunk * chunksPerBuffer
    | _ => q.size = bytesPerChunk * chunksPerBuffer

theorem Agrees.suits_shown {q : Session} {st : FwIsoCtxState} (h : Agrees q st) :
    Suits q (.shown st.bytesPerChunk st.chunksPerBuffer) := by
  have haddr := h.addr
  rw [Suits]
  cases hmapping : q.mapping with
  | mapped id length => exact h.length id length hmapping
  | unmapped =>
    rw [hmapping] at haddr
    exact h.size fun id hid => Addr.noConfusion (haddr.trans hid)
  | failed =>
    rw [hmapping] at haddr
    exact h.size fun id hid => Addr.noConfusion (haddr.trans hid)

theorem Agrees.suits {q : Session} {st : FwIsoCtxState} (h : Agrees q st) (query : Query) :
    ∀ a ∈ (st.query query).2, Suits q a := by
  cases query with
  | flushCompletions answer =>
    have hflush : Suits q (.flushIso st.fd st.handle) := by
      rw [Suits]
      split
      next hfd => exact h.created hfd
      next hfd => exact h.closed (by omega)
    intro a ha
    simp only [FwIsoCtxState.query, FwIsoCtxState.flushCompletions] at ha
    split at ha
    · rw [List.mem_singleton.mp ha]
      exact hflush
    · rw [List.mem_singleton.mp ha]
      exact hflush
  | readCycleTime clockId cycleTime answer =>
    intro a ha
    cases cycleTime with
    | none => cases ha
    | some time =>
      simp only [FwIsoCtxState.query, FwIsoCtxState.readCycleTime] at ha
      split at ha
      · cases ha
      next hfd =>
        have hsuits : Suits q (.getCycleTimer2 st.fd clockId) :=
          ⟨by omega, st.handle, h.created (by omega)⟩
        split at ha
        · rw [List.mem_singleton.mp ha]
          exact hsuits
        · rw [List.mem_singleton.mp ha]
          exact hsuits
  | getProperties =>
    intro a ha
    rw [List.mem_singleton.mp ha]
    exact h.suits_shown

/-! ### Runs -/

def Ctx.GoesOn {π : Type} [FwIsoCtx π] (c c' : Ctx π) : Prop :=
  (Follows c → Follows c') ∧ c.trace <+: c'.trace

namespace Ctx.GoesOn

variable {π : Type} [FwIsoCtx π]

theorem advances : Advances Conforms (Ctx.GoesOn (π := π)) where
  refl _ := ⟨id, List.prefix_rfl⟩
  trans _ _ _ h h' := ⟨fun hc => h'.1 (h.1 hc), h.2.trans h'.2⟩
  after _ _ ho := ⟨fun hc => hc.after ho, List.prefix_append ..⟩
  congr _ _ hstate := ⟨fun hc => Follows.obeys.congr hc hstate, List.prefix_rfl⟩
  stopped c hrun := by
    refine ⟨fun hc => hc.stopped hrun, ?_⟩
    exact (List.prefix_append ..).trans (List.prefix_append ..)
  interrupted _ count := ⟨fun hc => Follows.obeys.interrupted count hc, List.prefix_append ..⟩
  setIsoChannels _ channels hfd :=
    ⟨fun hc => Follows.obeys.setIsoChannels channels hc hfd, List.prefix_append ..⟩

end Ctx.GoesOn

/-- What was asked, after so much that the context had done, suits the kernel's view of that
time. -/
def SuitsAt {π : Type} [FwIsoCtx π] (c : Ctx π) (x : Nat × Asking) : Prop :=
  x.1 ≤ c.effects.length ∧
    ∃ q, follow Session.rules {} (c.effects.take x.1) = some q ∧ Suits q x.2

namespace Queried

variable {π ο : Type} [FwIsoCtx π] {kind : ο → Ctx π → Act (Ctx π) Ret}

def Keeps (c : Ctx π) (log : List (Nat × Asking)) : Prop := Follows c ∧ ∀ x ∈ log, SuitsAt c x

theorem keeps_of_goesOn (c c' : Ctx π) (log : List (Nat × Asking)) (h : c.GoesOn c')
    (hc : Keeps c log) : Keeps c' log := by
  refine ⟨h.1 hc.1, fun x hx => ?_⟩
  obtain ⟨hle, q, hfollow, hsuits⟩ := hc.2 x hx
  have hprefix : c.effects <+: c'.effects := h.2.map _
  refine ⟨hle.trans hprefix.length_le, q, ?_, hsuits⟩
  obtain ⟨rest, hrest⟩ := hprefix
  rw [← hrest, List.take_append_of_le_length hle]
  exact hfollow

theorem exec_keeps (hkind : ∀ op (c : Ctx π), (kind op c).Paced Ctx.GoesOn Ctx.GoesOn c)
    (op : Op ο) {y : Ctx π × List (Nat × Asking)} (hy : Keeps y.1 y.2) :
    (exec kind op y).Keeps (fun y => Keeps y.1 y.2) fun _ y => Keeps y.1 y.2 := by
  obtain ⟨c, log⟩ := y
  cases op with
  | call op => exact (hkind op c).beside_keeps keeps_of_goesOn (fun _ _ _ h => h) hy
  | query query =>
    refine ⟨hy.1, fun x hx => ?_⟩
    rcases List.mem_append.mp hx with hold | hnew
    · exact hy.2 x hold
    · obtain ⟨a, ha, rfl⟩ := List.mem_map.mp hnew
      obtain ⟨q, hfollow, hagrees⟩ := hy.1
      have hlength : c.effects.length = c.trace.length := List.length_map _
      refine ⟨hlength.ge, q, ?_, hagrees.suits query a ha⟩
      rw [← hlength, List.take_length]
      exact hfollow

theorem exec_covers (op : Op ο) (y : Ctx π × List (Nat × Asking)) :
    (∃ op₀, (exec kind op y).Covers (kind op₀ y.1)) ∨
      ∃ ret log, exec kind op y = .done ret (y.1, log) := by
  obtain ⟨c, log⟩ := y
  cases op with
  | call op => exact .inl ⟨op, Act.covers_beside _ _ log⟩
  | query query => exact .inr ⟨_, _, rfl⟩

theorem keeps_of_run (hkind : ∀ op (c : Ctx π), (kind op c).Paced Ctx.GoesOn Ctx.GoesOn c)
    {new : π} (hnew : FwIsoCtx.state new = {}) (ms : List (Move (Op ο))) :
    let y := (run (exec kind) ⟨(⟨new, []⟩, []), []⟩ ms).state
    (∃ ns, y.1 = (run kind ⟨⟨new, []⟩, []⟩ ns).state) ∧ ∀ x ∈ y.2, SuitsAt y.1 x := by
  refine ⟨covered_of_init exec_covers ms _ _, ?_⟩
  have hinit : Keeps (⟨new, []⟩ : Ctx π) [] :=
    ⟨.new hnew, fun x hx => absurd hx List.not_mem_nil⟩
  exact (run_keeps_of_init ms (I := fun y : Ctx π × List (Nat × Asking) => Keeps y.1 y.2) hinit
    fun op _ y hy => exec_keeps hkind op hy).2

end Queried

/-- **Each query goes to the right context**, wherever it is made, and changes nothing. -/
theorem queries_of_run :
    (∀ ms : List (Move (Queried.Op FwIsoIt.Op)),
      let y := (run (Queried.exec FwIsoIt.exec) ⟨(⟨.new, []⟩, []), []⟩ ms).state
      (∃ ns, y.1 = (run FwIsoIt.exec ⟨⟨.new, []⟩, []⟩ ns).state) ∧ ∀ x ∈ y.2, SuitsAt y.1 x) ∧
    (∀ ms : List (Move (Queried.Op FwIsoIrSingle.Op)),
      let y := (run (Queried.exec FwIsoIrSingle.exec) ⟨(⟨.new, []⟩, []), []⟩ ms).state
      (∃ ns, y.1 = (run FwIsoIrSingle.exec ⟨⟨.new, []⟩, []⟩ ns).state) ∧
        ∀ x ∈ y.2, SuitsAt y.1 x) ∧
    ∀ ms : List (Move (Queried.Op FwIsoIrMultiple.Op)),
      let y := (run (Queried.exec FwIsoIrMultiple.exec) ⟨(⟨.new, []⟩, []), []⟩ ms).state
      (∃ ns, y.1 = (run FwIsoIrMultiple.exec ⟨⟨.new, []⟩, []⟩ ns).state) ∧
        ∀ x ∈ y.2, SuitsAt y.1 x := by
  refine ⟨fun ms => ?_, fun ms => ?_, fun ms => ?_⟩
  · exact Queried.keeps_of_run (FwIsoIt.exec_advances Conforms.traced Ctx.GoesOn.advances) rfl ms
  · exact Queried.keeps_of_run (FwIsoIrSingle.exec_advances Conforms.traced Ctx.GoesOn.advances)
      rfl ms
  · exact Queried.keeps_of_run (FwIsoIrMultiple.exec_advances Conforms.traced Ctx.GoesOn.advances)
      rfl ms

end Hinoko
