import Hinoko.Calls
import Hinoko.Lib.Protocol

/-!
# What a context says to the kernel

The system calls of a context, in any order the application and its handlers bring about, are
those of a well-behaved client of the character device.  `Session` is the kernel's view of it: how
far the descriptor has got, what is mapped, and whether the context has been started.

The code takes any address but `NULL` for a mapping.  So it goes on behind an `mmap` that has failed
as if there were a buffer, and the rules let it.

* `Session.rules`: which system call may come when, and the signals between them.
* `Agrees`: the state of the object agrees with the kernel's view.
* `session_of_run`: every run follows the rules.
-/

namespace Hinoko

open Reentrant Protocol

/-- How far a descriptor of the character device has got. -/
inductive Stage where
  | closed
  | opened (fd : Nat)
  /-- `FW_CDEV_IOC_GET_INFO` has been made -/
  | informed (fd : Nat)
  /-- `FW_CDEV_IOC_CREATE_ISO_CONTEXT` has given the handle -/
  | created (fd : Nat) (handle : UInt32)
deriving DecidableEq, Repr

namespace Stage

def isOpened : Stage → Bool
  | .opened _ => true
  | _ => false

def isInformed : Stage → Bool
  | .informed _ => true
  | _ => false

def handle : Stage → Option UInt32
  | .created _ handle => some handle
  | _ => none

def opening (s : Stage) : Except Nat Nat → Stage
  | .ok fd => .opened fd
  | .error _ => s

def informing : Stage → Stage
  | .opened fd => .informed fd
  | s => s

def creating (s : Stage) (answer : Except Nat UInt32) : Stage :=
  match answer, s with
  | .ok handle, .informed fd => .created fd handle
  | _, _ => s

end Stage

/-- What `mmap` has come to, until `munmap` is called. -/
inductive Mapping where
  | unmapped
  | failed
  | mapped (id : Nat) (length : UInt32)
deriving DecidableEq, Repr

namespace Mapping

def mapping (length : UInt32) : Except Nat Nat → Mapping
  | .ok id => .mapped id length
  | .error _ => .failed

def addr : Mapping → Addr
  | .unmapped => .null
  | .failed => .mapFailed
  | .mapped id _ => .mapped id

theorem addr_eq_null {m : Mapping} : m.addr = .null ↔ m = .unmapped := by
  cases m with
  | unmapped => exact iff_of_true rfl rfl
  | failed => exact iff_of_false (by rintro ⟨⟩) (by rintro ⟨⟩)
  | mapped id length => exact iff_of_false (by rintro ⟨⟩) (by rintro ⟨⟩)

end Mapping

structure Session where
  stage : Stage := .closed
  mapping : Mapping := .unmapped
  /-- the length given to the last `munmap` -/
  size : UInt32 := 0
  /-- `FW_CDEV_IOC_START_ISO` has been accepted since the last `FW_CDEV_IOC_STOP_ISO` -/
  started : Bool := false
  /-- `FW_CDEV_IOC_STOP_ISO` has been made, and the signal has not been emitted yet -/
  owed : Bool := false
deriving DecidableEq, Repr

namespace Session

def ready (q : Session) : Bool := q.stage.handle.isSome ∧ q.mapping ≠ .unmapped

/-- There is the context that a request names, and `mmap` has been called for its buffer. -/
def readyFor (q : Session) (handle : UInt32) : Bool :=
  q.stage.handle = some handle ∧ q.mapping ≠ .unmapped

/-- The length to call `munmap` with: where `mmap` has failed it is not the one asked for, but that of
the buffer before. -/
def unmaps (q : Session) (length : UInt32) : Bool :=
  match q.mapping with
  | .unmapped => false
  | .failed => length = q.size
  | .mapped _ mapped => length = mapped

def admits (q : Session) : Effect → Bool
  | .open _ => q.stage = .closed
  | .getInfo => q.stage.isOpened
  | .createIsoContext _ => q.stage.isInformed
  | .close => (q.stage.isInformed ∨ q.stage.handle.isSome) ∧ q.mapping = .unmapped
  | .setIsoChannels _ => q.stage.handle.isSome
  | .mmap _ _ _ => q.stage.handle.isSome ∧ q.mapping = .unmapped
  | .munmap length => q.unmaps length
  -- a request without packets is made at any time
  | .queueIso arg _ _ => arg.size = 0 ∨ q.readyFor arg.handle
  | .startIso arg _ => q.readyFor arg.handle
  | .stopIso => q.started
  | .chunk _ => q.ready
  | .packet _ _ => q.ready
  | .interrupted _ => true
  | .stopped => false
  | .warning => true

/-- What may be done; a signal that is owed comes first. -/
def permits (q : Session) : Effect → Bool
  | .stopped => q.owed
  | e => ¬ q.owed ∧ q.admits e

def next (q : Session) : Effect → Session
  | .open answer => { q with stage := q.stage.opening answer }
  | .close => { q with stage := .closed }
  | .getInfo => { q with stage := q.stage.informing }
  | .createIsoContext answer => { q with stage := q.stage.creating answer }
  | .setIsoChannels _ => q
  | .mmap length _ answer => { q with mapping := .mapping length answer }
  | .munmap length => { q with mapping := .unmapped, size := length }
  | .queueIso _ _ _ => q
  | .startIso _ accepted => { q with started := q.started || accepted }
  | .stopIso => { q with started := false, owed := true }
  | .chunk _ => q
  | .packet _ _ => q
  | .interrupted _ => q
  | .stopped => { q with owed := false }
  | .warning => q

def rules : Rules Session Effect := ⟨permits, next⟩

end Session

/-- The state of the object agrees with the kernel's view. -/
structure Agrees (q : Session) (st : FwIsoCtxState) : Prop where
  created : 0 ≤ st.fd → q.stage = .created st.fd.toNat st.handle
  closed : st.fd < 0 → q.stage = .closed
  addr : q.mapping.addr = st.addr
  length : ∀ id length, q.mapping = .mapped id length → length = st.bytesPerBuffer
  size : (∀ id, st.addr ≠ .mapped id) → q.size = st.bytesPerBuffer
  started : q.started = st.running
  owed : q.owed = false
  unallocated : st.fd < 0 → st.addr = .null
  store : st.data ≠ none → st.addr ≠ .null

/-- What is done between two states follows the rules, and leaves them in agreement. -/
def Conforms (st st' : FwIsoCtxState) (es : List Effect) : Prop :=
  ∀ q, Agrees q st → ∃ q', follow Session.rules q es = some q' ∧ Agrees q' st'

namespace Agrees

variable {q : Session} {st st' : FwIsoCtxState}

theorem init : Agrees {} {} :=
  ⟨fun h => absurd h (by decide), fun _ => rfl, rfl, fun _ _ h => (by cases h), fun _ => rfl, rfl,
    rfl, fun _ => rfl, fun h => absurd rfl h⟩

theorem congr (h : Agrees q st) (hfd : st'.fd = st.fd) (hhandle : st'.handle = st.handle)
    (haddr : st'.addr = st.addr) (hbuffer : st'.bytesPerBuffer = st.bytesPerBuffer)
    (hrun : st'.running = st.running) (hdata : st'.data ≠ none → st.data ≠ none) :
    Agrees q st' := by
  obtain ⟨h1, h2, h3, h4, h5, h6, h7, h8, h9⟩ := h
  refine ⟨?_, ?_, ?_, ?_, ?_, ?_, h7, ?_, ?_⟩
  · rwa [hfd, hhandle]
  · rwa [hfd]
  · rwa [haddr]
  · rwa [hbuffer]
  · rwa [haddr, hbuffer]
  · rwa [hrun]
  · rwa [hfd, haddr]
  · rw [haddr]
    exact fun h => h9 (hdata h)

/-- A mapped buffer is one of a context. -/
theorem allocated (h : Agrees q st) (haddr : st.addr ≠ .null) : 0 ≤ st.fd := by
  by_contra hfd
  exact haddr (h.unallocated (by omega))

theorem handle (h : Agrees q st) (hfd : 0 ≤ st.fd) : q.stage.handle = some st.handle := by
  rw [h.created hfd]
  rfl

theorem unmapped (h : Agrees q st) : q.mapping = .unmapped ↔ st.addr = .null := by
  rw [← h.addr, Mapping.addr_eq_null]

theorem readyFor (h : Agrees q st) (haddr : st.addr ≠ .null) : q.readyFor st.handle = true := by
  simp only [Session.readyFor, decide_eq_true_eq]
  exact ⟨h.handle (h.allocated haddr), fun hunmapped => haddr (h.unmapped.mp hunmapped)⟩

theorem ready (h : Agrees q st) (haddr : st.addr ≠ .null) : q.ready = true := by
  simp only [Session.ready, decide_eq_true_eq]
  refine ⟨?_, fun hunmapped => haddr (h.unmapped.mp hunmapped)⟩
  rw [h.handle (h.allocated haddr)]
  rfl

/-- The object knows the length to call `munmap` with. -/
theorem unmaps (h : Agrees q st) (haddr : st.addr ≠ .null) :
    q.unmaps st.bytesPerBuffer = true := by
  rw [Session.unmaps]
  cases hmapping : q.mapping with
  | unmapped => exact absurd (h.unmapped.mp hmapping) haddr
  | failed =>
    have hfailed : st.addr = .mapFailed := by
      rw [← h.addr, hmapping]
      rfl
    exact decide_eq_true (h.size fun id hid => Addr.noConfusion (hfailed.symm.trans hid)).symm
  | mapped id length => exact decide_eq_true (h.length id length hmapping).symm

end Agrees

namespace Conforms

variable {a b c st : FwIsoCtxState} {es fs : List Effect}

theorem refl (st : FwIsoCtxState) : Conforms st st [] := fun q h => ⟨q, rfl, h⟩

theorem of_refused {o : Out FwIsoCtxState} (h : Refused st o) : Conforms st o.state o.effects := by
  rw [h.state, h.effects]
  exact refl st

theorem trans (h : Conforms a b es) (h' : Conforms b c fs) : Conforms a c (es ++ fs) := by
  intro q hq
  obtain ⟨q', hfollow, hq'⟩ := h q hq
  obtain ⟨q'', hfollow', hq''⟩ := h' q' hq'
  exact ⟨q'', (follow_append hfollow).trans hfollow', hq''⟩

theorem congr_right (h : Conforms a b es) (hfd : c.fd = b.fd) (hhandle : c.handle = b.handle)
    (haddr : c.addr = b.addr) (hbuffer : c.bytesPerBuffer = b.bytesPerBuffer)
    (hrun : c.running = b.running) (hdata : c.data ≠ none → b.data ≠ none) : Conforms a c es := by
  intro q hq
  obtain ⟨q', hfollow, hq'⟩ := h q hq
  exact ⟨q', hfollow, hq'.congr hfd hhandle haddr hbuffer hrun hdata⟩

theorem single {e : Effect} (h : ∀ q, Agrees q a → q.permits e = true ∧ Agrees (q.next e) b) :
    Conforms a b [e] := by
  intro q hq
  obtain ⟨hpermits, hnext⟩ := h q hq
  exact ⟨_, follow_cons (r := Session.rules) hpermits [], hnext⟩

/-! ### The functions of the state -/

theorem allocate (path : Option String) (mode : FwIsoCtxMode) (scode channel headerSize : UInt32)
    (env : AllocateEnv) :
    Conforms st (st.allocate path mode scode channel headerSize env).state
      (st.allocate path mode scode channel headerSize env).effects := by
  simp only [FwIsoCtxState.allocate]
  split
  · exact refl st
  split
  · exact refl st
  split
  · exact refl st
  split
  · exact refl st
  split
  · exact refl st
  split
  · exact refl st
  split
  · exact refl st
  next hopen =>
  have hfd : st.fd < 0 := by omega
  intro q h
  have haddr := h.unallocated hfd
  have hmapping := h.unmapped.mpr haddr
  have hstage := h.closed hfd
  -- a descriptor that is not kept has no context and no buffer
  have hclosed : Agrees { q with stage := .closed } { st with fd := -1 } :=
    ⟨fun hneg => absurd hneg (by decide : ¬ (0 : Int) ≤ -1), fun _ => rfl, h.addr, h.length, h.size,
      h.started, h.owed, fun _ => haddr, h.store⟩
  have hopens : ∀ answer es, follow Session.rules q (.open answer :: es) =
      follow Session.rules (q.next (.open answer)) es := fun answer es =>
    follow_cons (by simp [Session.rules, Session.permits, Session.admits, h.owed, hstage]) es
  have hinfo : ∀ fd es, follow Session.rules { q with stage := .opened fd } (.getInfo :: es) =
      follow Session.rules { q with stage := .informed fd } es := fun fd es =>
    follow_cons (by simp [Session.rules, Session.permits, Session.admits, h.owed,
      Stage.isOpened]) es
  have hcreate : ∀ fd answer es,
      follow Session.rules { q with stage := .informed fd } (.createIsoContext answer :: es) =
        follow Session.rules (Session.next { q with stage := .informed fd }
          (.createIsoContext answer)) es := fun fd answer es =>
    follow_cons (by simp [Session.rules, Session.permits, Session.admits, h.owed,
      Stage.isInformed]) es
  have hclose : ∀ fd, follow Session.rules { q with stage := .informed fd } [.close] =
      some { q with stage := .closed } := fun fd =>
    follow_cons (by simp [Session.rules, Session.permits, Session.admits, h.owed, hmapping,
      Stage.isInformed]) []
  have hkept : { q with stage := .closed } = q := by rw [← hstage]
  split
  next errno _ => exact ⟨_, hopens _ [], hkept ▸ hclosed⟩
  next errno _ => exact ⟨_, hopens _ [], hkept ▸ hclosed⟩
  next fd _ =>
  have hrelease : FwIsoCtxState.release { st with fd := fd } =
      ⟨{ st with fd := -1 }, .success, [.close]⟩ := by
    simp [FwIsoCtxState.release]
  split
  next errno _ =>
    rw [hrelease]
    exact ⟨_, (hopens _ _).trans ((hinfo fd _).trans (hclose fd)), hclosed⟩
  next =>
  split
  next errno _ =>
    rw [hrelease]
    exact ⟨_, (hopens _ _).trans ((hinfo fd _).trans ((hcreate fd _ _).trans (hclose fd))), hclosed⟩
  next handle _ =>
    refine ⟨_, (hopens _ _).trans ((hinfo fd _).trans (hcreate fd _ [])), fun _ => rfl,
      fun hneg => absurd hneg (by simp), h.addr, h.length, h.size, h.started, h.owed,
      fun _ => haddr, h.store⟩

theorem mapBuffer (bytesPerChunk chunksPerBuffer : UInt32) (env : MapEnv) :
    Conforms st (st.mapBuffer bytesPerChunk chunksPerBuffer env).state
      (st.mapBuffer bytesPerChunk chunksPerBuffer env).effects := by
  rcases st.mapBuffer_cases bytesPerChunk chunksPerBuffer env with
    hr | ⟨⟨_, _, hfd, haddr⟩, heffects, hout⟩
  · exact of_refused hr
  rw [heffects]
  refine single fun q h => ⟨?_, ?_⟩
  · simp [Session.permits, Session.admits, h.owed, h.handle hfd, h.unmapped.mpr haddr]
  have hneg : ¬ st.fd < 0 := by omega
  have hsize : q.size = st.bytesPerBuffer :=
    h.size fun id hmapped => Addr.noConfusion (haddr.symm.trans hmapped)
  rcases hout with ⟨errno, herror, _, hstate⟩ | ⟨id, hid, _, hstate⟩
  · rw [hstate, herror]
    refine ⟨h.created, h.closed, rfl, ?_, fun _ => hsize, h.started, h.owed,
      fun hfd' => absurd hfd' hneg, fun _ => ?_⟩
    · rintro _ _ ⟨⟩
    · rintro ⟨⟩
  · rw [hstate, hid]
    refine ⟨h.created, h.closed, rfl, ?_, fun hne => absurd rfl (hne id), h.started, h.owed,
      fun hfd' => absurd hfd' hneg, fun _ => ?_⟩
    · rintro _ _ ⟨⟩
      rfl
    · rintro ⟨⟩

theorem unmapBuffer : Conforms st st.unmapBuffer.state st.unmapBuffer.effects := by
  by_cases haddr : st.addr = .null
  · simp only [FwIsoCtxState.unmapBuffer, haddr, if_true]
    exact (refl st).congr_right rfl rfl haddr.symm rfl rfl fun h => absurd rfl h
  · simp only [FwIsoCtxState.unmapBuffer, haddr, if_false]
    refine single fun q h => ⟨?_, h.created, h.closed, rfl, ?_, fun _ => rfl, h.started, h.owed,
      fun _ => rfl, fun hne => absurd rfl hne⟩
    · simp [Session.permits, Session.admits, h.owed, h.unmaps haddr]
    · rintro _ _ ⟨⟩

theorem release (haddr : st.addr = .null) :
    Conforms st st.release.state st.release.effects := by
  by_cases hfd : 0 ≤ st.fd
  · simp only [FwIsoCtxState.release, hfd, if_true]
    refine single fun q h => ⟨?_, ?_⟩
    · simp [Session.permits, Session.admits, h.owed, h.handle hfd, h.unmapped.mpr haddr]
    · exact ⟨fun hneg => absurd hneg (by decide : ¬ (0 : Int) ≤ -1), fun _ => rfl, h.addr, h.length,
        h.size, h.started, h.owed, fun _ => haddr, h.store⟩
  · simp only [FwIsoCtxState.release, hfd, if_false]
    exact fun q h => ⟨q, rfl, fun hneg => absurd hneg (by decide : ¬ (0 : Int) ≤ -1),
      fun _ => h.closed (by omega), h.addr, h.length, h.size, h.started, h.owed, fun _ => haddr,
      h.store⟩

theorem registerChunk (skip : Bool) (tags syncCode : UInt32) (header : ArrayArg)
    (payloadLength : UInt32) (irq : Bool) :
    Conforms st (st.registerChunk skip tags syncCode header payloadLength irq).state
      (st.registerChunk skip tags syncCode header payloadLength irq).effects := by
  rcases st.registerChunk_cases skip tags syncCode header payloadLength irq with
    hr | ⟨⟨_, _, _, haddr⟩, ⟨_, ho⟩ | ⟨block, hdata, ho⟩⟩
  · exact of_refused hr
  · rw [ho]
    exact refl st
  · rw [ho]
    refine single fun q h => ⟨?_, h.congr rfl rfl rfl rfl rfl fun _ => ?_⟩
    · simp [Session.permits, Session.admits, h.owed, h.ready haddr]
    · rw [hdata]
      rintro ⟨⟩

theorem of_forall : ∀ {es : List Effect}, (∀ e ∈ es, ∀ q, Agrees q st →
    q.permits e = true ∧ Agrees (q.next e) st) → Conforms st st es := by
  intro es
  induction es with
  | nil => exact fun _ => refl st
  | cons e es ih =>
    intro hes
    exact trans (single (hes e (List.mem_cons_self ..)))
      (ih fun e' he' => hes e' (List.mem_cons_of_mem e he'))

end Conforms

namespace FwIsoCtxState

/-- Without a store nothing is gathered. -/
theorem accumulate_of_no_store {st : FwIsoCtxState} (hdata : st.data = none) {dataOffset : UInt32}
    {fuel : Nat} {b b' : Batch} (h : st.accumulate dataOffset fuel b = .ok b') : b' = b := by
  cases fuel with
  | zero => cases h
  | succ fuel =>
    rw [accumulate] at h
    split at h
    · rw [controlAt, hdata] at h
      cases h
    · exact (Except.ok.inj h).symm

/-- The requests to queue name the context, and those that carry packets have a store. -/
theorem queueLoop_named (st : FwIsoCtxState) (answers : Nat → QueueAnswer) :
    ∀ (fuel i : Nat) (dataOffset bufOffset chunkCount : UInt32),
      ∀ e ∈ (st.queueLoop answers fuel i dataOffset bufOffset chunkCount).1,
        ∃ arg packets answer, e = .queueIso arg packets answer ∧ arg.handle = st.handle ∧
          (st.data = none → arg.size = 0) := by
  intro fuel
  induction fuel with
  | zero => exact fun i dataOffset bufOffset chunkCount e he => absurd he List.not_mem_nil
  | succ fuel ih =>
    intro i dataOffset bufOffset chunkCount e he
    rw [queueLoop] at he
    split at he
    · split at he
      · exact absurd he List.not_mem_nil
      next b hb =>
      have hsize : st.data = none → b.dataLength = 0 := fun hdata => by
        rw [accumulate_of_no_store hdata hb]
      simp only at he
      split at he
      · obtain rfl := List.mem_singleton.mp he
        exact ⟨_, _, _, rfl, rfl, hsize⟩
      · split at he
        · obtain rfl := List.mem_singleton.mp he
          exact ⟨_, _, _, rfl, rfl, hsize⟩
        · rcases List.mem_cons.mp he with rfl | hrest
          · exact ⟨_, _, _, rfl, rfl, hsize⟩
          · exact ih _ _ _ _ e hrest
    · exact absurd he List.not_mem_nil

theorem queueChunks_named (st : FwIsoCtxState) (answers : Nat → QueueAnswer) :
    ∀ e ∈ (st.queueChunks answers).effects, e = .warning ∨ ∃ arg packets answer,
      e = .queueIso arg packets answer ∧ arg.handle = st.handle ∧
        (st.data = none → arg.size = 0) := by
  have hloop := st.queueLoop_named answers st.queueFuel 0 0 st.currOffset 0
  simp only [queueChunks]
  split
  · exact fun e he => .inr (hloop e he)
  · exact fun e he => .inr (hloop e he)
  · split
    · exact fun e he => .inr (hloop e he)
    · intro e he
      rcases List.mem_append.mp he with hmem | hwarn
      · exact .inr (hloop e hmem)
      · exact .inl (List.mem_singleton.mp hwarn)

end FwIsoCtxState

namespace Conforms

variable {st : FwIsoCtxState}

theorem queueChunks (answers : Nat → QueueAnswer) :
    Conforms st (st.queueChunks answers).state (st.queueChunks answers).effects := by
  have hrequests : Conforms st st (st.queueChunks answers).effects := by
    refine of_forall fun e he q h => ?_
    rcases st.queueChunks_named answers e he with
      rfl | ⟨arg, packets, answer, rfl, hhandle, hsize⟩
    · exact ⟨by simp [Session.permits, Session.admits, h.owed], h⟩
    refine ⟨?_, h⟩
    by_cases hempty : arg.size = 0
    · simp [Session.permits, Session.admits, h.owed, hempty]
    · have hready := h.readyFor (h.store fun hnone => hempty (hsize hnone))
      simp [Session.permits, Session.admits, h.owed, hhandle, hready]
  rcases (st.queueChunks_cases answers).2 with ⟨hstate, _⟩ | ⟨_, x, hstate⟩
  · rwa [hstate]
  · rw [hstate]
    exact hrequests.congr_right rfl rfl rfl rfl rfl id

theorem startIso {arg : StartIso} (harg : arg.handle = st.handle) (haddr : st.addr ≠ .null) :
    Conforms st st [.startIso arg false] ∧
      Conforms st { st with running := true } [.startIso arg true] := by
  have hpermits : ∀ q accepted, Agrees q st → q.permits (.startIso arg accepted) = true := by
    intro q accepted h
    simp [Session.permits, Session.admits, h.owed, harg, h.readyFor haddr]
  refine ⟨single fun q h => ⟨hpermits q false h, ?_⟩, single fun q h => ⟨hpermits q true h, ?_⟩⟩
  · exact ⟨h.created, h.closed, h.addr, h.length, h.size, (Bool.or_false _).trans h.started, h.owed,
      h.unallocated, h.store⟩
  · exact ⟨h.created, h.closed, h.addr, h.length, h.size, Bool.or_true _, h.owed, h.unallocated,
      h.store⟩

theorem start (cycleMatch : Option (UInt16 × UInt16)) (syncCode tags : UInt32) (env : StartEnv) :
    Conforms st (st.start cycleMatch syncCode tags env).state
      (st.start cycleMatch syncCode tags env).effects := by
  have hq : Conforms st (st.queueChunks env.queueIso).state (st.queueChunks env.queueIso).effects :=
    queueChunks env.queueIso
  have hsame := SameSetup.queueChunks st env.queueIso
  have hhandle : (st.queueChunks env.queueIso).state.handle = st.handle := by
    rcases (st.queueChunks_cases env.queueIso).2 with ⟨hstate, _⟩ | ⟨_, x, hstate⟩ <;> rw [hstate]
  rcases st.start_cases cycleMatch syncCode tags env with
    hr | ⟨⟨_, haddr, _⟩, ⟨_, ho⟩ | ⟨_, hstart⟩⟩
  · exact of_refused hr
  · rw [ho]
    exact hq
  -- the request comes behind those to queue, which have left the setup alone
  have hnames : (st.startArg cycleMatch syncCode tags).handle =
      (st.queueChunks env.queueIso).state.handle := hhandle.symm
  obtain ⟨hrefused, haccepted⟩ := startIso hnames (hsame.addr ▸ haddr)
  rcases hstart with ⟨_, _, ho⟩ | ⟨_, ho⟩
  · rw [ho]
    exact hq.trans hrefused
  · rw [ho]
    exact hq.trans haccepted

theorem traced : Traced Conforms where
  refl := refl
  trans h _ h' := h.trans h'
  allocate _ := allocate
  mapBuffer _ := mapBuffer
  unmapBuffer _ := unmapBuffer
  release _ := release
  registerChunk _ := registerChunk
  packet st skip payload haddr := by
    refine single fun q h => ⟨?_, h⟩
    simp [Session.permits, Session.admits, h.owed, h.ready haddr]
  queueChunks _ := queueChunks
  start _ := start

end Conforms

/-! ### Runs -/

/-- What the context has done follows the rules, and it agrees with the kernel's view. -/
def Follows {π : Type} [FwIsoCtx π] (c : Ctx π) : Prop :=
  ∃ q, follow Session.rules {} c.effects = some q ∧ Agrees q (FwIsoCtx.state c.priv)

namespace Follows

variable {π : Type} [FwIsoCtx π] {c : Ctx π}

theorem new {p : π} (h : FwIsoCtx.state p = {}) : Follows ⟨p, []⟩ := by
  refine ⟨{}, rfl, ?_⟩
  rw [h]
  exact .init

theorem after {o : Out π} (h : Follows c)
    (ho : Conforms (FwIsoCtx.state c.priv) (FwIsoCtx.state o.state) o.effects) :
    Follows (c.after o) := by
  obtain ⟨q, hfollow, hagrees⟩ := h
  obtain ⟨q', hfollow', hagrees'⟩ := ho q hagrees
  refine ⟨q', ?_, hagrees'⟩
  rw [Ctx.after_effects]
  exact (follow_append hfollow).trans hfollow'

theorem note {e : Effect} (h : Follows c) (he : ∀ q, Agrees q (FwIsoCtx.state c.priv) →
    q.permits e = true ∧ Agrees (q.next e) (FwIsoCtx.state c.priv)) : Follows (c.note e) := by
  have hafter := h.after (o := ⟨c.priv, .success, [e]⟩) (Conforms.single he)
  exact hafter

theorem stopped (h : Follows c) (hrun : (FwIsoCtx.state c.priv).running = true) :
    Follows ((c.after (Ctx.onState FwIsoCtxState.stop c.priv)).note .stopped) := by
  obtain ⟨q, hfollow, hagrees⟩ := h
  refine ⟨{ q with started := false, owed := false }, ?_, ?_⟩
  · rw [Ctx.onState, FwIsoCtxState.stop_of_running hrun, Ctx.note_effects, Ctx.after_effects,
      List.append_assoc]
    refine (follow_append hfollow).trans ((follow_cons ?_ _).trans (follow_cons rfl []))
    simp [Session.rules, Session.permits, Session.admits, hagrees.owed, hagrees.started, hrun]
  · obtain ⟨h1, h2, h3, h4, h5, _, _, h8, h9⟩ := hagrees
    simp only [Ctx.note_priv, Ctx.after_priv, Ctx.onState, Out.map_state,
      FwIsoCtx.state_setState, FwIsoCtxState.stop_of_running hrun]
    exact ⟨h1, h2, h3, h4, h5, rfl, rfl, h8, h9⟩

theorem obeys : Obeys Conforms (Follows (π := π)) where
  after := after
  congr h hp := by
    obtain ⟨q, hfollow, hagrees⟩ := h
    exact ⟨q, hfollow, hp ▸ hagrees⟩
  stopped := stopped
  interrupted count h := by
    refine h.note fun q hq => ⟨?_, hq⟩
    simp [Session.permits, Session.admits, hq.owed]
  setIsoChannels channels h hfd := by
    refine h.note fun q hq => ⟨?_, hq⟩
    simp [Session.permits, Session.admits, hq.owed, hq.handle hfd]

end Follows

theorem FwIsoIt.follows_of_run (ms : List (Move Op)) :
    Follows (run exec ⟨⟨new, []⟩, []⟩ ms).state :=
  obeys_of_run Conforms.traced Follows.obeys (.new rfl) ms

theorem FwIsoIrSingle.follows_of_run (ms : List (Move Op)) :
    Follows (run exec ⟨⟨new, []⟩, []⟩ ms).state :=
  obeys_of_run Conforms.traced Follows.obeys (.new rfl) ms

theorem FwIsoIrMultiple.follows_of_run (ms : List (Move Op)) :
    Follows (run exec ⟨⟨new, []⟩, []⟩ ms).state :=
  obeys_of_run Conforms.traced Follows.obeys (.new rfl) ms

/-- **Every run follows the rules**, of each kind of context. -/
theorem session_of_run :
    (∀ ms : List (Move FwIsoIt.Op), Follows (run FwIsoIt.exec ⟨⟨.new, []⟩, []⟩ ms).state) ∧
    (∀ ms : List (Move FwIsoIrSingle.Op),
      Follows (run FwIsoIrSingle.exec ⟨⟨.new, []⟩, []⟩ ms).state) ∧
    ∀ ms : List (Move FwIsoIrMultiple.Op),
      Follows (run FwIsoIrMultiple.exec ⟨⟨.new, []⟩, []⟩ ms).state :=
  ⟨FwIsoIt.follows_of_run, FwIsoIrSingle.follows_of_run, FwIsoIrMultiple.follows_of_run⟩

end Hinoko
