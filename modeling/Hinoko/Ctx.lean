import Hinoko.CtxState
import Hinoko.Lib.Reentrant

/-!
# The interface of isochronous contexts

`HinokoFwIsoCtx` and the dispatching of its events.  A kind of context embeds a
`FwIsoCtxState` and gives the functions of the interface that differ between the
kinds; `stop`, `unmapBuffer`, `release` and `dispatch` are built from them once.

`stop` emits the stopped signal, and an event the interrupted signal, so these are
operations that call back (`Lib/Reentrant.lean`).  A `Ctx` carries the object with
everything it did so far, each effect with the object as it was before.
-/

namespace Hinoko

open Reentrant

structure Ctx (π : Type) where
  priv : π
  trace : List (Effect × π) := []

namespace Ctx

variable {π : Type}

def after (c : Ctx π) (o : Out π) : Ctx π :=
  ⟨o.state, c.trace ++ o.effects.map fun e => (e, c.priv)⟩

def note (c : Ctx π) (e : Effect) : Ctx π := ⟨c.priv, c.trace ++ [(e, c.priv)]⟩

def perform (f : π → Out π) (c : Ctx π) : Act (Ctx π) Ret :=
  .done (f c.priv).ret (c.after (f c.priv))

def effects (c : Ctx π) : List Effect := c.trace.map Prod.fst

@[simp] theorem after_priv (c : Ctx π) (o : Out π) : (c.after o).priv = o.state := rfl
@[simp] theorem note_priv (c : Ctx π) (e : Effect) : (c.note e).priv = c.priv := rfl

@[simp] theorem after_effects (c : Ctx π) (o : Out π) :
    (c.after o).effects = c.effects ++ o.effects := by
  simp [effects, after, Function.comp_def]

@[simp] theorem note_effects (c : Ctx π) (e : Effect) : (c.note e).effects = c.effects ++ [e] := by
  simp [effects, note]

end Ctx

/-- What the system has ready when an event is dispatched: the content of the mapped buffer as
the hardware left it, and the answers to the requests to queue. -/
structure EventEnv where
  buffer : ByteMem
  queueIso : Nat → QueueAnswer

/-- What a source finds when it is dispatched. -/
inductive Wakeup where
  | ioErr
  | again
  | readError (errno : Nat)
  | event (ev : CdevEvent) (env : EventEnv)

/-- The virtual functions of `HinokoFwIsoCtxInterface` that differ between the kinds of
context, and the handler that a kind gives to its source. -/
class FwIsoCtx (π : Type) where
  state : π → FwIsoCtxState
  setState : π → FwIsoCtxState → π
  state_setState : ∀ p st, state (setState p st) = st
  unmapBuffer : π → Out π
  release : π → Out π
  handleEvent : CdevEvent → EventEnv → Ctx π → Act (Ctx π) Ret

attribute [simp] FwIsoCtx.state_setState

namespace Ctx

variable {π : Type} [FwIsoCtx π]

def onState (f : FwIsoCtxState → Out FwIsoCtxState) (p : π) : Out π :=
  (f (FwIsoCtx.state p)).map (FwIsoCtx.setState p)

/-- `hinoko_fw_iso_ctx_stop`: every kind stops in the same way, and emits the signal when it was
running. -/
def stop (c : Ctx π) : Act (Ctx π) Ret :=
  let running := (FwIsoCtx.state c.priv).running
  let c := c.after (onState FwIsoCtxState.stop c.priv)
  if (FwIsoCtx.state c.priv).running ≠ running then
    .emit (c.note .stopped) fun c => .done .success c
  else .done .success c

/-- `hinoko_fw_iso_ctx_unmap_buffer`. -/
def unmapBuffer (c : Ctx π) : Act (Ctx π) Ret :=
  c.stop.bind fun _ c => c.perform FwIsoCtx.unmapBuffer

/-- `hinoko_fw_iso_ctx_release`. -/
def release (c : Ctx π) : Act (Ctx π) Ret :=
  c.unmapBuffer.bind fun _ c => c.perform FwIsoCtx.release

/-- `dispatch_src`: an event that is not handled, or cannot be read, stops the context. -/
def dispatch (w : Wakeup) (c : Ctx π) : Act (Ctx π) Ret :=
  match w with
  | .ioErr => .done .success c
  | .again => .done .success c
  | .readError _ => c.stop
  | .event ev env =>
    (FwIsoCtx.handleEvent ev env c).bind fun ret c =>
      match ret with
      | .success => .done .success c
      | .crashed fault => .done (.crashed fault) c
      | _ => c.stop

end Ctx

end Hinoko
