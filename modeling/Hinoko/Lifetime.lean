import Hinoko.Session

/-!
# The life of a context

A context is finalized when nothing refers to it any more.  Whatever has been done with it before,
the system calls of its whole life come in pairs then: each descriptor that was opened has been
closed once, each buffer unmapped once, and each context of the kernel that was stopped has
reported it.

* `balanced_of_run`: the pairs at every point of a run.
* `finalized_of_run`: the pairs at the end of a life.
-/

namespace Hinoko

open Reentrant Protocol

/-! ### Pairs of system calls -/

def Effect.isOpened : Effect → Bool
  | .open (.ok _) => true
  | _ => false

def Effect.isMmap : Effect → Bool
  | .mmap _ _ _ => true
  | _ => false

variable {π : Type} [FwIsoCtx π] {c : Ctx π}

/-- The system calls of a context come in pairs, up to those that are still open. -/
structure Balanced (c : Ctx π) : Prop where
  opened : c.effects.countP Effect.isOpened =
    c.effects.count .close + if 0 ≤ (FwIsoCtx.state c.priv).fd then 1 else 0
  /-- a descriptor that has been opened is asked for its information at once -/
  descriptors : c.effects.count .getInfo =
    c.effects.count .close + if 0 ≤ (FwIsoCtx.state c.priv).fd then 1 else 0
  mappings : c.effects.countP Effect.isMmap =
    c.effects.countP Effect.isMunmap + if (FwIsoCtx.state c.priv).addr = .null then 0 else 1
  signals : c.effects.count .stopIso = c.effects.count .stopped

namespace Session

variable {q : Session} {e : Effect}

theorem admits_of_permits (he : e ≠ .stopped) (h : q.permits e) : q.admits e = true := by
  cases e with
  | stopped => exact absurd rfl he
  | _ =>
    simp only [permits, decide_eq_true_eq] at h
    exact h.2

/-- **Where a descriptor can get to.** -/
theorem stage_cases (h : q.permits e) :
    (∃ fd, e = .open (.ok fd) ∧ q.stage = .closed ∧ (q.next e).stage = .opened fd) ∨
    (∃ fd, e = .getInfo ∧ q.stage = .opened fd ∧ (q.next e).stage = .informed fd) ∨
    (∃ fd handle, e = .createIsoContext (.ok handle) ∧ q.stage = .informed fd ∧
      (q.next e).stage = .created fd handle) ∨
    (e = .close ∧ (q.stage.isInformed = true ∨ q.stage.handle.isSome = true) ∧
      (q.next e).stage = .closed) ∨
    (e.isOpened = false ∧ e ≠ .getInfo ∧ e ≠ .close) ∧ (q.next e).stage = q.stage := by
  cases e with
  | «open» answer =>
    cases answer with
    | error errno => exact .inr (.inr (.inr (.inr ⟨⟨rfl, by rintro ⟨⟩, by rintro ⟨⟩⟩, rfl⟩)))
    | ok fd => exact .inl ⟨fd, rfl, of_decide_eq_true (admits_of_permits (by rintro ⟨⟩) h), rfl⟩
  | getInfo =>
    have hadmits : q.stage.isOpened = true := admits_of_permits (by rintro ⟨⟩) h
    rw [next]
    generalize q.stage = stage at hadmits
    cases stage with
    | opened fd => exact .inr (.inl ⟨fd, rfl, rfl, rfl⟩)
    | _ => cases hadmits
  | createIsoContext answer =>
    have hadmits : q.stage.isInformed = true := admits_of_permits (by rintro ⟨⟩) h
    cases answer with
    | error errno => exact .inr (.inr (.inr (.inr ⟨⟨rfl, by rintro ⟨⟩, by rintro ⟨⟩⟩, rfl⟩)))
    | ok handle =>
      rw [next]
      generalize q.stage = stage at hadmits
      cases stage with
      | informed fd => exact .inr (.inr (.inl ⟨fd, handle, rfl, rfl, rfl⟩))
      | _ => cases hadmits
  | close =>
    have hadmits := admits_of_permits (by rintro ⟨⟩) h
    simp only [admits, decide_eq_true_eq] at hadmits
    exact .inr (.inr (.inr (.inl ⟨rfl, hadmits.1, rfl⟩)))
  | _ => exact .inr (.inr (.inr (.inr ⟨⟨rfl, by rintro ⟨⟩, by rintro ⟨⟩⟩, rfl⟩)))

/-- **What can happen to the mapping.** -/
theorem mapping_cases (h : q.permits e) :
    (e.isMmap = true ∧ e.isMunmap = false ∧ q.mapping = .unmapped ∧
      (q.next e).mapping ≠ .unmapped) ∨
    (e.isMmap = false ∧ e.isMunmap = true ∧ q.mapping ≠ .unmapped ∧
      (q.next e).mapping = .unmapped) ∨
    (e.isMmap = false ∧ e.isMunmap = false) ∧ (q.next e).mapping = q.mapping := by
  cases e with
  | mmap length writable answer =>
    have hadmits := admits_of_permits (by rintro ⟨⟩) h
    simp only [admits, decide_eq_true_eq] at hadmits
    refine .inl ⟨rfl, rfl, hadmits.2, ?_⟩
    cases answer <;> rintro ⟨⟩
  | munmap length =>
    have hadmits : q.unmaps length = true := admits_of_permits (by rintro ⟨⟩) h
    refine .inr (.inl ⟨rfl, rfl, fun hunmapped => ?_, rfl⟩)
    rw [unmaps, hunmapped] at hadmits
    cases hadmits
  | _ => exact .inr (.inr ⟨⟨rfl, rfl⟩, rfl⟩)

/-- **What can happen to the signal that is owed.** -/
theorem owed_cases (h : q.permits e) :
    (e = .stopIso ∧ q.owed = false ∧ (q.next e).owed = true) ∨
    (e = .stopped ∧ q.owed = true ∧ (q.next e).owed = false) ∨
    (e ≠ .stopIso ∧ e ≠ .stopped) ∧ (q.next e).owed = q.owed := by
  cases e with
  | stopIso =>
    simp only [permits, decide_eq_true_eq, Bool.not_eq_true] at h
    exact .inl ⟨rfl, h.1, rfl⟩
  | stopped => exact .inr (.inl ⟨rfl, h, rfl⟩)
  | _ => exact .inr (.inr ⟨⟨by rintro ⟨⟩, by rintro ⟨⟩⟩, rfl⟩)

end Session

namespace Follows

theorem opened (h : Follows c) : c.effects.countP Effect.isOpened =
    c.effects.count .close + if 0 ≤ (FwIsoCtx.state c.priv).fd then 1 else 0 := by
  obtain ⟨q, hfollow, hagrees⟩ := h
  have hcount : _ = c.effects.count .close + _ :=
    count_of_follow (fun q : Session => q.stage ≠ .closed) Effect.isOpened
      (fun e => decide (e = .close)) (fun q e hpermits => by
        rcases Session.stage_cases hpermits with
          ⟨fd, rfl, hstage, hnext⟩ | ⟨fd, rfl, hstage, hnext⟩ | ⟨fd, handle, rfl, hstage, hnext⟩ |
            ⟨rfl, hstage, hnext⟩ | ⟨⟨hg, _, hp⟩, hnext⟩
        · simp [Session.rules, hstage, hnext, Effect.isOpened]
        · simp [Session.rules, hstage, hnext, Effect.isOpened]
        · simp [Session.rules, hstage, hnext, Effect.isOpened]
        · have hopen : q.stage ≠ .closed := by
            rintro hclosed
            simp [hclosed, Stage.isInformed, Stage.handle] at hstage
          simp [Session.rules, hopen, hnext, Effect.isOpened]
        · simp [Session.rules, hg, hp, hnext]) hfollow
  by_cases hfd : 0 ≤ (FwIsoCtx.state c.priv).fd
  · simpa [hfd, hagrees.created hfd] using hcount
  · simpa [hfd, hagrees.closed (by omega)] using hcount

theorem descriptors (h : Follows c) : c.effects.count .getInfo =
    c.effects.count .close + if 0 ≤ (FwIsoCtx.state c.priv).fd then 1 else 0 := by
  obtain ⟨q, hfollow, hagrees⟩ := h
  have hcount : c.effects.count .getInfo + _ = c.effects.count .close + _ :=
    count_of_follow (fun q : Session => q.stage.isInformed ∨ q.stage.handle.isSome)
      (fun e => decide (e = .getInfo)) (fun e => decide (e = .close)) (fun q e hpermits => by
        rcases Session.stage_cases hpermits with
          ⟨fd, rfl, hstage, hnext⟩ | ⟨fd, rfl, hstage, hnext⟩ | ⟨fd, handle, rfl, hstage, hnext⟩ |
            ⟨rfl, hstage, hnext⟩ | ⟨⟨_, hg, hp⟩, hnext⟩
        · simp [Session.rules, hstage, hnext, Stage.isInformed, Stage.handle]
        · simp [Session.rules, hstage, hnext, Stage.isInformed, Stage.handle]
        · simp [Session.rules, hstage, hnext, Stage.isInformed, Stage.handle]
        · have hinformed : Stage.isInformed .closed = false ∧ Stage.handle .closed = none :=
            ⟨rfl, rfl⟩
          simp [Session.rules, hstage, hnext, hinformed]
        · simp [Session.rules, hg, hp, hnext]) hfollow
  by_cases hfd : 0 ≤ (FwIsoCtx.state c.priv).fd
  · simpa [hfd, hagrees.created hfd, Stage.isInformed, Stage.handle] using hcount
  · simpa [hfd, hagrees.closed (by omega), Stage.isInformed, Stage.handle] using hcount

theorem mappings (h : Follows c) : c.effects.countP Effect.isMmap =
    c.effects.countP Effect.isMunmap + if (FwIsoCtx.state c.priv).addr = .null then 0 else 1 := by
  obtain ⟨q, hfollow, hagrees⟩ := h
  have hcount := count_of_follow (fun q : Session => q.mapping ≠ .unmapped) Effect.isMmap
    Effect.isMunmap (fun q e hpermits => by
      rcases Session.mapping_cases hpermits with
        ⟨hg, hp, hbefore, hnext⟩ | ⟨hg, hp, hbefore, hnext⟩ | ⟨⟨hg, hp⟩, hnext⟩
      · simp [Session.rules, hg, hp, hbefore, hnext]
      · simp [Session.rules, hg, hp, hbefore, hnext]
      · simp [Session.rules, hg, hp, hnext]) hfollow
  by_cases haddr : (FwIsoCtx.state c.priv).addr = .null
  · simpa [haddr, hagrees.unmapped.mpr haddr] using hcount
  · have hmapped : q.mapping ≠ .unmapped := fun h => haddr (hagrees.unmapped.mp h)
    simpa [haddr, hmapped] using hcount

theorem signals (h : Follows c) : c.effects.count .stopIso = c.effects.count .stopped := by
  obtain ⟨q, hfollow, hagrees⟩ := h
  have hcount : c.effects.count .stopIso + _ = c.effects.count .stopped + _ :=
    count_of_follow Session.owed (fun e => decide (e = .stopIso)) (fun e => decide (e = .stopped))
      (fun q e hpermits => by
        rcases Session.owed_cases hpermits with
          ⟨rfl, hbefore, hnext⟩ | ⟨rfl, hbefore, hnext⟩ | ⟨⟨hg, hp⟩, hnext⟩
        · simp [Session.rules, hbefore, hnext]
        · simp [Session.rules, hbefore, hnext]
        · simp [Session.rules, hg, hp, hnext]) hfollow
  simpa [hagrees.owed] using hcount

theorem balanced (h : Follows c) : Balanced c :=
  ⟨h.opened, h.descriptors, h.mappings, h.signals⟩

end Follows

/-! ### Finalization -/

/-- `fw_iso_it_finalize`, `fw_iso_ir_single_finalize` and `fw_iso_ir_multiple_finalize` release the
context, when no handler is connected any more. -/
def Ctx.finalize (c : Ctx π) : Ctx π := c.release.inert.2

structure Released (c : Ctx π) : Prop where
  fd : (FwIsoCtx.state c.priv).fd = -1
  addr : (FwIsoCtx.state c.priv).addr = .null
  data : (FwIsoCtx.state c.priv).data = none
  running : (FwIsoCtx.state c.priv).running = false
  opened : c.effects.countP Effect.isOpened = c.effects.count .close
  descriptors : c.effects.count .getInfo = c.effects.count .close
  mappings : c.effects.countP Effect.isMmap = c.effects.countP Effect.isMunmap
  signals : c.effects.count .stopIso = c.effects.count .stopped

def Halted (c : Ctx π) : Prop := Follows c ∧ (FwIsoCtx.state c.priv).running = false

theorem Follows.halts (h : Follows c) : c.stop.Keeps Halted fun _ => Halted := by
  cases hrun : (FwIsoCtx.state c.priv).running with
  | false =>
    rw [Ctx.stop_idle hrun]
    refine ⟨Follows.obeys.advances.idle Conforms.traced hrun h, ?_⟩
    simp only [Ctx.after_priv, Ctx.onState, Out.map_state, FwIsoCtx.state_setState,
      FwIsoCtxState.stop_of_not_running hrun, hrun]
  | true =>
    rw [Ctx.stop_running hrun]
    refine ⟨⟨h.stopped hrun, ?_⟩, fun c' hc' => hc'⟩
    simp only [Ctx.note_priv, Ctx.after_priv, Ctx.onState, Out.map_state,
      FwIsoCtx.state_setState, FwIsoCtxState.stop_of_running hrun]

/-- **Releasing leaves nothing**, when no handler of the stopped signal starts the context again. -/
theorem TakesDown.release_released (d : TakesDown π) (h : Follows c) :
    c.release.Keeps Halted fun _ => Released := by
  have hunmap : c.unmapBuffer.Keeps Halted fun _ c => Halted c ∧
      (FwIsoCtx.state c.priv).addr = .null ∧ (FwIsoCtx.state c.priv).data = none := by
    refine Act.Keeps.bind (Q := fun _ => Halted) (fun _ c hc => ?_) h.halts
    have hstate := d.state_unmapBuffer c.priv
    refine ⟨⟨hc.1.after (d.traced_unmapBuffer Conforms.traced c.priv), ?_⟩, ?_, ?_⟩
    · rw [Ctx.after_priv, hstate]
      exact hc.2
    · rw [Ctx.after_priv, hstate]
      rfl
    · rw [Ctx.after_priv, hstate]
      rfl
  refine Act.Keeps.bind (fun _ c hc => ?_) hunmap
  obtain ⟨⟨hfollows, hrunning⟩, haddr, hdata⟩ := hc
  have hstate := d.state_release c.priv
  have hbalanced := (hfollows.after (d.traced_release Conforms.traced c.priv haddr)).balanced
  have hfd : (FwIsoCtx.state (c.after (FwIsoCtx.release c.priv)).priv).fd = -1 := by
    rw [Ctx.after_priv, hstate]
    rfl
  have haddr' : (FwIsoCtx.state (c.after (FwIsoCtx.release c.priv)).priv).addr = .null := by
    rw [Ctx.after_priv, hstate]
    exact haddr
  refine ⟨hfd, haddr', ?_, ?_, ?_, ?_, ?_, hbalanced.signals⟩
  · rw [Ctx.after_priv, hstate]
    exact hdata
  · rw [Ctx.after_priv, hstate]
    exact hrunning
  · have hopened := hbalanced.opened
    rwa [hfd, if_neg (by decide), Nat.add_zero] at hopened
  · have hdescriptors := hbalanced.descriptors
    rwa [hfd, if_neg (by decide), Nat.add_zero] at hdescriptors
  · have hmappings := hbalanced.mappings
    rwa [haddr', if_pos rfl, Nat.add_zero] at hmappings

theorem TakesDown.finalize_released (d : TakesDown π) (h : Follows c) : Released c.finalize :=
  (d.release_released h).inert

/-- **The system calls come in pairs** at every point of a run, of each kind of context. -/
theorem balanced_of_run :
    (∀ ms : List (Move FwIsoIt.Op), Balanced (run FwIsoIt.exec ⟨⟨.new, []⟩, []⟩ ms).state) ∧
    (∀ ms : List (Move FwIsoIrSingle.Op),
      Balanced (run FwIsoIrSingle.exec ⟨⟨.new, []⟩, []⟩ ms).state) ∧
    ∀ ms : List (Move FwIsoIrMultiple.Op),
      Balanced (run FwIsoIrMultiple.exec ⟨⟨.new, []⟩, []⟩ ms).state := by
  refine ⟨fun ms => ?_, fun ms => ?_, fun ms => ?_⟩
  · exact (FwIsoIt.follows_of_run ms).balanced
  · exact (FwIsoIrSingle.follows_of_run ms).balanced
  · exact (FwIsoIrMultiple.follows_of_run ms).balanced

/-- **Nothing is left at the end of a life**, whatever has been done in it. -/
theorem finalized_of_run :
    (∀ ms : List (Move FwIsoIt.Op),
      Released (run FwIsoIt.exec ⟨⟨.new, []⟩, []⟩ ms).state.finalize) ∧
    (∀ ms : List (Move FwIsoIrSingle.Op),
      Released (run FwIsoIrSingle.exec ⟨⟨.new, []⟩, []⟩ ms).state.finalize) ∧
    ∀ ms : List (Move FwIsoIrMultiple.Op),
      Released (run FwIsoIrMultiple.exec ⟨⟨.new, []⟩, []⟩ ms).state.finalize := by
  refine ⟨fun ms => ?_, fun ms => ?_, fun ms => ?_⟩
  · exact FwIsoIt.takesDown.finalize_released (FwIsoIt.follows_of_run ms)
  · exact FwIsoIrSingle.takesDown.finalize_released (FwIsoIrSingle.follows_of_run ms)
  · exact FwIsoIrMultiple.takesDown.finalize_released (FwIsoIrMultiple.follows_of_run ms)

end Hinoko
