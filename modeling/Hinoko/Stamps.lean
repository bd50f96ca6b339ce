import Hinoko.CycleMatch

/-!
# The time of an event

An event of an IT or a single-channel IR context has a stamp: the second modulo 8 in three bits, and
the cycle in thirteen bits below.  The interrupted signal hands both to the application, which may
start a context with them.

* `cycleWord_stamp`: a start is sent two bits of the second, and the cycle as it is.
* `stamped_of_run`: a start at the time of an event is sent the stamp without its uppermost bit, and
  is not refused for it.
-/

namespace Hinoko

open Reentrant
open FwIsoCtxState (acceptsCycleMatch)

def ohci1394IsocDescTstampToSec (tstamp : UInt32) : UInt32 := (tstamp &&& 0x0000e000) >>> 13

def ohci1394IsocDescTstampToCycle (tstamp : UInt32) : UInt32 := tstamp &&& 0x00001fff

/-- What the interrupted signal of an IT and of a single-channel IR context hands over. -/
structure Interrupted where
  sec : UInt32
  cycle : UInt32
  header : ByteMem
  headerLength : UInt32
  count : UInt32

/-- The arguments of the signal, from `fw_iso_it_handle_event` and `fw_iso_ir_single_handle_event`;
`headerSize` is what each packet has in the header. -/
def IsoInterrupt.interrupted (ev : IsoInterrupt) (headerSize : UInt32) : Interrupted where
  sec := ohci1394IsocDescTstampToSec ev.cycle
  cycle := ohci1394IsocDescTstampToCycle ev.cycle
  header := ev.header
  headerLength := ev.headerLength
  count := ev.headerLength / headerSize

/-- The time of the signal, as a start takes it. -/
def Interrupted.stamp (i : Interrupted) : UInt16 × UInt16 := (i.sec.toUInt16, i.cycle.toUInt16)

theorem toNat_tstampToSec (tstamp : UInt32) :
    (ohci1394IsocDescTstampToSec tstamp).toNat = tstamp.toNat / 2 ^ 13 % 2 ^ 3 := by
  rw [ohci1394IsocDescTstampToSec, UInt32.toNat_shiftRight, UInt32.toNat_and,
    show (13 : UInt32).toNat % 32 = 13 from rfl,
    show (0x0000e000 : UInt32).toNat = (2 ^ 3 - 1) <<< 13 from rfl, Nat.shiftRight_and_distrib,
    Nat.shiftLeft_shiftRight, Nat.and_two_pow_sub_one_eq_mod, Nat.shiftRight_eq_div_pow]

theorem toNat_tstampToCycle (tstamp : UInt32) :
    (ohci1394IsocDescTstampToCycle tstamp).toNat = tstamp.toNat % 2 ^ 13 := by
  rw [ohci1394IsocDescTstampToCycle, UInt32.toNat_and,
    show (0x00001fff : UInt32).toNat = 2 ^ 13 - 1 from rfl, Nat.and_two_pow_sub_one_eq_mod]

section Events

variable (ev : IsoInterrupt) (headerSize : UInt32)

theorem stamp_sec :
    (ev.interrupted headerSize).stamp.1.toNat = ev.cycle.toNat / 2 ^ 13 % 2 ^ 3 := by
  show (ohci1394IsocDescTstampToSec ev.cycle).toUInt16.toNat = _
  rw [UInt32.toNat_toUInt16, toNat_tstampToSec]
  omega

theorem stamp_cycle :
    (ev.interrupted headerSize).stamp.2.toNat = ev.cycle.toNat % 2 ^ 13 := by
  show (ohci1394IsocDescTstampToCycle ev.cycle).toUInt16.toNat = _
  rw [UInt32.toNat_toUInt16, toNat_tstampToCycle]
  omega

/-- **The word for the time of an event** is the stamp without its uppermost bit. -/
theorem cycleWord_stamp :
    (cycleWord (ev.interrupted headerSize).stamp).toNat = ev.cycle.toNat % 2 ^ 15 := by
  rw [cycleWord_toNat, stamp_sec, stamp_cycle]
  omega

/-- A cycle of the bus is accepted, whatever the second. -/
theorem accepts_stamp (hcycle : ev.cycle.toNat % 2 ^ 13 ≤ 7999) :
    acceptsCycleMatch (some (ev.interrupted headerSize).stamp) = true := by
  have h7999 : (ev.interrupted headerSize).stamp.2 ≤ 7999 := by
    rw [UInt16.le_iff_toNat_le, stamp_cycle]
    exact hcycle
  generalize (ev.interrupted headerSize).stamp = pair at h7999 ⊢
  obtain ⟨sec, cycle⟩ := pair
  exact decide_eq_true (.inr h7999)

end Events

/-- A start that is sent the word, and that comes to queueing where `ready` holds. -/
structure StartsAt {σ : Type} (ready : Prop) (word : Nat) (o : Out σ) : Prop where
  sent : ∀ arg accepted, .startIso arg accepted ∈ o.effects → arg.cycle.toNat = word
  queued : ready → (∃ arg packets answer, .queueIso arg packets answer ∈ o.effects) ∨
    ∃ fault, o.ret = .crashed fault

theorem Begins.startsAt {σ : Type} {queues ready : Prop} {ev : IsoInterrupt} {headerSize : UInt32}
    {o : Out σ} (h : Begins queues (ev.interrupted headerSize).stamp o)
    (hready : ready → queues) : StartsAt ready (ev.cycle.toNat % 2 ^ 15) o := by
  refine ⟨fun arg accepted hmem => ?_, fun hr => h.queued (hready hr)⟩
  rw [(h.sent arg accepted hmem).2]
  exact cycleWord_stamp ev headerSize

/-- **A start at the time of an event**, after any run: the request has the stamp of the event
without its uppermost bit, and a cycle that there is on the bus is not refused, not even with a
second above 3. -/
theorem stamped_of_run (its : List (Move FwIsoIt.Op)) (irSingles : List (Move FwIsoIrSingle.Op))
    (irMultiples : List (Move FwIsoIrMultiple.Op)) (ev : IsoInterrupt) (headerSize : UInt32) :
    let it := (run FwIsoIt.exec ⟨⟨.new, []⟩, []⟩ its).state.priv
    let irSingle := (run FwIsoIrSingle.exec ⟨⟨.new, []⟩, []⟩ irSingles).state.priv
    let irMultiple := (run FwIsoIrMultiple.exec ⟨⟨.new, []⟩, []⟩ irMultiples).state.priv
    let stamp := (ev.interrupted headerSize).stamp
    let word := ev.cycle.toNat % 2 ^ 15
    (∀ env, StartsAt (ev.cycle.toNat % 2 ^ 13 ≤ 7999 ∧ it.state.Ready) word
      (it.start (some stamp) env)) ∧
    (∀ syncCode tags env,
      StartsAt (ev.cycle.toNat % 2 ^ 13 ≤ 7999 ∧ syncCode ≤ 15 ∧ tags ≤ 15 ∧ irSingle.state.Ready)
        word (irSingle.start (some stamp) syncCode tags env)) ∧
    ∀ syncCode tags chunksPerIrq env,
      StartsAt (ev.cycle.toNat % 2 ^ 13 ≤ 7999 ∧ syncCode ≤ 15 ∧ tags ≤ 15 ∧
          irMultiple.Ready chunksPerIrq)
        word (irMultiple.start (some stamp) syncCode tags chunksPerIrq env) := by
  refine ⟨fun env => ?_, fun syncCode tags env => ?_, fun syncCode tags chunksPerIrq env => ?_⟩
  · refine (FwIsoIt.begins_start (FwIsoIt.grounded_of_run its) env).startsAt ?_
    exact fun h => ⟨accepts_stamp ev headerSize h.1, h.2⟩
  · refine (FwIsoIrSingle.begins_start (FwIsoIrSingle.grounded_of_run irSingles) syncCode tags
      env).startsAt ?_
    exact fun h => ⟨accepts_stamp ev headerSize h.1, h.2⟩
  · refine (FwIsoIrMultiple.begins_start (FwIsoIrMultiple.grounded_of_run irMultiples) syncCode tags
      chunksPerIrq env).startsAt ?_
    exact fun h => ⟨accepts_stamp ev headerSize h.1, h.2⟩

end Hinoko
