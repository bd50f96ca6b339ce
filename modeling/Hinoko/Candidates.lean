import Hinoko.Lib.Mask
import Hinoko.ResourceAuto
import Hinoko.ResourceOnce

/-!
# The mask of the candidates

Both kinds of resource ask the kernel for one of several channels: they gather the candidates in a
mask, and leave out those from 64 on.  What is left may be nothing, and an empty mask asks for
bandwidth without a channel.

* `has_candidateMask`: the mask tells which candidates below 64 there are, and no more.
* `masked_iff`: when a request names a channel.
-/

namespace Hinoko

open Mask

/-! ### The mask -/

/-- **The positions of the mask** are the candidates below 64. -/
theorem has_candidateMask {candidates : List UInt8} {i : Nat} :
    Has (candidateMask candidates) i ↔
      ∃ channel ∈ candidates, channel < 64 ∧ channel.toNat = i := by
  have hstep : ∀ (m : UInt64) (channel : UInt8) (i : Nat),
      Has (if channel < 64 then m ||| (1 : UInt64) <<< channel.toUInt64 else m) i ↔
        Has m i ∨ channel < 64 ∧ channel.toNat = i := by
    intro m channel i
    split
    next hlt =>
      have hbound : channel.toUInt64.toNat < 64 := by
        rw [UInt8.toNat_toUInt64]
        exact UInt8.lt_iff_toNat_lt.mp hlt
      rw [has_or, has_single hbound, UInt8.toNat_toUInt64, eq_comm, and_iff_right hlt]
    next hge => exact (or_iff_left fun h => hge h.1).symm
  rw [candidateMask, has_foldl candidates fun channel _ m i => hstep m channel i,
    or_iff_right not_has_zero]

theorem candidateMask_congr {candidates candidates' : List UInt8}
    (h : ∀ channel < 64, channel ∈ candidates ↔ channel ∈ candidates') :
    candidateMask candidates = candidateMask candidates' := by
  refine ext fun i => ?_
  rw [has_candidateMask, has_candidateMask]
  constructor
  · rintro ⟨channel, hmem, hlt, hi⟩
    exact ⟨channel, (h channel hlt).mp hmem, hlt, hi⟩
  · rintro ⟨channel, hmem, hlt, hi⟩
    exact ⟨channel, (h channel hlt).mpr hmem, hlt, hi⟩

theorem candidateMask_ne_zero_iff {candidates : List UInt8} :
    candidateMask candidates ≠ 0 ↔ ∃ channel ∈ candidates, channel < 64 := by
  rw [Ne, eq_zero_iff]
  simp only [has_candidateMask]
  constructor
  · intro h
    obtain ⟨_, hi⟩ := not_forall_not.mp h
    obtain ⟨channel, hmem, hlt, _⟩ := hi
    exact ⟨channel, hmem, hlt⟩
  · rintro ⟨channel, hmem, hlt⟩ h
    exact h channel.toNat ⟨channel, hmem, hlt, rfl⟩

/-! ### Requests -/

/-- A call for one of the candidates: a request of it names a channel, and just the candidates below
64; without such a candidate the call is refused. -/
structure Masked {σ : Type} (candidates : List UInt8) (o : ResourceOut σ) : Prop where
  sent : ∀ request channels bandwidth, .request request channels bandwidth ∈ o.effects →
    channels ≠ 0 ∧ ∀ i, Has channels i ↔ ∃ channel ∈ candidates, channel < 64 ∧ channel.toNat = i
  refused : (∀ channel ∈ candidates, ¬ channel < 64) → o.ret = .returned false ∧
    ∀ request channels bandwidth, .request request channels bandwidth ∉ o.effects

/-- The call makes its request where `issues` holds, and is refused elsewhere. -/
structure Asks {σ : Type} (issues : Prop) (candidates : List UInt8) (o : ResourceOut σ) : Prop where
  made : issues →
    ∃ request bandwidth, o.effects = [.request request (candidateMask candidates) bandwidth]
  refused : ¬ issues → o.ret = .returned false ∧ o.effects = []

namespace Asks

variable {σ : Type} {issues : Prop} {candidates : List UInt8} {o : ResourceOut σ}

theorem mask (h : Asks issues candidates o) {request : ResourceRequest} {channels : UInt64}
    {bandwidth : UInt32} (hmem : .request request channels bandwidth ∈ o.effects) :
    channels = candidateMask candidates := by
  by_cases hissues : issues
  · obtain ⟨request', bandwidth', heffects⟩ := h.made hissues
    rw [heffects, List.mem_singleton] at hmem
    exact (ResourceEffect.request.inj hmem).2.1
  · rw [(h.refused hissues).2] at hmem
    cases hmem

/-- **When a request names a channel**: when one of the candidates is below 64. -/
theorem masked_iff_or (h : Asks issues candidates o) :
    Masked candidates o ↔ (∃ channel ∈ candidates, channel < 64) ∨ ¬ issues := by
  by_cases hissues : issues
  · obtain ⟨request, bandwidth, heffects⟩ := h.made hissues
    rw [or_iff_left (not_not.mpr hissues)]
    refine ⟨fun hmasked => ?_, fun hsome => ⟨fun request' channels bandwidth' hmem => ?_, ?_⟩⟩
    · refine candidateMask_ne_zero_iff.mp (hmasked.sent request _ bandwidth ?_).1
      rw [heffects]
      exact List.mem_singleton_self _
    · rw [h.mask hmem]
      exact ⟨candidateMask_ne_zero_iff.mpr hsome, fun i => has_candidateMask⟩
    · intro hnone
      obtain ⟨channel, hchannel, hlt⟩ := hsome
      exact absurd hlt (hnone channel hchannel)
  · obtain ⟨hret, heffects⟩ := h.refused hissues
    have hnone : ∀ request channels bandwidth,
        .request request channels bandwidth ∉ o.effects := by
      rw [heffects]
      exact fun _ _ _ => List.not_mem_nil
    refine iff_of_true ⟨fun request channels bandwidth hmem => ?_, fun _ => ⟨hret, hnone⟩⟩
      (.inr hissues)
    exact absurd hmem (hnone request channels bandwidth)

theorem ite {p : Prop} [Decidable p] {o' : ResourceOut σ} (hp : issues → ¬ p)
    (ho : o.ret = .returned false ∧ o.effects = []) (h : ¬ p → Asks issues candidates o') :
    Asks issues candidates (if p then o else o') := by
  split
  next hcheck => exact ⟨fun hissues => absurd hcheck (hp hissues), fun _ => ho⟩
  next hcheck => exact h hcheck

end Asks

/-! ### The two kinds -/

def AcceptsCall (candidates : List UInt8) (bandwidth : UInt32) (error : ErrorLocation) : Prop :=
  acceptsCandidates (some candidates) bandwidth ∧ error.admits

/-- `hinoko_fw_iso_resource_allocate` makes checks that its implementation makes again. -/
theorem FwIsoResource.asks_allocateResource {π : Type} [FwIsoResource π] {p : π} {issues : Prop}
    {candidates : List UInt8} {bandwidth : UInt32} {answer : Except Nat UInt32}
    {error : ErrorLocation} (hissues : issues → AcceptsCall candidates bandwidth error)
    (h : Asks issues candidates (allocate p (some candidates) bandwidth answer error)) :
    Asks issues candidates (allocateResource p (some candidates) bandwidth answer error) := by
  rw [allocateResource]
  refine .ite (fun hi => not_not.mpr (hissues hi).1) ⟨rfl, rfl⟩ fun _ => ?_
  exact .ite (fun hi => not_not.mpr (hissues hi).2) ⟨rfl, rfl⟩ fun _ => h

structure FwIsoResourceAuto.Issues (it : FwIsoResourceAuto) (candidates : List UInt8)
    (bandwidth : UInt32) (error : ErrorLocation) : Prop where
  accepts : AcceptsCall candidates bandwidth error
  opened : 0 ≤ it.state.fd
  free : it.isAllocated = false

theorem FwIsoResourceAuto.asks (self : FwIsoResourceAuto) (candidates : List UInt8)
    (bandwidth : UInt32) (answer : Except Nat UInt32) (error : ErrorLocation) :
    Asks (self.Issues candidates bandwidth error) candidates
      (FwIsoResource.allocateResource self (some candidates) bandwidth answer error) := by
  refine FwIsoResource.asks_allocateResource Issues.accepts ?_
  show Asks _ candidates (self.allocate (some candidates) bandwidth answer error)
  rw [allocate]
  refine .ite (fun h => not_not.mpr h.accepts.1) ⟨rfl, rfl⟩ fun hcandidates => ?_
  refine .ite (fun h => not_not.mpr h.accepts.2) ⟨rfl, rfl⟩ fun herror => ?_
  refine .ite (fun h => not_lt.mpr h.opened) ⟨rfl, rfl⟩ fun hopened => ?_
  refine .ite (fun h => Bool.eq_false_iff.mp h.free) ⟨rfl, rfl⟩ fun hfree => ?_
  have hissues : self.Issues candidates bandwidth error :=
    ⟨⟨not_not.mp hcandidates, not_not.mp herror⟩, not_lt.mp hopened, Bool.eq_false_iff.mpr hfree⟩
  exact ⟨fun _ => ⟨.allocateIsoResource, bandwidth, by cases answer <;> rfl⟩,
    fun h => absurd hissues h⟩

structure FwIsoResourceOnce.Issues (it : FwIsoResourceOnce) (candidates : List UInt8)
    (bandwidth : UInt32) (error : ErrorLocation) : Prop where
  accepts : AcceptsCall candidates bandwidth error
  opened : 0 ≤ it.state.fd

theorem FwIsoResourceOnce.asks (self : FwIsoResourceOnce) (candidates : List UInt8)
    (bandwidth : UInt32) (answer : Except Nat UInt32) (error : ErrorLocation) :
    Asks (self.Issues candidates bandwidth error) candidates
      (FwIsoResource.allocateResource self (some candidates) bandwidth answer error) := by
  refine FwIsoResource.asks_allocateResource Issues.accepts ?_
  show Asks _ candidates (self.allocate (some candidates) bandwidth answer error)
  rw [allocate]
  refine .ite (fun h => not_not.mpr h.accepts.1) ⟨rfl, rfl⟩ fun hcandidates => ?_
  refine .ite (fun h => not_not.mpr h.accepts.2) ⟨rfl, rfl⟩ fun herror => ?_
  refine .ite (fun h => not_lt.mpr h.opened) ⟨rfl, rfl⟩ fun hopened => ?_
  have hissues : self.Issues candidates bandwidth error :=
    ⟨⟨not_not.mp hcandidates, not_not.mp herror⟩, not_lt.mp hopened⟩
  exact ⟨fun _ => ⟨.allocateIsoResourceOnce, bandwidth, by cases answer <;> rfl⟩,
    fun h => absurd hissues h⟩

/-- A call of one of the two kinds for one of the candidates sends this mask. -/
inductive Sends (candidates : List UInt8) (channels : UInt64) : Prop where
  | auto (self : FwIsoResourceAuto) (bandwidth : UInt32) (answer : Except Nat UInt32)
      (error : ErrorLocation) (request : ResourceRequest) (bandwidth' : UInt32)
      (h : .request request channels bandwidth' ∈ (FwIsoResource.allocateResource self
        (some candidates) bandwidth answer error).effects)
  | once (self : FwIsoResourceOnce) (bandwidth : UInt32) (answer : Except Nat UInt32)
      (error : ErrorLocation) (request : ResourceRequest) (bandwidth' : UInt32)
      (h : .request request channels bandwidth' ∈ (FwIsoResource.allocateResource self
        (some candidates) bandwidth answer error).effects)

theorem Sends.eq {candidates : List UInt8} {channels : UInt64} (h : Sends candidates channels) :
    channels = candidateMask candidates := by
  cases h with
  | auto self bandwidth answer error _ _ h =>
    exact (self.asks candidates bandwidth answer error).mask h
  | once self bandwidth answer error _ _ h =>
    exact (self.asks candidates bandwidth answer error).mask h

/-- **The mask that is sent**: it names a channel exactly where one of the candidates is below 64 or
no request is made, and both kinds send the same for the same candidates, whatever their order and
however often they come. -/
theorem masked_iff (candidates : List UInt8) :
    (∀ (self : FwIsoResourceAuto) bandwidth answer error,
      Masked candidates (FwIsoResource.allocateResource self (some candidates) bandwidth answer
        error) ↔ (∃ channel ∈ candidates, channel < 64) ∨
          ¬ self.Issues candidates bandwidth error) ∧
    (∀ (self : FwIsoResourceOnce) bandwidth answer error,
      Masked candidates (FwIsoResource.allocateResource self (some candidates) bandwidth answer
        error) ↔ (∃ channel ∈ candidates, channel < 64) ∨
          ¬ self.Issues candidates bandwidth error) ∧
    ∀ candidates' channels channels', (∀ c < 64, c ∈ candidates ↔ c ∈ candidates') →
      Sends candidates channels → Sends candidates' channels' → channels = channels' := by
  refine ⟨fun self bandwidth answer error =>
      (self.asks candidates bandwidth answer error).masked_iff_or,
    fun self bandwidth answer error => (self.asks candidates bandwidth answer error).masked_iff_or,
    fun candidates' channels channels' hsame h h' => ?_⟩
  rw [h.eq, h'.eq]
  exact candidateMask_congr hsame

def openedAuto : FwIsoResourceAuto := { state := { fd := 3 } }

/-- **A list without a valid channel is not refused**: the request is made with an empty mask. -/
theorem masked_fails :
    let o := FwIsoResource.allocateResource openedAuto (some [64, 200]) 100 (.ok 1) (.at none)
    o.ret = .returned true ∧ o.effects = [.request .allocateIsoResource 0 100] ∧
      ¬ Masked [64, 200] o := by
  have hnone : ∀ channel ∈ ([64, 200] : List UInt8), ¬ channel < 64 := by simp
  refine ⟨by decide, by decide, fun h => ?_⟩
  exact absurd (h.refused hnone).1 (by decide)

/-- The theorem at candidates in two orders, one of them with repetitions. -/
theorem masked_twoOrders :
    Masked [5, 64, 3] (FwIsoResource.allocateResource openedAuto (some [5, 64, 3]) 100 (.ok 1)
      (.at none)) ∧ ∀ channels, Sends [3, 3, 5] channels → channels = 40 := by
  obtain ⟨hauto, _, hsame⟩ := masked_iff [5, 64, 3]
  have hchannels : ∀ c : UInt8, c < 64 → (c ∈ ([5, 64, 3] : List UInt8) ↔ c ∈ [3, 3, 5]) := by
    intro c hc
    simp only [List.mem_cons, List.not_mem_nil, or_false, or_self_left]
    constructor
    · rintro (rfl | rfl | rfl)
      · exact .inr rfl
      · exact absurd hc (by decide)
      · exact .inl rfl
    · rintro (rfl | rfl)
      · exact .inr (.inr rfl)
      · exact .inl rfl
  exact ⟨(hauto openedAuto 100 (.ok 1) (.at none)).mpr (.inl ⟨5, by decide, by decide⟩),
    fun channels h => (hsame [3, 3, 5] 40 channels hchannels
      (.auto openedAuto 100 (.ok 1) (.at none) .allocateIsoResource 100 (by decide)) h).symm⟩

end Hinoko
