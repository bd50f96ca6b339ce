import Hinoko.Lib.Mask
import Hinoko.Lifecycle

/-!
# The channels of a multiple-channel context

`hinoko_fw_iso_ir_multiple_allocate` gathers the channels in a mask, asks the kernel for them, and
makes a list of those that the kernel gives.

* `has_channelMask`: the mask that is asked for has exactly the channels of the list.
* `lists_channelsOfMask`: the list of a mask, on a little-endian host.
* `listens_iff`: when the call does what it is to do.
-/

namespace Hinoko

open Reentrant Mask

/-! ### Lists and masks -/

namespace FwIsoIrMultiple

/-- The channels of the mask, each once and in order. -/
structure Lists (mask : UInt64) (channels : List UInt8) : Prop where
  increase : channels.Pairwise (· < ·)
  mem : ∀ channel, channel ∈ channels ↔ Has mask channel.toNat

/-- **The mask of a list** has exactly the channels of the list. -/
theorem has_channelMask {channels : List UInt8} (h : ∀ channel ∈ channels, ¬ 63 < channel)
    {i : Nat} : Has (channelMask channels) i ↔ ∃ channel ∈ channels, channel.toNat = i := by
  have hstep : ∀ channel ∈ channels, ∀ (m : UInt64) (i : Nat),
      Has (m ||| (1 : UInt64) <<< channel.toUInt64) i ↔ Has m i ∨ channel.toNat = i := by
    intro channel hmem m i
    have hbound : channel.toUInt64.toNat < 64 := by
      have h63 : (63 : UInt8).toNat = 63 := rfl
      have hle := h channel hmem
      rw [UInt8.lt_iff_toNat_lt] at hle
      rw [UInt8.toNat_toUInt64]
      omega
    rw [has_or, has_single hbound, UInt8.toNat_toUInt64, eq_comm]
  rw [channelMask, has_foldl channels hstep, or_iff_right not_has_zero]

theorem channelsOfMask_eq (bigEndian : Bool) (mask : UInt64) : channelsOfMask bigEndian mask =
    (positions mask).map fun i => if bigEndian then 0 else UInt8.ofNat i := by
  rw [channelsOfMask, positions, ← List.filterMap_eq_filter, List.map_filterMap]
  refine List.filterMap_congr fun i hi => ?_
  have htest := has_iff_and (m := mask) (List.mem_range.mp hi)
  by_cases hhas : Has mask i
  · rw [if_pos (htest.mp hhas), Option.guard, if_pos (decide_eq_true hhas), Option.map_some]
  · rw [if_neg (mt htest.mpr hhas), Option.guard, if_neg (by simpa using hhas), Option.map_none]

/-- **On a little-endian host the list is that of the mask.** -/
theorem lists_channelsOfMask (mask : UInt64) : Lists mask (channelsOfMask false mask) := by
  have hnat : ∀ {i : Nat}, Has mask i → (UInt8.ofNat i).toNat = i := fun h => by
    rw [UInt8.toNat_ofNat', Nat.mod_eq_of_lt (h.lt.trans (by decide))]
  rw [channelsOfMask_eq]
  simp only [Bool.false_eq_true, if_false]
  refine ⟨?_, fun channel => ?_⟩
  · rw [List.pairwise_map]
    refine positions_increase.imp_of_mem fun hi hj hlt => ?_
    rw [UInt8.lt_iff_toNat_lt, hnat (mem_positions.mp hi), hnat (mem_positions.mp hj)]
    exact hlt
  · rw [List.mem_map]
    constructor
    · rintro ⟨i, hi, rfl⟩
      rw [hnat (mem_positions.mp hi)]
      exact mem_positions.mp hi
    · intro h
      exact ⟨channel.toNat, mem_positions.mpr h, UInt8.ofNat_toNat⟩

/-- On a big-endian host every entry is 0, which is right for channel 0 alone. -/
theorem lists_channelsOfMask_bigEndian_iff {mask : UInt64} :
    Lists mask (channelsOfMask true mask) ↔ mask = 0 ∨ mask = 1 := by
  constructor
  · intro h
    have hzero : ∀ i, Has mask i → i = 0 := by
      intro i hi
      have hmem : UInt8.ofNat i ∈ channelsOfMask true mask := by
        refine (h.mem _).mpr ?_
        rwa [UInt8.toNat_ofNat', Nat.mod_eq_of_lt (hi.lt.trans (by decide))]
      rw [channelsOfMask_eq, List.mem_map] at hmem
      obtain ⟨_, _, heq⟩ := hmem
      have hnat := congrArg UInt8.toNat heq
      rw [if_pos rfl, UInt8.toNat_ofNat', Nat.mod_eq_of_lt (hi.lt.trans (by decide))] at hnat
      exact hnat.symm
    have hone : ∀ i, Has 1 i ↔ i = 0 := fun i => has_single (k := 0) (by decide)
    by_cases h0 : Has mask 0
    · refine .inr (ext fun i => ?_)
      rw [hone]
      refine ⟨hzero i, ?_⟩
      rintro rfl
      exact h0
    · refine .inl (eq_zero_iff.mpr fun i hi => h0 ?_)
      rwa [hzero i hi] at hi
  · rintro (rfl | rfl)
    · have hnil : channelsOfMask true 0 = [] := by decide
      rw [hnil]
      exact ⟨.nil, fun channel => iff_of_false List.not_mem_nil not_has_zero⟩
    · have hsame : channelsOfMask true 1 = channelsOfMask false 1 := by decide
      rw [hsame]
      exact lists_channelsOfMask 1

/-! ### The call -/

/-- The context can be opened and created: the path is one, the object has no context, and the
kernel grants it. -/
structure Granted (it : FwIsoIrMultiple) (path : Option String) (env : AllocateEnv) : Prop where
  path : path ≠ none ∧ path ≠ some ""
  free : it.state.fd < 0
  opened : ∃ fd, env.openResult = .ok fd
  info : env.getInfo = none
  created : ∃ handle, env.createIsoContext = .ok handle

def masksOf (es : List Effect) : List UInt64 :=
  es.filterMap fun
    | .setIsoChannels channels => some channels
    | _ => none

structure Released (it : FwIsoIrMultiple) : Prop where
  fd : it.state.fd = -1
  addr : it.state.addr = .null
  channels : it.channels = none

/-- **What allocating a context is to do**: a channel above 63 is refused at once; the kernel is
asked for the channels of the list, and once, unless a handler asks for others; after a success the
property lists the channels that it gave; and where it gave none the context is released again. -/
structure Listens (path : Option String) (channels : List UInt8) (env : AllocateEnv)
    (set : Except Nat UInt64) (bigEndian : Bool) (c : Ctx FwIsoIrMultiple) : Prop where
  refused : (∃ channel ∈ channels, 63 < channel) →
    allocate path channels env set bigEndian c = .done .rejected c
  requested : (∀ channel ∈ channels, ¬ 63 < channel) → c.priv.Granted path env →
    ∃ mask, (∀ i, Has mask i ↔ ∃ channel ∈ channels, channel.toNat = i) ∧
      (allocate path channels env set bigEndian c).Keeps
        (fun s => masksOf s.effects = masksOf c.effects ++ [mask])
        fun _ s => masksOf s.effects = masksOf c.effects ++ [mask]
  listed : (allocate path channels env set bigEndian c).Keeps (fun _ => True) fun ret s =>
    ret = .success → ∃ mask list, set = .ok mask ∧ s.priv.channels = some list ∧ Lists mask list
  empty : (∀ channel ∈ channels, ¬ 63 < channel) → c.priv.Granted path env → set = .ok 0 →
    (allocate path channels env set bigEndian c).Keeps (fun _ => True) fun ret s =>
      ret = .failure (.coded .noIsocChannel) ∧ s.priv.Released

section Call

variable {path : Option String} {channels : List UInt8} {env : AllocateEnv}
  {set : Except Nat UInt64} {bigEndian : Bool} {c : Ctx FwIsoIrMultiple}

theorem allocateState_success_iff {self : FwIsoIrMultiple} :
    (allocateState path env self).ret = .success ↔ self.Granted path env := by
  rw [allocateState, Out.map_ret, FwIsoCtxState.allocate]
  split
  next hpath =>
    refine iff_of_false (Ret.IsFalse.ne_success trivial) fun h => ?_
    rcases hpath with hpath | hpath
    · exact h.path.1 hpath
    · exact h.path.2 hpath
  next hpath =>
  rw [if_neg (by decide), if_neg (by decide), if_neg (by decide), if_neg (by decide),
    if_neg (by decide)]
  split
  next hfd =>
    exact iff_of_false (Ret.IsFalse.ne_success trivial) fun h => absurd h.free (not_lt.mpr hfd)
  next hfd =>
    obtain ⟨openResult, getInfo, createIsoContext⟩ := env
    cases openResult with
    | error e =>
      obtain ⟨errno, known⟩ := e
      refine iff_of_false (Ret.IsFalse.ne_success ?_) fun h => ?_
      · cases known <;> exact trivial
      obtain ⟨fd, hopened⟩ := h.opened
      cases hopened
    | ok fd =>
      cases getInfo with
      | some errno =>
        exact iff_of_false (Ret.IsFalse.ne_success trivial) fun h =>
          absurd h.info (Option.some_ne_none errno)
      | none =>
        cases createIsoContext with
        | error errno =>
          refine iff_of_false (Ret.IsFalse.ne_success trivial) fun h => ?_
          obtain ⟨handle, hcreated⟩ := h.created
          cases hcreated
        | ok handle =>
          exact iff_of_true rfl ⟨not_or.mp hpath, not_le.mp hfd, ⟨fd, rfl⟩, rfl, handle, rfl⟩

def asked (path : Option String) (channels : List UInt8) (env : AllocateEnv)
    (c : Ctx FwIsoIrMultiple) : Ctx FwIsoIrMultiple :=
  (c.after (allocateState path env c.priv)).note (.setIsoChannels (channelMask channels))

theorem not_any_above (h : ∀ channel ∈ channels, ¬ 63 < channel) :
    ¬ channels.any (63 < ·) = true := by
  rw [List.any_eq_true]
  rintro ⟨channel, hmem, hlt⟩
  exact h channel hmem (of_decide_eq_true hlt)

theorem allocate_of_above (h : ∃ channel ∈ channels, 63 < channel) :
    allocate path channels env set bigEndian c = .done .rejected c := by
  obtain ⟨channel, hmem, hlt⟩ := h
  have hany : channels.any (63 < ·) = true :=
    List.any_eq_true.mpr ⟨channel, hmem, decide_eq_true hlt⟩
  rw [allocate, if_neg (List.ne_nil_of_mem hmem), if_pos hany]

theorem allocate_of_granted (hne : channels ≠ []) (hchannels : ∀ channel ∈ channels, ¬ 63 < channel)
    (hgranted : c.priv.Granted path env) :
    allocate path channels env set bigEndian c =
      match set with
      | .error errno => (asked path channels env c).release.bind fun _ c =>
          .done (.failure (.ioctl .setIsoChannels errno)) c
      | .ok mask =>
        if mask = 0 then (asked path channels env c).release.bind fun _ c =>
          .done (.failure (.coded .noIsocChannel)) c
        else .done .success { asked path channels env c with
          priv := { (asked path channels env c).priv with
            channels := some (channelsOfMask bigEndian mask) } } := by
  have hret : (allocateState path env c.priv).ret = .success :=
    allocateState_success_iff.mpr hgranted
  rw [allocate, if_neg hne, if_neg (not_any_above hchannels)]
  show ((c.perform (allocateState path env)).bind _) = _
  rw [Ctx.perform, Act.bind, hret]
  rfl

theorem allocate_of_not_granted (hne : channels ≠ [])
    (hchannels : ∀ channel ∈ channels, ¬ 63 < channel) (hgranted : ¬ c.priv.Granted path env) :
    ∃ ret s, allocate path channels env set bigEndian c = .done ret s ∧ ret ≠ .success := by
  have hret : (allocateState path env c.priv).ret ≠ .success :=
    mt allocateState_success_iff.mp hgranted
  rw [allocate, if_neg hne, if_neg (not_any_above hchannels)]
  refine ⟨(allocateState path env c.priv).ret, c.after (allocateState path env c.priv), ?_, hret⟩
  show ((c.perform (allocateState path env)).bind _) = _
  rw [Ctx.perform, Act.bind]
  cases hcase : (allocateState path env c.priv).ret with
  | success => exact absurd hcase hret
  | failure error => rfl
  | rejected => rfl
  | crashed fault => rfl

/-! ### The masks that are asked for -/

theorem masksOf_append (es es' : List Effect) : masksOf (es ++ es') = masksOf es ++ masksOf es' :=
  List.filterMap_append ..

theorem masksOf_of_none {es : List Effect} (h : ∀ e ∈ es, ∀ mask, e ≠ .setIsoChannels mask) :
    masksOf es = [] := by
  refine List.filterMap_eq_nil_iff.mpr fun e he => ?_
  cases e with
  | setIsoChannels mask => exact absurd rfl (h _ he mask)
  | _ => rfl

theorem masksOf_stop (st : FwIsoCtxState) : masksOf st.stop.effects = [] :=
  masksOf_of_none fun e he mask => by
    rw [st.stop_effects e he]
    rintro ⟨⟩

theorem masksOf_unmapBuffer (st : FwIsoCtxState) : masksOf st.unmapBuffer.effects = [] :=
  masksOf_of_none fun e he mask => by
    rw [st.unmapBuffer_effects e he]
    rintro ⟨⟩

theorem masksOf_release (st : FwIsoCtxState) : masksOf st.release.effects = [] :=
  masksOf_of_none fun e he mask => by
    rw [st.release_effects e he]
    rintro ⟨⟩

theorem masksOf_allocateState (self : FwIsoIrMultiple) :
    masksOf (allocateState path env self).effects = [] :=
  masksOf_of_none fun e he mask => by
    rintro rfl
    exact self.state.allocate_effects path .irMultiple 0 0 0 env _ he

theorem masksOf_asked :
    masksOf (asked path channels env c).effects = masksOf c.effects ++ [channelMask channels] := by
  rw [asked, Ctx.note_effects, Ctx.after_effects, masksOf_append, masksOf_append,
    masksOf_allocateState, List.append_nil]
  rfl

theorem masksOf_after {c : Ctx FwIsoIrMultiple} {o : Out FwIsoIrMultiple} {masks : List UInt64}
    (h : masksOf c.effects = masks) (ho : masksOf o.effects = []) :
    masksOf (c.after o).effects = masks := by
  rw [Ctx.after_effects, masksOf_append, ho, List.append_nil, h]

theorem release_keeps_masks {c : Ctx FwIsoIrMultiple} {masks : List UInt64}
    (h : masksOf c.effects = masks) :
    c.release.Keeps (fun s => masksOf s.effects = masks) fun _ s => masksOf s.effects = masks := by
  refine Ctx.release_keeps (I := fun s => masksOf s.effects = masks)
    (Q := fun s => masksOf s.effects = masks) (R := fun s => masksOf s.effects = masks)
    (fun c hc => masksOf_after hc (masksOf_stop c.priv.state)) (fun c hc => ?_)
    (fun c hc => masksOf_after hc (masksOf_unmapBuffer c.priv.state))
    (fun c hc => masksOf_after hc (masksOf_release c.priv.state)) h
  rw [Ctx.note_effects, masksOf_append, hc]
  exact List.append_nil _

theorem release_keeps_released (c : Ctx FwIsoIrMultiple) :
    c.release.Keeps (fun _ => True) fun _ s => s.priv.Released :=
  Ctx.release_keeps (I := fun _ => True)
    (Q := fun s : Ctx FwIsoIrMultiple => s.priv.state.addr = .null)
    (R := fun s : Ctx FwIsoIrMultiple => s.priv.Released) (fun _ _ => trivial)
    (fun _ _ => trivial) (fun _ _ => rfl) (fun _ haddr => ⟨rfl, haddr, rfl⟩) trivial

/-- A call whose request fails, or gives nothing, ends with a release. -/
theorem release_bind_keeps {c : Ctx FwIsoIrMultiple} {ret : Ret} {I Q : Ctx FwIsoIrMultiple → Prop}
    {R : Ret → Ctx FwIsoIrMultiple → Prop} (h : c.release.Keeps I fun _ => Q)
    (hR : ∀ s, Q s → R ret s) : (c.release.bind fun _ c => .done ret c).Keeps I R := by
  refine Act.Keeps.bind (fun _ s hs => ?_) h
  exact hR s hs

theorem requested_of_granted (hne : channels ≠ [])
    (hchannels : ∀ channel ∈ channels, ¬ 63 < channel) (hgranted : c.priv.Granted path env) :
    (allocate path channels env set bigEndian c).Keeps
      (fun s => masksOf s.effects = masksOf c.effects ++ [channelMask channels])
      fun _ s => masksOf s.effects = masksOf c.effects ++ [channelMask channels] := by
  rw [allocate_of_granted hne hchannels hgranted]
  cases set with
  | error errno => exact release_bind_keeps (release_keeps_masks masksOf_asked) fun _ hs => hs
  | ok mask =>
    show (if mask = 0 then _ else _ : Act _ Ret).Keeps _ _
    split
    · exact release_bind_keeps (release_keeps_masks masksOf_asked) fun _ hs => hs
    · show masksOf (asked path channels env c).effects = _
      exact masksOf_asked

theorem empty_of_granted (hne : channels ≠ []) (hchannels : ∀ channel ∈ channels, ¬ 63 < channel)
    (hgranted : c.priv.Granted path env) :
    (allocate path channels env (.ok 0) bigEndian c).Keeps (fun _ => True) fun ret s =>
      ret = .failure (.coded .noIsocChannel) ∧ s.priv.Released := by
  rw [allocate_of_granted hne hchannels hgranted]
  exact release_bind_keeps (release_keeps_released _) fun _ hs => ⟨rfl, hs⟩

/-- Where the list comes from a mask that names a channel, it is right on a little-endian host, and
for channel 0 alone. -/
theorem listed_of_granted (hne : channels ≠ []) (hchannels : ∀ channel ∈ channels, ¬ 63 < channel)
    (hgranted : c.priv.Granted path env) :
    ((allocate path channels env set bigEndian c).Keeps (fun _ => True) fun ret s =>
      ret = .success → ∃ mask list, set = .ok mask ∧ s.priv.channels = some list ∧
        Lists mask list) ↔ bigEndian = false ∨ ∀ mask, set = .ok mask → mask = 0 ∨ mask = 1 := by
  rw [allocate_of_granted hne hchannels hgranted]
  cases set with
  | error errno =>
    refine iff_of_true (release_bind_keeps (release_keeps_released _) fun _ _ hret => ?_)
      (.inr fun mask hset => ?_)
    · cases hret
    · cases hset
  | ok mask =>
    by_cases hmask : mask = 0
    · subst hmask
      refine iff_of_true (release_bind_keeps (release_keeps_released _) fun _ _ hret => ?_)
        (.inr fun mask hset => .inl (Except.ok.inj hset).symm)
      cases hret
    · simp only [if_neg hmask]
      have hlisted : (∃ mask' list, Except.ok (ε := Nat) mask = .ok mask' ∧
          some (channelsOfMask bigEndian mask) = some list ∧ Lists mask' list) ↔
            Lists mask (channelsOfMask bigEndian mask) := by
        constructor
        · rintro ⟨_, _, ⟨rfl⟩, ⟨rfl⟩, h⟩
          exact h
        · exact fun h => ⟨mask, _, rfl, rfl, h⟩
      have hone : (∀ mask', Except.ok (ε := Nat) mask = .ok mask' → mask' = 0 ∨ mask' = 1) ↔
          mask = 0 ∨ mask = 1 := by
        constructor
        · exact fun h => h mask rfl
        · rintro h _ ⟨rfl⟩
          exact h
      rw [hone]
      show (Ret.success = .success → _) ↔ _
      rw [forall_prop_of_true rfl, hlisted]
      cases bigEndian with
      | false => exact iff_of_true (lists_channelsOfMask mask) (.inl rfl)
      | true =>
        rw [lists_channelsOfMask_bigEndian_iff]
        exact (or_iff_right (by decide)).symm

/-- **When allocating a context does what it is to do**: always on a little-endian host; on a
big-endian one the property has a 0 for each channel, so that it is right only where there is none
to list but channel 0. -/
theorem listens_iff (hne : channels ≠ []) : Listens path channels env set bigEndian c ↔
    bigEndian = false ∨ (∃ channel ∈ channels, 63 < channel) ∨ ¬ c.priv.Granted path env ∨
      ∀ mask, set = .ok mask → mask = 0 ∨ mask = 1 := by
  by_cases habove : ∃ channel ∈ channels, 63 < channel
  · have hrejected : allocate path channels env set bigEndian c = .done .rejected c :=
      allocate_of_above habove
    have hnone : ¬ ∀ channel ∈ channels, ¬ 63 < channel := by
      intro h
      obtain ⟨channel, hmem, hlt⟩ := habove
      exact h channel hmem hlt
    refine iff_of_true ⟨fun _ => hrejected, fun h => absurd h hnone, ?_, fun h => absurd h hnone⟩
      (.inr (.inl habove))
    rw [hrejected]
    exact fun h => absurd h (Ret.IsFalse.ne_success trivial)
  · have hchannels : ∀ channel ∈ channels, ¬ 63 < channel := fun channel hmem hlt =>
      habove ⟨channel, hmem, hlt⟩
    rw [or_iff_right habove]
    by_cases hgranted : c.priv.Granted path env
    · rw [or_iff_right (not_not.mpr hgranted), ← listed_of_granted hne hchannels hgranted]
      refine ⟨Listens.listed, fun hlisted =>
        ⟨fun h => absurd h habove, fun _ _ => ?_, hlisted, ?_⟩⟩
      · refine ⟨channelMask channels, fun i => has_channelMask hchannels, ?_⟩
        exact requested_of_granted hne hchannels hgranted
      · rintro _ _ rfl
        exact empty_of_granted hne hchannels hgranted
    · refine iff_of_true ⟨fun h => absurd h habove, fun _ h => absurd h hgranted, ?_,
        fun _ h => absurd h hgranted⟩ (.inr (.inl hgranted))
      obtain ⟨ret, s, hdone, hret⟩ : ∃ ret s,
          allocate path channels env set bigEndian c = .done ret s ∧ ret ≠ .success :=
        allocate_of_not_granted hne hchannels hgranted
      rw [hdone]
      exact fun h => absurd h hret

end Call

/-- **A big-endian host lists other channels than the kernel gives**: two times channel 0 in place
of channels 3 and 5. -/
theorem listens_fails : ∃ s,
    allocate (some "/dev/fw0") [3, 5] grantAllocate (.ok 40) true ⟨new, []⟩ = .done .success s ∧
    s.priv.channels = some [0, 0] ∧
    ¬ Listens (some "/dev/fw0") [3, 5] grantAllocate (.ok 40) true ⟨new, []⟩ := by
  refine ⟨_, rfl, by decide, fun h => ?_⟩
  obtain ⟨mask, list, hset, hlist, hlists⟩ := h.listed rfl
  obtain rfl := Except.ok.inj hset
  obtain rfl := Option.some.inj hlist
  exact absurd hlists (mt lists_channelsOfMask_bigEndian_iff.mp (by decide))

/-- The theorem at the same call on a little-endian host. -/
theorem listens_twoChannels :
    Listens (some "/dev/fw0") [3, 5] grantAllocate (.ok 40) false ⟨new, []⟩ ∧
      ¬ Listens (some "/dev/fw0") [3, 5] grantAllocate (.ok 40) true ⟨new, []⟩ := by
  refine ⟨(listens_iff (by decide)).mpr (.inl rfl), fun h => ?_⟩
  have hnone : ¬ ∃ channel ∈ ([3, 5] : List UInt8), 63 < channel := by decide
  have hgranted : new.Granted (some "/dev/fw0") grantAllocate :=
    ⟨by decide, by decide, ⟨3, rfl⟩, rfl, 0, rfl⟩
  rcases (listens_iff (by decide)).mp h with hhost | habove | hrefused | hmask
  · cases hhost
  · exact hnone habove
  · exact hrefused hgranted
  · exact absurd (hmask 40 rfl) (by decide)

end FwIsoIrMultiple

end Hinoko
