import Hinoko.Lifecycle
import Hinoko.Placement

/-!
# Where chunks of any length are queued

A packet is to lie behind the one before it, or at the start of the buffer where it would
cross the end (`Ring.laid`), and packets that have been gathered are to stay where they
have been gathered.  `fw_iso_ctx_state_queue_chunks` starts the request at 0 when it finds
a packet that does not fit, with the packets before it already in the request.

* `gather_within`: what the inner loop gathers.
* `laidOut_iff`: when all packets lie where they are to lie.
-/

namespace Hinoko

open Reentrant Ring

/-! ### Gathering -/

theorem gather_le {B : UInt32} : ∀ (ps : List IsoPacket) (x len : UInt32),
    ∀ p ∈ (gather B x len ps).batch, p.payloadLength ≤ B.toNat := by
  intro ps
  induction ps with
  | nil => exact fun x len p hp => absurd hp List.not_mem_nil
  | cons q ps ih =>
    intro x len p hp
    have hB := B.toNat_lt
    simp only [gather] at hp
    by_cases hroom : x + len < B
    · rw [if_pos hroom] at hp
      by_cases hbreak : B < x + len + fwCdevIsoPacketControlToPayloadLength q.control
      · rw [if_pos hbreak] at hp
        exact absurd hp List.not_mem_nil
      · rw [if_neg hbreak] at hp
        rcases List.mem_cons.mp hp with rfl | hp
        · have hq : p.payloadLength < 65536 := by
            rw [IsoPacket.payloadLength, toNat_controlToPayloadLength]
            exact Nat.mod_lt _ (by decide)
          rw [UInt32.lt_iff_toNat_lt] at hroom
          rw [UInt32.lt_iff_toNat_lt, UInt32.toNat_add] at hbreak
          have hp' : (fwCdevIsoPacketControlToPayloadLength p.control).toNat =
              p.payloadLength := rfl
          rw [hp'] at hbreak
          -- a sum that wraps starts within the last bytes below `2 ^ 32`, in a buffer as large
          rcases Nat.lt_or_ge ((x + len).toNat + p.payloadLength) (2 ^ 32) with hsum | hsum
          · rw [Nat.mod_eq_of_lt hsum] at hbreak
            omega
          · omega
        · exact ih _ _ p hp
    · rw [if_neg hroom] at hp
      exact absurd hp List.not_mem_nil

/-- How the inner loop leaves off: behind the last packet or at the end of the buffer, or before a
packet that would cross the end. -/
def Leaves (B x : UInt32) (e : Nat) (g : Gathered) : Prop :=
  g.bufOffset = x ∧ (g.rest = [] ∨ e = B.toNat) ∨
    g.bufOffset = 0 ∧ e < B.toNat ∧ ∃ p ps, g.rest = p :: ps ∧
      B.toNat < (e + p.payloadLength) % 2 ^ 32

/-- **What the inner loop gathers** lies within the ring, if its sums do not wrap; and they do not,
either because no run is so long, or because the packets lie where they are to lie. -/
theorem gather_within {B : UInt32} : ∀ (ps : List IsoPacket) (x len : UInt32) {g : Gathered},
    gather B x len ps = g → x.toNat + len.toNat ≤ B.toNat →
    Short B.toNat (2 ^ 32) ((x.toNat + len.toNat) % B.toNat) (payloadLengths ps) ∨
      starts (x.toNat + len.toNat) (payloadLengths g.batch) <+:
        laid B.toNat ((x.toNat + len.toNat) % B.toNat) (payloadLengths ps) →
    Within B.toNat (x.toNat + len.toNat) (payloadLengths g.batch) ∧
      g.bufLength.toNat = len.toNat + (payloadLengths g.batch).sum ∧
      Leaves B x (x.toNat + len.toNat + (payloadLengths g.batch).sum) g := by
  intro ps
  induction ps with
  | nil =>
    intro x len g hg _ _
    rw [← hg]
    exact ⟨trivial, rfl, .inl ⟨rfl, .inl rfl⟩⟩
  | cons p ps ih =>
    intro x len g hg hle hright
    have hB := B.toNat_lt
    have hle' := gather_le (B := B) (p :: ps) x len
    rw [hg] at hle'
    have hsum : (x + len).toNat = x.toNat + len.toNat := by
      rw [UInt32.toNat_add, Nat.mod_eq_of_lt (by omega)]
    have hp : (fwCdevIsoPacketControlToPayloadLength p.control).toNat = p.payloadLength := rfl
    rw [gather] at hg
    by_cases hroom : x + len < B
    · have hlt : x.toNat + len.toNat < B.toNat := by
        rw [UInt32.lt_iff_toNat_lt, hsum] at hroom
        exact hroom
      by_cases hbreak : B < x + len + fwCdevIsoPacketControlToPayloadLength p.control
      · simp only [hroom, hbreak, if_true] at hg
        rw [← hg]
        refine ⟨trivial, rfl, .inr ⟨rfl, hlt, p, ps, rfl, ?_⟩⟩
        rw [UInt32.lt_iff_toNat_lt, UInt32.toNat_add, hsum, hp] at hbreak
        exact hbreak
      · simp only [hroom, hbreak, if_true, if_false] at hg
        subst hg
        simp only [payloadLengths_cons, starts, Short, laid, Nat.mod_eq_of_lt hlt] at hright ⊢
        have hpB : p.payloadLength ≤ B.toNat := hle' p (List.mem_cons_self ..)
        -- the sum does not wrap, so the check has been right
        have hnowrap : x.toNat + len.toNat + p.payloadLength < 2 ^ 32 := by
          rcases hright with hshort | hplaces
          · exact hshort.1
          · obtain ⟨hhead, _⟩ := List.cons_prefix_cons.mp hplaces
            rw [skip] at hhead
            split at hhead <;> omega
        have hfit : x.toNat + len.toNat + p.payloadLength ≤ B.toNat := by
          rw [UInt32.lt_iff_toNat_lt, UInt32.toNat_add, hsum, hp, Nat.mod_eq_of_lt hnowrap]
            at hbreak
          exact Nat.not_lt.mp hbreak
        have hlen : (len + fwCdevIsoPacketControlToPayloadLength p.control).toNat =
            len.toNat + p.payloadLength := by
          rw [UInt32.toNat_add, hp, Nat.mod_eq_of_lt (by omega)]
        have hnext := ih x (len + fwCdevIsoPacketControlToPayloadLength p.control) rfl
        simp only [hlen, ← Nat.add_assoc] at hnext
        rw [skip_of_le hfit] at hright
        obtain ⟨hwithin, hlength, hleaves⟩ := hnext hfit
          (hright.imp And.right fun hplaces => (List.cons_prefix_cons.mp hplaces).2)
        simp only [List.sum_cons, ← Nat.add_assoc]
        exact ⟨⟨hlt, hfit, hwithin⟩, hlength, hleaves⟩
    · simp only [hroom, if_false] at hg
      rw [← hg]
      refine ⟨trivial, rfl, .inl ⟨rfl, .inr ?_⟩⟩
      rw [UInt32.lt_iff_toNat_lt, hsum] at hroom
      exact Nat.le_antisymm hle (Nat.not_lt.mp hroom)

/-! ### Rounds -/

/-- The packets of each round lie where the round before has ended. -/
def Kept (B : Nat) : Nat → List Round → Prop
  | _, [] => True
  | x, r :: rounds =>
    (r.batch ≠ [] → r.data.toNat = x) ∧
      Kept B ((r.data.toNat + (payloadLengths r.batch).sum) % B) rounds

/-- Nothing crosses the end of the buffer behind packets that do not lie at its start. -/
def Free (B x : Nat) (ns : List Nat) : Prop :=
  x = 0 ∨ (∀ n ∈ ns.head?, B < x + n) ∨ Meets B x ns

theorem laid_of_lt {B x n : Nat} (h : B < x + n) (ns : List Nat) :
    laid B x (n :: ns) = laid B 0 (n :: ns) := by
  have hzero : skip B 0 n = 0 := Nat.le_zero.mp (skip_le B 0 n)
  rw [laid, laid, skip_of_lt h, hzero]

theorem short_of_lt {B M x n : Nat} (h : B < x + n) (ns : List Nat) :
    Short B M x (n :: ns) ↔ x + n < M ∧ Short B M 0 (n :: ns) := by
  have hzero : skip B 0 n = 0 := Nat.le_zero.mp (skip_le B 0 n)
  rw [Short, Short, skip_of_lt h, hzero]
  constructor
  · rintro ⟨hlt, hrest⟩
    exact ⟨hlt, by omega, hrest⟩
  · rintro ⟨hlt, _, hrest⟩
    exact ⟨hlt, hrest⟩

theorem Leaves.crossing {B x : UInt32} {p : IsoPacket} {ps : List IsoPacket} {g : Gathered}
    (hg : gather B x 0 (p :: ps) = g) (hx : x.toNat < B.toNat) (hnone : g.batch = [])
    (hlength : g.bufLength.toNat = 0) (h : Leaves B x x.toNat g) :
    g.rest = p :: ps ∧ g.bufOffset = 0 ∧ (g.bufOffset + g.bufLength) % B = 0 ∧
      B.toNat < (x.toNat + p.payloadLength) % 2 ^ 32 := by
  have happ := gather_append B (p :: ps) x 0
  rw [hg, hnone, List.nil_append] at happ
  rcases h with ⟨_, hrest | hend⟩ | ⟨hzero, _, q, qs, hrest, hcross⟩
  · rw [happ] at hrest
    cases hrest
  · exact absurd hend (Nat.ne_of_lt hx)
  · rw [happ] at hrest
    obtain ⟨rfl, rfl⟩ := List.cons.inj hrest
    refine ⟨happ, hzero, ?_, hcross⟩
    have hlength' : g.bufLength = 0 := UInt32.toNat_inj.mp hlength
    rw [hzero, hlength', ← UInt32.toNat_inj, UInt32.toNat_mod]
    exact Nat.zero_mod _

/-- Where the next round starts, behind packets that have been gathered at the place of the
queue. -/
theorem toNat_behind {B x : UInt32} {g : Gathered} (hx : x.toNat < B.toNat)
    (hwithin : Within B.toNat x.toNat (payloadLengths g.batch))
    (hlength : g.bufLength.toNat = (payloadLengths g.batch).sum)
    (hdata : g.bufOffset.toNat = x.toNat) :
    ((g.bufOffset + g.bufLength) % B).toNat =
      (x.toNat + (payloadLengths g.batch).sum) % B.toNat := by
  have hBlt := B.toNat_lt
  have hsum := within_sum_le hx.le hwithin
  have hnowrap : (x.toNat + (payloadLengths g.batch).sum) % 2 ^ 32 =
      x.toNat + (payloadLengths g.batch).sum := Nat.mod_eq_of_lt (by omega)
  rw [UInt32.toNat_mod, UInt32.toNat_add, hdata, hlength, hnowrap]

theorem payloadLengths_ne_nil {ps : List IsoPacket} (h : ps ≠ []) : payloadLengths ps ≠ [] := by
  rw [payloadLengths, Ne, List.map_eq_nil_iff]
  exact h

/-- Packets that stay where they have been gathered end at the end of the buffer, with the last
packet, or lie at the start. -/
theorem Leaves.free {B x : UInt32} {g : Gathered} (hnone : g.batch ≠ [])
    (hwithin : Within B.toNat x.toNat (payloadLengths g.batch))
    (hdata : g.bufOffset.toNat = x.toNat)
    (h : Leaves B x (x.toNat + (payloadLengths g.batch).sum) g) :
    Free B.toNat x.toNat (payloadLengths g.batch ++ payloadLengths g.rest) := by
  rcases h with ⟨_, hend⟩ | ⟨hzero, _⟩
  · refine .inr (.inr ((meets_within _ (payloadLengths_ne_nil hnone) hwithin).mpr ?_))
    rcases hend with hrest | hend
    · rw [hrest]
      exact .inr trivial
    · exact .inl hend
  · refine .inl ?_
    rw [← hdata, hzero]
    rfl

/-- Packets stay where they have been gathered, if nothing crosses the end behind them, and the same
holds of those that are left. -/
theorem Leaves.stay {B x : UInt32} {g : Gathered} {p : IsoPacket} {ps : List IsoPacket}
    (happ : g.batch ++ g.rest = p :: ps) (hnone : g.batch ≠ [])
    (hwithin : Within B.toNat x.toNat (payloadLengths g.batch))
    (hfree : Free B.toNat x.toNat (payloadLengths g.batch ++ payloadLengths g.rest))
    (h : Leaves B x (x.toNat + (payloadLengths g.batch).sum) g) :
    g.bufOffset.toNat = x.toNat ∧ Free B.toNat
      ((x.toNat + (payloadLengths g.batch).sum) % B.toNat) (payloadLengths g.rest) := by
  rcases h with ⟨hdata, hrest | hend⟩ | ⟨hzero, hbelow, q, qs, hrest, hcross⟩
  · rw [hdata, hrest]
    exact ⟨rfl, .inr (.inl nofun)⟩
  · rw [hdata, hend, Nat.mod_self]
    exact ⟨rfl, .inl rfl⟩
  have hlt := Nat.lt_of_lt_of_le hcross (Nat.mod_le _ _)
  -- the first packet fits, for it has been gathered
  have hhead : x.toNat + p.payloadLength ≤ B.toNat := by
    obtain ⟨r, rs, hbatch⟩ := List.exists_cons_of_ne_nil hnone
    rw [hbatch] at happ hwithin
    obtain ⟨rfl, -⟩ := List.cons.inj happ
    exact hwithin.2.1
  refine ⟨?_, ?_⟩
  · rcases hfree with hx0 | hcross' | hmeets
    · rw [hzero, hx0]
      rfl
    · rw [← payloadLengths_append, happ] at hcross'
      exact absurd hhead (Nat.not_le.mpr (hcross' _ rfl))
    · rcases (meets_within _ (payloadLengths_ne_nil hnone) hwithin).mp hmeets with hend | hmeets
      · exact absurd hend (Nat.ne_of_lt hbelow)
      · rw [hrest] at hmeets
        exact absurd hmeets.1 (Nat.not_le.mpr hlt)
  · rw [Nat.mod_eq_of_lt hbelow, hrest]
    refine .inr (.inl fun n hn => ?_)
    obtain rfl := Option.some.inj hn
    exact hlt

variable {B : UInt32} {answers : Nat → QueueAnswer}

theorem queueRounds_cons (hB : B ≠ 0) (haccepted : ∀ i, ∃ n, answers i = .accepted n)
    (fuel i : Nat) (x : UInt32) (p : IsoPacket) (ps : List IsoPacket) {g : Gathered}
    (hg : gather B x 0 (p :: ps) = g) :
    (queueRounds B answers (fuel + 1) i x (p :: ps)).1 = ⟨g.bufOffset, g.batch⟩ ::
      (queueRounds B answers fuel (i + 1) ((g.bufOffset + g.bufLength) % B) g.rest).1 := by
  obtain ⟨n, hn⟩ := haccepted i
  simp only [queueRounds, hn, hB, if_false, hg]

/-- **Packets lie where they are to lie only if** the sums do not wrap, and nothing crosses the end
behind packets that do not lie at the start. -/
theorem free_of_kept (haccepted : ∀ i, ∃ n, answers i = .accepted n) :
    ∀ (fuel i : Nat) (x : UInt32) (ps : List IsoPacket), x.toNat < B.toNat →
      (queueRounds B answers fuel i x ps).1.flatMap Round.starts =
        laid B.toNat x.toNat (payloadLengths ps) →
      Kept B.toNat x.toNat (queueRounds B answers fuel i x ps).1 →
      (∀ p ∈ ps, p.payloadLength ≤ B.toNat) ∧
        Short B.toNat (2 ^ 32) x.toNat (payloadLengths ps) ∧
        Free B.toNat x.toNat (payloadLengths ps) := by
  intro fuel
  induction fuel with
  | zero =>
    intro i x ps _ hstarts _
    have hlen := congrArg List.length hstarts
    rw [length_laid, length_payloadLengths] at hlen
    obtain rfl : ps = [] := List.length_eq_zero_iff.mp hlen.symm
    exact ⟨nofun, trivial, .inr (.inl nofun)⟩
  | succ fuel ih =>
    intro i x ps hx hstarts hkept
    have hBlt := B.toNat_lt
    have hB : B ≠ 0 := by
      rintro rfl
      exact absurd hx (Nat.not_lt_zero _)
    cases ps with
    | nil => exact ⟨nofun, trivial, .inr (.inl nofun)⟩
    | cons p ps =>
      obtain ⟨g, hg⟩ : ∃ g, gather B x 0 (p :: ps) = g := ⟨_, rfl⟩
      have happ := gather_append B (p :: ps) x 0
      have hle := gather_le (B := B) (p :: ps) x 0
      have hgathered := gather_within (p :: ps) x 0 hg
      rw [hg] at happ hle
      rw [queueRounds_cons hB haccepted fuel i x p ps hg] at hstarts hkept
      simp only [UInt32.toNat_zero, Nat.add_zero, Nat.zero_add, Nat.mod_eq_of_lt hx] at hgathered
      rw [List.flatMap_cons] at hstarts
      obtain ⟨hkept, hkepts⟩ := hkept
      simp only at hkept hkepts
      by_cases hnone : g.batch = []
      · -- nothing has been gathered: the packet crosses the end, and the next round is at 0
        rw [hnone, payloadLengths_nil, starts, List.sum_nil, Nat.add_zero] at hgathered
        obtain ⟨_, hlength, hleaves⟩ := hgathered hx.le (.inr List.nil_prefix)
        obtain ⟨hrest, hzero, hnext, hcross⟩ := Leaves.crossing hg hx hnone hlength hleaves
        have hlt : B.toNat < x.toNat + p.payloadLength :=
          Nat.lt_of_lt_of_le hcross (Nat.mod_le _ _)
        simp only [Round.starts, hnone, payloadLengths_nil, starts, List.nil_append, hnext, hrest,
          payloadLengths_cons] at hstarts
        rw [laid_of_lt hlt] at hstarts
        rw [hnext, hrest, hnone, hzero, payloadLengths_nil, List.sum_nil, UInt32.toNat_zero,
          Nat.zero_add, Nat.zero_mod] at hkepts
        have hpos : (0 : UInt32).toNat < B.toNat := by
          rw [UInt32.toNat_zero]
          exact Nat.zero_lt_of_lt hx
        obtain ⟨hshorter, hshort, _⟩ := ih (i + 1) 0 (p :: ps) hpos hstarts hkepts
        have hp := hshorter p (List.mem_cons_self ..)
        refine ⟨hshorter, ?_, .inr (.inl ?_)⟩
        · rw [payloadLengths_cons, short_of_lt hlt]
          refine ⟨?_, hshort⟩
          -- a sum that wraps would be less than the payload
          rcases Nat.lt_or_ge (x.toNat + p.payloadLength) (2 ^ 32) with h | h
          · exact h
          · omega
        · intro n hn
          obtain rfl := Option.some.inj hn
          exact hlt
      · have hdata := hkept hnone
        rw [← happ, payloadLengths_append, Round.starts] at hstarts
        simp only [hdata] at hstarts hkepts
        obtain ⟨hwithin, hlength, hleaves⟩ := hgathered hx.le (.inr ⟨_, by
          rw [hstarts, ← happ, payloadLengths_append]⟩)
        have hlaid := laid_within (payloadLengths g.rest) hwithin
        rw [Nat.mod_eq_of_lt hx] at hlaid
        rw [hlaid] at hstarts
        have hnext := toNat_behind hx hwithin hlength hdata
        obtain ⟨hshorter, hshort, _⟩ := ih (i + 1) ((g.bufOffset + g.bufLength) % B) g.rest
          (by rw [hnext]; exact Nat.mod_lt _ (Nat.zero_lt_of_lt hx))
          (by rw [hnext]; exact List.append_cancel_left hstarts) (by rw [hnext]; exact hkepts)
        rw [hnext] at hshort
        rw [← happ, payloadLengths_append]
        refine ⟨fun q hq => (List.mem_append.mp hq).elim (hle q) (hshorter q), ?_,
          hleaves.free hnone hwithin hdata⟩
        have hiff := short_within hBlt (payloadLengths g.rest) hwithin
        rw [Nat.mod_eq_of_lt hx] at hiff
        exact hiff.mpr hshort

/-- **Packets lie where they are to lie if** nothing crosses the end behind packets that do not lie
at the start. -/
theorem kept_of_free (haccepted : ∀ i, ∃ n, answers i = .accepted n) :
    ∀ (fuel i : Nat) (x : UInt32) (ps : List IsoPacket), x.toNat < B.toNat →
      (∀ p ∈ ps, p.payloadLength ≤ B.toNat) →
      Short B.toNat (2 ^ 32) x.toNat (payloadLengths ps) →
      Free B.toNat x.toNat (payloadLengths ps) →
      2 * ps.length + (if ∃ p ∈ ps.head?, B.toNat < x.toNat + p.payloadLength then 1 else 0)
          < fuel →
      (queueRounds B answers fuel i x ps).1.flatMap Round.starts =
          laid B.toNat x.toNat (payloadLengths ps) ∧
        Kept B.toNat x.toNat (queueRounds B answers fuel i x ps).1 := by
  intro fuel
  induction fuel with
  | zero => exact fun i x ps _ _ _ _ hfuel => absurd hfuel (Nat.not_lt_zero _)
  | succ fuel ih =>
    intro i x ps hx hle hshort hfree hfuel
    have hBlt := B.toNat_lt
    have hB : B ≠ 0 := by
      rintro rfl
      exact absurd hx (Nat.not_lt_zero _)
    cases ps with
    | nil => exact ⟨rfl, trivial⟩
    | cons p ps =>
      obtain ⟨g, hg⟩ : ∃ g, gather B x 0 (p :: ps) = g := ⟨_, rfl⟩
      have happ := gather_append B (p :: ps) x 0
      have hgathered := gather_within (p :: ps) x 0 hg
      rw [hg] at happ
      rw [queueRounds_cons hB haccepted fuel i x p ps hg]
      simp only [UInt32.toNat_zero, Nat.add_zero, Nat.zero_add, Nat.mod_eq_of_lt hx] at hgathered
      obtain ⟨hwithin, hlength, hleaves⟩ := hgathered hx.le (.inl hshort)
      rw [List.flatMap_cons, Kept]
      by_cases hnone : g.batch = []
      · rw [hnone, payloadLengths_nil, List.sum_nil] at hlength hleaves
        obtain ⟨hrest, hzero, hnext, hcross⟩ := Leaves.crossing hg hx hnone hlength hleaves
        have hlt : B.toNat < x.toNat + p.payloadLength :=
          Nat.lt_of_lt_of_le hcross (Nat.mod_le _ _)
        have hp := hle p (List.mem_cons_self ..)
        rw [payloadLengths_cons, short_of_lt hlt] at hshort
        rw [if_pos ⟨p, rfl, hlt⟩] at hfuel
        have hhead : ¬ ∃ q ∈ (p :: ps).head?,
            B.toNat < (0 : UInt32).toNat + q.payloadLength := by
          rintro ⟨q, hq, hcross'⟩
          obtain rfl := Option.some.inj hq
          rw [UInt32.toNat_zero, Nat.zero_add] at hcross'
          exact absurd hp (Nat.not_le.mpr hcross')
        obtain ⟨hstarts, hkept⟩ := ih (i + 1) 0 (p :: ps) (Nat.zero_lt_of_lt hx) hle hshort.2
          (.inl rfl) (by rw [if_neg hhead]; omega)
        rw [hnext, hrest, hnone, hzero]
        refine ⟨?_, nofun, ?_⟩
        · rw [hstarts, payloadLengths_cons, laid_of_lt hlt]
          rfl
        · rw [payloadLengths_nil, List.sum_nil, UInt32.toNat_zero, Nat.zero_add, Nat.zero_mod]
          exact hkept
      · have happ' := happ
        rw [← happ] at hle hfuel
        rw [← happ, payloadLengths_append] at hshort hfree ⊢
        have hlaid := laid_within (payloadLengths g.rest) hwithin
        have hshort' := short_within hBlt (payloadLengths g.rest) hwithin
        rw [Nat.mod_eq_of_lt hx] at hlaid hshort'
        obtain ⟨hdata, hfree'⟩ := hleaves.stay happ' hnone hwithin hfree
        have hnext := toNat_behind hx hwithin hlength hdata
        have hlen := List.length_pos_iff.mpr hnone
        rw [List.length_append] at hfuel
        obtain ⟨hstarts, hkept⟩ := ih (i + 1) ((g.bufOffset + g.bufLength) % B) g.rest
          (by rw [hnext]; exact Nat.mod_lt _ (Nat.zero_lt_of_lt hx))
          (fun q hq => hle q (List.mem_append_right _ hq))
          (by rw [hnext]; exact hshort'.mp hshort) (by rw [hnext]; exact hfree')
          (by split <;> omega)
        rw [hnext] at hstarts hkept
        refine ⟨?_, fun _ => hdata, ?_⟩
        · rw [hstarts, hlaid, Round.starts, hdata]
        · rw [hdata]
          exact hkept

/-! ### Requests -/

def placesOf (it : Bool) (es : List Effect) : List Nat :=
  es.flatMap fun
    | .queueIso arg packets _ => designated it arg packets
    | _ => []

/-- The packets of each request lie where the request before has ended. -/
def KeptBy (it : Bool) (B : Nat) : Nat → List Effect → Prop
  | _, [] => True
  | x, .queueIso arg packets _ :: es =>
    (packetsOfRequest it packets ≠ [] → arg.data.toNat = x) ∧
      KeptBy it B ((arg.data.toNat + (payloadLengths (packetsOfRequest it packets)).sum) % B) es
  | x, _ :: es => KeptBy it B x es

theorem keptBy_requests {st : FwIsoCtxState} {B : Nat} : ∀ (rounds : List Round) (i x : Nat)
    (pre : List IsoPacket), (∀ p ∈ handedOut rounds, Sized st p) →
    (KeptBy (st.mode = .it) B x (requests st.handle answers i pre rounds) ↔ Kept B x rounds) := by
  intro rounds
  induction rounds with
  | nil => exact fun i x pre _ => Iff.rfl
  | cons r rounds ih =>
    intro i x pre hsized
    have hbatch := packetsOfRequest_packetBytes fun p hp =>
      hsized p (List.mem_append_left _ hp)
    have hrest := ih (i + 1) ((r.data.toNat + (payloadLengths r.batch).sum) % B) (pre ++ r.batch)
      fun p hp => hsized p (List.mem_append_right _ hp)
    rw [requests, KeptBy, Kept, hbatch, hrest]

/-- **Where queueing lays packets out**: each lies behind the one before it or skips the end, and
those that have been gathered stay. -/
structure LaidOut (st : FwIsoCtxState) (answers : Nat → QueueAnswer) (ps : List IsoPacket) :
    Prop where
  places : placesOf (st.mode = .it) (st.queueChunks answers).effects =
    laid st.bytesPerBuffer.toNat st.currOffset.toNat (payloadLengths ps)
  kept : KeptBy (st.mode = .it) st.bytesPerBuffer.toNat st.currOffset.toNat
    (st.queueChunks answers).effects

/-- **When packets are laid out**: none is longer than the buffer, the sums of `guint` do not wrap,
and either the first packet is to lie at the start of the buffer or crosses its end, or the packets
from there on meet the end. -/
theorem laidOut_iff {st : FwIsoCtxState} {ps : List IsoPacket} {answers : Nat → QueueAnswer}
    (hst : Stores st ps) (hsized : ∀ p ∈ ps, Sized st p)
    (hx : st.currOffset.toNat < st.bytesPerBuffer.toNat)
    (haccepted : ∀ i, ∃ n, answers i = .accepted n) :
    LaidOut st answers ps ↔ (∀ p ∈ ps, p.payloadLength ≤ st.bytesPerBuffer.toNat) ∧
      Short st.bytesPerBuffer.toNat (2 ^ 32) st.currOffset.toNat (payloadLengths ps) ∧
      Free st.bytesPerBuffer.toNat st.currOffset.toNat (payloadLengths ps) := by
  obtain ⟨rest, hsplit, _⟩ :=
    rounds_partition st.bytesPerBuffer answers st.queueFuel 0 st.currOffset ps
  have hsized' : ∀ p ∈ handedOut (queueRounds st.bytesPerBuffer answers st.queueFuel 0
      st.currOffset ps).1, Sized st p := fun p hp =>
    hsized p (hsplit ▸ List.mem_append_left _ hp)
  have heffects : (st.queueChunks answers).effects = requests st.handle answers 0 []
      (queueRounds st.bytesPerBuffer answers st.queueFuel 0 st.currOffset ps).1 := by
    rw [queueChunks_eq answers hst hsized]
    simp only [FwIsoCtxState.rounds]
    split <;> rfl
  have hplaces : placesOf (st.mode = .it) (st.queueChunks answers).effects =
      (queueRounds st.bytesPerBuffer answers st.queueFuel 0 st.currOffset ps).1.flatMap
        Round.starts := by
    rw [heffects]
    exact flatMap_requests _ 0 [] hsized'
  have hkept : KeptBy (st.mode = .it) st.bytesPerBuffer.toNat st.currOffset.toNat
      (st.queueChunks answers).effects ↔ Kept st.bytesPerBuffer.toNat st.currOffset.toNat
        (queueRounds st.bytesPerBuffer answers st.queueFuel 0 st.currOffset ps).1 := by
    rw [heffects]
    exact keptBy_requests _ 0 _ [] hsized'
  constructor
  · rintro ⟨h1, h2⟩
    exact free_of_kept haccepted _ 0 _ ps hx (hplaces.symm.trans h1) (hkept.mp h2)
  · rintro ⟨hle, hshort, hfree⟩
    have hfuel : 2 * ps.length + 1 < st.queueFuel := by
      have := four_mul_length_le ps
      have := hst.length
      simp only [FwIsoCtxState.queueFuel]
      omega
    obtain ⟨h1, h2⟩ := kept_of_free haccepted st.queueFuel 0 st.currOffset ps hx hle hshort hfree
      (by split <;> omega)
    exact ⟨hplaces.trans h1, hkept.mpr h2⟩

/-! ### Packets that do not stay -/

def zeros (n : Nat) (h : n < 4294967296) : ArrayArg :=
  .ofList (List.replicate n 0) (by rw [List.length_replicate]; exact h)

def halfWay (first second : ArrayArg) : List (Move FwIsoIt.Op) :=
  [.call (.allocate (some "/dev/fw0") 0 0 0 grantAllocate),
    .call (.mapBuffer 6 2 grantMap fun _ => 0),
    .call (.registerPacket 0 0 .null (zeros 6 (by decide)) false), .call
        (.start none (grantStart 1)),
    .call (.registerPacket 0 0 .null first false), .call (.registerPacket 0 0 .null second false)]

def halfWayState (first second : ArrayArg) : FwIsoCtxState :=
  (run FwIsoIt.exec ⟨⟨.new, []⟩, []⟩ (halfWay first second)).state.priv.state

def plainPackets (lengths : List UInt32) : List IsoPacket := lengths.map fun n => ⟨n, []⟩

/-- **A packet that has been gathered does not stay** when the next one does not fit: both should
lie at 6 and at 0, and lie at 0 and at 3. -/
theorem laidOut_fails :
    let st := halfWayState (zeros 3 (by decide)) (zeros 5 (by decide))
    let ps := plainPackets [3, 5]
    st.mode = .it ∧ Stores st ps ∧ (∀ p ∈ ps, Sized st p) ∧
      st.currOffset.toNat < st.bytesPerBuffer.toNat ∧
      (∀ p ∈ ps, p.payloadLength ≤ st.bytesPerChunk.toNat) ∧
      placesOf true (st.queueChunks fun _ => .accepted 1).effects = [0, 3] ∧
      laid st.bytesPerBuffer.toNat st.currOffset.toNat (payloadLengths ps) = [6, 0] ∧
      ¬ LaidOut st (fun _ => .accepted 1) ps := by
  refine ⟨by decide +kernel, ⟨by decide +kernel, by decide +kernel, fun _ => ?_⟩, ?_,
    by decide +kernel, by decide +kernel, by decide +kernel, by decide +kernel, fun h => ?_⟩
  · exact ⟨_, rfl, by decide +kernel, by decide +kernel⟩
  · simp only [Sized]
    decide +kernel
  · exact absurd h.places (by decide +kernel)

/-- Packets that meet the end of the buffer. -/
theorem laidOut_meeting :
    let st := halfWayState (zeros 3 (by decide)) (zeros 3 (by decide))
    placesOf (st.mode = .it) (st.queueChunks fun _ => .accepted 2).effects = [6, 9] := by
  have hst : Stores (halfWayState (zeros 3 (by decide)) (zeros 3 (by decide)))
      (plainPackets [3, 3]) := by
    refine ⟨by decide +kernel, by decide +kernel, fun _ => ?_⟩
    exact ⟨_, rfl, by decide +kernel, by decide +kernel⟩
  have hsized : ∀ p ∈ plainPackets [3, 3],
      Sized (halfWayState (zeros 3 (by decide)) (zeros 3 (by decide))) p := by
    simp only [Sized]
    decide +kernel
  have hshort : Short (halfWayState (zeros 3 (by decide))
      (zeros 3 (by decide))).bytesPerBuffer.toNat
      (2 ^ 32) (halfWayState (zeros 3 (by decide)) (zeros 3 (by decide))).currOffset.toNat
      (payloadLengths (plainPackets [3, 3])) :=
    ⟨by decide +kernel, by decide +kernel, trivial⟩
  have hmeets : Meets (halfWayState (zeros 3 (by decide))
      (zeros 3 (by decide))).bytesPerBuffer.toNat
      (halfWayState (zeros 3 (by decide)) (zeros 3 (by decide))).currOffset.toNat
      (payloadLengths (plainPackets [3, 3])) :=
    ⟨by decide +kernel, .inr ⟨by decide +kernel, .inl (by decide +kernel)⟩⟩
  have h := (laidOut_iff hst hsized (by decide +kernel) fun _ => ⟨2, rfl⟩).mpr
    ⟨by decide +kernel, hshort, .inr (.inr hmeets)⟩
  exact h.places.trans (by decide +kernel)

end Hinoko
