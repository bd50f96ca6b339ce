import Hinoko.Lib.Memory

/-!
# A ring that holds a window of a stream

A ring of `B` bytes carries a stream that has no end: byte `t` of the stream lies
at offset `t % B`.  `Window B m s lo hi` says that the memory `m` holds the bytes
`lo, …, hi - 1` of `s` in this way.

* `Window.read`, `Window.read_wrap`: a run of the window is read in one part, or
  in two when it crosses the end of the ring.
* `Window.write`: a run stored at the end of the stream extends the window, as
  long as it does not reach round to the window's start.

`Fits B x ns` says that runs of the lengths `ns`, laid one after the other from
offset `x`, never cross the end of the ring; `places B x ns` is where they lie, and
`Window.read_places` what is read there.  `laid B x ns` is where runs lie that skip the
end of the ring instead of crossing it, and `laid_within` where those lie that need not.
-/

namespace Ring

/-- The memory holds the bytes `lo, …, hi - 1` of the stream. -/
def Window (B : Nat) (m : ByteMem) (s : List UInt8) (lo hi : Nat) : Prop :=
  ∀ t, lo ≤ t → t < hi → s[t]? = some (m (t % B))

theorem Window.mono {B : Nat} {m : ByteMem} {s : List UInt8} {lo hi lo' hi' : Nat}
    (h : Window B m s lo hi) (hlo : lo ≤ lo') (hhi : hi' ≤ hi) : Window B m s lo' hi' :=
  fun t h1 h2 => h t (by omega) (by omega)

theorem Window.le_length {B : Nat} {m : ByteMem} {s : List UInt8} {lo hi : Nat}
    (h : Window B m s lo hi) (hlt : lo < hi) : hi ≤ s.length := by
  have := h (hi - 1) (by omega) (by omega)
  have := (List.getElem?_eq_some_iff.mp this).1
  omega

theorem window_empty (B : Nat) (m : ByteMem) (s : List UInt8) (lo : Nat) : Window B m s lo lo :=
  fun t h1 h2 => by omega

/-- An offset that stays below the end of the ring is reached without wrapping. -/
theorem mod_add_of_lt {B a i : Nat} (h : a % B + i < B) : (a + i) % B = a % B + i := by
  rw [Nat.add_mod, Nat.mod_eq_of_lt (show i < B by omega), Nat.mod_eq_of_lt h]

theorem mod_ne_of_lt {B a b : Nat} (hab : a < b) (h : b - a < B) : a % B ≠ b % B := by
  intro he
  have hd : B ∣ b - a := Nat.dvd_of_mod_eq_zero (Nat.sub_mod_eq_zero_of_mod_eq he.symm)
  have := Nat.le_of_dvd (by omega) hd
  omega

/-- Where a run ends that is shorter than the ring, or goes round it once from its start; the end of
the ring counts as its last position and not as its first. -/
theorem end_of_run {B t n : Nat} (hn : 0 < n) (hle : n < B ∨ n = B ∧ t % B = 0) {e : Nat}
    (he : e = if (t + n) % B = 0 then B else (t + n) % B) :
    t % B + n = if e < t % B then e + B else e := by
  have hlt := Nat.mod_lt t (show 0 < B by omega)
  have hmod : (t + n) % B = (t % B + n) % B := (Nat.mod_add_mod t B n).symm
  rcases Nat.lt_trichotomy (t % B + n) B with hshort | hfull | hlong
  · rw [Nat.mod_eq_of_lt hshort] at hmod
    rw [hmod, if_neg (by omega)] at he
    rw [if_neg (by omega), he]
  · rw [hfull, Nat.mod_self] at hmod
    rw [hmod, if_pos rfl] at he
    rw [if_neg (by omega), hfull, he]
  · have hover : t % B + n - B < t % B := by omega
    rw [Nat.mod_eq_sub_mod hlong.le, Nat.mod_eq_of_lt (hover.trans hlt)] at hmod
    rw [hmod, if_neg (by omega)] at he
    rw [if_pos (by omega), he]
    omega

/-- Where a run ends that goes round the ring from elsewhere: where it starts. -/
theorem end_of_lap {B t n : Nat} (hn : n = B) (ht : t % B ≠ 0) {e : Nat}
    (he : e = if (t + n) % B = 0 then B else (t + n) % B) : e = t % B := by
  rw [hn, Nat.add_mod_right, if_neg ht] at he
  exact he

/-- **When the end of a run tells its length**: the place does not tell a run that goes round the
ring from one of no bytes, unless it starts where the ring does. -/
theorem end_of_run_iff {B t n : Nat} (hn : 0 < n) (hle : n ≤ B) {e : Nat}
    (he : e = if (t + n) % B = 0 then B else (t + n) % B) :
    t % B + n = (if e < t % B then e + B else e) ↔ n < B ∨ t % B = 0 := by
  refine ⟨fun h => or_iff_not_imp_left.mpr fun hnot => ?_, fun h => ?_⟩
  · by_contra hne
    have hend := end_of_lap (by omega) hne he
    rw [if_neg (by omega)] at h
    omega
  · refine end_of_run hn ?_ he
    rcases h with hlt | hzero
    · exact .inl hlt
    · rcases Nat.lt_or_eq_of_le hle with hlt | heq
      · exact .inl hlt
      · exact .inr ⟨heq, hzero⟩

/-- Blocks of `k` bytes that a run of `a` bytes from `t` on completes can be counted in the ring. -/
theorem div_add_div_sub {k m : Nat} (hk : 0 < k) (t a : Nat) :
    t / k + ((t % (k * m) + a) / k - t % (k * m) / k) = (t + a) / k := by
  have hle : t % (k * m) / k ≤ (t % (k * m) + a) / k := Nat.div_le_div_right (Nat.le_add_right _ _)
  have hsplit : ∀ b, (t + b) / k = m * (t / (k * m)) + (t % (k * m) + b) / k := by
    intro b
    conv_lhs => rw [← Nat.div_add_mod t (k * m), Nat.mul_assoc, Nat.add_assoc]
    exact Nat.mul_add_div hk _ _
  have h0 := hsplit 0
  rw [Nat.add_zero, Nat.add_zero] at h0
  rw [hsplit a, h0, Nat.add_assoc, Nat.add_sub_cancel' hle]

/-- **A run that does not cross the end of the ring is read in one part.** -/
theorem Window.read {B : Nat} {m : ByteMem} {s : List UInt8} {lo hi a n : Nat}
    (h : Window B m s lo hi) (hlo : lo ≤ a) (hhi : a + n ≤ hi) (hfit : a % B + n ≤ B) :
    m.read (a % B) n = (s.drop a).take n := by
  rcases Nat.eq_zero_or_pos n with rfl | hn
  · simp
  have hlen := h.le_length (by omega)
  apply List.ext_getElem (by simp; omega)
  intro i h1 h2
  have hi : i < n := by simpa using h1
  have ht := h (a + i) (by omega) (by omega)
  rw [mod_add_of_lt (by omega), List.getElem?_eq_some_iff] at ht
  rw [ByteMem.getElem_read, List.getElem_take, List.getElem_drop, ht.2]

/-- **A run that crosses the end of the ring is read in two parts**, the second
from the start of the ring. -/
theorem Window.read_wrap {B : Nat} {m : ByteMem} {s : List UInt8} {lo hi a n : Nat}
    (h : Window B m s lo hi) (hlo : lo ≤ a) (hhi : a + n ≤ hi) (hB : 0 < B)
    (hcross : B ≤ a % B + n) (hn : n ≤ B) :
    m.read (a % B) (B - a % B) ++ m.read 0 (n - (B - a % B)) = (s.drop a).take n := by
  have hr := Nat.mod_lt a hB
  have hz : (a + (B - a % B)) % B = 0 := by
    have hd := Nat.div_add_mod a B
    have e : a + (B - a % B) = B * (a / B + 1) := by rw [Nat.mul_succ]; omega
    rw [e, Nat.mul_mod_right]
  have h1 := h.read (a := a) (n := B - a % B) hlo (by omega) (by omega)
  have h2 := h.read (a := a + (B - a % B)) (n := n - (B - a % B)) (by omega) (by omega)
    (by rw [hz]; omega)
  rw [hz] at h2
  have e : n = (B - a % B) + (n - (B - a % B)) := by omega
  rw [h1, h2, ← List.drop_drop, ← List.take_add, ← e]

/-- **A run stored at the end of the stream extends the window.**  It must not
cross the end of the ring, nor reach the window's start from behind. -/
theorem Window.write {B : Nat} {m : ByteMem} {s : List UInt8} {lo : Nat} (bs : List UInt8)
    (h : Window B m s lo s.length) (hfit : s.length % B + bs.length ≤ B)
    (hroom : s.length + bs.length ≤ lo + B) :
    Window B (m.write (s.length % B) bs) (s ++ bs) lo (s.length + bs.length) := by
  intro t h1 h2
  by_cases ht : t < s.length
  · rw [List.getElem?_append_left ht, h t h1 ht]
    congr 1
    rcases Nat.lt_or_ge (t % B) (s.length % B) with hlt | hge
    · exact (ByteMem.write_of_lt m bs hlt).symm
    · refine (ByteMem.write_of_ge m bs ?_).symm
      by_contra hcon
      have hbs := Nat.div_add_mod s.length B
      have e : (s.length + (t % B - s.length % B)) % B = t % B := by
        have := Nat.mod_lt t (show 0 < B by omega)
        rw [mod_add_of_lt (by omega)]
        omega
      exact mod_ne_of_lt (a := t) (b := s.length + (t % B - s.length % B)) (B := B)
        (by omega) (by omega) e.symm
  · have hlt : s.length % B + (t - s.length) < B := by omega
    have e : t % B = s.length % B + (t - s.length) := by
      rw [← mod_add_of_lt hlt, Nat.add_sub_cancel' (by omega)]
    rw [List.getElem?_append_right (by omega), e,
      ByteMem.write_of_mem m bs (by omega) (by omega), List.getElem?_eq_getElem (by omega)]
    simp only [Nat.add_sub_cancel_left]

/-! ### Runs that never cross the end -/

/-- Runs of the lengths `ns`, laid from `x` on, stay inside the ring one by one. -/
def Fits (B : Nat) : Nat → List Nat → Prop
  | _, [] => True
  | x, n :: ns => x + n ≤ B ∧ Fits B ((x + n) % B) ns

/-- Where runs of the lengths `ns`, laid from `x` on, start. -/
def places (B : Nat) : Nat → List Nat → List Nat
  | _, [] => []
  | x, n :: ns => x :: places B ((x + n) % B) ns

def starts : Nat → List Nat → List Nat
  | _, [] => []
  | x, n :: ns => x :: starts (x + n) ns

@[simp] theorem length_starts : ∀ (ns : List Nat) (x : Nat), (starts x ns).length = ns.length := by
  intro ns
  induction ns with
  | nil => intro x; rfl
  | cons n ns ih => intro x; simp [starts, ih]

theorem getElem_starts : ∀ (ns : List Nat) (x i : Nat) (h : i < (starts x ns).length),
    (starts x ns)[i] = x + (ns.take i).sum := by
  intro ns
  induction ns with
  | nil => exact fun _ _ h => absurd h (Nat.not_lt_zero _)
  | cons n ns ih =>
    intro x i h
    cases i with
    | zero => rfl
    | succ i =>
      simp only [starts, List.getElem_cons_succ, List.take_succ_cons, List.sum_cons]
      rw [ih, Nat.add_assoc]

@[simp] theorem length_places (B : Nat) : ∀ (ns : List Nat) (x : Nat),
    (places B x ns).length = ns.length := by
  intro ns
  induction ns with
  | nil => intro x; rfl
  | cons n ns ih => intro x; simp [places, ih]

theorem places_append (B : Nat) : ∀ (ns ks : List Nat) (x : Nat), x < B →
    places B x (ns ++ ks) = places B x ns ++ places B ((x + ns.sum) % B) ks := by
  intro ns
  induction ns with
  | nil => intro ks x hx; simp [places, Nat.mod_eq_of_lt hx]
  | cons n ns ih =>
    intro ks x hx
    have hlt : (x + n) % B < B := Nat.mod_lt _ (by omega)
    simp only [List.cons_append, places, List.sum_cons]
    rw [ih ks _ hlt, Nat.mod_add_mod, Nat.add_assoc]

theorem fits_append {B : Nat} : ∀ {ns ks : List Nat} {x : Nat}, x < B →
    (Fits B x (ns ++ ks) ↔ Fits B x ns ∧ Fits B ((x + ns.sum) % B) ks) := by
  intro ns
  induction ns with
  | nil => intro ks x hx; simp [Fits, Nat.mod_eq_of_lt hx]
  | cons n ns ih =>
    intro ks x hx
    have hlt : (x + n) % B < B := Nat.mod_lt _ (by omega)
    simp only [List.cons_append, Fits, List.sum_cons]
    rw [ih hlt, Nat.mod_add_mod, Nat.add_assoc, and_assoc]

/-- **Runs of a window are read at their places.** -/
theorem Window.read_places {B : Nat} {m : ByteMem} {s : List UInt8} {lo hi : Nat}
    (h : Window B m s lo hi) : ∀ (runs : List (List UInt8)) (a : Nat), lo ≤ a →
      a + runs.flatten.length ≤ hi → Fits B (a % B) (runs.map List.length) →
      (s.drop a).take runs.flatten.length = runs.flatten →
      List.zipWith m.read (places B (a % B) (runs.map List.length)) (runs.map List.length)
        = runs := by
  intro runs
  induction runs with
  | nil => intro a _ _ _ _; rfl
  | cons r runs ih =>
    intro a hlo hhi hfits htake
    obtain ⟨hfit, hrest⟩ := hfits
    simp only [List.flatten_cons, List.length_append] at hhi htake
    rw [List.take_add] at htake
    obtain ⟨hr, htail⟩ := List.append_inj htake (by
      have := congrArg List.length htake
      simp only [List.length_append, List.length_take, List.length_drop] at this ⊢
      omega)
    rw [List.drop_drop] at htail
    rw [Nat.mod_add_mod] at hrest
    have := ih (a + r.length) (by omega) (by omega) hrest htail
    simp only [List.map_cons, places, List.zipWith_cons_cons, Nat.mod_add_mod]
    rw [this, h.read hlo (by omega) hfit, hr]

/-- **Runs of one length that divides the ring fit**, from any multiple of it on. -/
theorem fits_of_dvd {B k : Nat} (hk : k ∣ B) : ∀ (ns : List Nat) (x : Nat), x < B → k ∣ x →
    (∀ n ∈ ns, n = k ∨ n = 0) → Fits B x ns := by
  intro ns
  induction ns with
  | nil => intro x _ _ _; exact trivial
  | cons n ns ih =>
    intro x hx hkx hall
    have hB : 0 < B := by omega
    have hn : x + n ≤ B := by
      rcases hall n (by simp) with rfl | rfl
      · obtain ⟨q, rfl⟩ := hk
        obtain ⟨p, rfl⟩ := hkx
        have hlt : p < q := Nat.lt_of_mul_lt_mul_left hx
        calc n * p + n = n * (p + 1) := by rw [Nat.mul_succ]
          _ ≤ n * q := Nat.mul_le_mul_left n hlt
      · omega
    refine ⟨hn, ih _ (Nat.mod_lt _ hB) ?_ fun i hi => hall i (by simp [hi])⟩
    refine (Nat.dvd_mod_iff hk).mpr (Nat.dvd_add hkx ?_)
    rcases hall n (by simp) with rfl | rfl
    · exact Nat.dvd_refl _
    · exact Nat.dvd_zero _

/-- Runs of one length `k` in a ring of `n` such runs lie at the slots in turn. -/
theorem places_replicate {k n : Nat} : ∀ (j c : Nat),
    places (k * n) (k * (c % n)) (List.replicate j k)
      = (List.range j).map fun i => k * ((c + i) % n) := by
  intro j
  induction j with
  | zero => intro c; rfl
  | succ j ih =>
    intro c
    have e : (k * (c % n) + k) % (k * n) = k * ((c + 1) % n) := by
      rw [← Nat.mul_succ, Nat.mul_mod_mul_left, Nat.succ_eq_add_one, Nat.mod_add_mod]
    rw [List.replicate_succ, places, e, ih (c + 1), List.range_succ_eq_map, List.map_cons,
      List.map_map, Nat.add_zero]
    congr 1
    refine List.map_congr_left fun i _ => ?_
    simp only [Function.comp, Nat.succ_eq_add_one]
    congr 2
    omega

/-! ### Runs that skip the end -/

/-- Where a run of `n` goes that is to start at `x`: to the start of the ring, if it would cross
the end. -/
def skip (B x n : Nat) : Nat := if x + n ≤ B then x else 0

/-- Where runs of the lengths `ns` start, of which each is laid behind the last or skips the end. -/
def laid (B : Nat) : Nat → List Nat → List Nat
  | _, [] => []
  | x, n :: ns => skip B x n :: laid B ((skip B x n + n) % B) ns

/-- No run would end at `M` or behind it where it is to start. -/
def Short (B M : Nat) : Nat → List Nat → Prop
  | _, [] => True
  | x, n :: ns => x + n < M ∧ Short B M ((skip B x n + n) % B) ns

/-- Runs that are laid from `x` on meet the end of the ring, or end before it. -/
def Meets (B : Nat) : Nat → List Nat → Prop
  | _, [] => True
  | x, n :: ns => x + n ≤ B ∧ (x + n = B ∨ Meets B (x + n) ns)

/-- Runs that are laid from `x` on all start before the end of the ring, and do not cross it. -/
def Within (B : Nat) : Nat → List Nat → Prop
  | _, [] => True
  | x, n :: ns => x < B ∧ x + n ≤ B ∧ Within B (x + n) ns

theorem skip_of_le {B x n : Nat} (h : x + n ≤ B) : skip B x n = x := if_pos h

theorem skip_of_lt {B x n : Nat} (h : B < x + n) : skip B x n = 0 := if_neg (Nat.not_le.mpr h)

theorem skip_le (B x n : Nat) : skip B x n ≤ x := by
  rw [skip]
  split
  · exact Nat.le_refl x
  · exact Nat.zero_le x

@[simp] theorem length_laid (B : Nat) : ∀ (ns : List Nat) (x : Nat),
    (laid B x ns).length = ns.length := by
  intro ns
  induction ns with
  | nil => intro x; rfl
  | cons n ns ih => intro x; simp [laid, ih]

/-- **Runs within the ring skip nothing**, and the others are laid behind them. -/
theorem laid_within {B : Nat} (ks : List Nat) : ∀ {ns : List Nat} {x : Nat}, Within B x ns →
    laid B (x % B) (ns ++ ks) = starts x ns ++ laid B ((x + ns.sum) % B) ks := by
  intro ns
  induction ns with
  | nil => intro x _; rfl
  | cons n ns ih =>
    intro x hwithin
    obtain ⟨hlt, hle, hrest⟩ := hwithin
    rw [Nat.mod_eq_of_lt hlt, List.cons_append, laid, skip_of_le hle, ih hrest, starts,
      List.sum_cons, Nat.add_assoc, List.cons_append]

theorem short_within {B M : Nat} (hM : B < M) (ks : List Nat) : ∀ {ns : List Nat} {x : Nat},
    Within B x ns → (Short B M (x % B) (ns ++ ks) ↔ Short B M ((x + ns.sum) % B) ks) := by
  intro ns
  induction ns with
  | nil => intro x _; exact Iff.rfl
  | cons n ns ih =>
    intro x hwithin
    obtain ⟨hlt, hle, hrest⟩ := hwithin
    rw [Nat.mod_eq_of_lt hlt, List.cons_append, Short, skip_of_le hle, ih hrest, List.sum_cons,
      Nat.add_assoc]
    exact and_iff_right (Nat.lt_of_le_of_lt hle hM)

/-- Runs within the ring that end with it meet its end, whatever comes behind them. -/
theorem meets_within {B : Nat} (ks : List Nat) : ∀ {ns : List Nat} {x : Nat}, ns ≠ [] →
    Within B x ns → (Meets B x (ns ++ ks) ↔ x + ns.sum = B ∨ Meets B (x + ns.sum) ks) := by
  intro ns
  induction ns with
  | nil => intro x hne _; exact absurd rfl hne
  | cons n ns ih =>
    intro x _ hwithin
    obtain ⟨_, hle, hrest⟩ := hwithin
    rw [List.cons_append, Meets, List.sum_cons, ← Nat.add_assoc, and_iff_right hle]
    cases ns with
    | nil => rfl
    | cons m ns =>
      have hne : x + n ≠ B := Nat.ne_of_lt hrest.1
      rw [ih (List.cons_ne_nil m ns) hrest]
      exact or_iff_right hne

theorem within_sum_le {B : Nat} : ∀ {ns : List Nat} {x : Nat}, x ≤ B → Within B x ns →
    x + ns.sum ≤ B := by
  intro ns
  induction ns with
  | nil => intro x hx _; exact hx
  | cons n ns ih =>
    intro x _ hwithin
    rw [List.sum_cons, ← Nat.add_assoc]
    exact ih hwithin.2.1 hwithin.2.2

end Ring
