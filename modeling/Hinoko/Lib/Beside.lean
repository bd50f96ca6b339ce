import Hinoko.Lib.Labelled

/-!
# Operations beside a second state

An object is used by others that keep something of their own beside it: a list of those who watch
it, say.  `beside` runs an operation of the object in a state that has both; where it calls back,
the user may change both.

* `covered_of_run`: what happens to the object is a run of its own operations.
* `Act.Paced.beside_keeps`: the rule for what is to hold between the two.
-/

namespace Reentrant

variable {σ κ α β ο ο' : Type}

namespace Act

theorem bind_assoc {γ : Type} {f : α → σ → Act σ β} {g : β → σ → Act σ γ} :
    ∀ x : Act σ α, (x.bind f).bind g = x.bind fun a s => (f a s).bind g := by
  intro x
  induction x with
  | done a s => rfl
  | emit s k ih => simp only [bind, ih]

/-- The operation beside a second state, to which `f` does something when it ends. -/
def beside (f : α → κ → β × κ) : Act σ α → κ → Act (σ × κ) β
  | .done a s, r => .done (f a r).1 (s, (f a r).2)
  | .emit s k, r => .emit (s, r) fun y => (k y.1).beside f y.2

/-- The first operation is the second one beside something. -/
def Covers : Act (σ × κ) β → Act σ α → Prop
  | x, .done _ s => ∃ b r, x = .done b (s, r)
  | x, .emit s k => ∃ r k', x = .emit (s, r) k' ∧ ∀ y, (k' y).Covers (k y.1)

theorem covers_beside (f : α → κ → β × κ) :
    ∀ (x : Act σ α) (r : κ), (x.beside f r).Covers x := by
  intro x
  induction x with
  | done a s => exact fun r => ⟨(f a r).1, (f a r).2, rfl⟩
  | emit s k ih => exact fun r => ⟨r, _, rfl, fun y => ih y.1 y.2⟩

theorem Covers.answer {γ : Type} (g : α → γ) : ∀ {x : Act σ α} {x' : Act (σ × κ) β}, x'.Covers x →
    x'.Covers (x.bind fun a s => .done (g a) s) := by
  intro x
  induction x with
  | done a s => exact id
  | emit s k ih =>
    rintro _ ⟨r, k', rfl, hk⟩
    exact ⟨r, k', rfl, fun y => ih y.1 (hk y)⟩

theorem Paced.of_answer {γ : Type} {T L : σ → σ → Prop} {g : α → γ} :
    ∀ {x : Act σ α} {s : σ}, (x.bind fun a s => .done (g a) s).Paced T L s → x.Paced T L s := by
  intro x
  induction x with
  | done a s' => exact id
  | emit s' k ih => exact fun hx => ⟨hx.1, fun s'' => ih s'' (hx.2 s'')⟩

/-- One covered operation after the other. -/
theorem Covers.bind {γ δ : Type} {f : α → σ → Act σ γ} {f' : β → σ × κ → Act (σ × κ) δ}
    (hf : ∀ b a s r, (f' b (s, r)).Covers (f a s)) : ∀ {x : Act σ α} {x' : Act (σ × κ) β},
    x'.Covers x → (x'.bind f').Covers (x.bind f) := by
  intro x
  induction x with
  | done a s =>
    rintro _ ⟨b, r, rfl⟩
    exact hf b a s r
  | emit s k ih =>
    rintro _ ⟨r, k', rfl, hk⟩
    exact ⟨r, _, rfl, fun y => ih y.1 (hk y)⟩

theorem Paced.beside {T L : σ → σ → Prop} {U : σ × κ → σ × κ → Prop} {f : α → κ → β × κ}
    (hT : ∀ s s' r, T s s' → U (s, r) (s', r))
    (hL : ∀ a s s' r, L s s' → U (s, r) (s', (f a r).2)) :
    ∀ {x : Act σ α} {s : σ} (r : κ), x.Paced T L s → (x.beside f r).Paced U U (s, r) := by
  intro x
  induction x with
  | done a s' => exact fun {s} r hx => hL a s s' r hx
  | emit s' k ih => exact fun {s} r hx => ⟨hT s s' r hx.1, fun y => ih y.1 y.2 (hx.2 y.1)⟩

/-- **What every stretch keeps**, and the end, is kept between the two states. -/
theorem Paced.beside_keeps {T : σ → σ → Prop} {J : σ → κ → Prop} {f : α → κ → β × κ}
    (hT : ∀ s s' r, T s s' → J s r → J s' r) (hf : ∀ a s r, J s r → J s (f a r).2)
    {x : Act σ α} {s : σ} {r : κ} (hx : x.Paced T T s) (hJ : J s r) :
    (x.beside f r).Keeps (fun y => J y.1 y.2) fun _ y => J y.1 y.2 := by
  have hend : ∀ a s s' r, T s s' → J s r → J s' (f a r).2 := by
    intro a s s' r hs hJ
    exact hf a s' r (hT s s' r hs hJ)
  exact (hx.beside (U := fun y y' => J y.1 y.2 → J y'.1 y'.2) hT hend r).keeps hJ

end Act

structure Covered (c' : Config (σ × κ) β) (c : Config σ α) : Prop where
  state : c'.state.1 = c.state
  stack : List.Forall₂ (fun k' k => ∀ y, Act.Covers (k' y) (k y.1)) c'.stack c.stack

theorem Covered.enter {stack' : List (σ × κ → Act (σ × κ) β)} {stack : List (σ → Act σ α)}
    (hstack : List.Forall₂ (fun k' k => ∀ y, Act.Covers (k' y) (k y.1)) stack' stack)
    {x' : Act (σ × κ) β} {x : Act σ α} (hx : x'.Covers x) :
    Covered (enter stack' x') (enter stack x) := by
  cases x with
  | done a s =>
    obtain ⟨b, r, rfl⟩ := hx
    exact ⟨rfl, hstack⟩
  | emit s k =>
    obtain ⟨r, k', rfl, hk⟩ := hx
    exact ⟨rfl, .cons hk hstack⟩

variable {exec : ο → σ → Act σ α} {exec' : ο' → σ × κ → Act (σ × κ) β}

/-- One move is one of the object's own, or has nothing to do with it. -/
theorem step_covered
    (hexec : ∀ op y, (∃ op₀, (exec' op y).Covers (exec op₀ y.1)) ∨
      ∃ b r, exec' op y = .done b (y.1, r))
    {c' : Config (σ × κ) β} {c : Config σ α} (hc : Covered c' c) (m : Move ο') :
    Covered (step exec' c' m) c ∨ ∃ m₀, Covered (step exec' c' m) (step exec c m₀) := by
  obtain ⟨y, stack'⟩ := c'
  obtain ⟨s, stack⟩ := c
  obtain ⟨hstate, hstack⟩ := hc
  dsimp only at hstate hstack
  subst hstate
  cases m with
  | call op =>
    rcases hexec op y with ⟨op₀, hcovers⟩ | ⟨b, r, hdone⟩
    · exact .inr ⟨.call op₀, Covered.enter hstack hcovers⟩
    · left
      rw [step, hdone]
      exact ⟨rfl, hstack⟩
  | resume =>
    refine .inr ⟨.resume, ?_⟩
    cases hstack with
    | nil => exact ⟨rfl, .nil⟩
    | cons hk hrest => exact Covered.enter hrest (hk y)

/-- **What happens to the object is a run of its own operations.** -/
theorem covered_of_run
    (hexec : ∀ op y, (∃ op₀, (exec' op y).Covers (exec op₀ y.1)) ∨
      ∃ b r, exec' op y = .done b (y.1, r)) :
    ∀ (ms : List (Move ο')) {c' : Config (σ × κ) β} {c : Config σ α}, Covered c' c →
      ∃ ns, Covered (run exec' c' ms) (run exec c ns) := by
  intro ms
  induction ms with
  | nil => exact fun hc => ⟨[], hc⟩
  | cons m ms ih =>
    intro c' c hc
    rcases step_covered hexec hc m with hstay | ⟨m₀, hmove⟩
    · exact ih hstay
    · obtain ⟨ns, hns⟩ := ih hmove
      exact ⟨m₀ :: ns, hns⟩

theorem covered_of_init
    (hexec : ∀ op y, (∃ op₀, (exec' op y).Covers (exec op₀ y.1)) ∨
      ∃ b r, exec' op y = .done b (y.1, r)) (ms : List (Move ο')) (s : σ) (r : κ) :
    ∃ ns, (run exec' ⟨(s, r), []⟩ ms).state.1 = (run exec ⟨s, []⟩ ns).state := by
  obtain ⟨ns, hns⟩ := covered_of_run hexec ms
    (show Covered ⟨(s, r), []⟩ ⟨s, []⟩ from ⟨rfl, .nil⟩)
  exact ⟨ns, hns.state⟩

end Reentrant
