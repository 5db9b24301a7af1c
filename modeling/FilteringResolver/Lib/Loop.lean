import Mathlib.Logic.Relation
import Mathlib.Tactic.TypeStar

/-!
# While loops that carry their measure

A loop is given by its body: one pass either reaches the next state or leaves the loop with a
result. The measure that every pass decreases is part of the loop, so running it is total and
evaluates, and a reader compares only `step` with the source.

`run_next` and `run_exit` unfold one pass; `induction` is the induction along the run,
`invariant` the invariant rule derived from it, `passes_le` and `mul_passes_le` bound the number of
passes, and `run_congr` compares two loops.
-/

namespace Loops

/-- The body of a loop over states `σ` with result `ρ`, and the measure it decreases. -/
structure Loop (σ ρ : Type*) where
  step : σ → σ ⊕ ρ
  measure : σ → Nat
  decreases : ∀ {s t : σ}, step s = .inl t → measure t < measure s

namespace Loop

variable {σ ρ : Type*}

/-- Run the loop with a bound above the measure; the bound never runs out. -/
def runWithin (L : Loop σ ρ) : (n : Nat) → (s : σ) → L.measure s < n → ρ
  | 0, _, h => absurd h (Nat.not_lt_zero _)
  | n + 1, s, h =>
    match e : L.step s with
    | .inl t => L.runWithin n t (Nat.lt_of_lt_of_le (L.decreases e) (Nat.le_of_lt_succ h))
    | .inr r => r

/-- The result of the loop started in `s`. -/
def run (L : Loop σ ρ) (s : σ) : ρ :=
  L.runWithin (L.measure s + 1) s (Nat.lt_succ_self _)

theorem runWithin_congr (L : Loop σ ρ) :
    ∀ (n m : Nat) (s : σ) (hn : L.measure s < n) (hm : L.measure s < m),
      L.runWithin n s hn = L.runWithin m s hm
  | 0, _, _, hn, _ => absurd hn (Nat.not_lt_zero _)
  | _, 0, _, _, hm => absurd hm (Nat.not_lt_zero _)
  | n + 1, m + 1, s, hn, hm => by
    simp only [runWithin]
    split
    · exact runWithin_congr L n m _ _ _
    · rfl

/-- A pass that goes on leaves the result to the next state. -/
theorem run_next (L : Loop σ ρ) {s t : σ} (h : L.step s = .inl t) : L.run s = L.run t := by
  unfold run
  rw [runWithin]
  split
  · next u hu =>
    rw [h] at hu
    cases hu
    exact runWithin_congr L _ _ _ _ _
  · next r hr => rw [h] at hr; cases hr

/-- A pass that leaves the loop gives its result. -/
theorem run_exit (L : Loop σ ρ) {s : σ} {r : ρ} (h : L.step s = .inr r) : L.run s = r := by
  unfold run
  rw [runWithin]
  split
  · next u hu => rw [h] at hu; cases hu
  · next r' hr => rw [h] at hr; cases hr; rfl

/-- Induction along the run: a state is good when its pass leaves the loop, or when the state
it goes on with is good. -/
@[elab_as_elim]
theorem induction (L : Loop σ ρ) {motive : σ → Prop}
    (exit : ∀ s r, L.step s = .inr r → motive s)
    (next : ∀ s t, L.step s = .inl t → motive t → motive s) (s : σ) : motive s := by
  induction h : L.measure s using Nat.strongRecOn generalizing s with
  | _ n ih =>
    cases e : L.step s with
    | inl t => exact next s t e (ih _ (h ▸ L.decreases e) t rfl)
    | inr r => exact exit s r e

/-- **Invariant rule**: what every pass preserves and every exit turns into `Q` gives `Q` of
the result. -/
theorem invariant (L : Loop σ ρ) {P : σ → Prop} {Q : ρ → Prop}
    (next : ∀ s t, P s → L.step s = .inl t → P t)
    (exit : ∀ s r, P s → L.step s = .inr r → Q r) {s : σ} (h : P s) : Q (L.run s) := by
  induction s using L.induction with
  | exit s r e => rw [L.run_exit e]; exact exit s r h e
  | next s t e ih => rw [L.run_next e]; exact ih (next s t h e)

/-- Every row of passes is bounded by the measure it starts from. -/
theorem passes_le (L : Loop σ ρ) {f : Nat → σ} {n : Nat}
    (h : ∀ i < n, L.step (f i) = .inl (f (i + 1))) : n ≤ L.measure (f 0) := by
  have hdrop : ∀ i ≤ n, i + L.measure (f i) ≤ L.measure (f 0) := by
    intro i hi
    induction i with
    | zero => exact Nat.le_of_eq (Nat.zero_add _)
    | succ i ih =>
      have hlt := L.decreases (h i hi)
      have hle := ih (Nat.le_of_succ_le hi)
      omega
  exact Nat.le_trans (Nat.le_add_right n _) (hdrop n (Nat.le_refl n))

/-- The number of passes of a run, the one that leaves the loop among them. -/
def passesWithin (L : Loop σ ρ) : Nat → σ → Nat
  | 0, _ => 0
  | n + 1, s =>
    match L.step s with
    | .inl t => L.passesWithin n t + 1
    | .inr _ => 1

def passes (L : Loop σ ρ) (s : σ) : Nat := L.passesWithin (L.measure s + 1) s

theorem passesWithin_le (L : Loop σ ρ) {μ : σ → Nat} {k : Nat}
    (h : ∀ s t, L.step s = .inl t → μ t + k ≤ μ s) (n : Nat) (s : σ) :
    k * L.passesWithin n s ≤ μ s + k := by
  induction n generalizing s with
  | zero => exact Nat.zero_le _
  | succ n ih =>
    rw [passesWithin]
    cases e : L.step s with
    | inl t =>
      have hstep := h s t e
      have hrest := ih t
      dsimp only
      rw [Nat.mul_add, Nat.mul_one]
      omega
    | inr r =>
      dsimp only
      omega

/-- A run is bounded by every quantity that each pass lowers by `k` or more. -/
theorem mul_passes_le (L : Loop σ ρ) {μ : σ → Nat} {k : Nat}
    (h : ∀ s t, L.step s = .inl t → μ t + k ≤ μ s) (s : σ) : k * L.passes s ≤ μ s + k :=
  L.passesWithin_le h _ s

/-- Loops with one body have one result. -/
theorem run_congr (L L' : Loop σ ρ) (h : ∀ s, L.step s = L'.step s) (s : σ) :
    L.run s = L'.run s := by
  induction s using L.induction with
  | exit s r e => rw [L.run_exit e, L'.run_exit ((h s).symm.trans e)]
  | next s t e ih => rw [L.run_next e, L'.run_next ((h s).symm.trans e), ih]

end Loop

end Loops
