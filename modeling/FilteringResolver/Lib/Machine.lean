import Mathlib.Logic.Function.Iterate

/-!
# Machines that read inputs

A machine reads one input after the other, each in the state that the last one left, until a step
says to stop. Two rules say what the state is good for. When what a step shows depends on the
input only, a run shows one image for each input it reads, whatever the state it starts in
(`map_run`). When a step bumps a counter on some of the inputs, a run has bumped it once for each of
these, at every point (`count_run`).
-/

namespace Machines

/-- What a step leaves on an input, and what of it goes on to the next step. -/
structure Machine (ι σ ρ : Type*) where
  step : σ → ι → ρ
  state : ρ → σ
  goesOn : ρ → Bool

/-- The elements up to the first that does not satisfy `p`, which is the last. -/
def upTo {α : Type*} (p : α → Bool) : List α → List α
  | [] => []
  | x :: xs => x :: if p x then upTo p xs else []

theorem upTo_prefix {α : Type*} (p : α → Bool) (xs : List α) : upTo p xs <+: xs := by
  induction xs with
  | nil => exact List.prefix_rfl
  | cons x xs ih =>
    rw [upTo]
    refine List.cons_prefix_cons.2 ⟨rfl, ?_⟩
    split
    · exact ih
    · exact List.nil_prefix

namespace Machine

variable {ι σ ρ : Type*} (m : Machine ι σ ρ)

/-- Every input that is read, with what its step leaves. -/
def run : σ → List ι → List (ι × ρ)
  | _, [] => []
  | s, i :: is =>
    (i, m.step s i) :: if m.goesOn (m.step s i) then run (m.state (m.step s i)) is else []

/-- **What does not depend on the state**: when the steps on an input all show the same and all
agree whether to go on, a run reads its inputs up to the first that stops it and shows the image of
each. -/
theorem map_run {β : Type*} (obs : ρ → β) {image : ι → β} {goesOn : ι → Bool}
    (hobs : ∀ s i, obs (m.step s i) = image i)
    (hgoes : ∀ s i, m.goesOn (m.step s i) = goesOn i) (s : σ) (is : List ι) :
    (m.run s is).map (fun e => (e.1, obs e.2)) = (upTo goesOn is).map fun i => (i, image i) := by
  induction is generalizing s with
  | nil => rfl
  | cons i is ih =>
    rw [run, upTo, List.map_cons, List.map_cons, hobs, hgoes]
    split
    · rw [ih]
    · rfl

/-- **What is counted**: when each step bumps a counter if its input satisfies `p`, the counter
after any part of a run has been bumped once for each of the inputs read that do. The counter need
not be a number: what `bump` does at its end, to wrap or to stick, is its own affair. -/
theorem count_run {C : Type*} (counter : σ → C) (bump : C → C) {p : ι → Bool}
    (h : ∀ s i, counter (m.state (m.step s i)) = if p i then bump (counter s) else counter s)
    {s : σ} {is : List ι} {pre post : List (ι × ρ)} {e : ι × ρ}
    (hrun : m.run s is = pre ++ e :: post) :
    counter (m.state e.2) = bump^[(pre ++ [e]).countP fun x => p x.1] (counter s) := by
  induction is generalizing s pre with
  | nil => simp [run] at hrun
  | cons i is ih =>
    rw [run] at hrun
    cases pre with
    | nil =>
      obtain ⟨rfl, -⟩ := List.cons.inj hrun
      rw [h, List.nil_append, List.countP_singleton]
      split <;> rfl
    | cons first pre =>
      obtain ⟨rfl, hrest⟩ := List.cons.inj hrun
      split at hrest
      · rw [ih hrest, h, List.cons_append, List.countP_cons]
        split
        · rw [Function.iterate_succ_apply]
        · rfl
      · simp at hrest

end Machine

end Machines
