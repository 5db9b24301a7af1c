import Mathlib.Data.List.Infix
import Mathlib.Order.Defs.Unbundled

/-!
# Lists with one upper set

A list of elements of a preorder stands for all that lies above one of them. Two lists stand for
the `Same` when each element of the one lies above an element of the other. What is put together
from parts that stand for the same stands for the same (`Same.flatMap`); where the parts have
nothing to do with one another, it does in no other case (`same_flatMap_iff`).
-/

namespace UpperSets

variable {α β : Type*} {r : α → α → Prop}

/-- The elements of each list lie above elements of the other. -/
def Same (r : α → α → Prop) (xs ys : List α) : Prop :=
  (∀ x ∈ xs, ∃ y ∈ ys, r y x) ∧ ∀ y ∈ ys, ∃ x ∈ xs, r x y

instance [DecidableRel r] (xs ys : List α) : Decidable (Same r xs ys) :=
  inferInstanceAs (Decidable (_ ∧ _))

namespace Same

protected theorem refl [Std.Refl r] (xs : List α) : Same r xs xs :=
  ⟨fun x hx => ⟨x, hx, Std.Refl.refl x⟩, fun x hx => ⟨x, hx, Std.Refl.refl x⟩⟩

protected theorem symm {xs ys : List α} (h : Same r xs ys) : Same r ys xs := ⟨h.2, h.1⟩

theorem above [IsTrans α r] {xs ys zs : List α} (h : ∀ x ∈ xs, ∃ y ∈ ys, r y x)
    (h' : ∀ y ∈ ys, ∃ z ∈ zs, r z y) : ∀ x ∈ xs, ∃ z ∈ zs, r z x := by
  intro x hx
  obtain ⟨y, hy, hyx⟩ := h x hx
  obtain ⟨z, hz, hzy⟩ := h' y hy
  exact ⟨z, hz, IsTrans.trans _ _ _ hzy hyx⟩

protected theorem trans [IsTrans α r] {xs ys zs : List α} (h : Same r xs ys)
    (h' : Same r ys zs) : Same r xs zs := ⟨above h.1 h'.1, above h'.2 h.2⟩

theorem flatMap {l : List β} {f g : β → List α} (h : ∀ b ∈ l, Same r (f b) (g b)) :
    Same r (l.flatMap f) (l.flatMap g) := by
  constructor
  · intro x hx
    obtain ⟨b, hb, hx⟩ := List.mem_flatMap.1 hx
    obtain ⟨y, hy, hyx⟩ := (h b hb).1 x hx
    exact ⟨y, List.mem_flatMap.2 ⟨b, hb, hy⟩, hyx⟩
  · intro y hy
    obtain ⟨b, hb, hy⟩ := List.mem_flatMap.1 hy
    obtain ⟨x, hx, hxy⟩ := (h b hb).2 y hy
    exact ⟨x, List.mem_flatMap.2 ⟨b, hb, hx⟩, hxy⟩

end Same

/-- No element that comes from one part lies below an element that comes from another. -/
def Independent (r : α → α → Prop) (l : List β) (f g : β → List α) : Prop :=
  ∀ b ∈ l, ∀ b' ∈ l, ∀ x ∈ f b ++ g b, ∀ x' ∈ f b' ++ g b', r x x' → b = b'

/-- **Part by part**: lists whose parts have nothing to do with one another stand for the same
exactly when their parts do. -/
theorem same_flatMap_iff {l : List β} {f g : β → List α} (h : Independent r l f g) :
    Same r (l.flatMap f) (l.flatMap g) ↔ ∀ b ∈ l, Same r (f b) (g b) := by
  refine ⟨fun hsame b hb => ⟨fun x hx => ?_, fun y hy => ?_⟩, Same.flatMap⟩
  · obtain ⟨y, hy, hyx⟩ := hsame.1 x (List.mem_flatMap.2 ⟨b, hb, hx⟩)
    obtain ⟨b', hb', hy⟩ := List.mem_flatMap.1 hy
    obtain rfl : b' = b :=
      h b' hb' b hb y (List.mem_append_right _ hy) x (List.mem_append_left _ hx) hyx
    exact ⟨y, hy, hyx⟩
  · obtain ⟨x, hx, hxy⟩ := hsame.2 y (List.mem_flatMap.2 ⟨b, hb, hy⟩)
    obtain ⟨b', hb', hx⟩ := List.mem_flatMap.1 hx
    obtain rfl : b' = b :=
      h b' hb' b hb x (List.mem_append_left _ hx) y (List.mem_append_right _ hy) hxy
    exact ⟨x, hx, hxy⟩

end UpperSets
