import Mathlib.Data.Stream.Init

/-!
# Requests

A computation that makes requests takes their answers from a stream and leaves the rest of it.
One that makes `n` of them when they are granted, and comes to something bad when one is refused,
`Needs n`: with all its requests granted it comes to the same as if none were ever refused. What
computations need adds up when one follows the other (`Needs.bind`).
-/

namespace Requests

variable {α β : Type*}

/-- Every request is granted. -/
def all : Stream' Bool := Stream'.const true

/-- The next `n` requests are granted. -/
def Grants (n : Nat) (a : Stream' Bool) : Prop := ∀ i < n, a.get i = true

theorem grants_all (n : Nat) : Grants n all := fun _ _ => rfl

theorem drop_all (n : Nat) : all.drop n = all := Stream'.drop_const n true

theorem grants_zero (a : Stream' Bool) : Grants 0 a := fun _ h => absurd h (Nat.not_lt_zero _)

theorem Grants.mono {m n : Nat} {a : Stream' Bool} (h : Grants n a) (hle : m ≤ n) : Grants m a :=
  fun i hi => h i (Nat.lt_of_lt_of_le hi hle)

theorem grants_add {m n : Nat} {a : Stream' Bool} :
    Grants (m + n) a ↔ Grants m a ∧ Grants n (a.drop m) := by
  constructor
  · intro h
    refine ⟨h.mono (Nat.le_add_right m n), fun i hi => ?_⟩
    rw [Stream'.get_drop]
    exact h (m + i) (Nat.add_lt_add_left hi m)
  · rintro ⟨hm, hn⟩ i hi
    by_cases hlt : i < m
    · exact hm i hlt
    · obtain ⟨k, rfl⟩ := Nat.exists_eq_add_of_le (Nat.le_of_not_lt hlt)
      have hk := hn k (Nat.lt_of_add_lt_add_left hi)
      rwa [Stream'.get_drop] at hk

theorem grants_one {a : Stream' Bool} : Grants 1 a ↔ a.head = true := by
  constructor
  · exact fun h => h 0 Nat.one_pos
  · intro h i hi
    obtain rfl := Nat.lt_one_iff.1 hi
    exact h

/-- A refusal among the next `n` requests. -/
theorem not_grants_iff {n : Nat} {a : Stream' Bool} :
    ¬ Grants n a ↔ ∃ i < n, a.get i = false := by
  simp [Grants]

/-- A computation that makes `n` requests: with all of them granted it comes to what it comes to
when every request is, and with one refused to something bad. -/
structure Needs (n : Nat) (bad : α → Prop) (f : Stream' Bool → α × Stream' Bool) : Prop where
  granted : ∀ {a}, Grants n a → f a = ((f all).1, a.drop n)
  refused : ∀ {a}, ¬ Grants n a → bad (f a).1

namespace Needs

variable {n m : Nat} {bad : α → Prop} {f : Stream' Bool → α × Stream' Bool}

/-- A computation without requests. -/
theorem pure (bad : α → Prop) (x : α) : Needs 0 bad fun a => (x, a) :=
  ⟨fun _ => rfl, fun h => absurd (grants_zero _) h⟩

theorem all_eq (h : Needs n bad f) : f all = ((f all).1, all) := by
  rw [h.granted (grants_all n), drop_all]

/-- The result is the one with every request granted, or bad. -/
theorem eq_or_bad (h : Needs n bad f) (a : Stream' Bool) : (f a).1 = (f all).1 ∨ bad (f a).1 := by
  by_cases ha : Grants n a
  · rw [h.granted ha]
    exact .inl rfl
  · exact .inr (h.refused ha)

/-- When the good result is not bad, the requests were granted. -/
theorem grants_of_not_bad (h : Needs n bad f) {a : Stream' Bool} (hbad : ¬ bad (f a).1) :
    Grants n a := by
  by_contra ha
  exact hbad (h.refused ha)

/-- One computation after another, the second one on the result of the first. -/
theorem bind {p : α → Prop} {q : β → Prop} {g : α → Stream' Bool → β × Stream' Bool}
    {h : Stream' Bool → β × Stream' Bool} (hf : Needs m p f) (hg : Needs n q (g (f all).1))
    (heq : ∀ a, h a = g (f a).1 (f a).2) (hbad : ∀ x a, p x → q (g x a).1) :
    Needs (m + n) q h where
  granted ha := by
    obtain ⟨hm, hn⟩ := grants_add.1 ha
    rw [heq, heq all, hf.granted hm, hf.all_eq, hg.granted hn, Stream'.drop_drop]
  refused {a} ha := by
    rw [heq]
    by_cases hm : Grants m a
    · rw [hf.granted hm]
      exact hg.refused fun hn => ha (grants_add.2 ⟨hm, hn⟩)
    · exact hbad _ _ (hf.refused hm)

/-- A request before a computation. -/
theorem request {g : Stream' Bool → α × Stream' Bool} (hg : Needs n bad g)
    (hyes : ∀ a, a.head = true → f a = g a.tail) (hno : ∀ a, a.head = false → bad (f a).1) :
    Needs (1 + n) bad f where
  granted {a} ha := by
    obtain ⟨hone, hn⟩ := grants_add.1 ha
    rw [hyes a (grants_one.1 hone), hyes all rfl, ← Stream'.drop_drop]
    exact hg.granted hn
  refused {a} ha := by
    cases hhead : a.head with
    | false => exact hno a hhead
    | true =>
      rw [hyes a hhead]
      exact hg.refused fun hn => ha (grants_add.2 ⟨grants_one.2 hhead, hn⟩)

/-- A result worked out further without requests. -/
theorem map {q : β → Prop} (hf : Needs n bad f) (g : α → β) {h : Stream' Bool → β × Stream' Bool}
    (heq : ∀ a, h a = (g (f a).1, (f a).2)) (hbad : ∀ x, bad x → q (g x)) : Needs n q h :=
  (hf.bind (.pure q (g (f all).1)) (g := fun x a => (g x, a)) heq fun x _ hx => hbad x hx)

end Needs

end Requests
