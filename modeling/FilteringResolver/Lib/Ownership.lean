import Mathlib.Algebra.Order.Group.Multiset
import Mathlib.Tactic.Abel

/-!
# Programs that own resources

A `Ledger` lists the live resources of a process: blocks, descriptors, whatever a kind `κ` tells
apart. A resource gets a number that was never used before, so that one that has been released
is never taken for a later one. A program over an environment `σ` is stuck where it uses or
releases what is not live: at a use after a release, at a second release.

`Owning own s p post` is the triple of a program that starts out with the resources `own`: in
any ledger that holds them it is not stuck, and it leaves everything else in the ledger as it
is. The frame is part of the triple; the rules are in weakest-precondition form, one for each
construct.
-/

namespace Ownership

variable {σ κ α β : Type}

/-- The live resources of a process, and the next number to hand out. -/
structure Ledger (κ : Type) where
  live : Multiset (κ × Nat)
  next : Nat
  nodup : live.Nodup
  fresh : ∀ r ∈ live, r.2 < next

namespace Ledger

/-- Nothing is live. -/
def empty : Ledger κ := ⟨0, 0, Multiset.nodup_zero, by simp⟩

def acquire (l : Ledger κ) (k : κ) : Ledger κ where
  live := (k, l.next) ::ₘ l.live
  next := l.next + 1
  nodup := Multiset.nodup_cons.2 ⟨fun h => Nat.lt_irrefl _ (l.fresh _ h), l.nodup⟩
  fresh r hr := by
    rcases Multiset.mem_cons.1 hr with rfl | hr
    · exact Nat.lt_succ_self _
    · exact Nat.lt_succ_of_lt (l.fresh r hr)

@[simp] theorem live_acquire (l : Ledger κ) (k : κ) :
    (l.acquire k).live = (k, l.next) ::ₘ l.live := rfl

variable [DecidableEq κ]

def release (l : Ledger κ) (r : κ × Nat) : Ledger κ where
  live := l.live.erase r
  next := l.next
  nodup := l.nodup.erase r
  fresh r' hr' := l.fresh r' (Multiset.mem_of_mem_erase hr')

@[simp] theorem live_release (l : Ledger κ) (r : κ × Nat) :
    (l.release r).live = l.live.erase r := rfl

end Ledger

/-! ## Programs -/

/-- A program over an environment `σ`; `none` is a program that is stuck. -/
abbrev Prog (σ κ : Type) := StateT σ (StateT (Ledger κ) Option)

/-- The number of a new resource. -/
def acquire (k : κ) : Prog σ κ Nat := fun s l => some ((l.next, s), l.acquire k)

/-- Nothing defines how the program goes on. -/
def stuck : Prog σ κ α := fun _ _ => none

section

variable [DecidableEq κ]

def release (r : κ × Nat) : Prog σ κ Unit := fun s l =>
  if r ∈ l.live then some (((), s), l.release r) else none

/-- A read or a write through a resource. -/
def use (r : κ × Nat) : Prog σ κ Unit := fun s l =>
  if r ∈ l.live then some (((), s), l) else none

end

/-- Run a program in an environment of its own. -/
def within {σ' : Type} (s : σ) (p : Prog σ κ α) : Prog σ' κ α := fun s' l =>
  (p s l).map fun r => ((r.1.1, s'), r.2)

/-! ## Triples -/

/-- Started with the resources `own` in the environment `s`, whatever else is live, the program
ends, and leaves the resources that `post` names in the place of `own`. -/
def Owning (own : Multiset (κ × Nat)) (s : σ) (p : Prog σ κ α)
    (post : α → σ → Multiset (κ × Nat) → Prop) : Prop :=
  ∀ (frame : Multiset (κ × Nat)) (l : Ledger κ), l.live = frame + own →
    ∃ r s' l' own', p s l = some ((r, s'), l') ∧ l'.live = frame + own' ∧ post r s' own'

namespace Owning

variable {own rest : Multiset (κ × Nat)} {s : σ} {p : Prog σ κ α} {f : α → Prog σ κ β}
  {post post₀ : α → σ → Multiset (κ × Nat) → Prop} {post' : β → σ → Multiset (κ × Nat) → Prop}

theorem imp (h : Owning own s p post₀) (himp : ∀ r s' own', post₀ r s' own' → post r s' own') :
    Owning own s p post := by
  intro frame l hl
  obtain ⟨r, s', l', own', hp, hl', hpost⟩ := h frame l hl
  exact ⟨r, s', l', own', hp, hl', himp _ _ _ hpost⟩

theorem pure {r : α} (h : post r s own) : Owning own s (Pure.pure r) post :=
  fun _ l hl => ⟨r, s, l, own, rfl, hl, h⟩

theorem bind (h : Owning own s p fun r s' own' => Owning own' s' (f r) post') :
    Owning own s (p >>= f) post' := by
  intro frame l hl
  obtain ⟨r, s', l', own', hp, hl', hf⟩ := h frame l hl
  obtain ⟨r', s'', l'', own'', hf', hl'', hpost⟩ := hf frame l' hl'
  refine ⟨r', s'', l'', own'', ?_, hl'', hpost⟩
  change (p s l).bind (fun x => f x.1.1 x.1.2 x.2) = _
  rw [hp]
  exact hf'

theorem acquire {k : κ} {post : Nat → σ → Multiset (κ × Nat) → Prop}
    (h : ∀ n, post n s (own + {(k, n)})) : Owning own s (acquire k) post := by
  intro frame l hl
  refine ⟨l.next, s, l.acquire k, own + {(k, l.next)}, rfl, ?_, h _⟩
  rw [Ledger.live_acquire, hl, ← Multiset.singleton_add, add_comm, add_assoc]

theorem within {σ' : Type} {s' : σ'} {post' : α → σ' → Multiset (κ × Nat) → Prop}
    (h : Owning own s p fun r _ own' => post' r s' own') : Owning own s' (within s p) post' := by
  intro frame l hl
  obtain ⟨r, t, l', own', hp, hl', hpost⟩ := h frame l hl
  exact ⟨r, s', l', own', by rw [Ownership.within, hp]; rfl, hl', hpost⟩

/-- A program that owns everything. -/
theorem run {l : Ledger κ} (h : Owning l.live s p post) :
    ∃ r s' l', p s l = some ((r, s'), l') ∧ post r s' l'.live := by
  obtain ⟨r, s', l', own', hp, hl', hpost⟩ := h 0 l (zero_add _).symm
  rw [zero_add] at hl'
  exact ⟨r, s', l', hp, hl' ▸ hpost⟩

variable [DecidableEq κ]

theorem release {r : κ × Nat} {post : Unit → σ → Multiset (κ × Nat) → Prop}
    (hown : own = rest + {r}) (h : post () s rest) : Owning own s (release r) post := by
  intro frame l hl
  rw [hown, ← add_assoc] at hl
  have hmem : r ∈ l.live := by simp [hl]
  refine ⟨(), s, l.release r, rest, by rw [Ownership.release, if_pos hmem], ?_, h⟩
  rw [Ledger.live_release, hl, Multiset.add_comm _ {r}, Multiset.singleton_add,
    Multiset.erase_cons_head]

theorem use {r : κ × Nat} {post : Unit → σ → Multiset (κ × Nat) → Prop} (hmem : r ∈ own)
    (h : post () s own) : Owning own s (use r) post := by
  intro frame l hl
  have hlive : r ∈ l.live := by rw [hl]; exact Multiset.mem_add.2 (.inr hmem)
  exact ⟨(), s, l, own, by rw [Ownership.use, if_pos hlive], hl, h⟩

end Owning

end Ownership
