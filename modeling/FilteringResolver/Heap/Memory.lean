import FilteringResolver.Dns
import FilteringResolver.Lib.Ownership

/-!
# The memory of the process

What the program owns outside its variables: blocks of the heap, sockets, open files and the
lists of `getaddrinfo`. A program over this memory takes the answers of its allocations from
`Allocs`, as the functions without memory do, and is stuck at a double `free`, at a `close` of
what is not open and at an access through a dangling pointer.
-/

namespace FilteringResolver

open Ownership

inductive Kind where
  | block
  | socket
  | file
  | addrinfo
  deriving DecidableEq

/-- Resources of the process. -/
abbrev Resources := Multiset (Kind × Nat)

abbrev Mem := Prog Allocs Kind

/-- A pointer that is not `NULL`, and what it points to. -/
structure Ptr (α : Type) where
  addr : Nat
  val : α

/-- The block a pointer points to. -/
def Ptr.block {α : Type} (p : Ptr α) : Kind × Nat := (.block, p.addr)

/-- The blocks owned through a pointer that may be `NULL`. -/
def blockOf {α : Type} (p : Option (Ptr α)) : Resources := p.elim 0 fun p => {p.block}

variable {α β : Type} {own rest : Resources} {a : Allocs}

@[simp] theorem blockOf_none : blockOf (none : Option (Ptr α)) = 0 := rfl

@[simp] theorem blockOf_some (p : Ptr α) : blockOf (some p) = {p.block} := rfl

/-- An allocation that is filled with `v`, or `NULL`. -/
def mallocOf (v : α) : Mem (Option (Ptr α)) := do
  if ← modifyGet malloc then
    let addr ← acquire .block
    pure (some ⟨addr, v⟩)
  else pure none

/-- `free`, which does nothing on `NULL`. -/
def free : Option (Ptr α) → Mem Unit
  | none => pure ()
  | some p => release p.block

/-- `*p`. -/
def load (p : Ptr α) : Mem α := do
  use p.block
  pure p.val

theorem mallocOf_owning {v : α} {post : Option (Ptr α) → Allocs → Resources → Prop}
    (null : ∀ a', malloc a = (false, a') → post none a' own)
    (block : ∀ a' addr, malloc a = (true, a') →
      post (some ⟨addr, v⟩) a' (own + {(.block, addr)})) :
    Owning own a (mallocOf v) post := by
  have hans : Owning own a (modifyGet malloc : Mem Bool) fun r a' own' =>
      malloc a = (r, a') ∧ own' = own :=
    fun frame l hl => ⟨_, _, l, own, rfl, hl, rfl, rfl⟩
  refine .bind (hans.imp ?_)
  rintro (_ | _) a' _ ⟨hm, rfl⟩
  · exact .pure (null a' hm)
  · exact .bind (.acquire fun addr => .pure (block a' addr hm))

theorem strdup_of_malloc {s : CStr} {a' : Allocs} {ok : Bool} (h : malloc a = (ok, a')) :
    strdup s a = (if ok then some s else none, a') := by
  obtain ⟨rfl, rfl⟩ := Prod.mk.inj h
  rfl

theorem free_owning {p : Option (Ptr α)} {post : Unit → Allocs → Resources → Prop}
    (hown : own = rest + blockOf p) (h : post () a rest) : Owning own a (free p) post := by
  cases p with
  | none =>
    rw [blockOf_none, add_zero] at hown
    exact .pure (hown ▸ h)
  | some p => exact .release hown h

theorem load_owning {p : Ptr α} {post : α → Allocs → Resources → Prop} (hmem : p.block ∈ own)
    (h : post p.val a own) : Owning own a (load p) post :=
  .bind (.use hmem (.pure h))

end FilteringResolver
