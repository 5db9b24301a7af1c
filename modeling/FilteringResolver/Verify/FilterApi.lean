import FilteringResolver.Verify.HeapFilter
import FilteringResolver.Verify.Pressure

/-!
# The filter as a set of names

A client of `filter_init`, `filter_insert`, `filter_lookup` and `filter_free` sees a set of names:
an insertion that returns 0 adds a name, a lookup asks whether a name of the set is a suffix of the
one it is given, and only a call that is short of memory itself may refuse a name or miss one
(`Behaves`). Every sequence of calls behaves so, whatever the allocations answer, and leaves no
memory behind (`filterSession_behaves`).
-/

namespace FilteringResolver

open Ownership PathSets Requests Heap

/-! ## The abstract filter -/

/-- A call of the interface. -/
inductive FilterOp where
  | insert (domain : CStr)
  | lookup (name : CStr)

/-- What a call answers. -/
inductive FilterAnswer where
  | inserted (ret : Ret)
  | found (verdict : Bool)
  deriving DecidableEq

/-- The name, or a name above it, is in the set. -/
def Blocks (names : Set (List CStr)) (name : List CStr) : Prop := ∃ d ∈ names, d <:+ name

/-- The allocations that a call can ask for: those of the splitter, and for each label that an
insertion adds a node, its label and room for it among the children of its parent. -/
def FilterOp.allocs : FilterOp → Nat
  | .insert domain => lookupAllocs domain + 3 * (entryOf domain).elim 0 List.length
  | .lookup name => lookupAllocs name

/-- The answers of a filter of `names` to a sequence of calls, each with the allocations it meets.
A name may be refused or missed for want of memory only if one of the allocations of that very call
fails. -/
inductive Behaves : Set (List CStr) → List (FilterOp × Allocs) → List FilterAnswer → Prop
  | nil {names} : Behaves names [] []
  | added {names domain a name ops answers} (entry : entryOf domain = some name)
      (rest : Behaves (insert name names) ops answers) :
      Behaves names ((.insert domain, a) :: ops) (.inserted .success :: answers)
  | refused {names domain a ops answers}
      (invalid : Grants (FilterOp.insert domain).allocs a → entryOf domain = none)
      (rest : Behaves names ops answers) :
      Behaves names ((.insert domain, a) :: ops) (.inserted .failure :: answers)
  | blocked {names query a name ops answers} (entry : entryOf query = some name)
      (blocks : Blocks names name) (rest : Behaves names ops answers) :
      Behaves names ((.lookup query, a) :: ops) (.found true :: answers)
  | allowed {names query a ops answers}
      (free : Grants (FilterOp.lookup query).allocs a →
        ∀ name, entryOf query = some name → ¬ Blocks names name)
      (rest : Behaves names ops answers) :
      Behaves names ((.lookup query, a) :: ops) (.found false :: answers)

/-! ## The client -/

def callFilter (filter : Filter) : FilterOp → Mem (FilterAnswer × Filter)
  | .insert domain => do
    let (ret, filter) ← filterInsert filter domain
    pure (.inserted ret, filter)
  | .lookup name => do
    let verdict ← filterLookup filter name
    pure (.found verdict, filter)

/-- The calls in turn, each with the allocations it meets. -/
def callsFilter (filter : Filter) : List (FilterOp × Allocs) → Mem (List FilterAnswer × Filter)
  | [] => pure ([], filter)
  | (op, a) :: ops => do
    let (answer, filter) ← within a (callFilter filter op)
    let (answers, filter) ← callsFilter filter ops
    pure (answer :: answers, filter)

/-- A client that creates a filter, makes its calls and frees the filter. -/
def filterSession (ops : List (FilterOp × Allocs)) : Mem (Option (List FilterAnswer)) := do
  match ← filterInit with
  | none => pure none
  | some filter =>
    let (answers, filter) ← callsFilter filter ops
    filterFree filter
    pure (some answers)

/-! ## The memory of an insertion -/

/-- A new child needs three allocations at most. -/
theorem newChild_granted (node : FilteringResolver.FilterNode) (label : CStr) {a : Allocs}
    (h : Grants 3 a) : ∃ node' k, k ≤ 3 ∧ newChild node (some label) a =
      (.success, node', a.drop k) := by
  have hnode : a.head = true := h 0 (by omega)
  have hlabel : a.tail.head = true := h 1 (by omega)
  have hgrow : a.tail.tail.head = true := h 2 (by omega)
  obtain ⟨node', k, hk, hadd⟩ : ∃ node' k, k ≤ 3 ∧ FilteringResolver.addChild node
      { FilteringResolver.FilterNode.empty with label := some label } a.tail.tail =
        (some node', a.drop k) := by
    unfold FilteringResolver.addChild
    split
    · simp only [malloc, hgrow]
      exact ⟨_, 3, Nat.le_refl 3, rfl⟩
    · exact ⟨_, 2, by omega, rfl⟩
  refine ⟨node', k, hk, ?_⟩
  simp only [newChild, FilteringResolver.filterNodeCreate, malloc, strdup, hnode, hlabel, if_true,
    hadd]

/-- Labels are added when three allocations for each of them succeed. -/
theorem addLabels_granted (p : List CStr) (node : FilteringResolver.FilterNode) {a : Allocs}
    (h : Grants (3 * p.length) a) : (addLabels (p.map some) node a).1 = .success := by
  induction p generalizing node a with
  | nil => rfl
  | cons label p ih =>
    rw [List.length_cons, Nat.mul_succ, Nat.add_comm] at h
    rw [List.map_cons, addLabels]
    cases FilteringResolver.findChild node (some label) with
    | some i => exact ih (node.child i) (h.mono (Nat.le_add_left _ _))
    | none =>
      obtain ⟨node', k, hk, hnew⟩ := newChild_granted node label (grants_add.1 h).1
      have hrest : Grants (3 * p.length) (a.drop k) :=
        (grants_add.1 (h.mono (Nat.add_le_add_right hk _))).2
      simp only [hnew]
      exact ih _ hrest

/-- **An insertion** adds a domain that has an entry when its allocations succeed. -/
theorem filterAddDomain_granted (root : FilteringResolver.FilterNode) (domain : CStr) {a : Allocs}
    (h : Grants (FilterOp.insert domain).allocs a) :
    (FilteringResolver.filterAddDomain root domain a).1 = .success ↔ (entryOf domain).isSome := by
  rw [FilterOp.allocs, grants_add] at h
  unfold lookupAllocs at h
  unfold FilteringResolver.filterAddDomain
  rw [← normalName]
  cases hn : normalName domain with
  | none => simp [entryOf, hn]
  | some n =>
    rw [hn] at h
    obtain ⟨hsplit, hlabels⟩ := h
    have hpieces := normalizeDomain_noEmptyPiece hn
    obtain ⟨hsome, hnone, -⟩ := splitDomainLabels_spec .ok hpieces
    have heq := (splitDomainLabels_needs hpieces).granted hsplit
    have hall : (FilteringResolver.splitDomainLabels n all).1 =
      (FilteringResolver.splitDomainLabels n .ok).1 := rfl
    dsimp only
    rw [heq, hall]
    cases hs : (FilteringResolver.splitDomainLabels n .ok).1 with
    | none =>
      have hlong := hnone hs rfl
      simp [entryOf, hn, hlong]
    | some ls =>
      obtain ⟨rfl, hshort⟩ := hsome ls hs
      have hentry : entryOf domain = some (labels n) := entryOf_eq_some.2 ⟨n, hn, hshort, rfl⟩
      rw [hentry, Option.elim_some, ← List.length_reverse] at hlabels
      exact iff_of_true (addLabels_granted _ root hlabels) (by rw [hentry]; rfl)

/-! ## One call -/

/-- A trie denotes a set of names, and the empty name is not among them. -/
structure Denotes (root : FilteringResolver.FilterNode) (names : Set (List CStr)) : Prop where
  paths : root.paths = List.reverse '' names
  nonempty : [] ∉ names

theorem denotes_empty : Denotes .empty ∅ :=
  ⟨by rw [FilterNode.paths_empty, Set.image_empty], fun h => h⟩

section

variable {root : FilteringResolver.FilterNode} {names : Set (List CStr)}

theorem Denotes.not_blocked (h : Denotes root names) : root.isBlocked = false := by
  rw [← Bool.not_eq_true, ← FilterNode.nil_mem_paths, h.paths]
  rintro ⟨name, hname, hnil⟩
  rw [List.reverse_eq_nil_iff] at hnil
  exact h.nonempty (hnil ▸ hname)

theorem Denotes.covers_iff (h : Denotes root names) (name : List CStr) :
    Covers root.paths name.reverse ↔ Blocks names name := by
  rw [h.paths]
  constructor
  · rintro ⟨-, ⟨d, hd, rfl⟩, hp⟩
    exact ⟨d, hd, List.reverse_prefix.1 hp⟩
  · rintro ⟨d, hd, hp⟩
    exact ⟨_, ⟨d, hd, rfl⟩, List.reverse_prefix.2 hp⟩

theorem entryOf_ne_nil {domain : CStr} {name : List CStr} (h : entryOf domain = some name) :
    name ≠ [] := by
  obtain ⟨m, -, -, rfl⟩ := entryOf_eq_some.1 h
  exact labels_ne_nil m

theorem entryOf_of_added {domain m : CStr} {a : Allocs} (hm : normalName domain = some m)
    (h : (filterAddDomain root domain a).1 = .success) : entryOf domain = some (labels m) := by
  refine entryOf_eq_some.2 ⟨m, hm, ?_, rfl⟩
  unfold filterAddDomain at h
  rw [← normalName, hm] at h
  dsimp only at h
  rcases hs : splitDomainLabels m a with ⟨_ | ls, a'⟩
  · rw [hs] at h
    cases h
  · exact ((splitDomainLabels_spec a (normalizeDomain_noEmptyPiece hm)).1 ls (by rw [hs])).2

/-- **An insertion** adds the name of its domain when it returns 0 and nothing otherwise. -/
theorem Denotes.insert (h : Denotes root names) (domain : CStr) (a : Allocs) :
    let r := filterAddDomain root domain a
    (∃ name, r.1 = .success ∧ entryOf domain = some name ∧
      Denotes r.2.1 (Insert.insert name names)) ∨
    (r.1 = .failure ∧ Denotes r.2.1 names ∧
      (Grants (FilterOp.insert domain).allocs a → entryOf domain = none)) := by
  intro r
  have hadd := filterAddDomain_added root domain a
  cases hadd with
  | success m hm ret paths =>
    have hentry := entryOf_of_added hm ret
    refine .inl ⟨labels m, ret, hentry, ?_, ?_⟩
    · rw [paths, h.paths, Set.image_insert_eq]
    · intro hnil
      rcases Set.mem_insert_iff.1 hnil with hnil | hnil
      · exact entryOf_ne_nil hentry hnil.symm
      · exact h.nonempty hnil
  | failure ret paths =>
    refine .inr ⟨ret, ⟨paths.trans h.paths, h.nonempty⟩, fun ha => ?_⟩
    rw [← Option.not_isSome_iff_eq_none, ← filterAddDomain_granted root domain ha]
    exact fun hs => absurd (hs.symm.trans ret) (by simp)

/-- **A lookup** that is answered with yes has found a name of the set, and one that is answered
with no has memory to blame if there is one. -/
theorem Denotes.lookup (h : Denotes root names) (query : CStr) (a : Allocs) :
    ((isDomainBlocked root query a).1 = true →
      ∃ name, entryOf query = some name ∧ Blocks names name) ∧
    ((isDomainBlocked root query a).1 = false → Grants (FilterOp.lookup query).allocs a →
      ∀ name, entryOf query = some name → ¬ Blocks names name) := by
  have hneeds := isDomainBlocked_needs root query
  have hiff := isDomainBlocked_iff_covers h.not_blocked query
  constructor
  · intro hv
    have hgranted := hneeds.grants_of_not_bad (by rw [hv]; decide)
    rw [hneeds.granted hgranted] at hv
    obtain ⟨n, hn, hshort, hcovers⟩ := hiff.1 hv
    rw [h.covers_iff] at hcovers
    exact ⟨labels n, entryOf_eq_some.2 ⟨n, hn, hshort, rfl⟩, hcovers⟩
  · intro hv hgranted name hname hblocks
    obtain ⟨n, hn, hshort, rfl⟩ := entryOf_eq_some.1 hname
    have hyes := hiff.2 ⟨n, hn, hshort, (h.covers_iff _).2 hblocks⟩
    rw [hneeds.granted hgranted] at hv
    exact absurd (hv.symm.trans hyes) (by decide)

end

/-! ## Sequences of calls -/

/-- The blocks of a filter. -/
def Heap.Filter.blocks (filter : Filter) : Resources :=
  {(Kind.block, filter.addr)} + filter.root.elim 0 Heap.FilterNode.blocks

/-- A filter holds a set of names in a trie of its own. -/
structure Holds (filter : Filter) (names : Set (List CStr)) : Prop where
  root : ∃ node : Heap.FilterNode, filter.root = some node ∧ node.Allocated ∧ Denotes node.val names

section

variable {own rest : Resources} {a : Allocs} {filter : Filter} {names : Set (List CStr)}

/-- **One call** answers as the set of names does, and leaves the filter with the set after it. -/
theorem callFilter_owning {op : FilterOp} {post : FilterAnswer × Filter → Allocs → Resources → Prop}
    (hholds : Holds filter names) (hown : own = rest + filter.blocks)
    (h : ∀ a' answer filter' names', (∀ ops answers, Behaves names' ops answers →
        Behaves names ((op, a) :: ops) (answer :: answers)) →
      Holds filter' names' → post (answer, filter') a' (rest + filter'.blocks)) :
    Owning own a (callFilter filter op) post := by
  obtain ⟨node, hroot, halloc, hden⟩ := hholds
  have hlive : (Kind.block, filter.addr) ∈ own := by simp [hown, Filter.blocks]
  have hown' : own = rest + {(Kind.block, filter.addr)} + node.blocks := by
    rw [hown, Filter.blocks, hroot, ← add_assoc]
    rfl
  cases op with
  | insert domain =>
    refine .bind (.bind (.use hlive ?_))
    rw [hroot]
    refine .bind (filterAddDomain_owning halloc hown' fun a' ret node' hadd hnode' => ?_)
    have hstep := hden.insert domain a
    dsimp only at hstep
    rw [hadd] at hstep
    have hblocks : rest + {(Kind.block, filter.addr)} + node'.blocks =
        rest + Filter.blocks { filter with root := some node' } := by
      rw [Filter.blocks, ← add_assoc]
      rfl
    rw [hblocks]
    rcases hstep with ⟨name, rfl, hentry, hden'⟩ | ⟨rfl, hden', hnone⟩
    · exact .pure (.pure (h a' _ _ _ (fun ops answers => .added hentry)
        ⟨node', rfl, hnode', hden'⟩))
    · exact .pure (.pure (h a' _ _ names (fun ops answers => .refused hnone)
        ⟨node', rfl, hnode', hden'⟩))
  | lookup query =>
    refine .bind (.bind (.use hlive ?_))
    rw [hroot]
    have hle : node.blocks ≤ own := by
      rw [hown']
      exact Multiset.le_add_left _ _
    refine isDomainBlocked_owning halloc hle fun a' verdict hv => ?_
    obtain ⟨hyes, hno⟩ := hden.lookup query a
    rw [hv] at hyes hno
    rw [hown]
    cases verdict with
    | true =>
      obtain ⟨name, hentry, hblocks⟩ := hyes rfl
      exact .pure (h a' _ filter names (fun ops answers => .blocked hentry hblocks)
        ⟨node, hroot, halloc, hden⟩)
    | false =>
      exact .pure (h a' _ filter names (fun ops answers => .allowed (hno rfl))
        ⟨node, hroot, halloc, hden⟩)

/-- **Every sequence of calls** behaves as a set of names, and owns the filter all along. -/
theorem callsFilter_owning {ops : List (FilterOp × Allocs)}
    {post : List FilterAnswer × Filter → Allocs → Resources → Prop}
    (hholds : Holds filter names) (hown : own = rest + filter.blocks)
    (h : ∀ answers filter' names', Behaves names ops answers → Holds filter' names' →
      post (answers, filter') a (rest + filter'.blocks)) :
    Owning own a (callsFilter filter ops) post := by
  induction ops generalizing own filter names post with
  | nil => exact .pure (hown ▸ h [] filter names .nil hholds)
  | cons op ops ih =>
    obtain ⟨op, a'⟩ := op
    refine .bind (.within (callFilter_owning hholds hown
      fun _ answer filter' names' hbehaves hholds' => ?_))
    refine .bind (ih hholds' rfl fun answers filter'' names'' hrest hholds'' => ?_)
    exact .pure (h _ filter'' names'' (hbehaves ops answers hrest) hholds'')

/-- A new filter holds the empty set; its two allocations are all that it takes. -/
theorem filterInit_owning {post : Option Filter → Allocs → Resources → Prop}
    (failed : ∀ a', ¬ Grants 2 a → post none a' own)
    (created : ∀ a' filter, Grants 2 a → Holds filter ∅ →
      post (some filter) a' (own + filter.blocks)) :
    Owning own a filterInit post := by
  have hgrants : Grants 2 a ↔ a.head = true ∧ a.tail.head = true := by
    rw [show (2 : Nat) = 1 + 1 from rfl, grants_add, grants_one, grants_one]
    rfl
  refine .bind (mallocOf_owning (fun a' hm => ?_) fun a' addr hm => ?_)
  · refine .pure (failed a' fun hg => ?_)
    rw [malloc, (hgrants.1 hg).1] at hm
    cases hm
  obtain ⟨hfirst, rfl⟩ := Prod.mk.inj hm
  refine .bind (filterNodeCreate_owning (fun a'' hc => ?_) fun a'' node hc => ?_)
  · refine .bind (.release rfl (.pure (failed a'' fun hg => ?_)))
    simp only [FilteringResolver.filterNodeCreate, malloc, (hgrants.1 hg).2] at hc
    cases hc
  · cases hsecond : a.tail.head with
    | false =>
      simp only [FilteringResolver.filterNodeCreate, malloc, hsecond] at hc
      cases hc
    | true =>
      simp only [FilteringResolver.filterNodeCreate, malloc, hsecond] at hc
      obtain ⟨hnode, rfl⟩ := Prod.mk.inj hc
      have hf := created a.tail.tail ⟨addr, some ⟨node, none, none, [], false⟩⟩
        (hgrants.2 ⟨hfirst, hsecond⟩) ⟨_, rfl, allocated_of_children_nil rfl, denotes_empty⟩
      refine .pure ?_
      simpa [Filter.blocks, Heap.FilterNode.blocks, add_assoc] using hf

/-- Freeing a filter releases all of it. -/
theorem filterFree_owning {post : Unit → Allocs → Resources → Prop} (hholds : Holds filter names)
    (hown : own = rest + filter.blocks) (h : post () a rest) :
    Owning own a (filterFree filter) post := by
  obtain ⟨node, hroot, halloc, -⟩ := hholds
  have hown' : own = rest + {(Kind.block, filter.addr)} + node.blocks := by
    rw [hown, Filter.blocks, hroot, ← add_assoc]
    rfl
  refine .bind (.use (by simp [hown']) ?_)
  rw [hroot]
  exact .bind (filterNodeFree_owning node halloc hown' (.release rfl h))

end

/-- **A filter is a set of names**, for every client and every pattern of failing allocations: the
filter is created when its two allocations succeed, the answers are those of the set, and when the
client is done nothing of the filter is left. -/
theorem filterSession_behaves (ops : List (FilterOp × Allocs)) (a : Allocs) (l : Ledger Kind) :
    ∃ answers a' l', filterSession ops a l = some ((answers, a'), l') ∧ l'.live = l.live ∧
      (answers.isSome ↔ Grants 2 a) ∧ ∀ as, answers = some as → Behaves ∅ ops as := by
  have hrun : Owning 0 a (filterSession ops) fun answers _ own => own = 0 ∧
      (answers.isSome ↔ Grants 2 a) ∧ ∀ as, answers = some as → Behaves ∅ ops as := by
    refine .bind (filterInit_owning (fun a' hno => ?_) fun a' filter hgrants hholds => ?_)
    · exact .pure ⟨rfl, iff_of_false (by decide) hno, fun as has => (by cases has)⟩
    refine .bind (callsFilter_owning hholds rfl fun answers filter' names' hbehaves hf => ?_)
    refine .bind (filterFree_owning hf rfl (.pure ⟨rfl, iff_of_true rfl hgrants, fun as has => ?_⟩))
    cases has
    exact hbehaves
  obtain ⟨answers, a', l', own, hs, hl', rfl, hsome, hbehaves⟩ := hrun l.live l (add_zero _).symm
  exact ⟨answers, a', l', hs, by rw [hl', add_zero], hsome, hbehaves⟩

end FilteringResolver
