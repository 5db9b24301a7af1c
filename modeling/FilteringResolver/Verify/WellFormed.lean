import Mathlib.Data.List.Nodup
import FilteringResolver.Verify.Verdicts

/-!
# Well-formed tries

Every node that `filter_add_domain` leaves behind is well formed, whatever allocations fail: its
children fit its array, carry the labels of normalised names and no label twice
(`addLabels_wellFormed`). A call that fails may leave new nodes, but none of them is blocked, so
lookups answer as before; and no call takes a blocked node out of reach
(`filterAddDomain_wellFormed`).
-/

namespace FilteringResolver

open Separated

/-! ## Labels -/

/-- What a label of a normalised name looks like. -/
structure TrieLabel (l : CStr) : Prop where
  ne_nil : l.bytes ≠ []
  length_le : l.bytes.length ≤ dnsMaxLabelLen
  no_dot : dot ∉ l.bytes
  no_space : ∀ c ∈ l.bytes, isspace c = false
  no_upper : ∀ c ∈ l.bytes, ¬ (0x41 ≤ c ∧ c ≤ 0x5A)

theorem not_upper_of_tolower_eq {c : UInt8} (h : tolower c = c) : ¬ (0x41 ≤ c ∧ c ≤ 0x5A) := by
  intro hc
  rw [tolower, if_pos hc] at h
  grind

/-- The labels that `filter_add_domain` inserts. -/
theorem trieLabel_of_normalName {d m : CStr} (h : normalName d = some m) (hshort : ShortLabels m) :
    ∀ l ∈ (labels m).reverse, TrieLabel l := by
  intro l hl
  rw [List.mem_reverse] at hl
  have hpiece : l.bytes ∈ m.bytes.splitOn dot := by
    rw [← bytes_labels]
    exact List.mem_map_of_mem hl
  obtain ⟨hclean, -⟩ := normalName_clean h
  refine ⟨fun hnil => ?_, hshort l hl, not_mem_of_mem_splitOn hpiece, fun c hc => ?_,
    fun c hc => ?_⟩
  · apply normalizeDomain_noEmptyPiece h
    rwa [← hnil]
  · exact (hclean c (mem_of_mem_splitOn hpiece hc)).1
  · exact not_upper_of_tolower_eq (hclean c (mem_of_mem_splitOn hpiece hc)).2

/-! ## The invariant -/

/-- The invariant of the trie at a node and at every node below it. -/
inductive FilterNode.WellFormed : FilterNode → Prop where
  | node {n : FilterNode} (capacity : n.children.length ≤ n.childrenCapacity)
      (labelled : ∀ c ∈ n.children, ∃ l, c.label = some l ∧ TrieLabel l)
      (nodup : (n.children.map (·.label)).Nodup) (children : ∀ c ∈ n.children, c.WellFormed) :
      n.WellFormed

/-- The node below `n` along the labels, by the children themselves. -/
inductive FilterNode.At : FilterNode → List CStr → FilterNode → Prop where
  | here {n : FilterNode} : n.At [] n
  | child {n c m : FilterNode} {l : CStr} {p : List CStr} (mem : c ∈ n.children)
      (label : c.label = some l) (rest : c.At p m) : n.At (l :: p) m

namespace FilterNode

theorem child_mem {n : FilterNode} {i : Nat} (hi : i < n.children.length) :
    n.child i ∈ n.children := by
  rw [child, List.getD_eq_getElem _ _ hi]
  exact List.getElem_mem hi

/-- A child with the label is found, and no other one. -/
theorem WellFormed.findChild_eq {n c : FilterNode} {l : CStr} (h : n.WellFormed)
    (hc : c ∈ n.children) (hl : c.label = some l) :
    ∃ i, findChild n (some l) = some i ∧ n.child i = c := by
  obtain ⟨-, -, nodup, -⟩ := h
  have hfound : (findChild n (some l)).isSome := by
    rw [findChild, List.findIdx?_isSome, List.any_eq_true]
    exact ⟨c, hc, beq_iff_eq.2 hl⟩
  obtain ⟨i, hi⟩ := Option.isSome_iff_exists.1 hfound
  refine ⟨i, hi, List.inj_on_of_nodup_map nodup (child_mem (findChild_lt hi)) hc ?_⟩
  rw [findChild_label hi, hl]

/-- In a well-formed trie the walk of a lookup reaches every node. -/
theorem WellFormed.descend_eq {n m : FilterNode} {p : List CStr} (h : n.WellFormed)
    (hat : n.At p m) : n.descend p = some m := by
  induction hat with
  | here => rfl
  | child mem label rest ih =>
    obtain ⟨i, hi, hchild⟩ := h.findChild_eq mem label
    obtain ⟨-, -, -, children⟩ := h
    rw [descend, hi]
    dsimp only
    rw [hchild]
    exact ih (children _ mem)

theorem At.of_descend {n m : FilterNode} {p : List CStr} (h : n.descend p = some m) : n.At p m := by
  induction p generalizing n with
  | nil =>
    cases h
    exact .here
  | cons l p ih =>
    rw [descend] at h
    split at h <;> [cases h; skip]
    next i hi => exact .child (child_mem (findChild_lt hi)) (findChild_label hi) (ih h)

theorem WellFormed.mem_reach_iff {P : FilterNode → Prop} {n : FilterNode} {p : List CStr}
    (h : n.WellFormed) : p ∈ n.reach P ↔ ∃ m, n.At p m ∧ P m := by
  constructor
  · rintro ⟨m, hm, hP⟩
    exact ⟨m, .of_descend hm, hP⟩
  · rintro ⟨m, hm, hP⟩
    exact ⟨m, h.descend_eq hm, hP⟩

/-- The paths of a well-formed trie are the paths to its blocked nodes. -/
theorem WellFormed.mem_paths_iff {n : FilterNode} {p : List CStr} (h : n.WellFormed) :
    p ∈ n.paths ↔ ∃ m, n.At p m ∧ m.isBlocked = true :=
  h.mem_reach_iff

theorem wellFormed_empty : empty.WellFormed :=
  .node (Nat.zero_le _) (by simp [empty]) (by simp [empty]) (by simp [empty])

/-- The invariant does not read the node's own label or its mark. -/
theorem WellFormed.congr {n n' : FilterNode} (h : n.WellFormed) (hc : n'.children = n.children)
    (hcap : n'.childrenCapacity = n.childrenCapacity) : n'.WellFormed := by
  obtain ⟨capacity, labelled, nodup, children⟩ := h
  exact .node (by rwa [hc, hcap]) (by rwa [hc]) (by rwa [hc]) (by rwa [hc])

/-- A child is replaced by a well-formed one with its label. -/
theorem WellFormed.setChild {n c : FilterNode} {i : Nat} (h : n.WellFormed)
    (hi : i < n.children.length) (hc : c.WellFormed) (hl : c.label = (n.child i).label) :
    (n.setChild i c).WellFormed := by
  obtain ⟨capacity, labelled, nodup, children⟩ := h
  refine .node ?_ ?_ (by rwa [map_label_setChild hl]) ?_
  · rwa [FilterNode.setChild, List.length_set]
  · intro x hx
    rcases List.mem_or_eq_of_mem_set hx with hx | rfl
    · exact labelled x hx
    · rw [hl]
      exact labelled _ (child_mem hi)
  · intro x hx
    rcases List.mem_or_eq_of_mem_set hx with hx | rfl
    · exact children x hx
    · exact hc

end FilterNode

open FilterNode

/-! ## Creating a child -/

/-- Before it writes a child, `add_child` makes room for it. -/
theorem addChild_capacity {parent child node : FilterNode} {a a' : Allocs}
    (h : parent.children.length ≤ parent.childrenCapacity)
    (hadd : addChild parent child a = (some node, a')) :
    node.children.length ≤ node.childrenCapacity := by
  unfold addChild malloc at hadd
  split at hadd
  · next hfull =>
    cases ha : a.head <;> rw [ha] at hadd <;> cases hadd
    rw [List.length_append, List.length_singleton]
    dsimp only [initialChildrenCapacity]
    split <;> omega
  · cases hadd
    rw [List.length_append, List.length_singleton]
    dsimp only
    omega

theorem newChild_capacity {node node' : FilterNode} {label : CStr} {a a' : Allocs}
    (h : node.children.length ≤ node.childrenCapacity)
    (hnew : newChild node (some label) a = (.success, node', a')) :
    node'.children.length ≤ node'.childrenCapacity := by
  unfold newChild at hnew
  split at hnew <;> [cases hnew; skip]
  dsimp only at hnew
  split at hnew <;> [cases hnew; skip]
  split at hnew <;> cases hnew
  next hadd => exact addChild_capacity h hadd

/-- A fresh child for a label that no child has. -/
theorem FilterNode.WellFormed.linked {node node' : FilterNode} {label : CStr} (h : node.WellFormed)
    (hl : Linked node label node') (hcap : node'.children.length ≤ node'.childrenCapacity)
    (hlabel : TrieLabel label) (hf : findChild node (some label) = none) : node'.WellFormed := by
  obtain ⟨capacity, labelled, nodup, children⟩ := h
  obtain ⟨-, -, hchildren⟩ := hl
  have hfresh : some label ∉ node.children.map (·.label) := by
    intro hmem
    obtain ⟨c, hc, hlc⟩ := List.mem_map.1 hmem
    have hnone := List.findIdx?_eq_none_iff.1 hf c hc
    simp [hlc] at hnone
  refine .node hcap ?_ ?_ ?_
  · intro c hc
    rw [hchildren] at hc
    rcases List.mem_append.1 hc with hc | hc
    · exact labelled c hc
    · rw [List.mem_singleton.1 hc]
      exact ⟨label, rfl, hlabel⟩
  · rw [hchildren, List.map_append, List.map_singleton]
    exact nodup.append (List.nodup_singleton _) (by simpa using hfresh)
  · intro c hc
    rw [hchildren] at hc
    rcases List.mem_append.1 hc with hc | hc
    · exact children c hc
    · rw [List.mem_singleton.1 hc]
      exact wellFormed_empty.congr rfl rfl

/-! ## Insertion -/

/-- **The walk of `filter_add_domain`** keeps every node well formed, wherever it fails. -/
theorem addLabels_wellFormed {p : List CStr} (hp : ∀ l ∈ p, TrieLabel l) {node : FilterNode}
    (h : node.WellFormed) (a : Allocs) : (addLabels (p.map some) node a).2.1.WellFormed := by
  induction p generalizing node a with
  | nil => exact h.congr rfl rfl
  | cons label p ih =>
    have hrest : ∀ l ∈ p, TrieLabel l := fun l hl => hp l (List.mem_cons_of_mem label hl)
    -- below a child the induction applies, and the child keeps its label
    have below : ∀ {node : FilterNode} {i : Nat} (a : Allocs), node.WellFormed →
        i < node.children.length →
        (node.setChild i (addLabels (p.map some) (node.child i) a).2.1).WellFormed := by
      intro node i a hnode hi
      have hnode' := hnode
      obtain ⟨-, -, -, children⟩ := hnode'
      exact hnode.setChild hi (ih hrest (children _ (child_mem hi)) a)
        (addLabels_paths p (node.child i) a).label_eq
    rw [List.map_cons, addLabels]
    cases hf : findChild node (some label) with
    | some i => exact below a h (findChild_lt hf)
    | none =>
      rcases newChild_cases node label a with ⟨node', a', hn, hl⟩ | ⟨a', hn⟩
      · have h' := h
        obtain ⟨capacity, -, -, -⟩ := h'
        have hnode' := h.linked hl (newChild_capacity capacity hn) (hp label List.mem_cons_self) hf
        rw [hn]
        exact below a' hnode' (findChild_lt (hl.findChild_self hf))
      · rw [hn]
        exact h

theorem filterAddDomain_keeps {root : FilterNode} (h : root.WellFormed) (domain : CStr)
    (a : Allocs) : (filterAddDomain root domain a).2.1.WellFormed := by
  unfold filterAddDomain
  rw [← normalName]
  cases hm : normalName domain with
  | none => exact h
  | some m =>
    have hsplit := (splitDomainLabels_spec a (normalizeDomain_noEmptyPiece hm)).1
    rcases hs : splitDomainLabels m a with ⟨_ | ls, a'⟩
    · simpa only [hs] using h
    · obtain ⟨rfl, hshort⟩ := hsplit ls (by rw [hs])
      simp only [hs]
      exact addLabels_wellFormed (trieLabel_of_normalName hm hshort) h a'

/-- Every trie that calls build is well formed. -/
theorem wellFormed_buildFilter (calls : List (CStr × Allocs)) : (buildFilter calls).WellFormed := by
  have hkeep : ∀ root : FilterNode, root.WellFormed → (addDomains root calls).1.WellFormed := by
    induction calls with
    | nil => exact fun root h => h
    | cons call calls ih => exact fun root h => ih _ (filterAddDomain_keeps h _ _)
  exact hkeep .empty wellFormed_empty

/-- **An insertion breaks nothing, and one that fails changes no answer**, whatever the trie was
built from and whichever allocations fail. -/
theorem filterAddDomain_wellFormed (calls : List (CStr × Allocs)) (domain : CStr) (a : Allocs) :
    let root := buildFilter calls
    let r := filterAddDomain root domain a
    (r.1 = .success ∨ r.1 = .failure) ∧ (r.1 = .failure → SameNames root r.2.1) ∧
      root.WellFormed ∧ r.2.1.WellFormed ∧
      ∀ p m, root.At p m → m.isBlocked = true → ∃ m', r.2.1.At p m' ∧ m'.isBlocked = true := by
  intro root r
  have hroot : root.WellFormed := wellFormed_buildFilter calls
  have hr : r.2.1.WellFormed := filterAddDomain_keeps hroot domain a
  have hadded : Added root domain r := filterAddDomain_added root domain a
  have hreach : root.paths ⊆ r.2.1.paths → ∀ p m, root.At p m → m.isBlocked = true →
      ∃ m', r.2.1.At p m' ∧ m'.isBlocked = true := by
    intro hsub p m hat hblocked
    exact hr.mem_paths_iff.1 (hsub (hroot.mem_paths_iff.2 ⟨m, hat, hblocked⟩))
  cases hadded with
  | success m hm hret hpaths =>
    refine ⟨.inl hret, fun h => ?_, hroot, hr, hreach ?_⟩
    · rw [hret] at h
      cases h
    · rw [hpaths]
      exact Set.subset_insert _ _
  | failure hret hpaths =>
    refine ⟨.inr hret, fun _ => ?_, hroot, hr, hreach hpaths.ge⟩
    have hunblocked : root.isBlocked = false := root_not_blocked calls
    apply isDomainBlocked_congr hunblocked
    · rw [← Bool.not_eq_true, ← nil_mem_paths, hpaths, nil_mem_paths, hunblocked]
      decide
    · intro p
      rw [hpaths]

/-- Adding `c.b` without memory for the node of `c`: the node of `b` stays, unmarked. -/
example :
    let r := filterAddDomain .empty (.ofBuffer [99, 46, 98]) fun n => decide (n < 6)
    r.1 = .failure ∧ r.2.1.children.map (fun c => (c.label, c.isBlocked)) =
      [(some (.ofBuffer [98]), false)] := by
  decide

end FilteringResolver
