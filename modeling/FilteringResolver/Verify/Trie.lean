import FilteringResolver.Filter
import FilteringResolver.Lib.PathSet

/-!
# The trie denotes a set of paths

`FilterNode.paths` is the set of label paths from a node to the blocked nodes below it, and
`reach` the same for the nodes with any property; writing to a child and linking one change such
a set by the child's own (`reach_setChild`, `Linked.reach_eq`). Inserting a path adds it when the
call succeeds and leaves the set alone when it fails (`addLabels_paths`), and the walk of a lookup
decides whether the set covers the labels it is given (`walkLabels_iff`).
-/

namespace FilteringResolver

open PathSets

namespace FilterNode

/-- The node reached from a node along the labels, by the children `find_child` finds. -/
def descend : FilterNode → List CStr → Option FilterNode
  | node, [] => some node
  | node, label :: labels =>
    match findChild node (some label) with
    | none => none
    | some i => (node.child i).descend labels
  termination_by structural _ labels => labels

/-- The paths from a node to the blocked nodes below it. -/
def paths (node : FilterNode) : Set (List CStr) :=
  {p | ∃ n, node.descend p = some n ∧ n.isBlocked = true}

theorem nil_mem_paths {node : FilterNode} : [] ∈ node.paths ↔ node.isBlocked = true := by
  simp [paths, descend]

/-- The paths from a node to the nodes below it with the property `P`. -/
def reach (P : FilterNode → Prop) (node : FilterNode) : Set (List CStr) :=
  {p | ∃ n, node.descend p = some n ∧ P n}

theorem paths_eq_reach (node : FilterNode) : node.paths = node.reach (·.isBlocked = true) := rfl

section

variable {P : FilterNode → Prop}

theorem nil_mem_reach {node : FilterNode} : [] ∈ node.reach P ↔ P node := by
  simp [reach, descend]

theorem after_reach_none {node : FilterNode} {label : CStr}
    (h : findChild node (some label) = none) : after (node.reach P) label = ∅ := by
  ext p
  simp [reach, descend, h]

theorem after_reach_some {node : FilterNode} {label : CStr} {i : Nat}
    (h : findChild node (some label) = some i) :
    after (node.reach P) label = (node.child i).reach P := by
  ext p
  simp [reach, descend, h]

/-- The root of a fresh tree reaches itself only. -/
theorem reach_empty : empty.reach P = {p | p = [] ∧ P empty} := by
  apply ext_after
  · simp [nil_mem_reach]
  · intro label
    rw [after_reach_none (by simp [findChild, empty])]
    ext p
    simp

/-- Only the children are below a node, not its label or its mark. -/
theorem after_reach_congr {node node' : FilterNode} (h : node'.children = node.children)
    (label : CStr) : after (node'.reach P) label = after (node.reach P) label := by
  have hfind : findChild node' (some label) = findChild node (some label) := by
    simp only [findChild, h]
  have hchild : ∀ i, node'.child i = node.child i := fun i => by simp only [child, h]
  cases hf : findChild node (some label) with
  | none => rw [after_reach_none hf, after_reach_none (hfind.trans hf)]
  | some i => rw [after_reach_some hf, after_reach_some (hfind.trans hf), hchild]

end

theorem after_paths_none {node : FilterNode} {label : CStr}
    (h : findChild node (some label) = none) : after node.paths label = ∅ :=
  after_reach_none h

theorem after_paths_some {node : FilterNode} {label : CStr} {i : Nat}
    (h : findChild node (some label) = some i) :
    after node.paths label = (node.child i).paths :=
  after_reach_some h

theorem paths_empty : empty.paths = ∅ := by
  rw [paths_eq_reach, reach_empty]
  simp [empty]

/-- Marking a node adds the empty path. -/
theorem paths_block (node : FilterNode) :
    ({ node with isBlocked := true } : FilterNode).paths = insert [] node.paths := by
  apply ext_after
  · simp [nil_mem_paths]
  · intro label
    rw [after_insert_nil]
    exact after_reach_congr rfl label

/-- The label of a node is not on the paths below it. -/
theorem paths_relabel (node : FilterNode) (label : Option CStr) :
    ({ node with label } : FilterNode).paths = node.paths := by
  apply ext_after
  · simp [nil_mem_paths]
  · exact after_reach_congr rfl

end FilterNode

open FilterNode

/-! ## Children -/

theorem findChild_lt {node : FilterNode} {label : CStr} {i : Nat}
    (h : findChild node (some label) = some i) : i < node.children.length := by
  obtain ⟨hi, -, -⟩ := List.findIdx?_eq_some_iff_getElem.1 h
  exact hi

theorem findChild_label {node : FilterNode} {label : CStr} {i : Nat}
    (h : findChild node (some label) = some i) : (node.child i).label = some label := by
  obtain ⟨hi, hl, -⟩ := List.findIdx?_eq_some_iff_getElem.1 h
  simpa [child, List.getElem?_eq_getElem hi] using hl

/-- `find_child` only reads the labels of the children. -/
theorem findChild_congr {node node' : FilterNode} (label : CStr)
    (h : node'.children.map (·.label) = node.children.map (·.label)) :
    findChild node' (some label) = findChild node (some label) := by
  have key : ∀ n : FilterNode, findChild n (some label) =
      (n.children.map (·.label)).findIdx? (· == some label) := fun n => by
    simp [findChild, List.findIdx?_map, Function.comp_def]
  rw [key, key, h]

/-- A write to a child that keeps its label leaves the row of labels as it was. -/
theorem map_label_setChild {node c : FilterNode} {i : Nat} (hc : c.label = (node.child i).label) :
    (node.setChild i c).children.map (·.label) = node.children.map (·.label) := by
  simp only [setChild, List.map_set]
  apply List.ext_getElem (by simp)
  intro j hj _
  rw [List.getElem_set]
  split
  · next hij =>
    subst hij
    simp only [List.length_set, List.length_map] at hj
    simp [hc, child, List.getElem?_eq_getElem hj]
  · rfl

theorem findChild_setChild {node c : FilterNode} {i : Nat} (hc : c.label = (node.child i).label)
    (label : CStr) : findChild (node.setChild i c) (some label) = findChild node (some label) :=
  findChild_congr label (map_label_setChild hc)

theorem child_setChild_self {node c : FilterNode} {i : Nat} (hi : i < node.children.length) :
    (node.setChild i c).child i = c := by
  simp [setChild, child, hi]

theorem child_setChild_of_ne {node c : FilterNode} {i j : Nat} (h : i ≠ j) :
    (node.setChild i c).child j = node.child j := by
  simp [setChild, child, List.getElem?_set_ne h]

/-- Replacing the child found for `label` by one that reaches more adds what it reaches, each
path after `label`. -/
theorem reach_setChild {P : FilterNode → Prop} {node c : FilterNode} {label : CStr} {i : Nat}
    {S : Set (List CStr)} (h : findChild node (some label) = some i)
    (hc : c.label = (node.child i).label) (hP : P (node.setChild i c) ↔ P node)
    (hS : c.reach P = (node.child i).reach P ∪ S) :
    (node.setChild i c).reach P = node.reach P ∪ (label :: ·) '' S := by
  apply ext_after
  · simp [nil_mem_reach, hP]
  · intro label'
    by_cases hl : label' = label
    · subst hl
      rw [after_union_image_self, after_reach_some h,
        after_reach_some ((findChild_setChild hc label').trans h),
        child_setChild_self (findChild_lt h), hS]
    · rw [after_union_image_of_ne hl]
      cases hf : findChild node (some label') with
      | none =>
        rw [after_reach_none hf, after_reach_none ((findChild_setChild hc label').trans hf)]
      | some j =>
        have hij : i ≠ j := by
          rintro rfl
          have := (findChild_label h).symm.trans (findChild_label hf)
          exact hl (Option.some.inj this).symm
        rw [after_reach_some hf, after_reach_some ((findChild_setChild hc label').trans hf),
          child_setChild_of_ne hij]

/-- Replacing the child found for `label` by one with one more path adds this path, after
`label`. -/
theorem paths_setChild {node c : FilterNode} {label : CStr} {i : Nat} {p : List CStr}
    (h : findChild node (some label) = some i) (hc : c.label = (node.child i).label)
    (hp : c.paths = insert p (node.child i).paths) :
    (node.setChild i c).paths = insert (label :: p) node.paths := by
  rw [← Set.union_singleton] at hp ⊢
  rw [paths_eq_reach, reach_setChild h hc Iff.rfl hp, Set.image_singleton]
  rfl

/-- Replacing the child found for `label` by one with the same paths changes no path. -/
theorem paths_setChild_eq {node c : FilterNode} {label : CStr} {i : Nat}
    (h : findChild node (some label) = some i) (hc : c.label = (node.child i).label)
    (hp : c.paths = (node.child i).paths) : (node.setChild i c).paths = node.paths := by
  rw [← Set.union_empty (node.child i).paths] at hp
  rw [paths_eq_reach, reach_setChild h hc Iff.rfl hp, Set.image_empty, Set.union_empty]
  rfl

/-! ## Creating a child -/

/-- `parent` with a fresh child for `label` behind its other children. -/
def Linked (parent : FilterNode) (label : CStr) (node : FilterNode) : Prop :=
  node.label = parent.label ∧ node.isBlocked = parent.isBlocked ∧
    node.children = parent.children ++ [{ FilterNode.empty with label := some label }]

theorem addChild_cases (parent c : FilterNode) (a : Allocs) :
    (∃ node a', addChild parent c a = (some node, a') ∧ node.label = parent.label ∧
      node.isBlocked = parent.isBlocked ∧ node.children = parent.children ++ [c]) ∨
    ∃ a', addChild parent c a = (none, a') := by
  unfold addChild malloc
  split
  · cases a.head with
    | false => exact Or.inr ⟨_, rfl⟩
    | true => exact Or.inl ⟨_, _, rfl, rfl, rfl, rfl⟩
  · exact Or.inl ⟨_, _, rfl, rfl, rfl, rfl⟩

/-- What creating a child does: it succeeds and links a fresh child, or fails and leaves the
parent as it was. -/
theorem newChild_cases (node : FilterNode) (label : CStr) (a : Allocs) :
    (∃ node' a', newChild node (some label) a = (.success, node', a') ∧
      Linked node label node') ∨
    ∃ a', newChild node (some label) a = (.failure, node, a') := by
  unfold newChild filterNodeCreate malloc
  cases a.head with
  | false => exact Or.inr ⟨_, rfl⟩
  | true =>
    simp only [strdup]
    cases a.tail.head with
    | false => exact Or.inr ⟨_, rfl⟩
    | true =>
      simp only [ite_true]
      rcases addChild_cases node { FilterNode.empty with label := some label } a.tail.tail with
        ⟨node', a', h, hl⟩ | ⟨a', h⟩
      · rw [h]
        exact Or.inl ⟨node', a', rfl, hl⟩
      · rw [h]
        exact Or.inr ⟨a', rfl⟩

theorem Linked.findChild_self {parent node : FilterNode} {label : CStr}
    (h : Linked parent label node) (hf : findChild parent (some label) = none) :
    findChild node (some label) = some (node.children.length - 1) := by
  have hf' : parent.children.findIdx? (fun c => c.label == some label) = none := hf
  simp [findChild, h.2.2, List.findIdx?_append, hf', List.findIdx?_singleton]

theorem Linked.child_last {parent node : FilterNode} {label : CStr} (h : Linked parent label node) :
    node.child (node.children.length - 1) = { FilterNode.empty with label := some label } := by
  simp [child, h.2.2]

/-- Linking a fresh child adds what the child reaches. -/
theorem Linked.reach_eq {P : FilterNode → Prop} {parent node : FilterNode} {label : CStr}
    (h : Linked parent label node) (hf : findChild parent (some label) = none)
    (hP : P node ↔ P parent) :
    node.reach P = parent.reach P ∪
      (label :: ·) '' ({ FilterNode.empty with label := some label } : FilterNode).reach P := by
  apply ext_after
  · simp [nil_mem_reach, hP]
  · intro label'
    by_cases hl : label' = label
    · subst hl
      rw [after_union_image_self, after_reach_none hf, after_reach_some (h.findChild_self hf),
        h.child_last, Set.empty_union]
    · rw [after_union_image_of_ne hl]
      cases hf' : findChild parent (some label') with
      | none =>
        have hn : findChild node (some label') = none := by
          have hf'' : parent.children.findIdx? (fun c => c.label == some label') = none := hf'
          simp [findChild, h.2.2, List.findIdx?_append, hf'', List.findIdx?_singleton,
            Ne.symm hl]
        rw [after_reach_none hf', after_reach_none hn]
      | some j =>
        have hn : findChild node (some label') = some j := by
          have hf'' : parent.children.findIdx? (fun c => c.label == some label') = some j := hf'
          simp [findChild, h.2.2, List.findIdx?_append, hf'']
        have hc : node.child j = parent.child j := by
          simp [child, h.2.2, List.getElem?_append_left (findChild_lt hf')]
        rw [after_reach_some hf', after_reach_some hn, hc]

/-- A fresh child is not blocked, so linking it changes no path. -/
theorem Linked.paths_eq {parent node : FilterNode} {label : CStr} (h : Linked parent label node)
    (hf : findChild parent (some label) = none) : node.paths = parent.paths := by
  rw [paths_eq_reach, h.reach_eq hf (by rw [h.2.1]), ← paths_eq_reach, ← paths_eq_reach,
    paths_relabel, paths_empty, Set.image_empty, Set.union_empty]

/-! ## Inserting a path -/

/-- What an insertion of the path `p` does: no undefined step, the label of the node stays, and
the path is added exactly when the call returns 0. -/
structure Inserted (p : List CStr) (node : FilterNode) (r : Ret × FilterNode × Allocs) : Prop where
  defined : r.1 ≠ .undefined
  label_eq : r.2.1.label = node.label
  success : r.1 = .success → r.2.1.paths = insert p node.paths
  failure : r.1 ≠ .success → r.2.1.paths = node.paths

/-- An insertion below the child found for `label` is an insertion below the node. -/
theorem Inserted.setChild {node : FilterNode} {label : CStr} {i : Nat} {p : List CStr}
    {r : Ret × FilterNode × Allocs} (h : findChild node (some label) = some i)
    (hr : Inserted p (node.child i) r) :
    Inserted (label :: p) node (r.1, node.setChild i r.2.1, r.2.2) where
  defined := hr.defined
  label_eq := rfl
  success hs := paths_setChild h hr.label_eq (hr.success hs)
  failure hs := paths_setChild_eq h hr.label_eq (hr.failure hs)

/-- **Insertion**: `filter_add_domain`'s walk adds the path it is given, or fails and leaves the
set of blocked paths as it was, whatever allocations fail. -/
theorem addLabels_paths (p : List CStr) (node : FilterNode) (a : Allocs) :
    Inserted p node (addLabels (p.map some) node a) := by
  induction p generalizing node a with
  | nil => exact ⟨by simp [addLabels], rfl, fun _ => paths_block node, fun h => absurd rfl h⟩
  | cons label p ih =>
    simp only [List.map_cons, addLabels]
    cases hf : findChild node (some label) with
    | some i => exact (ih (node.child i) a).setChild hf
    | none =>
      rcases newChild_cases node label a with ⟨node', a', hn, hl⟩ | ⟨a', hn⟩
      · rw [hn]
        have h := (ih (node'.child (node'.children.length - 1)) a').setChild (hl.findChild_self hf)
        exact ⟨h.defined, h.label_eq.trans hl.1, fun hs => hl.paths_eq hf ▸ h.success hs,
          fun hs => hl.paths_eq hf ▸ h.failure hs⟩
      · rw [hn]
        exact ⟨by simp, rfl, fun hs => by simp at hs, fun _ => rfl⟩

/-! ## Looking labels up -/

/-- **Lookup**: below a node that is not itself blocked, the walk of `is_domain_blocked` stops
at a blocked node exactly when the blocked paths cover the labels. -/
theorem walkLabels_iff (p : List CStr) (node : FilterNode) (h : node.isBlocked = false) :
    walkLabels (p.map some) node = true ↔ Covers node.paths p := by
  induction p generalizing node with
  | nil => simp [walkLabels, covers_nil, nil_mem_paths, h]
  | cons label p ih =>
    have hnil : [] ∉ node.paths := by simp [nil_mem_paths, h]
    simp only [List.map_cons, walkLabels, covers_cons, hnil, false_or]
    cases hf : findChild node (some label) with
    | none => simp [after_paths_none hf, not_covers_empty]
    | some i =>
      simp only [after_paths_some hf]
      cases hb : (node.child i).isBlocked with
      | true => simpa using covers_of_nil_mem (nil_mem_paths.2 hb)
      | false => simpa using ih (node.child i) hb

end FilteringResolver
