import Mathlib.Data.List.Dedup
import Mathlib.Data.List.Infix
import FilteringResolver.Verify.WellFormed

/-!
# The statistics of a filter

`filter_print_stats` walks the trie depth first. The nodes it visits are listed with their paths
(`FilterNode.visits`): in a well-formed trie no path is listed twice, and the listed paths are
the paths to the nodes (`nodup_visits`, `mem_visits_iff`). An insertion adds the nodes of the
initial segments of its path and no others (`addLabels_nodes`), so the nodes of a filter are the
suffixes of its names, and the numbers printed count names, suffixes and labels
(`filterPrintStats_filterOf`).
-/

namespace FilteringResolver

open PathSets Separated FilterNode

/-! ## The nodes visited -/

namespace FilterNode

mutual

/-- A node and the nodes below it in the order of the walk, each with its path. -/
def visits : FilterNode → List (List (Option CStr) × FilterNode)
  | ⟨label, children, childrenCapacity, isBlocked⟩ =>
    ([], ⟨label, children, childrenCapacity, isBlocked⟩) :: visitsChildren children

def visitsChildren : List FilterNode → List (List (Option CStr) × FilterNode)
  | [] => []
  | child :: children =>
    (visits child).map (fun v => (child.label :: v.1, v.2)) ++ visitsChildren children

end

theorem visits_eq (n : FilterNode) : n.visits = ([], n) :: visitsChildren n.children := by
  cases n
  rw [visits]

theorem visitsChildren_eq_flatMap (children : List FilterNode) :
    visitsChildren children =
      children.flatMap fun c => c.visits.map fun v => (c.label :: v.1, v.2) := by
  induction children with
  | nil => rw [visitsChildren, List.flatMap_nil]
  | cons c children ih => rw [visitsChildren, List.flatMap_cons, ih]

end FilterNode

/-- **The visited nodes** are the nodes of the trie, each with its path. -/
theorem mem_visits_iff {n m : FilterNode} {p : List (Option CStr)} (h : n.WellFormed) :
    (p, m) ∈ n.visits ↔ ∃ q : List CStr, p = q.map some ∧ n.At q m := by
  induction h generalizing p m with
  | @node n capacity labelled nodup children ih =>
    rw [visits_eq, visitsChildren_eq_flatMap]
    simp only [List.mem_cons, List.mem_flatMap, List.mem_map]
    constructor
    · intro hv
      rcases hv with hv | ⟨c, hc, v, hv, heq⟩
      · cases hv
        exact ⟨[], rfl, .here⟩
      · cases heq
        obtain ⟨q, hq, hat⟩ := (ih c hc).1 hv
        obtain ⟨l, hl, -⟩ := labelled c hc
        exact ⟨l :: q, by rw [List.map_cons, hq, hl], .child hc hl hat⟩
    · intro hq
      obtain ⟨q, rfl, hat⟩ := hq
      cases hat with
      | here => exact .inl rfl
      | @child _ c _ l q mem label rest =>
        exact .inr ⟨c, mem, (q.map some, m), (ih c mem).2 ⟨q, rfl, rest⟩, by rw [label]; rfl⟩

/-- No child has the empty path. -/
theorem nil_not_mem_visitsChildren (children : List FilterNode) :
    [] ∉ (visitsChildren children).map Prod.fst := by
  simp [visitsChildren_eq_flatMap]

/-- **No node is visited twice**, since no label is on two children of a node. -/
theorem nodup_visits {n : FilterNode} (h : n.WellFormed) : (n.visits.map Prod.fst).Nodup := by
  induction h with
  | @node n capacity labelled nodup children ih =>
    rw [visits_eq, List.map_cons, List.nodup_cons]
    refine ⟨nil_not_mem_visitsChildren _, ?_⟩
    rw [visitsChildren_eq_flatMap, List.map_flatMap, List.nodup_flatMap]
    constructor
    · intro c hc
      have hcons := (ih c hc).map (List.cons_injective (a := c.label))
      simpa only [List.map_map, Function.comp_def] using hcons
    · have hlabels : n.children.Pairwise fun c c' => c.label ≠ c'.label :=
        List.pairwise_map.1 nodup
      refine hlabels.imp fun {c c'} hne => ?_
      intro p hp hp'
      simp only [List.map_map, List.mem_map, Function.comp_apply] at hp hp'
      obtain ⟨v, -, rfl⟩ := hp
      obtain ⟨v', -, heq⟩ := hp'
      exact hne (List.cons.inj heq).1.symm

/-- Below the root, the nodes visited are those that are not the root. -/
theorem mem_visitsChildren_iff {n m : FilterNode} {p : List (Option CStr)} (h : n.WellFormed) :
    (p, m) ∈ visitsChildren n.children ↔ ∃ q : List CStr, p = q.map some ∧ q ≠ [] ∧ n.At q m := by
  have hnil := nil_not_mem_visitsChildren n.children
  have hvisits : (p, m) ∈ n.visits ↔ (p, m) = ([], n) ∨ (p, m) ∈ visitsChildren n.children := by
    rw [visits_eq, List.mem_cons]
  constructor
  · intro hv
    obtain ⟨q, rfl, hat⟩ := (mem_visits_iff h).1 (hvisits.2 (.inr hv))
    refine ⟨q, rfl, fun hq => ?_, hat⟩
    subst hq
    exact hnil (List.mem_map_of_mem hv)
  · intro hq
    obtain ⟨q, rfl, hq, hat⟩ := hq
    rcases hvisits.1 ((mem_visits_iff h).2 ⟨q, rfl, hat⟩) with heq | hv
    · exact absurd (List.map_eq_nil_iff.1 (Prod.mk.inj heq).1) hq
    · exact hv

theorem nodup_visitsChildren {n : FilterNode} (h : n.WellFormed) :
    ((visitsChildren n.children).map Prod.fst).Nodup := by
  have hvisits := nodup_visits h
  rw [visits_eq, List.map_cons, List.nodup_cons] at hvisits
  exact hvisits.2

/-- **Counting the visits**: a list of the paths to the nodes with the property `P`, each once, is
as long as the walk finds such nodes. -/
theorem countP_visitsChildren {n : FilterNode} (h : n.WellFormed) (P : FilterNode → Bool)
    {ps : List (List CStr)} (hnodup : ps.Nodup)
    (hmem : ∀ p, p ∈ ps ↔ p ≠ [] ∧ p ∈ n.reach fun m => P m = true) :
    (visitsChildren n.children).countP (fun v => P v.2) = ps.length := by
  let found := ((visitsChildren n.children).filter fun v => P v.2).map Prod.fst
  have hfound : found.Nodup :=
    (nodup_visitsChildren h).sublist (List.filter_sublist.map Prod.fst)
  have hps : (ps.map fun p => p.map some).Nodup :=
    hnodup.map (List.map_injective_iff.2 (Option.some_injective CStr))
  have hperm : found.Perm (ps.map fun p => p.map some) := by
    refine (List.perm_ext_iff_of_nodup hfound hps).2 fun p => ?_
    simp only [found, List.mem_map, List.mem_filter, Prod.exists, exists_and_right,
      exists_eq_right, hmem, h.mem_reach_iff, mem_visitsChildren_iff h]
    grind
  calc (visitsChildren n.children).countP (fun v => P v.2) = found.length := by
        rw [List.length_map, List.countP_eq_length_filter]
    _ = ps.length := by rw [hperm.length_eq, List.length_map]

/-! ## The counters -/

/-- The counters after more nodes were visited below a node at the depth. -/
def FilterStats.visited (stats : FilterStats) (depth : Nat)
    (vs : List (List (Option CStr) × FilterNode)) : FilterStats where
  totalDomains := stats.totalDomains + vs.countP (·.2.isBlocked)
  totalNodes := stats.totalNodes + vs.length
  maxDepth := vs.foldl (fun k v => max k (depth + v.1.length)) stats.maxDepth

theorem FilterStats.visited_nil (stats : FilterStats) (depth : Nat) :
    stats.visited depth [] = stats := rfl

/-- One node: the updates that the walk makes when it comes to it. -/
theorem FilterStats.visited_singleton (stats : FilterStats) (depth : Nat) (node : FilterNode) :
    stats.visited depth [([], node)] =
      { totalDomains := if node.isBlocked then stats.totalDomains + 1 else stats.totalDomains
        totalNodes := stats.totalNodes + 1
        maxDepth := if stats.maxDepth < depth then depth else stats.maxDepth } := by
  have hmax : max stats.maxDepth depth =
      if stats.maxDepth < depth then depth else stats.maxDepth := by
    split
    · next h => exact Nat.max_eq_right h.le
    · next h => exact Nat.max_eq_left (Nat.le_of_not_lt h)
  cases hb : node.isBlocked <;> simp [visited, hb, hmax]

theorem FilterStats.visited_append (stats : FilterStats) (depth : Nat)
    (vs ws : List (List (Option CStr) × FilterNode)) :
    stats.visited depth (vs ++ ws) = (stats.visited depth vs).visited depth ws := by
  simp only [visited, List.countP_append, List.length_append, List.foldl_append, Nat.add_assoc]

/-- A step down the tree is a step in depth. -/
theorem FilterStats.visited_map (stats : FilterStats) (depth : Nat) (label : Option CStr)
    (vs : List (List (Option CStr) × FilterNode)) :
    stats.visited depth (vs.map fun v => (label :: v.1, v.2)) = stats.visited (depth + 1) vs := by
  have hlen : ∀ v : List (Option CStr) × FilterNode,
      depth + (label :: v.1).length = depth + 1 + v.1.length := fun v => by
    rw [List.length_cons]
    omega
  simp only [visited, List.countP_map, List.length_map, List.foldl_map, hlen]
  rfl

mutual

/-- **The walk** counts every node it visits once, with its own mark and depth. -/
theorem countStatsRecursive_eq : ∀ (node : FilterNode) (depth : Nat) (stats : FilterStats),
    countStatsRecursive node depth stats = stats.visited depth node.visits
  | ⟨label, children, childrenCapacity, isBlocked⟩, depth, stats => by
    rw [countStatsRecursive, countStatsChildren_eq children depth, visits,
      ← List.singleton_append, FilterStats.visited_append, FilterStats.visited_singleton]
    by_cases hd : stats.maxDepth < depth <;> cases isBlocked <;> simp [hd]

theorem countStatsChildren_eq : ∀ (children : List FilterNode) (depth : Nat)
    (stats : FilterStats), countStatsChildren children (depth + 1) stats =
      stats.visited depth (visitsChildren children)
  | [], depth, stats => by
    rw [countStatsChildren, visitsChildren, FilterStats.visited_nil]
  | child :: children, depth, stats => by
    rw [countStatsChildren, countStatsRecursive_eq child, countStatsChildren_eq children,
      visitsChildren, FilterStats.visited_append, FilterStats.visited_map]

end

/-! ## The nodes of a filter -/

/-- The paths to the nodes of a tree. -/
def FilterNode.nodes (n : FilterNode) : Set (List CStr) := n.reach fun _ => True

theorem nil_mem_nodes {n : FilterNode} : [] ∈ n.nodes := nil_mem_reach.2 trivial

theorem nodes_empty : FilterNode.empty.nodes = {[]} := by
  rw [nodes, reach_empty]
  simp

/-- Marking or naming a node moves no node. -/
theorem nodes_congr {n n' : FilterNode} (h : n'.children = n.children) : n'.nodes = n.nodes :=
  ext_after (iff_of_true nil_mem_nodes nil_mem_nodes) (after_reach_congr h)

/-- The node itself is there before it gets a child, so the first step of a path is new only with
what follows it. -/
theorem nodes_union_prefixes (n : FilterNode) (label : CStr) (p : List CStr) :
    n.nodes ∪ (label :: ·) '' {q | q <+: p} = n.nodes ∪ {q | q <+: label :: p} := by
  rw [prefixes_cons, Set.union_insert, Set.insert_eq_of_mem (Set.mem_union_left _ nil_mem_nodes)]

/-- **An insertion** adds the nodes on its path, those that are missing. -/
theorem addLabels_nodes {p : List CStr} {node : FilterNode} {a : Allocs}
    (h : (addLabels (p.map some) node a).1 = .success) :
    (addLabels (p.map some) node a).2.1.nodes = node.nodes ∪ {q | q <+: p} := by
  induction p generalizing node a with
  | nil =>
    have hnil : {q : List CStr | q <+: []} = {[]} := by
      ext q
      simp
    rw [hnil, Set.union_singleton, Set.insert_eq_of_mem nil_mem_nodes]
    exact nodes_congr rfl
  | cons label p ih =>
    -- below the child for `label` the induction applies
    have below : ∀ {node : FilterNode} {i : Nat} {a : Allocs},
        findChild node (some label) = some i →
        (addLabels (p.map some) (node.child i) a).1 = .success →
        (node.setChild i (addLabels (p.map some) (node.child i) a).2.1).nodes =
          node.nodes ∪ {q | q <+: label :: p} := by
      intro node i a hf hs
      rw [← nodes_union_prefixes]
      exact reach_setChild hf (addLabels_paths p (node.child i) a).label_eq Iff.rfl (ih hs)
    simp only [List.map_cons, addLabels] at h ⊢
    cases hf : findChild node (some label) with
    | some i =>
      rw [hf] at h
      exact below hf h
    | none =>
      rw [hf] at h
      rcases newChild_cases node label a with ⟨node', a', hn, hl⟩ | ⟨a', hn⟩
      · rw [hn] at h ⊢
        have hfresh : ({ FilterNode.empty with label := some label } : FilterNode).nodes =
            {[]} := by
          rw [← nodes_empty]
          exact nodes_congr rfl
        have hlinked : node'.nodes = node.nodes ∪ {[label]} := by
          rw [nodes, hl.reach_eq hf Iff.rfl, ← nodes, ← nodes, hfresh, Set.image_singleton]
        have hlabel : [label] ∈ {q | q <+: label :: p} := ⟨p, rfl⟩
        rw [below (hl.findChild_self hf) h, hlinked, Set.union_assoc, Set.singleton_union,
          Set.insert_eq_of_mem hlabel]
      · rw [hn] at h
        cases h

/-- With memory to spare, a call adds the nodes on the path of its entry. -/
theorem filterAddDomain_nodes (root : FilterNode) (domain : CStr) :
    (filterAddDomain root domain .ok).2.1.nodes =
      root.nodes ∪ {q | ∃ e, entryOf domain = some e ∧ q <+: e.reverse} := by
  unfold filterAddDomain entryOf
  rw [← normalName]
  cases hm : normalName domain with
  | none => simp
  | some m =>
    obtain ⟨hsome, hnone, hok⟩ := splitDomainLabels_spec .ok (normalizeDomain_noEmptyPiece hm)
    rcases hs : splitDomainLabels m .ok with ⟨_ | ls, a'⟩
    · have hlong := hnone (by rw [hs]) rfl
      simp [hs, hlong]
    · obtain ⟨rfl, hshort⟩ := hsome ls (by rw [hs])
      have ha' := hok rfl
      rw [hs] at ha'
      obtain rfl : a' = .ok := ha'
      obtain ⟨node', hadd⟩ := addLabels_ok (labels m).reverse root
      have hnodes := addLabels_nodes (congrArg Prod.fst hadd)
      simpa [hs, hshort] using hnodes

/-- **The nodes of a filter** are the initial segments of its entries' paths. -/
theorem nodes_addDomains (root : FilterNode) (domains : List CStr) :
    (addDomains root (domains.map fun d => (d, .ok))).1.nodes =
      root.nodes ∪ {q | ∃ e ∈ domains.filterMap entryOf, q <+: e.reverse} := by
  induction domains generalizing root with
  | nil => simp [addDomains]
  | cons d domains ih =>
    simp only [List.map_cons, addDomains]
    rw [ih, filterAddDomain_nodes, Set.union_assoc]
    congr 1
    ext q
    cases hd : entryOf d <;> simp [hd]

/-! ## The numbers printed -/

/-- The normal forms of the domains that were added. -/
def addedNames (domains : List CStr) : List CStr :=
  (addedDomains (domains.map fun d => (d, .ok))).filterMap normalName

/-- The label suffixes of a name that are not empty. -/
def suffixes (m : CStr) : List (List CStr) := (labels m).tails.filter fun s => s ≠ []

theorem mem_suffixes {m : CStr} {s : List CStr} : s ∈ suffixes m ↔ s <:+ labels m ∧ s ≠ [] := by
  simp [suffixes, List.mem_tails]

/-- The names added have the entries as their labels. -/
theorem map_labels_addedNames (domains : List CStr) :
    (addedNames domains).map labels = domains.filterMap entryOf := by
  rw [addedNames, addedDomains_ok]
  induction domains with
  | nil => rfl
  | cons d domains ih =>
    cases hd : entryOf d with
    | none => simpa [hd] using ih
    | some e =>
      obtain ⟨m, hm, -, rfl⟩ := entryOf_eq_some.1 hd
      simpa [hd, hm] using ih

/-- The path to a blocked node is that of a name. -/
theorem mem_paths_iff_addedNames {domains : List CStr} {p : List CStr} :
    p ∈ (filterOf domains).paths ↔ ∃ m ∈ addedNames domains, p = (labels m).reverse := by
  rw [mem_paths_filterOf, ← map_labels_addedNames]
  simp only [List.mem_map, exists_exists_and_eq_and]

/-- The path to a node below the root is that of a suffix of a name. -/
theorem mem_nodes_iff_addedNames {domains : List CStr} {p : List CStr} :
    p ≠ [] ∧ p ∈ (filterOf domains).nodes ↔
      ∃ m ∈ addedNames domains, p.reverse ∈ suffixes m := by
  have hentries : p ∈ (filterOf domains).nodes ↔
      p = [] ∨ ∃ e ∈ domains.filterMap entryOf, p <+: e.reverse := by
    rw [filterOf, buildFilter, nodes_addDomains, nodes_empty]
    rfl
  rw [hentries, ← map_labels_addedNames]
  simp only [List.mem_map, exists_exists_and_eq_and, mem_suffixes, ne_eq, List.reverse_eq_nil_iff,
    ← List.reverse_prefix, List.reverse_reverse]
  grind

theorem wellFormed_filterOf (domains : List CStr) : (filterOf domains).WellFormed :=
  wellFormed_buildFilter _

theorem countP_blocked (domains : List CStr) :
    (visitsChildren (filterOf domains).children).countP (·.2.isBlocked) =
      (addedNames domains).dedup.length := by
  have hinj : Function.Injective fun m => (labels m).reverse :=
    List.reverse_injective.comp labels_injective
  rw [countP_visitsChildren (wellFormed_filterOf domains) (·.isBlocked)
    ((addedNames domains).nodup_dedup.map hinj), List.length_map]
  intro p
  rw [← paths_eq_reach, mem_paths_iff_addedNames, List.mem_map]
  constructor
  · intro hp
    obtain ⟨m, hm, rfl⟩ := hp
    exact ⟨labels_reverse_ne_nil m, m, List.mem_dedup.1 hm, rfl⟩
  · intro hp
    obtain ⟨-, m, hm, rfl⟩ := hp
    exact ⟨m, List.mem_dedup.2 hm, rfl⟩

theorem length_visits_filterOf (domains : List CStr) :
    (visitsChildren (filterOf domains).children).length =
      ((addedNames domains).flatMap suffixes).dedup.length := by
  have hall : (visitsChildren (filterOf domains).children).length =
      (visitsChildren (filterOf domains).children).countP fun _ => true := by
    rw [List.countP_true]
  rw [hall, countP_visitsChildren (wellFormed_filterOf domains) (fun _ => true)
    ((List.nodup_dedup _).map List.reverse_injective), List.length_map]
  intro p
  have hnodes : p ∈ (filterOf domains).reach (fun _ => true = true) ↔
      p ∈ (filterOf domains).nodes := by simp only [nodes]
  rw [hnodes, mem_nodes_iff_addedNames]
  simp only [List.mem_map, List.mem_dedup, List.mem_flatMap]
  constructor
  · intro hp
    obtain ⟨s, ⟨m, hm, hs⟩, rfl⟩ := hp
    exact ⟨m, hm, by rwa [List.reverse_reverse]⟩
  · intro hp
    obtain ⟨m, hm, hs⟩ := hp
    exact ⟨p.reverse, ⟨m, hm, hs⟩, List.reverse_reverse p⟩

theorem foldl_max_le_iff {l : List Nat} {b k : Nat} :
    l.foldl max b ≤ k ↔ b ≤ k ∧ ∀ x ∈ l, x ≤ k := by
  induction l generalizing b with
  | nil => simp
  | cons x l ih => simp [ih, and_assoc]

/-- The deepest node is the first label of the longest name. -/
theorem deepest_visit (domains : List CStr) :
    (visitsChildren (filterOf domains).children).foldl (fun k v => max k (0 + v.1.length)) 0 =
      ((addedNames domains).map fun m => (labels m).length).foldl max 0 := by
  have hroot := wellFormed_filterOf domains
  rw [← List.foldl_map (f := fun v : List (Option CStr) × FilterNode => 0 + v.1.length)]
  refine eq_of_forall_ge_iff fun k => ?_
  simp only [foldl_max_le_iff, List.forall_mem_map, Nat.zero_le, true_and]
  constructor
  · intro hvisits m hm
    have hnode : (labels m).reverse ≠ [] ∧ (labels m).reverse ∈ (filterOf domains).nodes :=
      mem_nodes_iff_addedNames.2 ⟨m, hm, mem_suffixes.2 (by simp [labels_ne_nil])⟩
    obtain ⟨n, hat, -⟩ := hroot.mem_reach_iff.1 hnode.2
    have hv := hvisits _ ((mem_visitsChildren_iff hroot).2 ⟨_, rfl, hnode.1, hat⟩)
    simpa using hv
  · intro hnames v hv
    obtain ⟨q, hq, hne, hat⟩ := (mem_visitsChildren_iff hroot).1 hv
    obtain ⟨m, hm, hs⟩ := mem_nodes_iff_addedNames.1
      ⟨hne, hroot.mem_reach_iff.2 ⟨v.2, hat, trivial⟩⟩
    have hle : q.length ≤ (labels m).length := by
      simpa using (mem_suffixes.1 hs).1.length_le
    have hk := hnames m hm
    simp only [hq, List.length_map]
    omega

/-- **The reported statistics match the loaded set**: the domains are the distinct normal forms
of the names added, the nodes their distinct suffixes, and the depth the most labels of one. -/
theorem filterPrintStats_filterOf (domains : List CStr) :
    filterPrintStats (some (filterOf domains)) true = some
      { totalDomains := (addedNames domains).dedup.length
        totalNodes := ((addedNames domains).flatMap suffixes).dedup.length
        maxDepth := ((addedNames domains).map fun m => (labels m).length).foldl max 0 } := by
  rw [filterPrintStats, if_neg (by decide), Option.map_some, countStatsChildren_eq,
    FilterStats.visited, countP_blocked, length_visits_filterOf, deepest_visit, Nat.zero_add,
    Nat.zero_add]

/-- `a.b`, its suffix `b`, and `a.b` once more: two names on two nodes. -/
example :
    filterPrintStats (some (filterOf [.ofBuffer [97, 46, 98], .ofBuffer [98],
      .ofBuffer [65, 46, 98, 46]])) true =
      some { totalDomains := 2, totalNodes := 2, maxDepth := 2 } := by
  decide

end FilteringResolver
