import FilteringResolver.Heap.Filter
import FilteringResolver.Verify.FilterFile

/-!
# The memory of the trie

A trie owns its nodes, their labels and their children arrays (`FilterNode.blocks`), and forgetting
the addresses gives the trie of `Filter` (`FilterNode.val`). Every function of `Heap.Filter` hands
back what the function without memory hands back and leaves the blocks of the trie it hands back:
labels and half-built children are released on every way out, `filter_node_free` releases the rest.
-/

namespace FilteringResolver.Heap

open Ownership Loops Separated

/-! ## What a trie owns -/

mutual

/-- The trie without its addresses. -/
def FilterNode.val : FilterNode → FilteringResolver.FilterNode
  | ⟨_, label, array, children, isBlocked⟩ =>
    ⟨label.map (·.val), valChildren children, capacityOf array, isBlocked⟩

def valChildren : List FilterNode → List FilteringResolver.FilterNode
  | [] => []
  | child :: children => child.val :: valChildren children

end

mutual

/-- The blocks of a trie. -/
def FilterNode.blocks : FilterNode → Resources
  | ⟨addr, label, array, children, _⟩ =>
    {(Kind.block, addr)} + blockOf label + blockOf array + blocksChildren children

def blocksChildren : List FilterNode → Resources
  | [] => 0
  | child :: children => child.blocks + blocksChildren children

end

theorem valChildren_eq (children : List FilterNode) :
    valChildren children = children.map FilterNode.val := by
  induction children with
  | nil => rfl
  | cons child children ih => rw [valChildren, ih, List.map_cons]

@[simp] theorem blocksChildren_nil : blocksChildren [] = 0 := rfl

@[simp] theorem blocksChildren_cons (child : FilterNode) (children : List FilterNode) :
    blocksChildren (child :: children) = child.blocks + blocksChildren children := rfl

@[simp] theorem blocksChildren_append (children children' : List FilterNode) :
    blocksChildren (children ++ children') =
      blocksChildren children + blocksChildren children' := by
  induction children with
  | nil => simp
  | cons child children ih => simp [ih, add_assoc]

/-- Every children array has room for the children. -/
inductive FilterNode.Allocated : FilterNode → Prop where
  | node {n : FilterNode} (room : n.children.length ≤ n.childrenCapacity)
      (children : ∀ c ∈ n.children, c.Allocated) : n.Allocated

namespace FilterNode

theorem blocks_eq (n : FilterNode) :
    n.blocks = {n.block} + blockOf n.label + blockOf n.array + blocksChildren n.children := by
  obtain ⟨addr, label, array, children, isBlocked⟩ := n
  rfl

@[simp] theorem val_label (n : FilterNode) : n.val.label = n.label.map (·.val) := by
  obtain ⟨addr, label, array, children, isBlocked⟩ := n
  rfl

@[simp] theorem val_children (n : FilterNode) : n.val.children = n.children.map val := by
  obtain ⟨addr, label, array, children, isBlocked⟩ := n
  exact valChildren_eq children

@[simp] theorem val_childrenCapacity (n : FilterNode) :
    n.val.childrenCapacity = n.childrenCapacity := by
  obtain ⟨addr, label, array, children, isBlocked⟩ := n
  rfl

@[simp] theorem val_isBlocked (n : FilterNode) : n.val.isBlocked = n.isBlocked := by
  obtain ⟨addr, label, array, children, isBlocked⟩ := n
  rfl

theorem child_mem {n : FilterNode} {i : Nat} (hi : i < n.children.length) :
    n.child i ∈ n.children := by
  rw [child, List.getD_eq_getElem _ _ hi]
  exact List.getElem_mem hi

theorem val_child {n : FilterNode} {i : Nat} (hi : i < n.children.length) :
    (n.child i).val = n.val.child i := by
  rw [child, FilteringResolver.FilterNode.child, val_children, List.getD_eq_getElem _ _ hi,
    List.getD_eq_getElem _ _ (by rwa [List.length_map]), List.getElem_map]

theorem val_setChild (n c : FilterNode) (i : Nat) :
    (n.setChild i c).val = n.val.setChild i c.val := by
  obtain ⟨addr, label, array, children, isBlocked⟩ := n
  rw [setChild, FilteringResolver.FilterNode.setChild, val, val]
  simp only [valChildren_eq, List.map_set]

end FilterNode

/-- The blocks of the children, one of them taken out. -/
theorem blocksChildren_getElem {children : List FilterNode} {i : Nat} (hi : i < children.length) :
    ∃ others, ∀ c, blocksChildren (children.set i c) = others + c.blocks := by
  induction children generalizing i with
  | nil => cases hi
  | cons child children ih =>
    cases i with
    | zero =>
      refine ⟨blocksChildren children, fun c => ?_⟩
      rw [List.set_cons_zero, blocksChildren_cons, add_comm]
    | succ i =>
      obtain ⟨others, h⟩ := ih (Nat.lt_of_succ_lt_succ hi)
      refine ⟨child.blocks + others, fun c => ?_⟩
      rw [List.set_cons_succ, blocksChildren_cons, h, add_assoc]

/-! ## Releasing a trie -/

variable {own rest : Resources} {a : Allocs}

theorem blockOf_le {α : Type} {p : Option (Ptr α)} {ptr : Ptr α} (h : p = some ptr)
    (hle : blockOf p ≤ own) : ptr.block ∈ own := by
  rw [h, blockOf_some, Multiset.singleton_le] at hle
  exact hle

theorem useArray_owning {array : Option (Ptr Nat)} {i : Nat}
    {post : Unit → Allocs → Resources → Prop} (hi : i < capacityOf array)
    (hle : blockOf array ≤ own) (h : post () a own) : Owning own a (useArray array i) post := by
  cases array with
  | none => cases hi
  | some array =>
    unfold useArray
    dsimp only
    rw [if_pos (show i < array.val from hi)]
    exact .use (blockOf_le rfl hle) h

mutual

/-- **`filter_node_free` releases the blocks of a trie**, each once. -/
theorem filterNodeFree_owning : ∀ (n : FilterNode) {own rest : Resources}
    {post : Unit → Allocs → Resources → Prop}, n.Allocated → own = rest + n.blocks →
    post () a rest → Owning own a (filterNodeFree n) post
  | ⟨addr, label, array, children, isBlocked⟩, own, rest, post, halloc, hown, h => by
    obtain ⟨room, hchildren⟩ := halloc
    rw [FilterNode.blocks] at hown
    have hown' : own = rest + {(Kind.block, addr)} + blockOf array + blockOf label +
        blocksChildren children := by
      rw [hown]
      abel
    refine .bind (.use (by simp [hown]) (.bind ?_))
    refine freeChildren_owning children hchildren (by rwa [Nat.zero_add]) ?_ hown' ?_
    · rw [add_right_comm]
      exact Multiset.le_add_left _ _
    · exact .bind (free_owning rfl (.bind (free_owning rfl (.release rfl h))))

theorem freeChildren_owning : ∀ (children : List FilterNode) {array : Option (Ptr Nat)} {i : Nat}
    {own rest : Resources} {post : Unit → Allocs → Resources → Prop},
    (∀ c ∈ children, c.Allocated) → i + children.length ≤ capacityOf array →
    blockOf array ≤ rest → own = rest + blocksChildren children → post () a rest →
    Owning own a (freeChildren array i children) post
  | [], array, i, own, rest, post, _, _, _, hown, h => by
    rw [blocksChildren_nil, add_zero] at hown
    exact .pure (hown ▸ h)
  | child :: children, array, i, own, rest, post, hchildren, hroom, harray, hown, h => by
    rw [blocksChildren_cons, add_comm child.blocks, ← add_assoc] at hown
    rw [List.length_cons] at hroom
    refine .bind (useArray_owning (by omega) ?_ (.bind ?_))
    · rw [hown, add_assoc]
      exact Multiset.le_add_right _ _ |>.trans' harray
    · refine filterNodeFree_owning child (hchildren child List.mem_cons_self) hown ?_
      exact freeChildren_owning children (fun c hc => hchildren c (List.mem_cons_of_mem _ hc))
        (by omega) harray rfl h

end

/-! ## Labels -/

/-- The labels of an array. -/
def labelBlocks (labels : List (Option (Ptr CStr))) : Resources := (labels.map blockOf).sum

@[simp] theorem labelBlocks_nil : labelBlocks [] = 0 := rfl

@[simp] theorem labelBlocks_cons (label : Option (Ptr CStr)) (labels : List (Option (Ptr CStr))) :
    labelBlocks (label :: labels) = blockOf label + labelBlocks labels := by
  simp [labelBlocks]

@[simp] theorem labelBlocks_append (labels labels' : List (Option (Ptr CStr))) :
    labelBlocks (labels ++ labels') = labelBlocks labels + labelBlocks labels' := by
  simp [labelBlocks]

@[simp] theorem labelBlocks_replicate (n : Nat) : labelBlocks (List.replicate n none) = 0 := by
  induction n with
  | zero => rfl
  | succ n ih => rw [List.replicate_succ, labelBlocks_cons, ih, blockOf_none, add_zero]

/-- The blocks of an array of labels. -/
def blocksOf (labels : Labels) : Resources := {labels.block} + labelBlocks labels.val

theorem blocksOf_concat (array : Nat) (labels : List (Ptr CStr)) (label : Ptr CStr) :
    blocksOf ⟨array, (labels ++ [label]).map some⟩ =
      blocksOf ⟨array, labels.map some⟩ + {label.block} := by
  simp [blocksOf, Ptr.block]

theorem freeLabels_owning {array : Nat} {labels : List (Option (Ptr CStr))}
    {post : Unit → Allocs → Resources → Prop} (hmem : (Kind.block, array) ∈ rest)
    (hown : own = rest + labelBlocks labels) (h : post () a rest) :
    Owning own a (freeLabels array labels) post := by
  induction labels generalizing own with
  | nil =>
    rw [labelBlocks_nil, add_zero] at hown
    exact .pure (hown ▸ h)
  | cons label labels ih =>
    rw [labelBlocks_cons, ← add_assoc, add_right_comm] at hown
    have hlive : (Kind.block, array) ∈ own := by
      rw [hown, add_assoc]
      exact Multiset.mem_add.2 (.inl hmem)
    exact .bind (.use hlive (.bind (free_owning hown (ih rfl))))

theorem cleanupLabels_owning {labels : Labels} {post : Unit → Allocs → Resources → Prop}
    (hown : own = rest + blocksOf labels) (h : post () a rest) :
    Owning own a (cleanupLabels labels) post := by
  rw [blocksOf, ← add_assoc] at hown
  exact .bind (freeLabels_owning (by simp [Ptr.block]) hown (.release rfl h))

/-- The character in front of the start of a label is a dot. -/
theorem scanStart_dot {domain : Bytes} {n : Nat} (h : 0 < scanStart domain n) :
    domain.getD (scanStart domain n - 1) 0 = dot := by
  induction n with
  | zero => cases h
  | succ n ih =>
    rw [scanStart] at h ⊢
    split
    · next hne => exact ih (by rwa [if_pos hne] at h)
    · next heq => simpa using heq

/-- The backward scan passes a dot for every slot it fills but the last. -/
theorem count_scanStart {domain : Bytes} {endPos : Nat} (hend : endPos ≤ domain.length)
    (h : 0 < scanStart domain (endPos - 1)) :
    (domain.take (scanStart domain (endPos - 1) - 1)).count dot + 1 ≤
      (domain.take endPos).count dot := by
  have hdot := scanStart_dot h
  have hle := scanStart_le domain (endPos - 1)
  obtain ⟨k, hk⟩ : ∃ k, scanStart domain (endPos - 1) = k + 1 := ⟨_, (Nat.succ_pred h.ne').symm⟩
  rw [hk] at hdot hle ⊢
  rw [Nat.add_sub_cancel] at hdot ⊢
  rw [List.getD_eq_getElem _ _ (by omega)] at hdot
  have htake : domain.take (k + 1) = domain.take k ++ [dot] := by
    rw [List.take_succ_eq_append_getElem (by omega), hdot]
  calc (domain.take k).count dot + 1 = (domain.take (k + 1)).count dot := by simp [htake]
    _ ≤ (domain.take endPos).count dot :=
      (List.take_sublist_take_left (by omega)).count_le dot

/-- The loop of `split_domain_labels`: its writes stay in the array, and a failure leaves nothing
of it. -/
theorem splitLabels_owning {domain : Bytes} {array labelCount endPos : Nat}
    {labels : List (Ptr CStr)} {post : Option (List (Ptr CStr)) → Allocs → Resources → Prop}
    (hown : own = rest + blocksOf ⟨array, labels.map some⟩) (hend : endPos ≤ domain.length)
    (hslots : labels.length + (domain.take endPos).count dot < labelCount)
    (failed : ∀ a', (splitLoop domain).run ⟨endPos, labels.map (·.val), a⟩ = (none, a') →
      post none a' rest)
    (filled : ∀ a' ls, (splitLoop domain).run ⟨endPos, labels.map (·.val), a⟩ =
      (some (ls.map (·.val)), a') → post (some ls) a' (rest + blocksOf ⟨array, ls.map some⟩)) :
    Owning own a (splitLabels domain array labelCount endPos labels) post := by
  induction endPos using Nat.strong_induction_on generalizing own a labels with
  | _ endPos ih =>
    rw [splitLabels]
    have hstep : splitStep domain ⟨endPos, labels.map (·.val), a⟩ = _ := splitStep.eq_1 _ _
    dsimp only at hstep ⊢
    have hexit : ∀ {o : Option (List CStr) × Allocs},
        splitStep domain ⟨endPos, labels.map (·.val), a⟩ = .inr o →
        (splitLoop domain).run ⟨endPos, labels.map (·.val), a⟩ = o := (splitLoop domain).run_exit
    split
    · next hpos =>
      rw [if_pos hpos] at hstep
      split
      · next hzero =>
        rw [if_pos hzero] at hstep
        exact .bind (cleanupLabels_owning hown (.pure (failed a (hexit hstep))))
      rw [if_neg ‹_›] at hstep
      split
      · next hlong =>
        rw [if_pos hlong] at hstep
        exact .bind (cleanupLabels_owning hown (.pure (failed a (hexit hstep))))
      rw [if_neg ‹_›] at hstep
      rw [if_neg (by omega)]
      refine .bind (.use (by simp [hown, blocksOf, Ptr.block]) (.bind (mallocOf_owning
        (fun a' hm => ?_) fun a' addr hm => ?_)))
      · rw [hm] at hstep
        exact .bind (cleanupLabels_owning hown (.pure (failed a' (hexit hstep))))
      rw [hm] at hstep
      dsimp only at hstep ⊢
      split
      · next hmore =>
        rw [if_pos hmore] at hstep
        have hrun := (splitLoop domain).run_next hstep
        have hdots := count_scanStart hend hmore
        have hle := scanStart_le domain (endPos - 1)
        refine ih _ (by omega) ?_ (by omega) ?_ (fun a'' hr => ?_) fun a'' ls hr => ?_
        · rw [blocksOf_concat, ← add_assoc, ← hown]
          rfl
        · rw [List.length_append, List.length_singleton]
          omega
        · exact failed a'' (hrun.trans (by rwa [List.map_append] at hr))
        · exact filled a'' ls (hrun.trans (by rwa [List.map_append] at hr))
      · next hlast =>
        rw [if_neg hlast] at hstep
        have hf := filled a' (labels ++ [⟨addr, _⟩]) (by rw [hexit hstep, List.map_append]; rfl)
        rw [blocksOf_concat, ← add_assoc, ← hown] at hf
        exact .pure hf
    · next hpos =>
      rw [if_neg hpos] at hstep
      have hf := filled a labels (hexit hstep)
      rw [← hown] at hf
      exact .pure hf

/-- **`split_domain_labels` owns the labels it hands back**, or nothing. -/
theorem splitDomainLabels_owning {domain : CStr} {post : Option Labels → Allocs → Resources → Prop}
    (failed : ∀ a', FilteringResolver.splitDomainLabels domain a = (none, a') → post none a' own)
    (filled : ∀ a' (labels : Labels), FilteringResolver.splitDomainLabels domain a =
      (some (labels.val.map (·.map (·.val))), a') → post (some labels) a' (own + blocksOf labels)) :
    Owning own a (splitDomainLabels domain) post := by
  have hpure := FilteringResolver.splitDomainLabels.eq_1 domain a
  refine .bind (mallocOf_owning (fun a' hm => ?_) fun a' array hm => ?_)
  · exact .pure (failed a' (by rw [hpure, hm]))
  rw [hm] at hpure
  have hslots : 0 + (domain.bytes.take domain.bytes.length).count dot <
      domain.bytes.count dot + 1 := by
    rw [List.take_length]
    omega
  refine .bind (splitLabels_owning rfl (Nat.le_refl _) hslots (fun a'' hr => ?_)
    fun a'' ls hr => ?_)
  · rw [List.map_nil] at hr
    exact .pure (failed a'' (by rw [hpure]; dsimp only; rw [hr]))
  · rw [List.map_nil] at hr
    have hf := filled a'' ⟨array, ls.map some ++
      List.replicate (domain.bytes.count dot + 1 - ls.length) none⟩
      (by rw [hpure]; dsimp only; rw [hr]; simp)
    refine .pure ?_
    simp only [blocksOf, labelBlocks_append, labelBlocks_replicate, add_zero] at hf ⊢
    exact hf

/-! ## Children -/

theorem findChildFrom_owning {node : FilterNode} {label : Ptr CStr} {children : List FilterNode}
    {i : Nat} {post : Option Nat → Allocs → Resources → Prop}
    (hroom : i + children.length ≤ node.childrenCapacity)
    (hle : {node.block} + blockOf node.array + blocksChildren children ≤ own)
    (hlabel : label.block ∈ own)
    (h : post (((children.map FilterNode.val).findIdx? fun c => c.label == some label.val).map
      (i + ·)) a own) :
    Owning own a (findChildFrom node label i children) post := by
  induction children generalizing i with
  | nil =>
    have hnode : node.block ∈ own := Multiset.mem_of_le hle (by simp)
    exact .bind (.use hnode (.pure h))
  | cons child children ih =>
    rw [List.length_cons] at hroom
    rw [blocksChildren_cons, child.blocks_eq] at hle
    have hnode : node.block ∈ own := Multiset.mem_of_le hle (by simp)
    have hchild : child.block ∈ own := Multiset.mem_of_le hle (by simp)
    have harray : blockOf node.array ≤ own :=
      ((Multiset.le_add_left _ _).trans (Multiset.le_add_right _ _)).trans hle
    have hrest : {node.block} + blockOf node.array + blocksChildren children ≤ own :=
      le_trans (add_le_add_right (Multiset.le_add_left _ _) _) hle
    have hnext : ∀ (hne : (child.val.label == some label.val) = false),
        Owning own a (findChildFrom node label (i + 1) children) post := by
      intro hne
      refine ih (by omega) hrest ?_
      rw [List.map_cons, List.findIdx?_cons, hne, if_neg Bool.false_ne_true, Option.map_map] at h
      have hshift : ((i + ·) ∘ (· + 1)) = ((i + 1) + · : Nat → Nat) := by
        funext j
        simp only [Function.comp_apply]
        omega
      rwa [hshift] at h
    refine .bind (.use hnode (.bind (useArray_owning (Nat.lt_of_lt_of_le (by omega) hroom) harray
      (.bind (.use hchild ?_)))))
    cases hl : child.label with
    | none => exact hnext (by simp [hl])
    | some childLabel =>
      have hc : childLabel.block ∈ own := Multiset.mem_of_le hle (by simp [hl])
      refine .bind (load_owning hc (.bind (load_owning hlabel ?_)))
      split
      · next heq =>
        rw [List.map_cons, List.findIdx?_cons, if_pos (by simp [hl, heq])] at h
        exact .pure h
      · next hne => exact hnext (by simp [hl, hne])

theorem findChild_owning {node : FilterNode} {label : Ptr CStr}
    {post : Option Nat → Allocs → Resources → Prop} (halloc : node.Allocated)
    (hle : node.blocks ≤ own) (hlabel : label.block ∈ own)
    (h : post (FilteringResolver.findChild node.val (some label.val)) a own) :
    Owning own a (findChild node (some label)) post := by
  obtain ⟨room, -⟩ := halloc
  refine findChildFrom_owning (by rwa [Nat.zero_add]) (le_trans ?_ hle) hlabel ?_
  · rw [node.blocks_eq]
    exact add_le_add_left (add_le_add_left (Multiset.le_add_right _ _) _) _
  · rw [FilteringResolver.findChild, FilterNode.val_children] at h
    simpa only [Nat.zero_add, Option.map_id'] using h

namespace FilterNode

theorem Allocated.child {n : FilterNode} {i : Nat} (h : n.Allocated) (hi : i < n.children.length) :
    (n.child i).Allocated := by
  obtain ⟨-, children⟩ := h
  exact children _ (child_mem hi)

theorem Allocated.setChild {n c : FilterNode} {i : Nat} (h : n.Allocated) (hc : c.Allocated) :
    (n.setChild i c).Allocated := by
  obtain ⟨room, children⟩ := h
  refine .node (by rwa [FilterNode.setChild, List.length_set]) fun x hx => ?_
  rcases List.mem_or_eq_of_mem_set hx with hx | rfl
  · exact children x hx
  · exact hc

/-- The blocks of a node, with one of its children taken out. -/
theorem blocks_setChild {n : FilterNode} {i : Nat} (hi : i < n.children.length) :
    ∃ others, n.blocks = others + (n.child i).blocks ∧
      ∀ c, (n.setChild i c).blocks = others + c.blocks := by
  obtain ⟨others, h⟩ := blocksChildren_getElem hi
  refine ⟨{n.block} + blockOf n.label + blockOf n.array + others, ?_, fun c => ?_⟩
  · rw [add_assoc, ← h, child, List.getD_eq_getElem _ _ hi, List.set_getElem_self, n.blocks_eq]
  · rw [blocks_eq, add_assoc _ others, ← h]
    rfl

end FilterNode

/-- A node with a child at the end of a children array with room for it. -/
theorem FilterNode.link {parent c : FilterNode} (array : Option (Ptr Nat))
    (hparent : ∀ x ∈ parent.children, x.Allocated) (hc : c.Allocated)
    (hroom : parent.children.length < capacityOf array) :
    let node := { parent with array, children := parent.children ++ [c] }
    node.Allocated ∧
      node.blocks = {parent.block} + blockOf parent.label + blockOf array +
        blocksChildren parent.children + c.blocks ∧
      node.val = { parent.val with
        children := parent.val.children ++ [c.val], childrenCapacity := capacityOf array } := by
  intro node
  refine ⟨.node ?_ fun x hx => ?_, ?_, ?_⟩
  · rw [List.length_append, List.length_singleton]
    exact hroom
  · rcases List.mem_append.1 hx with hx | hx
    · exact hparent x hx
    · rwa [List.mem_singleton.1 hx]
  · rw [node.blocks_eq, blocksChildren_append, blocksChildren_cons, blocksChildren_nil, add_zero,
      ← add_assoc]
    rfl
  · obtain ⟨addr, label, array', children, isBlocked⟩ := parent
    simp only [node, val, valChildren_eq, List.map_append, List.map_singleton]

/-- **`add_child` moves the children array** to a larger block, or leaves the parent as it is. -/
theorem addChild_owning {parent c : FilterNode}
    {post : Option FilterNode → Allocs → Resources → Prop}
    (hparent : parent.Allocated) (hc : c.Allocated) (hown : own = rest + parent.blocks + c.blocks)
    (full : ∀ a', FilteringResolver.addChild parent.val c.val a = (none, a') → post none a' own)
    (linked : ∀ a' node, FilteringResolver.addChild parent.val c.val a = (some node.val, a') →
      node.Allocated → node.children = parent.children ++ [c] →
      post (some node) a' (rest + node.blocks)) :
    Owning own a (addChild parent c) post := by
  have hpure := FilteringResolver.addChild.eq_1 parent.val c.val a
  obtain ⟨room, children⟩ := hparent
  rw [FilterNode.blocks_eq] at hown
  rw [FilterNode.val_childrenCapacity, FilterNode.val_children, List.length_map] at hpure
  refine .bind (.use (by simp [hown]) ?_)
  split
  · next hfull =>
    have hroom : parent.children.length < if parent.childrenCapacity = 0 then
        initialChildrenCapacity else parent.childrenCapacity * 2 := by
      split
      · next hzero =>
        rw [hzero, Nat.le_zero] at room
        rw [room]
        decide
      · omega
    rw [if_pos hfull] at hpure
    dsimp only at hpure ⊢
    generalize (if parent.childrenCapacity = 0 then initialChildrenCapacity
      else parent.childrenCapacity * 2) = newCapacity at hroom hpure ⊢
    refine .bind (mallocOf_owning (fun a' hm => ?_) fun a' array hm => ?_)
    · exact .pure (full a' (by rw [hpure, hm]))
    obtain ⟨halloc, hblocks, hval⟩ := FilterNode.link (some ⟨array, newCapacity⟩) children hc hroom
    have hl := linked a' _ (by rw [hpure, hm, hval, FilterNode.val_children]; rfl) halloc rfl
    rw [hblocks] at hl
    have hown' : own + {(Kind.block, array)} = rest + ({parent.block} + blockOf parent.label +
        {(Kind.block, array)} + blocksChildren parent.children + c.blocks) +
          blockOf parent.array := by
      rw [hown]
      abel
    refine .bind (free_owning hown' (.bind (useArray_owning hroom ?_ (.pure hl))))
    exact Multiset.singleton_le.2 (by simp [Ptr.block])
  · next hfree =>
    rw [if_neg hfree] at hpure
    have hroom := Nat.lt_of_not_le hfree
    obtain ⟨halloc, hblocks, hval⟩ := FilterNode.link parent.array children hc hroom
    have hl := linked a _ (by rw [hpure, hval, FilterNode.val_children]; rfl) halloc rfl
    rw [hblocks, ← add_assoc, ← hown] at hl
    refine .bind (useArray_owning hroom ?_ (.pure hl))
    calc blockOf parent.array ≤ {parent.block} + blockOf parent.label + blockOf parent.array :=
        Multiset.le_add_left _ _
      _ ≤ {parent.block} + blockOf parent.label + blockOf parent.array +
          blocksChildren parent.children := Multiset.le_add_right _ _
      _ ≤ rest + ({parent.block} + blockOf parent.label + blockOf parent.array +
          blocksChildren parent.children) + c.blocks :=
        (Multiset.le_add_left _ _).trans (Multiset.le_add_right _ _)
      _ = own := hown.symm

/-! ## Adding a domain -/

/-- A node that was just created. -/
theorem allocated_of_children_nil {n : FilterNode} (h : n.children = []) : n.Allocated :=
  .node (by rw [h]; exact Nat.zero_le _) (by rw [h]; simp)

theorem filterNodeCreate_owning {post : Option FilterNode → Allocs → Resources → Prop}
    (null : ∀ a', FilteringResolver.filterNodeCreate a = (none, a') → post none a' own)
    (created : ∀ a' addr,
      FilteringResolver.filterNodeCreate a = (some FilteringResolver.FilterNode.empty, a') →
      post (some ⟨addr, none, none, [], false⟩) a' (own + {(.block, addr)})) :
    Owning own a filterNodeCreate post := by
  refine .bind (mallocOf_owning (fun a' hm => ?_) fun a' addr hm => ?_)
  · exact .pure (null a' (by rw [FilteringResolver.filterNodeCreate, hm]))
  · exact .pure (created a' addr (by rw [FilteringResolver.filterNodeCreate, hm]))

/-- **A new child** is linked to its parent, or released with the labels. -/
theorem newChild_owning {labels : Labels} {current : FilterNode} {label : Ptr CStr}
    {post : Option FilterNode → Allocs → Resources → Prop} (halloc : current.Allocated)
    (hlabel : label.block ∈ blocksOf labels)
    (hown : own = rest + current.blocks + blocksOf labels)
    (failed : ∀ a', FilteringResolver.newChild current.val (some label.val) a =
      (.failure, current.val, a') → post none a' (rest + current.blocks))
    (linked : ∀ a' node, FilteringResolver.newChild current.val (some label.val) a =
      (.success, node.val, a') → node.Allocated → node.children ≠ [] →
      post (some node) a' (rest + node.blocks + blocksOf labels)) :
    Owning own a (newChild labels current (some label)) post := by
  have hpure := FilteringResolver.newChild.eq_1 current.val (some label.val) a
  have hlive : ∀ extra, label.block ∈ own + extra := fun extra => by
    rw [hown]
    exact Multiset.mem_add.2 (.inl (Multiset.mem_add.2 (.inr hlabel)))
  refine .bind (filterNodeCreate_owning (fun a' hc => ?_) fun a' addr hc => ?_)
  · exact .bind (cleanupLabels_owning hown (.pure (failed a' (by rw [hpure, hc]))))
  rw [hc] at hpure
  dsimp only at hpure ⊢
  refine .bind (load_owning (hlive _) (.bind (mallocOf_owning (fun a'' hm => ?_)
    fun a'' copy hm => ?_)))
  · rw [strdup_of_malloc hm] at hpure
    have hfree := allocated_of_children_nil (n := ⟨addr, none, none, [], false⟩) rfl
    refine .bind (filterNodeFree_owning _ hfree (by simp [FilterNode.blocks]; rfl) ?_)
    exact .bind (cleanupLabels_owning hown (.pure (failed a'' hpure)))
  · rw [strdup_of_malloc hm] at hpure
    dsimp only at hpure ⊢
    have hchild : FilterNode.Allocated ⟨addr, some ⟨copy, label.val⟩, none, [], false⟩ :=
      allocated_of_children_nil rfl
    have hown' : own + {(Kind.block, addr)} + {(Kind.block, copy)} =
        rest + blocksOf labels + current.blocks +
          FilterNode.blocks ⟨addr, some ⟨copy, label.val⟩, none, [], false⟩ := by
      rw [hown, FilterNode.blocks]
      simp only [blockOf_some, Ptr.block, blockOf_none, blocksChildren_nil, add_zero]
      abel
    have hval : FilterNode.val ⟨addr, some ⟨copy, label.val⟩, none, [], false⟩ =
        { FilteringResolver.FilterNode.empty with label := some label.val } := rfl
    refine .bind (addChild_owning halloc hchild hown' (fun a₃ hl => ?_) fun a₃ node hl hn hch => ?_)
    · rw [hval] at hl
      refine .bind (filterNodeFree_owning _ hchild hown' ?_)
      refine .bind (cleanupLabels_owning (add_right_comm _ _ _) (.pure (failed a₃ ?_)))
      rw [hpure, if_pos rfl]
      dsimp only
      rw [hl]
    · rw [hval] at hl
      have hp : FilteringResolver.newChild current.val (some label.val) a =
          (.success, node.val, a₃) := by
        rw [hpure, if_pos rfl]
        dsimp only
        rw [hl]
      have hlk := linked a₃ node hp hn (by simp [hch])
      rw [add_right_comm] at hlk
      exact .pure hlk

/-- **The loop of `filter_add_domain`** keeps the trie in one piece on every way out: it releases
the labels, and what it leaves is the blocks of the trie it leaves. -/
theorem addLabels_owning {labels : Labels} {slots : List (Ptr CStr)} {current : FilterNode}
    {post : Ret × FilterNode → Allocs → Resources → Prop} (halloc : current.Allocated)
    (hslots : ∀ s ∈ slots, s.block ∈ blocksOf labels)
    (hown : own = rest + current.blocks + blocksOf labels)
    (h : ∀ a' ret node, FilteringResolver.addLabels (slots.map fun s => some s.val) current.val a =
      (ret, node.val, a') → node.Allocated → post (ret, node) a' (rest + node.blocks)) :
    Owning own a (addLabels labels (slots.map some) current) post := by
  induction slots generalizing current own rest a post with
  | nil =>
    have hnode : FilterNode.Allocated { current with isBlocked := true } := by
      obtain ⟨room, children⟩ := halloc
      exact .node room children
    have hp := h a .success { current with isBlocked := true }
      (by obtain ⟨addr, label, array, children, isBlocked⟩ := current; rfl) hnode
    refine .bind (.use (by simp [hown, current.blocks_eq]) ?_)
    refine .bind (cleanupLabels_owning hown (.pure ?_))
    rwa [FilterNode.blocks_eq] at hp ⊢
  | cons slot slots ih =>
    have htail : ∀ s ∈ slots, s.block ∈ blocksOf labels := fun s hs =>
      hslots s (List.mem_cons_of_mem _ hs)
    have hlabel : slot.block ∈ blocksOf labels := hslots slot List.mem_cons_self
    have hpure := FilteringResolver.addLabels.eq_2 current.val a (some slot.val)
      (slots.map fun s => some s.val)
    -- the rest of the walk below the child `i` of `node`
    have hbelow : ∀ {node : FilterNode} {i : Nat} {own' : Resources} {a₁ : Allocs},
        i < node.children.length → node.Allocated → own' = rest + node.blocks + blocksOf labels →
        (∀ a' ret (child : FilterNode), FilteringResolver.addLabels (slots.map fun s => some s.val)
            (node.val.child i) a₁ = (ret, child.val, a') →
          FilteringResolver.addLabels (some slot.val :: slots.map fun s => some s.val) current.val
            a = (ret, node.val.setChild i child.val, a')) →
        Owning own' a₁ (do
          let r ← addLabels labels (slots.map some) (node.child i)
          pure (r.1, node.setChild i r.2)) post := by
      intro node i own' a₁ hi hnode hown' hrun
      obtain ⟨others, hblocks, hset⟩ := FilterNode.blocks_setChild hi
      refine .bind (ih (hnode.child hi) htail (by rw [hown', hblocks, ← add_assoc]) ?_)
      intro a' ret child hr hchild
      rw [FilterNode.val_child hi] at hr
      have hp := h a' ret (node.setChild i child)
        (by rw [FilterNode.val_setChild]; exact hrun a' ret child hr) (hnode.setChild hchild)
      rw [hset, ← add_assoc] at hp
      exact .pure hp
    refine .bind (.use (by simp [hown, blocksOf]) (.bind (findChild_owning halloc ?_ ?_ ?_)))
    · rw [hown]
      exact (Multiset.le_add_left _ _).trans (Multiset.le_add_right _ _)
    · rw [hown]
      exact Multiset.mem_add.2 (.inr hlabel)
    cases hf : FilteringResolver.findChild current.val (some slot.val) with
    | some i =>
      rw [hf] at hpure
      have hi := findChild_lt hf
      rw [FilterNode.val_children, List.length_map] at hi
      refine hbelow hi halloc hown fun a' ret child hr => ?_
      dsimp only at hpure
      rw [hpure, hr]
    | none =>
      rw [hf] at hpure
      dsimp only at hpure
      refine .bind (newChild_owning halloc hlabel hown (fun a' hn => ?_)
        fun a' node hn hnode hne => ?_)
      · rw [hn] at hpure
        exact .pure (h a' .failure current hpure halloc)
      · rw [hn] at hpure
        have hpos := List.length_pos_iff.2 hne
        refine hbelow (by omega) hnode rfl fun a'' ret child hr => ?_
        dsimp only at hpure
        rw [FilterNode.val_children, List.length_map] at hpure
        rw [hpure, hr]

/-- A row of slots none of which is `NULL`. -/
theorem exists_slots {slots : List (Option (Ptr CStr))} {ls : List CStr}
    (h : slots.map (·.map (·.val)) = ls.map some) :
    ∃ ptrs : List (Ptr CStr), slots = ptrs.map some ∧ ptrs.map (·.val) = ls := by
  induction slots generalizing ls with
  | nil =>
    rw [List.map_nil, eq_comm, List.map_eq_nil_iff] at h
    exact ⟨[], rfl, h.symm⟩
  | cons slot slots ih =>
    cases ls with
    | nil => cases h
    | cons l ls =>
      obtain ⟨hslot, hrest⟩ := List.cons.inj h
      obtain ⟨ptr, rfl, rfl⟩ := Option.map_eq_some_iff.1 hslot
      obtain ⟨ptrs, rfl, rfl⟩ := ih hrest
      exact ⟨ptr :: ptrs, rfl, rfl⟩

theorem slot_mem_blocksOf {labels : Labels} {ptrs : List (Ptr CStr)}
    (h : labels.val = ptrs.map some) : ∀ s ∈ ptrs, s.block ∈ blocksOf labels := by
  intro s hs
  rw [blocksOf, h]
  refine Multiset.mem_add.2 (.inr ?_)
  clear h
  induction ptrs with
  | nil => cases hs
  | cons ptr ptrs ih =>
    rw [List.map_cons, labelBlocks_cons, blockOf_some, Multiset.mem_add, Multiset.mem_singleton]
    rcases List.mem_cons.1 hs with rfl | hs
    · exact .inl rfl
    · exact .inr (ih hs)

/-- **`filter_add_domain` owns the trie and nothing else**, whatever it returns. -/
theorem filterAddDomain_owning {root : FilterNode} {domain : CStr}
    {post : Ret × FilterNode → Allocs → Resources → Prop} (halloc : root.Allocated)
    (hown : own = rest + root.blocks)
    (h : ∀ a' ret node, FilteringResolver.filterAddDomain root.val domain a =
      (ret, node.val, a') → node.Allocated → post (ret, node) a' (rest + node.blocks)) :
    Owning own a (filterAddDomain root domain) post := by
  have hpure := FilteringResolver.filterAddDomain.eq_1 root.val domain a
  have hsame := fun a' hp => hown ▸ h a' .failure root hp halloc
  unfold filterAddDomain
  cases hn : normalizeDomain domain (dnsMaxNameLen + 1) with
  | none =>
    rw [hn] at hpure
    exact .pure (hsame a hpure)
  | some normalized =>
    rw [hn] at hpure
    dsimp only at hpure ⊢
    refine .bind (splitDomainLabels_owning (fun a' hs => ?_) fun a' labels hs => ?_)
    · exact .pure (hsame a' (by rw [hpure, hs]))
    · rw [hs] at hpure
      have hslots := ((splitDomainLabels_spec a (normalizeDomain_noEmptyPiece hn)).1 _
        (by rw [hs])).1
      obtain ⟨ptrs, hptrs, -⟩ := exists_slots hslots
      dsimp only
      rw [hptrs]
      refine addLabels_owning halloc (slot_mem_blocksOf hptrs) (by rw [hown]) ?_
      intro a'' ret node hr hnode
      refine h a'' ret node ?_ hnode
      rw [hpure, hptrs, List.map_map]
      exact hr

/-! ## Looking a name up -/

theorem walkLabels_owning {labels : Labels} {slots : List (Ptr CStr)} {current : FilterNode}
    {post : Bool → Allocs → Resources → Prop} (halloc : current.Allocated)
    (hslots : ∀ s ∈ slots, s.block ∈ own) (hlabels : labels.block ∈ own)
    (hle : current.blocks ≤ own)
    (h : post (FilteringResolver.walkLabels (slots.map fun s => some s.val) current.val) a own) :
    Owning own a (walkLabels labels (slots.map some) current) post := by
  induction slots generalizing current with
  | nil => exact .pure h
  | cons slot slots ih =>
    have htail : ∀ s ∈ slots, s.block ∈ own := fun s hs => hslots s (List.mem_cons_of_mem _ hs)
    rw [List.map_cons, FilteringResolver.walkLabels] at h
    refine .bind (.use hlabels (.bind (findChild_owning halloc hle
      (hslots slot List.mem_cons_self) ?_)))
    cases hf : FilteringResolver.findChild current.val (some slot.val) with
    | none =>
      rw [hf] at h
      exact .pure h
    | some i =>
      rw [hf] at h
      have hi := findChild_lt hf
      rw [FilterNode.val_children, List.length_map] at hi
      obtain ⟨others, hblocks, -⟩ := FilterNode.blocks_setChild hi
      have hchild : (current.child i).blocks ≤ own :=
        le_trans (by rw [hblocks]; exact Multiset.le_add_left _ _) hle
      have hmem : (current.child i).block ∈ own :=
        Multiset.mem_of_le hchild (by simp [FilterNode.blocks_eq])
      dsimp only at h ⊢
      rw [← FilterNode.val_child hi, FilterNode.val_isBlocked] at h
      refine .bind (.use hmem ?_)
      split
      · next hb =>
        rw [if_pos hb] at h
        exact .pure h
      · next hb =>
        rw [if_neg hb] at h
        exact ih (halloc.child hi) htail hchild h

/-- **`is_domain_blocked` leaves nothing behind** and reads only what is live. -/
theorem isDomainBlocked_owning {root : FilterNode} {domain : CStr}
    {post : Bool → Allocs → Resources → Prop} (halloc : root.Allocated) (hle : root.blocks ≤ own)
    (h : ∀ a' verdict, FilteringResolver.isDomainBlocked root.val domain a = (verdict, a') →
      post verdict a' own) :
    Owning own a (isDomainBlocked root domain) post := by
  have hpure := FilteringResolver.isDomainBlocked.eq_1 root.val domain a
  unfold isDomainBlocked
  cases hn : normalizeDomain domain (dnsMaxNameLen + 1) with
  | none =>
    rw [hn] at hpure
    exact .pure (h a false hpure)
  | some normalized =>
    rw [hn] at hpure
    dsimp only at hpure ⊢
    refine .bind (splitDomainLabels_owning (fun a' hs => ?_) fun a' labels hs => ?_)
    · exact .pure (h a' false (by rw [hpure, hs]))
    · rw [hs] at hpure
      have hslots := ((splitDomainLabels_spec a (normalizeDomain_noEmptyPiece hn)).1 _
        (by rw [hs])).1
      obtain ⟨ptrs, hptrs, -⟩ := exists_slots hslots
      have hmem := slot_mem_blocksOf hptrs
      dsimp only
      rw [hptrs]
      refine .bind (walkLabels_owning halloc (fun s hs' => Multiset.mem_add.2 (.inr (hmem s hs')))
        (by simp [blocksOf]) (hle.trans (Multiset.le_add_right _ _)) ?_)
      refine .bind (cleanupLabels_owning rfl (.pure (h a' _ ?_)))
      rw [hpure, hptrs, List.map_map]
      rfl

/-! ## The filter file -/

/-- What the loop over a file makes of a trie and the counters: it adds the domains of the reads,
with whatever the allocations of each call answered, and counts every read. -/
structure Loaded (file : Bytes) (root : FilteringResolver.FilterNode) (counts : LoadCounts)
    (calls : List (CStr × Allocs)) (node : FilteringResolver.FilterNode) (counts' : LoadCounts) :
    Prop where
  domains : calls.map Prod.fst = (fileReads file).filterMap lineDomain
  trie : node = (addDomains root calls).1
  lineNum : counts'.lineNum = counts.lineNum + (fileReads file).length
  domainsLoaded : counts'.domainsLoaded =
    counts.domainsLoaded + (addDomains root calls).2.length
  linesIgnored : counts'.linesIgnored + (addDomains root calls).2.length =
    counts.linesIgnored + (fileReads file).countP isComment + calls.length

theorem fileReads_of_fgets {file line rest : Bytes} (h : fgets lineSize file = some (line, rest)) :
    fileReads file = line :: fileReads rest := by
  unfold fgets at h
  split at h <;> [cases h; skip]
  next hfile =>
    rw [fileReads, Lines.reads_eq (by decide) hfile, Option.some.inj h]
    rfl

theorem not_isComment {line : Bytes} {domain : CStr} (h : lineDomain line = some domain) :
    isComment line = false := by
  unfold lineDomain at h
  dsimp only at h
  split at h <;> [cases h; skip]
  split at h <;> [cases h; skip]
  split at h <;> [cases h; skip]
  next hhash => simpa [isComment] using hhash

/-- A read without a domain is ignored when it is a comment. -/
theorem Loaded.skip {file line rest : Bytes} {root node : FilteringResolver.FilterNode}
    {counts counts' : LoadCounts} {calls : List (CStr × Allocs)} {ignored : Nat}
    (hreads : fileReads file = line :: fileReads rest) (hd : lineDomain line = none)
    (hignored : ignored = counts.linesIgnored + if isComment line then 1 else 0)
    (h : Loaded rest root ⟨counts.lineNum + 1, counts.domainsLoaded, ignored⟩ calls node counts') :
    Loaded file root counts calls node counts' := by
  obtain ⟨domains, trie, lineNum, domainsLoaded, linesIgnored⟩ := h
  dsimp only at lineNum domainsLoaded linesIgnored
  refine ⟨?_, trie, ?_, domainsLoaded, ?_⟩
  · rw [domains, hreads, List.filterMap_cons, hd]
  · rw [lineNum, hreads, List.length_cons]
    omega
  · rw [linesIgnored, hreads, List.countP_cons, hignored]
    omega

/-- A read with a domain is loaded when the call returns 0, and ignored otherwise. -/
theorem Loaded.add {file line rest : Bytes} {root root' node : FilteringResolver.FilterNode}
    {counts counts' : LoadCounts} {calls : List (CStr × Allocs)} {domain : CStr} {ret : Ret}
    {a a' : Allocs} {loaded ignored : Nat} (hreads : fileReads file = line :: fileReads rest)
    (hd : lineDomain line = some domain)
    (hadd : FilteringResolver.filterAddDomain root domain a = (ret, root', a'))
    (hloaded : loaded = counts.domainsLoaded + if ret = .success then 1 else 0)
    (hignored : ignored = counts.linesIgnored + if ret = .success then 0 else 1)
    (h : Loaded rest root' ⟨counts.lineNum + 1, loaded, ignored⟩ calls node counts') :
    Loaded file root counts ((domain, a) :: calls) node counts' := by
  obtain ⟨domains, trie, lineNum, domainsLoaded, linesIgnored⟩ := h
  dsimp only at lineNum domainsLoaded linesIgnored
  have hadded : (addDomains root ((domain, a) :: calls)).2.length =
      (addDomains root' calls).2.length + if ret = .success then 1 else 0 := by
    rw [addDomains, hadd]
    dsimp only
    split <;> rfl
  have honce : (if ret = .success then 1 else 0) + (if ret = .success then 0 else 1) = 1 := by
    split <;> rfl
  refine ⟨?_, ?_, ?_, ?_, ?_⟩
  · rw [List.map_cons, domains, hreads, List.filterMap_cons, hd]
  · rw [trie, addDomains, hadd]
  · rw [lineNum, hreads, List.length_cons]
    omega
  · rw [domainsLoaded, hloaded, hadded]
    omega
  · rw [hadded, hreads, List.countP_cons, not_isComment hd, if_neg Bool.false_ne_true,
      List.length_cons]
    omega

/-- **The loop of `load_filter_file`** keeps the trie in one piece and counts what it does. -/
theorem loadLines_owning {stream : Nat} {file : Bytes} {root : FilterNode} {counts : LoadCounts}
    {post : FilterNode × LoadCounts → Allocs → Resources → Prop} (halloc : root.Allocated)
    (hstream : (Kind.file, stream) ∈ rest) (hown : own = rest + root.blocks)
    (h : ∀ a' node counts' calls, loadLoop.run ⟨file, root.val, a⟩ = (node.val, a') →
      Loaded file root.val counts calls node.val counts' → node.Allocated →
      post (node, counts') a' (rest + node.blocks)) :
    Owning own a (loadLines stream file root counts) post := by
  induction hn : file.length using Nat.strongRecOn generalizing file root counts own a post with
  | _ n ih =>
    have hlive : (Kind.file, stream) ∈ own := by
      rw [hown]
      exact Multiset.mem_add.2 (.inl hstream)
    rw [loadLines]
    refine .bind (.use hlive ?_)
    split
    · next hget =>
      have hfile : file = [] := by
        by_contra hne
        rw [fgets, if_neg hne] at hget
        cases hget
      subst hfile
      exact .pure (hown ▸ h a root counts [] (Loop.run_exit _ rfl)
        ⟨rfl, rfl, rfl, rfl, rfl⟩ halloc)
    · next line rest' hget =>
      have hlt := fgets_length (by decide) hget
      rw [hn] at hlt
      have hreads := fileReads_of_fgets hget
      cases hd : lineDomain line with
      | none =>
        have hrun : loadLoop.run ⟨file, root.val, a⟩ = loadLoop.run ⟨rest', root.val, a⟩ :=
          loadLoop.run_next (by simp only [loadLoop, loadStep, hget, hd])
        dsimp only
        split
        · next hcomment =>
          refine ih _ hlt halloc hown (fun a' node counts' calls hr hl hnode => ?_) rfl
          exact h a' node counts' calls (hrun.trans hr)
            (hl.skip hreads hd (by rw [if_pos hcomment])) hnode
        · next hblank =>
          refine ih _ hlt halloc hown (fun a' node counts' calls hr hl hnode => ?_) rfl
          exact h a' node counts' calls (hrun.trans hr)
            (hl.skip hreads hd (by rw [if_neg hblank]; rfl)) hnode
      | some domain =>
        refine .bind (filterAddDomain_owning halloc hown fun a' ret node hadd hnode => ?_)
        have hrun : loadLoop.run ⟨file, root.val, a⟩ = loadLoop.run ⟨rest', node.val, a'⟩ :=
          loadLoop.run_next (by simp only [loadLoop, loadStep, hget, hd, hadd])
        dsimp only
        split
        · next hret =>
          refine ih _ hlt hnode rfl (fun a'' node' counts' calls hr hl hnode' => ?_) rfl
          exact h a'' node' counts' ((domain, a) :: calls) (hrun.trans hr)
            (hl.add hreads hd hadd (by rw [if_pos hret]) (by rw [if_pos hret]; rfl)) hnode'
        · next hret =>
          refine ih _ hlt hnode rfl (fun a'' node' counts' calls hr hl hnode' => ?_) rfl
          exact h a'' node' counts' ((domain, a) :: calls) (hrun.trans hr)
            (hl.add hreads hd hadd (by rw [if_neg hret]; rfl) (by rw [if_neg hret])) hnode'

/-- **`load_filter_file`** closes the file on every way out and owns the trie it hands back. -/
theorem loadFilterFile_owning {file : Option Bytes}
    {post : Option (FilterNode × LoadCounts) → Allocs → Resources → Prop}
    (failed : ∀ a', FilteringResolver.loadFilterFile file a = (none, a') → post none a' own)
    (loaded : ∀ a' octets root counts calls, file = some octets →
      FilteringResolver.loadFilterFile file a = (some root.val, a') →
      Loaded octets .empty ⟨0, 0, 0⟩ calls root.val counts → root.Allocated →
      post (some (root, counts)) a' (own + root.blocks)) :
    Owning own a (loadFilterFile file) post := by
  cases file with
  | none => exact .pure (failed a rfl)
  | some file =>
    have hpure := FilteringResolver.loadFilterFile.eq_2 a file
    refine .bind (.acquire fun stream => .bind (filterNodeCreate_owning (fun a' hc => ?_)
      fun a' addr hc => ?_))
    · exact .bind (.release rfl (.pure (failed a' (by rw [hpure, hc]))))
    · dsimp only at hpure
      rw [hc] at hpure
      have hroot : FilterNode.Allocated ⟨addr, none, none, [], false⟩ :=
        allocated_of_children_nil rfl
      have hown : own + {(Kind.file, stream)} + {(Kind.block, addr)} = own + {(Kind.file, stream)} +
          FilterNode.blocks ⟨addr, none, none, [], false⟩ := by simp [FilterNode.blocks]
      refine .bind (loadLines_owning hroot (by simp) hown ?_)
      intro a'' node counts' calls hr hl hnode
      have hval : FilterNode.val ⟨addr, none, none, [], false⟩ =
        FilteringResolver.FilterNode.empty := rfl
      rw [hval] at hr hl
      refine .bind (.release (add_right_comm _ _ _) (.pure ?_))
      exact loaded a'' file node counts' calls rfl (by rw [hpure]; dsimp only; rw [hr]) hl hnode

end FilteringResolver.Heap
