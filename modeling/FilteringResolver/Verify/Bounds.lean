import FilteringResolver.Verify.Message
import FilteringResolver.Verify.Stats
import Mathlib.Algebra.BigOperators.Group.Finset.Basic

/-!
# Bounds

What a datagram can cost the parser and a filter file the trie. The passes over the names of a
message, which are those of the questions that the parser tries (`messagePasses_eq_sum`), are
bounded by the size of the datagram, whatever its header counts and its pointers point to
(`parseDnsMessage_passes`). The walks of the trie are never more than 128 labels deep, and the
children arrays are filled to more than half when they have grown (`loadFilterFile_slim`).
-/

namespace FilteringResolver

open Loops Separated

/-! ## The passes of the parser -/

/-- A name takes at most 138 passes: a label is worth two of the 255 characters or more, and there
are ten pointers. -/
theorem nameLoop_passes_le (b : Buffer) (nameLen offset : Nat) :
    (nameLoop b nameLen).passes ⟨offset, [], 0, false, offset⟩ ≤ 138 := by
  let left (s : NameState) : Nat :=
    2 * (maxCompressionJumps - s.jumpCount) + (dnsMaxNameLen - s.name.length)
  have hpass : ∀ s t, nameStep b nameLen s = .inl t → left t + 2 ≤ left s := by
    intro s t h
    rcases nameStep_next h with ⟨one_le, -, fits, -, hlen, rfl⟩ | ⟨-, -, -, hjumps, rfl⟩
    · have hslice : (b.slice (s.pos + 1) (b.get s.pos).toNat).length = (b.get s.pos).toNat :=
        Buffer.length_slice fits
      simp only [left, List.length_append, List.length_singleton, hslice]
      omega
    · simp only [left]
      omega
  have hbound := (nameLoop b nameLen).mul_passes_le hpass ⟨offset, [], 0, false, offset⟩
  simp only [left, maxCompressionJumps, dnsMaxNameLen, List.length_nil] at hbound
  omega

/-- The passes over the names of `n` questions from an offset on, up to a question that fails. -/
def questionPasses (b : Buffer) : Nat → Nat → Allocs → Nat
  | 0, _, _ => 0
  | n + 1, offset, a =>
    if b.len ≤ offset then 0
    else
      (nameLoop b (dnsMaxNameLen + 1)).passes ⟨offset, [], 0, false, offset⟩ +
        match parseDnsQuestion b offset a with
        | (none, _) => 0
        | (some (_, offset), a) => questionPasses b n offset a

/-- Each question but the last takes up five octets or more. -/
theorem questionPasses_le (b : Buffer) (n offset : Nat) (a : Allocs) :
    questionPasses b n offset a ≤ 138 * ((b.len - offset) / 5 + 1) := by
  induction n generalizing offset a with
  | zero => exact Nat.zero_le _
  | succ n ih =>
    rw [questionPasses]
    split
    · exact Nat.zero_le _
    next hoffset =>
    have hname := nameLoop_passes_le b (dnsMaxNameLen + 1) offset
    rcases hq : parseDnsQuestion b offset a with ⟨_ | ⟨q, next⟩, a'⟩
    · dsimp only
      omega
    · obtain ⟨ls, jumps, fin, hat, -, rfl⟩ := parseDnsQuestion_sound hq
      have hfin := hat.decodes.lt_fin
      have hfits := hat.fits
      have hrest := ih (fin + 4) a'
      dsimp only
      omega

/-- The passes over the names of a message. -/
def messagePasses (b : Buffer) (a : Allocs) : Nat :=
  match parseDnsHeader b with
  | none => 0
  | some header =>
    match malloc a with
    | (false, _) => 0
    | (true, a) => questionPasses b header.qdcount.toNat dnsHeaderSize a

/-- The passes over the name of a question at an offset; behind the end there is no name. -/
def namePasses (b : Buffer) (offset : Nat) : Nat :=
  if b.len ≤ offset then 0
  else (nameLoop b (dnsMaxNameLen + 1)).passes ⟨offset, [], 0, false, offset⟩

/-- The question after `k` others is tried where `parse_dns_question` has left the offset after
these, and it is not tried when one of them failed. -/
theorem questionPasses_eq_sum (b : Buffer) (n offset : Nat) (a : Allocs) :
    questionPasses b n offset a =
      ∑ k ∈ Finset.range n, (parseQuestions b k offset a).1.elim 0 fun r => namePasses b r.2 := by
  induction n generalizing offset a with
  | zero => rfl
  | succ n ih =>
    have hfirst : (parseQuestions b 0 offset a).1.elim 0 (fun r => namePasses b r.2) =
        namePasses b offset := rfl
    rw [Finset.sum_range_succ', hfirst, questionPasses]
    rcases hq : parseDnsQuestion b offset a with ⟨_ | ⟨q, next⟩, a'⟩
    · have hnone : ∀ k, (parseQuestions b (k + 1) offset a).1 = none := by
        intro k
        rw [parseQuestions, hq]
      simp only [hnone, Option.elim_none, Finset.sum_const_zero, namePasses, zero_add, add_zero]
    · have hnext : ∀ k, (parseQuestions b (k + 1) offset a).1.elim 0 (fun r => namePasses b r.2) =
          (parseQuestions b k next a').1.elim 0 fun r => namePasses b r.2 := by
        intro k
        rw [parseQuestions, hq]
        dsimp only
        rcases parseQuestions b k next a' with ⟨_ | ⟨qs, last⟩, a''⟩ <;> rfl
      have hoffset : ¬ b.len ≤ offset := by
        intro hle
        rw [parseDnsQuestion, if_pos hle] at hq
        cases hq
      rw [Finset.sum_congr rfl fun k _ => hnext k, ← ih, namePasses, if_neg hoffset,
        if_neg hoffset]
      exact Nat.add_comm _ _

/-- The passes of a message are those of the questions that `parse_dns_message` tries: none after a
header or an allocation that fails, else up to the first question that fails. -/
theorem messagePasses_eq_sum (b : Buffer) (a : Allocs) :
    messagePasses b a = (parseDnsHeader b).elim 0 fun header =>
      if a.head then
        ∑ k ∈ Finset.range header.qdcount.toNat,
          (parseQuestions b k dnsHeaderSize a.tail).1.elim 0 fun r => namePasses b r.2
      else 0 := by
  unfold messagePasses malloc
  cases parseDnsHeader b with
  | none => rfl
  | some header =>
    cases a.head with
    | false => rfl
    | true => exact questionPasses_eq_sum b _ _ _

/-- **No datagram is expensive**: whatever the header counts and the pointers point to, a name takes
at most 138 passes, and the names of a message take a number of passes that is linear in its
size. -/
theorem parseDnsMessage_passes (b : Buffer) (a : Allocs) :
    (∀ offset, namePasses b offset ≤ 138) ∧
      messagePasses b a ≤ 138 * ((b.len - dnsHeaderSize) / 5 + 1) := by
  constructor
  · intro offset
    unfold namePasses
    split
    · exact Nat.zero_le _
    · exact nameLoop_passes_le b _ offset
  · unfold messagePasses
    split <;> [exact Nat.zero_le _; skip]
    split
    · exact Nat.zero_le _
    · exact questionPasses_le _ _ _ _

/-! ## The shape of the trie -/

/-- At most `d` levels of nodes, each with an array that is filled to more than half when it has
grown beyond four slots. -/
inductive FilterNode.Slim : Nat → FilterNode → Prop where
  | node {d : Nat} {n : FilterNode} (fits : n.children.length ≤ n.childrenCapacity)
      (filled : n.childrenCapacity ≤ 4 ∨ n.childrenCapacity < 2 * n.children.length)
      (children : ∀ c ∈ n.children, c.Slim d) : n.Slim (d + 1)

namespace FilterNode

theorem slim_leaf {d : Nat} {n : FilterNode} (h : n.children = []) (hcap : n.childrenCapacity ≤ 4) :
    n.Slim (d + 1) :=
  .node (by simp [h]) (.inl hcap) (by simp [h])

theorem Slim.setChild {d i : Nat} {n c : FilterNode} (h : n.Slim (d + 1)) (hc : c.Slim d) :
    (n.setChild i c).Slim (d + 1) := by
  obtain ⟨fits, filled, children⟩ := h
  have hlen : (n.setChild i c).children.length = n.children.length := List.length_set
  refine .node (by rwa [hlen]) (by rwa [hlen]) fun m hm => ?_
  rcases List.mem_or_eq_of_mem_set hm with hm | rfl
  · exact children m hm
  · exact hc

theorem addChild_slim {d : Nat} {parent child node : FilterNode} {a a' : Allocs}
    (h : parent.Slim (d + 1)) (hc : child.Slim d)
    (hadd : addChild parent child a = (some node, a')) : node.Slim (d + 1) := by
  obtain ⟨fits, filled, children⟩ := h
  have hchildren : ∀ c ∈ parent.children ++ [child], c.Slim d := by
    intro c hmem
    rcases List.mem_append.1 hmem with hmem | hmem
    · exact children c hmem
    · rwa [List.mem_singleton.1 hmem]
  unfold addChild malloc at hadd
  split at hadd
  · next hfull =>
    cases ha : a.head <;> rw [ha] at hadd <;> cases hadd
    refine .node ?_ ?_ hchildren
    · rw [List.length_append, List.length_singleton]
      dsimp only [initialChildrenCapacity]
      split <;> omega
    · rw [List.length_append, List.length_singleton]
      dsimp only [initialChildrenCapacity]
      split <;> omega
  · cases hadd
    refine .node ?_ ?_ hchildren
    · rw [List.length_append, List.length_singleton]
      dsimp only
      omega
    · rw [List.length_append, List.length_singleton]
      dsimp only
      omega

theorem newChild_slim {d : Nat} {node node' : FilterNode} {label : CStr} {a a' : Allocs}
    (h : node.Slim (d + 2)) (hnew : newChild node (some label) a = (.success, node', a')) :
    node'.Slim (d + 2) := by
  unfold newChild at hnew
  split at hnew <;> [cases hnew; skip]
  next child _ hcreate =>
  obtain rfl : child = .empty := by
    unfold filterNodeCreate malloc at hcreate
    split at hcreate <;> cases hcreate
    rfl
  dsimp only at hnew
  split at hnew <;> [cases hnew; skip]
  split at hnew <;> cases hnew
  next hadd => exact addChild_slim h (slim_leaf rfl (Nat.zero_le 4)) hadd

end FilterNode

open FilterNode

/-- The walk of `filter_add_domain` adds one level for each label at most, wherever it fails. -/
theorem addLabels_slim {p : List CStr} {d : Nat} (hp : p.length < d) {node : FilterNode}
    (h : node.Slim d) (a : Allocs) : (addLabels (p.map some) node a).2.1.Slim d := by
  induction p generalizing d node a with
  | nil =>
    obtain ⟨fits, filled, children⟩ := h
    exact .node fits filled children
  | cons label p ih =>
    rw [List.length_cons] at hp
    obtain ⟨d, rfl⟩ : ∃ e, d = e + 2 := ⟨d - 2, by omega⟩
    have below : ∀ {node : FilterNode} {i : Nat} (a : Allocs), node.Slim (d + 2) →
        i < node.children.length →
        (node.setChild i (addLabels (p.map some) (node.child i) a).2.1).Slim (d + 2) := by
      intro node i a hnode hi
      have hnode' := hnode
      obtain ⟨-, -, children⟩ := hnode'
      exact hnode.setChild (ih (by omega) (children _ (child_mem hi)) a)
    rw [List.map_cons, addLabels]
    cases hf : findChild node (some label) with
    | some i => exact below a h (findChild_lt hf)
    | none =>
      rcases newChild_cases node label a with ⟨node', a', hn, hl⟩ | ⟨a', hn⟩
      · have hnode' := newChild_slim h hn
        rw [hn]
        exact below a' hnode' (findChild_lt (hl.findChild_self hf))
      · rw [hn]
        exact h

/-- Labels are separated by dots and not empty, so 255 characters hold 128 of them. -/
theorem length_labels_le {d m : CStr} (h : normalName d = some m) : (labels m).length ≤ 128 := by
  have hlen : m.bytes.length ≤ dnsMaxNameLen := (normalName_clean h).2
  have hsize : ∀ ls : List Bytes, [] ∉ ls →
      2 * ls.length ≤ (ls.flatMap fun l => l ++ [dot]).length := by
    intro ls hne
    induction ls with
    | nil => exact Nat.zero_le _
    | cons l ls ih =>
      rw [List.mem_cons, not_or] at hne
      have hl := List.length_pos_iff.2 (Ne.symm hne.1)
      have hrest := ih hne.2
      rw [List.flatMap_cons, List.length_append, List.length_append, List.length_cons,
        List.length_singleton]
      omega
  have hbound : 2 * (m.bytes.splitOn dot).length ≤
      ((m.bytes.splitOn dot).flatMap fun l => l ++ [dot]).length :=
    hsize _ (normalizeDomain_noEmptyPiece h)
  have hjoined : m.bytes.length =
      ((m.bytes.splitOn dot).flatMap fun l => l ++ [dot]).length - 1 := by
    rw [← length_intercalate, List.intercalate_splitOn]
  simp only [dnsMaxNameLen] at hlen
  rw [labels, List.length_map]
  omega

theorem filterAddDomain_slim {root : FilterNode} (h : root.Slim 129) (domain : CStr)
    (a : Allocs) : (filterAddDomain root domain a).2.1.Slim 129 := by
  unfold filterAddDomain
  rw [← normalName]
  cases hm : normalName domain with
  | none => exact h
  | some m =>
    have hsplit := (splitDomainLabels_spec a (normalizeDomain_noEmptyPiece hm)).1
    rcases hs : splitDomainLabels m a with ⟨_ | ls, a'⟩
    · simpa only [hs] using h
    · obtain ⟨rfl, -⟩ := hsplit ls (by rw [hs])
      simp only [hs]
      refine addLabels_slim ?_ h a'
      have hlen := length_labels_le hm
      rw [List.length_reverse]
      omega

/-! ## What the loader leaves -/

theorem loadStep_slim {s t : LoadState} (h : s.root.Slim 129) (hstep : loadStep s = .inl t) :
    t.root.Slim 129 := by
  unfold loadStep at hstep
  split at hstep <;> [cases hstep; skip]
  split at hstep
  · cases hstep
    exact h
  · cases hstep
    exact filterAddDomain_slim h _ _

/-- The loader keeps the bounds, whatever the file holds and whichever allocations fail. -/
theorem slim_loadFilterFile {file : Option Bytes} {a : Allocs} {root : FilterNode}
    (h : (loadFilterFile file a).1 = some root) : root.Slim 129 := by
  have hexit : ∀ s r, s.root.Slim 129 → loadStep s = .inr r → r.1.Slim 129 := by
    intro s r hs hstep
    unfold loadStep at hstep
    split at hstep
    · cases hstep
      exact hs
    · split at hstep <;> cases hstep
  unfold loadFilterFile at h
  split at h <;> [cases h; skip]
  split at h <;> [cases h; skip]
  next root' a' hcreate =>
  have hroot : root'.Slim 129 := by
    unfold filterNodeCreate at hcreate
    split at hcreate <;> cases hcreate
    exact slim_leaf rfl (Nat.zero_le 4)
  cases h
  exact loadLoop.invariant (fun s t => loadStep_slim) hexit hroot

/-- A node of a slim trie, and how deep it is. -/
theorem FilterNode.Slim.at_node {d : Nat} {n m : FilterNode} {p : List CStr} (h : n.Slim d)
    (hat : n.At p m) : p.length < d ∧ m.children.length ≤ m.childrenCapacity ∧
      (m.childrenCapacity ≤ 4 ∨ m.childrenCapacity < 2 * m.children.length) := by
  induction hat generalizing d with
  | here =>
    obtain ⟨fits, filled, -⟩ := h
    exact ⟨Nat.succ_pos _, fits, filled⟩
  | child mem label rest ih =>
    obtain ⟨-, -, children⟩ := h
    obtain ⟨hlt, hnode⟩ := ih (children _ mem)
    exact ⟨Nat.succ_lt_succ hlt, hnode⟩

/-- The nodes that the statistics visit. -/
theorem FilterNode.Slim.visits_lt {d : Nat} {n : FilterNode} (h : n.Slim d) :
    ∀ v ∈ n.visits, v.1.length < d := by
  induction h with
  | @node d n fits filled children ih =>
    rw [visits_eq, visitsChildren_eq_flatMap]
    intro v hv
    rcases List.mem_cons.1 hv with rfl | hv
    · exact Nat.succ_pos d
    · obtain ⟨c, hc, hv⟩ := List.mem_flatMap.1 hv
      obtain ⟨w, hw, rfl⟩ := List.mem_map.1 hv
      exact Nat.succ_lt_succ (ih c hc w hw)

/-- **No filter file makes a deep trie**: the recursion over the nodes of a loaded trie never goes
below 128 labels, the statistics report no more, and an array that has grown beyond its first four
slots is more than half full. -/
theorem loadFilterFile_slim {file : Option Bytes} {a : Allocs} {root : FilterNode}
    (h : (loadFilterFile file a).1 = some root) :
    (∀ p m, root.At p m → p.length ≤ 128 ∧ m.children.length ≤ m.childrenCapacity ∧
      (m.childrenCapacity ≤ 4 ∨ m.childrenCapacity < 2 * m.children.length)) ∧
    ∀ stats, filterPrintStats (some root) true = some stats → stats.maxDepth ≤ 128 := by
  have hslim := slim_loadFilterFile h
  constructor
  · intro p m hat
    obtain ⟨hlt, hnode⟩ := hslim.at_node hat
    exact ⟨Nat.le_of_lt_succ hlt, hnode⟩
  · intro stats hstats
    rw [filterPrintStats, if_neg (by decide), Option.map_some, countStatsChildren_eq] at hstats
    cases hstats
    have hdepth : ∀ v ∈ visitsChildren root.children, v.1.length ≤ 128 := by
      intro v hv
      apply Nat.le_of_lt_succ
      apply hslim.visits_lt
      rw [visits_eq]
      exact List.mem_cons_of_mem _ hv
    change (visitsChildren root.children).foldl (fun k v => max k (0 + v.1.length)) 0 ≤ 128
    rw [← List.foldl_map (f := fun v : List (Option CStr) × FilterNode => 0 + v.1.length),
      foldl_max_le_iff, List.forall_mem_map]
    refine ⟨Nat.zero_le _, fun v hv => ?_⟩
    rw [Nat.zero_add]
    exact hdepth v hv

/-- Five names below the root, whose array has grown to eight slots for them, and one of the names
has three labels. -/
theorem loadFilterFile_slim_grown :
    let file : Bytes := [97, 10, 98, 10, 99, 10, 100, 10, 120, 46, 121, 46, 101, 10]
    ∃ root, (loadFilterFile (some file) .ok).1 = some root ∧ root.childrenCapacity = 8 ∧
      root.childrenCapacity < 2 * root.children.length ∧
      ∃ stats, filterPrintStats (some root) true = some stats ∧ 3 ≤ stats.maxDepth ∧
        stats.maxDepth ≤ 128 := by
  intro file
  have hgrown : (loadFilterFile (some file) .ok).1.map (·.childrenCapacity) = some 8 := by decide
  have hstats : (filterPrintStats (loadFilterFile (some file) .ok).1 true).map (·.maxDepth) =
      some 3 := by decide +kernel
  obtain ⟨root, hroot, hcap⟩ := Option.map_eq_some_iff.1 hgrown
  rw [hroot] at hstats
  obtain ⟨stats, hprint, hdepth⟩ := Option.map_eq_some_iff.1 hstats
  obtain ⟨hnodes, hmax⟩ := loadFilterFile_slim hroot
  have hfilled := (hnodes [] root .here).2.2
  exact ⟨root, hroot, hcap, hfilled.resolve_left (by omega), stats, hprint, hdepth.ge,
    hmax stats hprint⟩

end FilteringResolver
