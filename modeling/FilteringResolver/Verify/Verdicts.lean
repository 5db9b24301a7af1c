import FilteringResolver.Verify.Blocklist
import FilteringResolver.Verify.NormalName

/-!
# When two tries block the same names

A verdict depends on a trie only through what its paths cover (`isDomainBlocked_congr`). The
paths of a filter are normalised names themselves, so two filters block the same names exactly
when each covers the entries of the other (`sameNames_iff`); `filterOf` is the filter of a list of
domains, added while memory lasts, and `entryOf` the labels that one of them leaves in it.
-/

namespace FilteringResolver

open PathSets Separated

/-! ## Verdicts -/

/-- Every lookup, whatever its allocations answer, has one result in both tries. -/
def SameNames (r r' : FilterNode) : Prop := ∀ q a, isDomainBlocked r q a = isDomainBlocked r' q a

/-- **The covered paths decide every lookup.** -/
theorem isDomainBlocked_congr {r r' : FilterNode} (h : r.isBlocked = false)
    (h' : r'.isBlocked = false) (hcovers : ∀ p, Covers r.paths p ↔ Covers r'.paths p) :
    SameNames r r' := by
  intro q a
  unfold isDomainBlocked
  rw [← normalName]
  cases hn : normalName q with
  | none => rfl
  | some n =>
    have hsplit := (splitDomainLabels_spec a (normalizeDomain_noEmptyPiece hn)).1
    rcases hs : splitDomainLabels n a with ⟨_ | ls, a'⟩
    · simp only [hs]
    · obtain ⟨rfl, -⟩ := hsplit ls (by rw [hs])
      have hwalk : walkLabels ((labels n).reverse.map some) r =
          walkLabels ((labels n).reverse.map some) r' := by
        rw [Bool.eq_iff_iff, walkLabels_iff _ r h, walkLabels_iff _ r' h', hcovers]
      simp only [hs, hwalk]

/-- A path that some name has as its labels when it is normalised. -/
def NormalPath (p : List CStr) : Prop :=
  ∃ m, normalName m = some m ∧ ShortLabels m ∧ p = (labels m).reverse

/-- A normal path is looked up by its own name. -/
theorem NormalPath.covers_iff {p : List CStr} (h : NormalPath p) :
    ∃ q, ∀ r : FilterNode, r.isBlocked = false →
      ((isDomainBlocked r q .ok).1 = true ↔ Covers r.paths p) := by
  obtain ⟨m, hm, hshort, rfl⟩ := h
  refine ⟨m, fun r hr => ?_⟩
  rw [isDomainBlocked_iff_covers hr]
  simp [hm, hshort]

/-- **Two tries of normal paths block the same names** exactly when each covers the paths of the
other. -/
theorem sameNames_iff {r r' : FilterNode} (h : r.isBlocked = false) (h' : r'.isBlocked = false)
    (hnormal : ∀ p ∈ r.paths, NormalPath p) (hnormal' : ∀ p ∈ r'.paths, NormalPath p) :
    SameNames r r' ↔
      (∀ p ∈ r.paths, Covers r'.paths p) ∧ ∀ p ∈ r'.paths, Covers r.paths p := by
  constructor
  · intro hsame
    constructor
    · intro p hp
      obtain ⟨q, hq⟩ := (hnormal p hp).covers_iff
      rw [← hq r' h', ← hsame q, hq r h]
      exact covers_self hp
    · intro p hp
      obtain ⟨q, hq⟩ := (hnormal' p hp).covers_iff
      rw [← hq r h, hsame q, hq r' h']
      exact covers_self hp
  · rintro ⟨hcovers, hcovers'⟩
    exact isDomainBlocked_congr h h' fun p => ⟨Covers.trans hcovers, Covers.trans hcovers'⟩

/-! ## Adding with memory to spare -/

theorem newChild_ok (node : FilterNode) (label : CStr) :
    ∃ node', newChild node (some label) .ok = (.success, node', .ok) := by
  have hhead : Allocs.ok.head = true := rfl
  have htail : Allocs.ok.tail = Allocs.ok := rfl
  obtain ⟨node', hadd⟩ : ∃ node', addChild node { FilterNode.empty with label := some label } .ok =
      (some node', .ok) := by
    unfold addChild
    split <;> exact ⟨_, rfl⟩
  refine ⟨node', ?_⟩
  simp only [newChild, filterNodeCreate, malloc_ok, strdup, hhead, htail, if_true, hadd]

theorem addLabels_ok (p : List CStr) (node : FilterNode) :
    ∃ node', addLabels (p.map some) node .ok = (.success, node', .ok) := by
  induction p generalizing node with
  | nil => exact ⟨_, rfl⟩
  | cons label p ih =>
    rw [List.map_cons, addLabels]
    cases findChild node (some label) with
    | some i =>
      obtain ⟨child, hchild⟩ := ih (node.child i)
      simp only [hchild]
      exact ⟨_, rfl⟩
    | none =>
      obtain ⟨node', hnew⟩ := newChild_ok node label
      obtain ⟨child, hchild⟩ := ih (node'.child (node'.children.length - 1))
      simp only [hnew, hchild]
      exact ⟨_, rfl⟩

/-- The labels that a domain adds to a filter: those of its normal form, if they are short. -/
def entryOf (domain : CStr) : Option (List CStr) :=
  match normalName domain with
  | none => none
  | some m => if ShortLabels m then some (labels m) else none

theorem entryOf_eq_some {domain : CStr} {e : List CStr} :
    entryOf domain = some e ↔ ∃ m, normalName domain = some m ∧ ShortLabels m ∧ e = labels m := by
  unfold entryOf
  cases normalName domain with
  | none => simp
  | some m =>
    by_cases h : ShortLabels m
    · simp only [h, if_true, Option.some.injEq, exists_eq_left', true_and, eq_comm]
    · simp [h]

/-- **With memory to spare** a domain is added exactly when it has an entry. -/
theorem filterAddDomain_ok (root : FilterNode) (domain : CStr) :
    (filterAddDomain root domain .ok).2.2 = .ok ∧
      ((filterAddDomain root domain .ok).1 = .success ↔ (entryOf domain).isSome) := by
  unfold filterAddDomain entryOf
  rw [← normalName]
  cases hm : normalName domain with
  | none => exact ⟨rfl, by simp⟩
  | some m =>
    obtain ⟨hsome, hnone, hok⟩ := splitDomainLabels_spec .ok (normalizeDomain_noEmptyPiece hm)
    rcases hs : splitDomainLabels m .ok with ⟨_ | ls, a'⟩
    · have hlong := hnone (by rw [hs]) rfl
      have ha' := hok rfl
      rw [hs] at ha'
      simp [hs, ha', hlong]
    · obtain ⟨rfl, hshort⟩ := hsome ls (by rw [hs])
      have ha' := hok rfl
      rw [hs] at ha'
      obtain rfl : a' = .ok := ha'
      obtain ⟨node', hadd⟩ := addLabels_ok (labels m).reverse root
      simp only [hs, hadd, hshort, if_true, Option.isSome_some, and_self]

/-! ## The filter of a list of domains -/

/-- The filter that adding the domains in turn builds, with memory to spare. -/
def filterOf (domains : List CStr) : FilterNode := buildFilter (domains.map fun d => (d, .ok))

theorem addedDomains_ok (domains : List CStr) :
    addedDomains (domains.map fun d => (d, .ok)) = domains.filter fun d => (entryOf d).isSome := by
  unfold addedDomains
  generalize FilterNode.empty = root
  induction domains generalizing root with
  | nil => rfl
  | cons d domains ih =>
    have hret := (filterAddDomain_ok root d).2
    rcases hadd : filterAddDomain root d .ok with ⟨ret, root', a'⟩
    rw [hadd] at hret
    simp only [List.map_cons, addDomains, hadd, ih root', List.filter_cons, hret]

/-- The paths of the filter are the entries of its domains. -/
theorem mem_paths_filterOf {domains : List CStr} {p : List CStr} :
    p ∈ (filterOf domains).paths ↔ ∃ e ∈ domains.filterMap entryOf, p = e.reverse := by
  rw [filterOf, paths_buildFilter, addedDomains_ok]
  simp only [domainPaths, Set.mem_ofPred_eq, List.mem_filter, List.mem_filterMap]
  constructor
  · rintro ⟨d, ⟨hd, hentry⟩, m, hm, rfl⟩
    obtain ⟨e, he⟩ := Option.isSome_iff_exists.1 hentry
    obtain ⟨m', hm', -, rfl⟩ := entryOf_eq_some.1 he
    obtain rfl : m = m' := Option.some.inj (hm.symm.trans hm')
    exact ⟨labels m, ⟨d, hd, he⟩, rfl⟩
  · rintro ⟨e, ⟨d, hd, he⟩, rfl⟩
    obtain ⟨m, hm, -, rfl⟩ := entryOf_eq_some.1 he
    exact ⟨d, ⟨hd, by rw [he]; rfl⟩, m, hm, rfl⟩

theorem filterOf_not_blocked (domains : List CStr) : (filterOf domains).isBlocked = false :=
  root_not_blocked _

theorem normalPath_filterOf {domains : List CStr} :
    ∀ p ∈ (filterOf domains).paths, NormalPath p := by
  intro p hp
  obtain ⟨e, he, rfl⟩ := mem_paths_filterOf.1 hp
  obtain ⟨d, -, hd⟩ := List.mem_filterMap.1 he
  obtain ⟨m, hm, hshort, rfl⟩ := entryOf_eq_some.1 hd
  exact ⟨m, normalName_self hm, hshort, rfl⟩

theorem covers_filterOf {domains : List CStr} {e : List CStr} :
    Covers (filterOf domains).paths e.reverse ↔
      ∃ e' ∈ domains.filterMap entryOf, e' <:+ e := by
  constructor
  · rintro ⟨p, hp, hpe⟩
    obtain ⟨e', he', rfl⟩ := mem_paths_filterOf.1 hp
    exact ⟨e', he', List.reverse_prefix.1 hpe⟩
  · rintro ⟨e', he', hsuffix⟩
    exact ⟨e'.reverse, mem_paths_filterOf.2 ⟨e', he', rfl⟩, List.reverse_prefix.2 hsuffix⟩

/-- **Two filters block the same names** exactly when every entry of the one ends with an entry of
the other. -/
theorem sameNames_filterOf (ds ds' : List CStr) :
    SameNames (filterOf ds) (filterOf ds') ↔
      (∀ e ∈ ds.filterMap entryOf, ∃ e' ∈ ds'.filterMap entryOf, e' <:+ e) ∧
      ∀ e ∈ ds'.filterMap entryOf, ∃ e' ∈ ds.filterMap entryOf, e' <:+ e := by
  have hcovers : ∀ ds ds' : List CStr, (∀ p ∈ (filterOf ds).paths, Covers (filterOf ds').paths p) ↔
      ∀ e ∈ ds.filterMap entryOf, ∃ e' ∈ ds'.filterMap entryOf, e' <:+ e := by
    intro ds ds'
    constructor
    · intro h e he
      exact covers_filterOf.1 (h _ (mem_paths_filterOf.2 ⟨e, he, rfl⟩))
    · intro h p hp
      obtain ⟨e, he, rfl⟩ := mem_paths_filterOf.1 hp
      exact covers_filterOf.2 (h e he)
  rw [sameNames_iff (filterOf_not_blocked ds) (filterOf_not_blocked ds') normalPath_filterOf
    normalPath_filterOf, hcovers ds ds', hcovers ds' ds]

end FilteringResolver
