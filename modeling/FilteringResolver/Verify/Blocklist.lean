import FilteringResolver.Verify.Labels
import FilteringResolver.Verify.Trie

/-!
# The filter is a set of names

A sequence of `filter_add_domain` calls, each meeting its own allocations, builds a trie. The
trie denotes the reversed label lists of the names whose call returned 0
(`paths_buildFilter`), so a lookup decides whether one of these names is a suffix of the
looked-up one.
-/

namespace FilteringResolver

open PathSets Separated

/-- The trie after the calls, and the domains whose call returned 0. -/
def addDomains : FilterNode → List (CStr × Allocs) → FilterNode × List CStr
  | root, [] => (root, [])
  | root, (domain, a) :: calls =>
    let (ret, root, _) := filterAddDomain root domain a
    let (root, added) := addDomains root calls
    (root, if ret = .success then domain :: added else added)

/-- The trie built from an empty root. -/
def buildFilter (calls : List (CStr × Allocs)) : FilterNode := (addDomains .empty calls).1

/-- The domains that were added to it. -/
def addedDomains (calls : List (CStr × Allocs)) : List CStr := (addDomains .empty calls).2

/-- The reversed label lists of the normalised domains: the paths they stand for. -/
def domainPaths (domains : List CStr) : Set (List CStr) :=
  {p | ∃ d ∈ domains, ∃ m, normalName d = some m ∧ p = (labels m).reverse}

theorem domainPaths_cons {d m : CStr} {ds : List CStr} (h : normalName d = some m) :
    domainPaths (d :: ds) = insert (labels m).reverse (domainPaths ds) := by
  ext p
  simp [domainPaths, h]

/-! ## One call -/

/-- What a call does to the set of paths. -/
inductive Added (root : FilterNode) (domain : CStr) (r : Ret × FilterNode × Allocs) : Prop where
  | success (m : CStr) (hm : normalName domain = some m)
      (ret : r.1 = .success) (paths : r.2.1.paths = insert (labels m).reverse root.paths)
  | failure (ret : r.1 = .failure) (paths : r.2.1.paths = root.paths)

theorem filterAddDomain_added (root : FilterNode) (domain : CStr) (a : Allocs) :
    Added root domain (filterAddDomain root domain a) := by
  unfold filterAddDomain
  rw [← normalName]
  cases hm : normalName domain with
  | none => exact .failure rfl rfl
  | some m =>
    have hsplit := (splitDomainLabels_spec a (normalizeDomain_noEmptyPiece hm)).1
    rcases hs : splitDomainLabels m a with ⟨_ | ls, a'⟩
    · simp only [hs]
      exact .failure rfl rfl
    · obtain ⟨rfl, -⟩ := hsplit ls (by rw [hs])
      simp only [hs]
      have h := addLabels_paths (labels m).reverse root a'
      cases hr : (addLabels ((labels m).reverse.map some) root a').1 with
      | success => exact .success m hm hr (h.success hr)
      | failure => exact .failure hr (h.failure (by rw [hr]; decide))
      | undefined => exact absurd hr h.defined

theorem labels_reverse_ne_nil (m : CStr) : (labels m).reverse ≠ [] := by
  simp [labels_ne_nil]

/-! ## A sequence of calls -/

/-- **The built trie** denotes the paths of the domains that were added. -/
theorem paths_addDomains (root : FilterNode) (calls : List (CStr × Allocs)) :
    (addDomains root calls).1.paths = root.paths ∪ domainPaths (addDomains root calls).2 := by
  induction calls generalizing root with
  | nil => simp [addDomains, domainPaths]
  | cons call calls ih =>
    obtain ⟨domain, a⟩ := call
    simp only [addDomains]
    have hadd := filterAddDomain_added root domain a
    generalize filterAddDomain root domain a = r at hadd
    obtain ⟨ret, root', a'⟩ := r
    rw [ih root']
    cases hadd with
    | success m hm hret hpaths =>
      rw [if_pos hret, domainPaths_cons hm, hpaths, Set.insert_union, Set.union_insert]
    | failure hret hpaths =>
      rw [if_neg (by rw [hret]; decide), hpaths]

theorem paths_buildFilter (calls : List (CStr × Allocs)) :
    (buildFilter calls).paths = domainPaths (addedDomains calls) := by
  rw [buildFilter, paths_addDomains, FilterNode.paths_empty, Set.empty_union]
  rfl

/-- No name has no labels, so the root of a built trie is not blocked. -/
theorem root_not_blocked (calls : List (CStr × Allocs)) :
    (buildFilter calls).isBlocked = false := by
  rw [← Bool.not_eq_true, ← FilterNode.nil_mem_paths, paths_buildFilter]
  rintro ⟨-, -, m, -, h⟩
  exact labels_reverse_ne_nil m h.symm

/-! ## Lookups -/

theorem covers_domainPaths {ds : List CStr} {p : List CStr} :
    Covers (domainPaths ds) p.reverse ↔
      ∃ d ∈ ds, ∃ m, normalName d = some m ∧ labels m <:+ p := by
  constructor
  · rintro ⟨-, ⟨d, hd, m, hm, rfl⟩, hp⟩
    exact ⟨d, hd, m, hm, List.reverse_prefix.1 hp⟩
  · rintro ⟨d, hd, m, hm, hp⟩
    exact ⟨_, ⟨d, hd, m, hm, rfl⟩, List.reverse_prefix.2 hp⟩

/-- A lookup, with its allocations succeeding: the name normalises to short labels that the
paths of the trie cover. -/
theorem isDomainBlocked_iff_covers {root : FilterNode} (h : root.isBlocked = false) (q : CStr) :
    (isDomainBlocked root q .ok).1 = true ↔
      ∃ n, normalName q = some n ∧ ShortLabels n ∧ Covers root.paths (labels n).reverse := by
  unfold isDomainBlocked
  rw [← normalName]
  cases hn : normalName q with
  | none => simp
  | some n =>
    obtain ⟨hsome, hnone, -⟩ := splitDomainLabels_spec .ok (normalizeDomain_noEmptyPiece hn)
    rcases hs : splitDomainLabels n .ok with ⟨_ | ls, a'⟩
    · have hlong := hnone (by rw [hs]) rfl
      simp [hs, hlong]
    · obtain ⟨rfl, hshort⟩ := hsome ls (by rw [hs])
      simp only [hs, walkLabels_iff _ root h, Option.some.injEq, exists_eq_left', hshort, true_and]

/-- A lookup in a built trie, for a name that normalises to short labels. -/
theorem isDomainBlocked_of_normal (calls : List (CStr × Allocs)) {q n : CStr}
    (hn : normalName q = some n) (hshort : ShortLabels n) :
    (isDomainBlocked (buildFilter calls) q .ok).1 = true ↔
      ∃ d ∈ addedDomains calls, ∃ m, normalName d = some m ∧ labels m <:+ labels n := by
  rw [isDomainBlocked_iff_covers (root_not_blocked calls), paths_buildFilter]
  simp [hn, hshort, covers_domainPaths]

/-- A lookup uses up its allocations but leaves them succeeding. -/
theorem isDomainBlocked_ok {root : FilterNode} {q : CStr} {v : Bool} {a : Allocs}
    (h : isDomainBlocked root q .ok = (v, a)) : a = .ok := by
  unfold isDomainBlocked at h
  rw [← normalName] at h
  cases hn : normalName q with
  | none =>
    rw [hn] at h
    cases h
    rfl
  | some n =>
    have hok := (splitDomainLabels_spec .ok (normalizeDomain_noEmptyPiece hn)).2.2 rfl
    rcases hs : splitDomainLabels n .ok with ⟨_ | ls, a'⟩
    · simp only [hn, hs] at h hok
      cases h
      exact hok
    · simp only [hn, hs] at h hok
      cases h
      exact hok

/-- **The suffix trie refines a set of domain names.** -/
theorem isDomainBlocked_iff_suffix (calls : List (CStr × Allocs)) (q : CStr) :
    (isDomainBlocked (buildFilter calls) q .ok).1 = true ↔
      ∃ n, normalName q = some n ∧ ShortLabels n ∧
        ∃ d ∈ addedDomains calls, ∃ m, normalName d = some m ∧ labels m <:+ labels n := by
  rw [isDomainBlocked_iff_covers (root_not_blocked calls), paths_buildFilter]
  simp only [covers_domainPaths]

end FilteringResolver
