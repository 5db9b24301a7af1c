import FilteringResolver.Verify.HeapFilter
import FilteringResolver.Verify.Stats

/-!
# What the loader leaves and reports

`load_filter_file` closes its file and hands back a trie that `filter_node_free` releases to the
last block, whatever the file holds and whichever allocation fails (`loadFilterFile_freed`). The
domains it reports and the domains that `filter_print_stats` counts differ by the names that are
in the file more than once (`loadFilterFile_reported`).
-/

namespace FilteringResolver.Heap

open Ownership FilteringResolver.FilterNode

/-- **Loading and freeing a filter**: after a failure everything is as before; otherwise the trie
is that of the loader without memory, only its blocks have been added, and freeing it releases
them. -/
theorem loadFilterFile_freed (file : Option Bytes) (a : Allocs) (l : Ledger Kind) :
    ∃ r a' l', loadFilterFile file a l = some ((r, a'), l') ∧
      FilteringResolver.loadFilterFile file a = (r.map (·.1.val), a') ∧
      (r = none → l'.live = l.live) ∧
      ∀ root counts, r = some (root, counts) → l'.live = l.live + root.blocks ∧
        ∃ l'', filterNodeFree root a' l' = some (((), a'), l'') ∧ l''.live = l.live := by
  have hload : Owning l.live a (loadFilterFile file) fun r a' own' =>
      FilteringResolver.loadFilterFile file a = (r.map (·.1.val), a') ∧
      (r = none → own' = l.live) ∧
      ∀ root counts, r = some (root, counts) → own' = l.live + root.blocks ∧ root.Allocated := by
    refine loadFilterFile_owning (fun a' h => ⟨h, fun _ => rfl, by rintro root counts ⟨⟩⟩) ?_
    intro a' octets root counts calls _ h _ halloc
    refine ⟨h, by rintro ⟨⟩, ?_⟩
    rintro _ _ ⟨⟩
    exact ⟨rfl, halloc⟩
  obtain ⟨r, a', l', hrun, hpure, hnone, hsome⟩ := hload.run
  refine ⟨r, a', l', hrun, hpure, hnone, fun root counts hr => ?_⟩
  obtain ⟨hlive, halloc⟩ := hsome root counts hr
  have hfree : Owning l'.live a' (filterNodeFree root) fun _ a'' own' =>
      a'' = a' ∧ own' = l.live := filterNodeFree_owning root halloc hlive ⟨rfl, rfl⟩
  obtain ⟨⟨⟩, a'', l'', hrun', ha'', hlive'⟩ := hfree.run
  rw [ha''] at hrun'
  exact ⟨hlive, l'', hrun', hlive'⟩

/-! ## The counters -/

/-- Every domain that was added has a name. -/
theorem length_names (root : FilteringResolver.FilterNode) (calls : List (CStr × Allocs)) :
    ((addDomains root calls).2.filterMap normalName).length = (addDomains root calls).2.length := by
  induction calls generalizing root with
  | nil => rfl
  | cons call calls ih =>
    obtain ⟨domain, a⟩ := call
    simp only [addDomains]
    have hadd := filterAddDomain_added root domain a
    generalize FilteringResolver.filterAddDomain root domain a = r at hadd
    obtain ⟨ret, root', a'⟩ := r
    cases hadd with
    | success m hm hret hpaths =>
      rw [if_pos hret, List.filterMap_cons_some hm, List.length_cons, List.length_cons, ih]
    | failure hret hpaths =>
      have hne : ret ≠ .success := by
        rintro rfl
        cases hret
      rw [if_neg hne, ih]

theorem addDomains_sublist (root : FilteringResolver.FilterNode) (calls : List (CStr × Allocs)) :
    (addDomains root calls).2.Sublist (calls.map Prod.fst) := by
  induction calls generalizing root with
  | nil => exact .slnil
  | cons call calls ih =>
    obtain ⟨domain, a⟩ := call
    simp only [addDomains, List.map_cons]
    split
    · exact (ih _).cons_cons domain
    · exact (ih _).cons domain

/-- The blocked nodes are the names that were added, each once, whatever failed. -/
theorem countP_blocked_buildFilter (calls : List (CStr × Allocs)) :
    (visitsChildren (buildFilter calls).children).countP (·.2.isBlocked) =
      ((addedDomains calls).filterMap normalName).dedup.length := by
  have hinj : Function.Injective fun m => (labels m).reverse :=
    List.reverse_injective.comp labels_injective
  rw [countP_visitsChildren (wellFormed_buildFilter calls) (·.isBlocked)
    ((List.nodup_dedup _).map hinj), List.length_map]
  intro p
  rw [← paths_eq_reach, paths_buildFilter, List.mem_map]
  constructor
  · rintro ⟨m, hm, rfl⟩
    obtain ⟨d, hd, hdm⟩ := List.mem_filterMap.1 (List.mem_dedup.1 hm)
    exact ⟨labels_reverse_ne_nil m, d, hd, m, hdm, rfl⟩
  · rintro ⟨-, d, hd, m, hdm, rfl⟩
    exact ⟨m, List.mem_dedup.2 (List.mem_filterMap.2 ⟨d, hd, hdm⟩), rfl⟩

theorem totalDomains_buildFilter (calls : List (CStr × Allocs)) :
    ∃ stats, filterPrintStats (some (buildFilter calls)) true = some stats ∧
      stats.totalDomains = ((addedDomains calls).filterMap normalName).dedup.length := by
  refine ⟨_, rfl, ?_⟩
  dsimp only
  rw [countStatsChildren_eq, FilterStats.visited, countP_blocked_buildFilter, Nat.zero_add]

theorem length_dedup_eq_iff {α : Type} [DecidableEq α] {l : List α} :
    l.dedup.length = l.length ↔ l.Nodup := by
  constructor
  · intro h
    exact List.dedup_eq_self.1 ((List.dedup_sublist l).eq_of_length h)
  · intro h
    rw [h.dedup]

/-- **The two counts of domains**: the loader counts the lines it has added, and the statistics
count the names, so they agree exactly when no name was added twice. -/
theorem loadFilterFile_reported (file : Option Bytes) (a : Allocs) (l : Ledger Kind) :
    ∃ r a' l', loadFilterFile file a l = some ((r, a'), l') ∧
      ∀ root counts, r = some (root, counts) →
        ∃ (octets : Bytes) (domains : List CStr) (stats : FilterStats), file = some octets ∧
          domains.Sublist ((fileReads octets).filterMap lineDomain) ∧
          counts.lineNum = (fileReads octets).length ∧
          counts.domainsLoaded = domains.length ∧
          counts.linesIgnored + domains.length =
            (fileReads octets).countP isComment + ((fileReads octets).filterMap lineDomain).length ∧
          filterPrintStats (some root.val) true = some stats ∧
          stats.totalDomains = (domains.filterMap normalName).dedup.length ∧
          (stats.totalDomains = counts.domainsLoaded ↔ (domains.filterMap normalName).Nodup) := by
  have hload : Owning l.live a (loadFilterFile file) fun r _ _ =>
      ∀ root counts, r = some (root, counts) → ∃ octets calls, file = some octets ∧
        Loaded octets .empty ⟨0, 0, 0⟩ calls root.val counts := by
    refine loadFilterFile_owning (fun _ _ => by rintro root counts ⟨⟩) ?_
    intro _ octets root counts calls hfile _ hloaded _
    rintro _ _ ⟨⟩
    exact ⟨octets, calls, hfile, hloaded⟩
  obtain ⟨r, a', l', hrun, hr⟩ := hload.run
  refine ⟨r, a', l', hrun, fun root counts hroot => ?_⟩
  obtain ⟨octets, calls, hfile, hloaded⟩ := hr root counts hroot
  obtain ⟨stats, hstats, htotal⟩ := totalDomains_buildFilter calls
  have hlen := length_names .empty calls
  refine ⟨octets, addedDomains calls, stats, hfile, ?_, ?_, ?_, ?_, ?_, htotal, ?_⟩
  · rw [← hloaded.domains]
    exact addDomains_sublist .empty calls
  · simpa using hloaded.lineNum
  · simpa [addedDomains] using hloaded.domainsLoaded
  · have hignored := hloaded.linesIgnored
    rw [← hloaded.domains, List.length_map]
    simpa [addedDomains] using hignored
  · rw [hloaded.trie]
    exact hstats
  · have hcount : counts.domainsLoaded = ((addedDomains calls).filterMap normalName).length := by
      rw [hloaded.domainsLoaded, Nat.zero_add]
      exact hlen.symm
    rw [htotal, hcount, length_dedup_eq_iff]

end FilteringResolver.Heap
