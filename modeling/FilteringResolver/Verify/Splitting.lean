import FilteringResolver.Verify.Labels

/-!
# Splitting a normalised name

`split_domain_labels` counts the dots in a forward scan and fills the slots in a backward one. On a
name that `normalize_domain` has accepted the two agree: every pass of the backward scan takes one
piece off the end (`SplitInv`), so it never leaves the string or the array, and it fills every slot
(`splitDomainLabels_normalized`).
-/

namespace FilteringResolver

open Loops Separated

/-- What every pass of the backward scan keeps: the text in front of `end` has no empty label, and
the slots filled so far and its labels are as many as the dots make them. -/
structure SplitInv (domain : Bytes) (s : SplitState) : Prop where
  end_le : s.endPos ≤ domain.length
  pieces : NoEmptyPiece dot (domain.take s.endPos)
  count : s.labels.length + ((domain.take s.endPos).splitOn dot).length = domain.count dot + 1

namespace SplitInv

variable {domain : Bytes} {s t : SplitState}

theorem start (h : NoEmptyPiece dot domain) (a : Allocs) :
    SplitInv domain ⟨domain.length, [], a⟩ where
  end_le := Nat.le_refl _
  pieces := by rwa [List.take_length]
  count := by rw [List.take_length, length_splitOn, List.length_nil, Nat.zero_add]

/-- There is a label in front of `end`, and a slot for it. -/
theorem room (h : SplitInv domain s) : 0 < s.endPos ∧ s.labels.length < domain.count dot + 1 := by
  obtain ⟨hne, -, -, -⟩ := noEmptyPiece_iff.1 h.pieces
  have hpos : 0 < s.endPos := Nat.pos_of_ne_zero fun h0 => hne (by rw [h0, List.take_zero])
  have hcount := h.count
  rw [length_splitOn] at hcount
  exact ⟨hpos, by omega⟩

/-- **One pass** moves `end` to the dot in front of the label it has taken. -/
theorem step (h : SplitInv domain s) (hstep : splitStep domain s = .inl t) : SplitInv domain t := by
  have hpass := splitStep_pass h.end_le h.pieces
  rw [hstep] at hpass
  cases hpass with
  | next le lt pieces =>
    have hcount := h.count
    have hpieces := h.pieces
    rw [NoEmptyPiece, pieces, List.mem_append, not_or] at hpieces
    rw [pieces, List.length_append, List.length_singleton] at hcount
    refine ⟨Nat.le_of_lt (Nat.lt_of_lt_of_le lt h.end_le), hpieces.1, ?_⟩
    dsimp only
    rw [List.length_append, List.length_singleton]
    omega

end SplitInv

theorem splitStep_next {domain : Bytes} {s t : SplitState} (h : splitStep domain s = .inl t) :
    t.endPos + 1 = scanStart domain (s.endPos - 1) := by
  unfold splitStep at h
  dsimp only at h
  split at h <;> [skip; cases h]
  split at h <;> [cases h; skip]
  split at h <;> [cases h; skip]
  split at h <;> [cases h; skip]
  split at h <;> cases h
  dsimp only
  omega

/-- **A normalised name is split into all its labels**, in reverse order, exactly when they are
short; the backward scan stays in the string and the array, and ends. -/
theorem splitDomainLabels_normalized {d n : CStr} {len : Nat}
    (h : normalizeDomain d len = some n) :
    ((splitDomainLabels n .ok).1.isSome ↔
      ∀ l ∈ n.bytes.splitOn dot, l.length ≤ dnsMaxLabelLen) ∧
    (∀ slots, (splitDomainLabels n .ok).1 = some slots → ∃ ls : List CStr, slots = ls.map some ∧
      slots.length = n.bytes.count dot + 1 ∧ (∀ l ∈ ls, l.bytes ≠ [] ∧ dot ∉ l.bytes) ∧
      [dot].intercalate (ls.reverse.map (·.bytes)) = n.bytes) ∧
    ∀ (f : Nat → SplitState) (k : Nat), f 0 = ⟨n.bytes.length, [], .ok⟩ →
      (∀ i < k, splitStep n.bytes (f i) = .inl (f (i + 1))) →
      k ≤ n.bytes.length ∧
      (∀ i ≤ k, scanStart n.bytes ((f i).endPos - 1) < (f i).endPos ∧
        (f i).endPos ≤ n.bytes.length ∧ (f i).labels.length < n.bytes.count dot + 1) ∧
      ∀ i < k, (f (i + 1)).endPos + 1 = scanStart n.bytes ((f i).endPos - 1) := by
  have hpieces := normalizeDomain_noEmptyPiece h
  obtain ⟨hsome, hnone, -⟩ := splitDomainLabels_spec .ok hpieces
  refine ⟨?_, fun slots hslots => ?_, fun f k h0 hpass => ⟨?_, ?_, fun i hi =>
    splitStep_next (hpass i hi)⟩⟩
  · rw [← shortLabels_iff]
    constructor
    · intro hs
      obtain ⟨slots, hslots⟩ := Option.isSome_iff_exists.1 hs
      exact (hsome slots hslots).2
    · intro hshort
      by_contra hs
      exact hnone (Option.not_isSome_iff_eq_none.1 hs) rfl hshort
  · obtain ⟨rfl, -⟩ := hsome slots hslots
    have hbytes := bytes_labels n
    refine ⟨(labels n).reverse, rfl, ?_, fun l hl => ?_, ?_⟩
    · rw [List.length_map, List.length_reverse, ← length_splitOn, ← hbytes, List.length_map]
    · have hl' : l.bytes ∈ n.bytes.splitOn dot := by
        rw [← hbytes]
        exact List.mem_map_of_mem (List.mem_reverse.1 hl)
      exact ⟨fun hnil => hpieces (hnil ▸ hl'), not_mem_of_mem_splitOn hl'⟩
    · rw [List.reverse_reverse, hbytes, List.intercalate_splitOn]
  · have hle := (splitLoop n.bytes).passes_le hpass
    rwa [h0] at hle
  · have hinv : ∀ i ≤ k, SplitInv n.bytes (f i) := by
      intro i hi
      induction i with
      | zero => exact h0 ▸ .start hpieces .ok
      | succ i ih => exact (ih (Nat.le_of_succ_le hi)).step (hpass i hi)
    intro i hi
    obtain ⟨hpos, hroom⟩ := (hinv i hi).room
    have hscan := scanStart_le n.bytes ((f i).endPos - 1)
    exact ⟨by omega, (hinv i hi).end_le, hroom⟩

/-- The labels of ` A.b.`. -/
theorem splitDomainLabels_normalized_twoLabels :
    ∃ slots, (splitDomainLabels (.ofBuffer [97, 46, 98]) .ok).1 = some slots ∧
      slots.length = 2 := by
  have h : normalizeDomain (.ofBuffer [32, 65, 46, 98, 46]) 256 =
      some (.ofBuffer [97, 46, 98]) := by
    decide
  obtain ⟨hsome, hslots, -⟩ := splitDomainLabels_normalized h
  obtain ⟨slots, hs⟩ := Option.isSome_iff_exists.1 (hsome.2 (by decide))
  obtain ⟨ls, -, hlen, -⟩ := hslots slots hs
  exact ⟨slots, hs, hlen⟩

end FilteringResolver
