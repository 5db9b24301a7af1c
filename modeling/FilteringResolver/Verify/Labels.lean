import Mathlib.Data.List.GetD
import FilteringResolver.Filter
import FilteringResolver.Lib.Separated

/-!
# Normalised names and their labels

What `normalize_domain` accepts has no empty label (`normalizeDomain_noEmptyPiece`), and on a
name whose characters fit the buffer it computes the cleaned name (`normalizeDomain_short`). On
a name without empty labels `split_domain_labels` fills every slot with the labels in reverse
order, or fails on a label of more than 63 octets or on an allocation (`splitDomainLabels_spec`).
-/

namespace FilteringResolver

open Loops Separated

/-! ## Characters -/

theorem isspace_dot : isspace dot = false := by decide

theorem tolower_eq_dot {c : UInt8} : tolower c = dot ↔ c = dot := by
  unfold tolower dot
  split <;> grind

theorem tolower_eq_nul {c : UInt8} : tolower c = 0 ↔ c = 0 := by
  unfold tolower
  split <;> grind

/-! ## Cleaning -/

/-- A name without its whitespace and in lower case. -/
def clean (s : Bytes) : Bytes := (s.filter fun c => !isspace c).map tolower

theorem clean_nul_free {s : Bytes} (h : 0 ∉ s) : 0 ∉ clean s := by
  intro hc
  obtain ⟨c, hc, h0⟩ := List.mem_map.1 hc
  rw [tolower_eq_nul.1 h0] at hc
  exact h (List.mem_filter.1 hc).1

theorem length_clean_le (s : Bytes) : (clean s).length ≤ s.length := by
  simpa [clean] using List.length_filter_le _ s

theorem clean_dropWhile (s : Bytes) : clean (s.dropWhile isspace) = clean s := by
  induction s with
  | nil => rfl
  | cons c s ih =>
    cases hc : isspace c with
    | true =>
      rw [List.dropWhile_cons_of_pos hc, ih]
      simp [clean, hc]
    | false => simp [hc]

/-- Cleaning a dotted name cleans its labels. -/
theorem clean_intercalate (ls : List Bytes) :
    clean ([dot].intercalate ls) = [dot].intercalate (ls.map clean) := by
  rw [clean, filter_intercalate (by simp [isspace_dot]), map_intercalate, tolower_eq_dot.2 rfl,
    List.map_map]
  rfl

theorem dot_not_mem_clean {s : Bytes} (h : dot ∉ s) : dot ∉ clean s := by
  intro hc
  obtain ⟨c, hc, h0⟩ := List.mem_map.1 hc
  rw [tolower_eq_dot.1 h0] at hc
  exact h (List.mem_filter.1 hc).1

/-- The copy loop cleans a name that stays below the bound. -/
theorem copyLower_short {cap : Nat} :
    ∀ (s out : Bytes), out.length + (clean s).length < cap →
      copyLower cap s out = ([], out ++ clean s)
  | [], out, _ => by simp [copyLower, clean]
  | c :: s, out, h => by
    have hout : out.length < cap := by omega
    cases hc : isspace c with
    | true =>
      have hs : clean (c :: s) = clean s := by simp [clean, hc]
      rw [hs] at h ⊢
      simp only [copyLower, if_pos hout, hc, ite_true]
      exact copyLower_short s out h
    | false =>
      have hs : clean (c :: s) = tolower c :: clean s := by simp [clean, hc]
      rw [hs, List.length_cons] at h
      simp only [copyLower, if_pos hout, hc, Bool.false_eq_true, ite_false, hs]
      rw [copyLower_short s (out ++ [tolower c]) (by simp; omega)]
      simp

theorem copyLower_nul_free {cap : Nat} :
    ∀ (s out : Bytes), 0 ∉ s → 0 ∉ out → 0 ∉ (copyLower cap s out).2
  | [], _, _, hout => hout
  | c :: s, out, hs, hout => by
    have hs' : 0 ∉ s := fun h => hs (List.mem_cons_of_mem _ h)
    have hc : tolower c ≠ 0 := fun h => hs (by simp [tolower_eq_nul.1 h])
    simp only [copyLower]
    split
    · split
      · exact copyLower_nul_free s out hs' hout
      · exact copyLower_nul_free s _ hs' (by simp [hout, Ne.symm hc])
    · exact hout

/-! ## The scan for empty labels -/

theorem hasEmptyLabel_iff {s : Bytes} :
    hasEmptyLabel s = true ↔ s.head? = some dot ∨ [dot, dot] <:+: s := by
  rw [infix_pair_iff]
  simp only [hasEmptyLabel, List.any_eq_true, List.mem_range, Bool.and_eq_true, Bool.or_eq_true,
    beq_iff_eq, decide_eq_true_eq]
  constructor
  · rintro ⟨j, hj, hd, (rfl | ⟨hj', hd'⟩)⟩
    · left
      rwa [List.head?_eq_getElem?, List.getElem?_eq_getElem hj, ← List.getD_eq_getElem s 0 hj,
        Option.some.injEq]
    · right
      rw [List.getD_eq_getElem s 0 hj] at hd
      rw [List.getD_eq_getElem s 0 hj'] at hd'
      exact ⟨j, by rw [List.getElem?_eq_getElem hj, hd], by rw [List.getElem?_eq_getElem hj', hd']⟩
  · rintro (h | ⟨j, h1, h2⟩)
    · obtain ⟨t, rfl⟩ := List.head?_eq_some_iff.1 h
      exact ⟨0, by simp⟩
    · obtain ⟨hj, h1⟩ := List.getElem?_eq_some_iff.1 h1
      obtain ⟨hj', h2⟩ := List.getElem?_eq_some_iff.1 h2
      exact ⟨j, hj, by rw [List.getD_eq_getElem s 0 hj, h1],
        Or.inr ⟨hj', by rw [List.getD_eq_getElem s 0 hj', h2]⟩⟩

/-- On a name without trailing dots the scan finds exactly the empty labels. -/
theorem noEmptyPiece_iff_scan {s : Bytes} (hne : s ≠ []) (hlast : s.getLast? ≠ some dot) :
    NoEmptyPiece dot s ↔ hasEmptyLabel s = false := by
  rw [noEmptyPiece_iff, ← Bool.not_eq_true, hasEmptyLabel_iff]
  tauto

theorem getLast?_rdropWhile_dot (s : Bytes) :
    (s.rdropWhile (· == dot)).getLast? ≠ some dot := by
  intro h
  have hne : s.rdropWhile (· == dot) ≠ [] := by
    rintro he
    simp [he] at h
  rw [List.getLast?_eq_some_getLast hne, Option.some.injEq] at h
  exact List.rdropWhile_last_not _ _ hne (by simp [h])

/-! ## `normalize_domain` -/

/-- What `normalize_domain` does after the copy. -/
def finishNormalize (normalized : Bytes) : Option CStr :=
  let normalized := normalized.rdropWhile (· == dot)
  if normalized = [] then none
  else if hasEmptyLabel normalized then none
  else some (.ofBuffer normalized)

theorem finishNormalize_iff {s : Bytes} (h0 : 0 ∉ s) {n : CStr} :
    finishNormalize s = some n ↔
      n.bytes = s.rdropWhile (· == dot) ∧ NoEmptyPiece dot n.bytes := by
  have h0' : 0 ∉ s.rdropWhile (· == dot) := fun h => h0 ((List.rdropWhile_prefix _ _).subset h)
  have hb := CStr.ofBuffer_of_nul_free h0'
  simp only [finishNormalize]
  by_cases hne : s.rdropWhile (· == dot) = []
  · simp only [hne, ite_true, reduceCtorEq, false_iff, not_and]
    intro h
    simp [h, NoEmptyPiece]
  · have hscan := noEmptyPiece_iff_scan hne (getLast?_rdropWhile_dot s)
    cases he : hasEmptyLabel (s.rdropWhile (· == dot)) with
    | true =>
      simp only [hne, ite_false, ite_true, reduceCtorEq, false_iff, not_and]
      intro h
      rw [h, hscan, he]
      simp
    | false =>
      simp only [hne, ite_false, Bool.false_eq_true, Option.some.injEq]
      constructor
      · rintro rfl
        exact ⟨hb, by rw [hb, hscan, he]⟩
      · rintro ⟨h, -⟩
        exact CStr.ext_bytes (hb.trans h.symm)

theorem normalizeDomain_cases (domain : CStr) (len : Nat) :
    normalizeDomain domain len = none ∨
      normalizeDomain domain len =
        finishNormalize (copyLower (len - 1) (domain.bytes.dropWhile isspace) []).2 := by
  simp only [normalizeDomain, finishNormalize]
  split <;> [exact Or.inl rfl; skip]
  split <;> [exact Or.inl rfl; skip]
  split <;> [exact Or.inl rfl; exact Or.inr rfl]

/-- **A normalised name has no empty label.** -/
theorem normalizeDomain_noEmptyPiece {domain n : CStr} {len : Nat}
    (h : normalizeDomain domain len = some n) : NoEmptyPiece dot n.bytes := by
  rcases normalizeDomain_cases domain len with h' | h'
  · rw [h'] at h
    cases h
  · rw [h'] at h
    have h0 : 0 ∉ domain.bytes.dropWhile isspace := fun hm =>
      domain.nul_free ((List.dropWhile_suffix _).subset hm)
    exact ((finishNormalize_iff (copyLower_nul_free _ _ h0 (by simp))).1 h).2

/-- **A name that fits is cleaned**: below the bound of the copy, normalisation drops the
whitespace, lowers the letters and drops the trailing dots. -/
theorem normalizeDomain_short {domain : CStr} {len : Nat}
    (h : (clean domain.bytes).length + 1 < len) {n : CStr} :
    normalizeDomain domain len = some n ↔
      n.bytes = (clean domain.bytes).rdropWhile (· == dot) ∧ NoEmptyPiece dot n.bytes := by
  have hlen : len ≠ 0 := by omega
  rw [← finishNormalize_iff (clean_nul_free domain.nul_free)]
  by_cases hd : domain.bytes.dropWhile isspace = []
  · have hc : clean domain.bytes = [] := by rw [← clean_dropWhile, hd]; rfl
    simp [normalizeDomain, hlen, hd, hc, finishNormalize]
  · have hcopy : copyLower (len - 1) (domain.bytes.dropWhile isspace) [] =
        ([], [] ++ clean (domain.bytes.dropWhile isspace)) :=
      copyLower_short _ _ (by rw [clean_dropWhile, List.length_nil]; omega)
    rw [clean_dropWhile, List.nil_append] at hcopy
    simp only [normalizeDomain, hlen, ite_false, hd, hcopy, ne_eq, not_true_eq_false,
      false_and, finishNormalize]

/-- The normalised name, in the buffer that adding and looking up a domain use. -/
def normalName (domain : CStr) : Option CStr := normalizeDomain domain (dnsMaxNameLen + 1)

/-! ## `split_domain_labels` -/

/-- The labels of a dotted name. -/
def labels (s : CStr) : List CStr := (s.bytes.splitOn dot).map .ofBuffer

/-- Every label of the name has at most 63 octets. -/
def ShortLabels (s : CStr) : Prop := ∀ l ∈ labels s, l.bytes.length ≤ dnsMaxLabelLen

instance (s : CStr) : Decidable (ShortLabels s) :=
  inferInstanceAs (Decidable (∀ l ∈ labels s, l.bytes.length ≤ dnsMaxLabelLen))

theorem bytes_labels (s : CStr) : (labels s).map (·.bytes) = s.bytes.splitOn dot := by
  rw [labels, List.map_map]
  conv => rhs; rw [← List.map_id (s.bytes.splitOn dot)]
  apply List.map_congr_left
  intro l hl
  exact CStr.ofBuffer_of_nul_free fun h0 => s.nul_free (mem_of_mem_splitOn hl h0)

theorem shortLabels_iff (s : CStr) :
    ShortLabels s ↔ ∀ l ∈ s.bytes.splitOn dot, l.length ≤ dnsMaxLabelLen := by
  rw [← bytes_labels]
  simp [ShortLabels]

/-- The backward scan stops at the start of the last label of `domain[0 .. k]`. -/
theorem scanStart_spec (domain : Bytes) (k : Nat) :
    (∀ i, scanStart domain k ≤ i → i < k → domain.getD i 0 ≠ dot) ∧
      (0 < scanStart domain k → domain.getD (scanStart domain k - 1) 0 = dot) := by
  induction k with
  | zero =>
    exact ⟨fun i _ h => absurd h (Nat.not_lt_zero i), fun h => absurd h (by simp [scanStart])⟩
  | succ k ih =>
    rw [scanStart]
    split
    · next hk =>
      refine ⟨fun i hi hik => ?_, ih.2⟩
      by_cases hik' : i = k
      · rwa [hik']
      · exact ih.1 i hi (by omega)
    · next hk =>
      exact ⟨fun i hi hik => by omega, fun _ => by simpa using hk⟩

/-- One pass of the backward scan on a text without empty labels: it cuts off the last label. -/
theorem scanStart_cut {domain : Bytes} {e : Nat} (he : e ≤ domain.length)
    (h : NoEmptyPiece dot (domain.take e)) :
    let start := scanStart domain (e - 1)
    let label := (domain.drop start).take (e - start)
    0 < e ∧ label.length = e - start ∧ 0 < label.length ∧ dot ∉ label ∧
      (start = 0 → domain.take e = label) ∧
      (0 < start → domain.take e = domain.take (start - 1) ++ dot :: label) := by
  intro start label
  obtain ⟨hne, -, hlast, -⟩ := noEmptyPiece_iff.1 h
  have h0 : 0 < e := Nat.pos_of_ne_zero fun h0 => hne (by simp [h0])
  have hstart : start ≤ e - 1 := scanStart_le domain (e - 1)
  obtain ⟨hrun, hdot⟩ := scanStart_spec domain (e - 1)
  have hlen : label.length = e - start := by
    simp only [label, List.length_take, List.length_drop]
    omega
  refine ⟨h0, hlen, by omega, ?_, ?_, ?_⟩
  · intro hm
    obtain ⟨i, hi, hid⟩ := List.getElem_of_mem hm
    have hget : domain.getD (start + i) 0 = dot := by
      rw [List.getD_eq_getElem domain 0 (by omega), ← hid]
      simp [label]
    by_cases hie : start + i < e - 1
    · exact hrun _ (Nat.le_add_right _ _) hie hget
    · -- the last octet of the text is no dot
      apply hlast
      have hidx : start + i = e - 1 := by omega
      rw [List.getLast?_eq_getElem?, List.length_take, Nat.min_eq_left he,
        List.getElem?_take_of_lt (by omega), ← hidx, List.getElem?_eq_getElem (by omega), ← hget,
        List.getD_eq_getElem domain 0 (by omega)]
  · intro hs
    simp [label, hs]
  · intro hs
    have hd := hdot hs
    rw [List.getD_eq_getElem domain 0 (by omega)] at hd
    have hcut : domain.drop (start - 1) = dot :: domain.drop start := by
      rw [List.drop_eq_getElem_cons (by omega), hd, Nat.sub_add_cancel hs]
    have hsplit : domain.take e =
        domain.take (start - 1) ++ (domain.drop (start - 1)).take (e - (start - 1)) := by
      rw [← List.take_add]
      congr 1
      omega
    rw [hsplit, hcut, show e - (start - 1) = (e - start) + 1 by omega, List.take_succ_cons]

/-- What one pass of the splitter does with a text without empty labels. -/
inductive SplitPass (domain : Bytes) (s : SplitState) :
    SplitState ⊕ (Option (List CStr) × Allocs) → Prop where
  | long {label : Bytes} (mem : label ∈ (domain.take s.endPos).splitOn dot)
      (lt : dnsMaxLabelLen < label.length) : SplitPass domain s (.inr (none, s.allocs))
  | noMemory (head : s.allocs.head = false) : SplitPass domain s (.inr (none, s.allocs.tail))
  | last {label : Bytes} (le : label.length ≤ dnsMaxLabelLen)
      (pieces : (domain.take s.endPos).splitOn dot = [label]) :
      SplitPass domain s (.inr (some (s.labels ++ [.ofBuffer label]), s.allocs.tail))
  | next {label : Bytes} {endPos : Nat} (le : label.length ≤ dnsMaxLabelLen)
      (lt : endPos < s.endPos)
      (pieces : (domain.take s.endPos).splitOn dot = (domain.take endPos).splitOn dot ++ [label]) :
      SplitPass domain s (.inl ⟨endPos, s.labels ++ [.ofBuffer label], s.allocs.tail⟩)

theorem splitStep_pass {domain : Bytes} {s : SplitState} (he : s.endPos ≤ domain.length)
    (h : NoEmptyPiece dot (domain.take s.endPos)) :
    SplitPass domain s (splitStep domain s) := by
  obtain ⟨h0, hlen, hpos, hdot, hfst, hrest⟩ := scanStart_cut he h
  simp only [splitStep, if_pos h0, malloc]
  have hstart : scanStart domain (s.endPos - 1) ≤ s.endPos - 1 := scanStart_le _ _
  generalize scanStart domain (s.endPos - 1) = start at *
  rw [if_neg (by omega)]
  split
  · next hl =>
    refine .long ?_ (hlen ▸ hl)
    rcases Nat.eq_zero_or_pos start with h1 | h1
    · rw [hfst h1, List.splitOn_eq_singleton hdot]
      simp
    · rw [hrest h1, splitOn_append_sep hdot]
      simp
  · next hl =>
    cases hhead : s.allocs.head with
    | false => exact .noMemory hhead
    | true =>
      dsimp only
      split
      · next h1 =>
        refine .next (by omega) (by omega) ?_
        rw [hrest h1, splitOn_append_sep hdot]
      · next h1 =>
        refine .last (by omega) ?_
        rw [hfst (by omega), List.splitOn_eq_singleton hdot]

/-- The outcome of splitting into `pieces` behind the labels `acc` found before: all of them in
reverse order, or a failure. With every allocation succeeding, only a long piece fails. -/
structure SplitInto (pieces : List Bytes) (acc : List CStr) (a : Allocs)
    (r : Option (List CStr) × Allocs) : Prop where
  some_eq : ∀ ls, r.1 = some ls →
    ls = acc ++ (pieces.map .ofBuffer).reverse ∧ ∀ l ∈ pieces, l.length ≤ dnsMaxLabelLen
  none_long : r.1 = none → a = .ok → ∃ l ∈ pieces, dnsMaxLabelLen < l.length
  allocs_ok : a = .ok → r.2 = .ok

theorem splitLoop_spec (domain : Bytes) (s : SplitState) (he : s.endPos ≤ domain.length)
    (h : NoEmptyPiece dot (domain.take s.endPos)) :
    SplitInto ((domain.take s.endPos).splitOn dot) s.labels s.allocs
      ((splitLoop domain).run s) := by
  induction s using (splitLoop domain).induction with
  | exit s r hstep =>
    rw [Loop.run_exit _ hstep]
    have hpass := splitStep_pass he h
    rw [show splitStep domain s = .inr r from hstep] at hpass
    cases hpass with
    | long mem lt => exact ⟨nofun, fun _ _ => ⟨_, mem, lt⟩, id⟩
    | noMemory head =>
      refine ⟨nofun, fun _ ha => ?_, fun ha => ?_⟩
      · rw [ha] at head
        cases head
      · rw [ha]
        rfl
    | last le pieces =>
      rw [pieces]
      refine ⟨fun ls hls => ?_, nofun, fun ha => by rw [ha]; rfl⟩
      cases hls
      exact ⟨by simp, by simpa using le⟩
  | next s t hstep ih =>
    rw [Loop.run_next _ hstep]
    have hpass := splitStep_pass he h
    rw [show splitStep domain s = .inl t from hstep] at hpass
    cases hpass with
    | next le lt pieces =>
      have hcut : NoEmptyPiece dot (domain.take _) := fun hm =>
        h (pieces ▸ List.mem_append_left _ hm)
      have ih := ih (Nat.le_trans (Nat.le_of_lt lt) he) hcut
      rw [pieces]
      refine ⟨fun ls hls => ?_, fun hn ha => ?_, fun ha => ?_⟩
      · obtain ⟨rfl, hshort⟩ := ih.some_eq ls hls
        refine ⟨by simp, fun l hm => ?_⟩
        rcases List.mem_append.1 hm with hm | hm
        · exact hshort l hm
        · rw [List.mem_singleton.1 hm]
          exact le
      · obtain ⟨l, hm, hl⟩ := ih.none_long hn (by rw [ha]; rfl)
        exact ⟨l, List.mem_append_left _ hm, hl⟩
      · exact ih.allocs_ok (by rw [ha]; rfl)

/-- **Splitting a name without empty labels** fills every slot, in reverse order, and all labels
are short; with every allocation succeeding it fails only on a long label. -/
theorem splitDomainLabels_spec {s : CStr} (a : Allocs) (h : NoEmptyPiece dot s.bytes) :
    (∀ ls, (splitDomainLabels s a).1 = some ls →
      ls = (labels s).reverse.map some ∧ ShortLabels s) ∧
    ((splitDomainLabels s a).1 = none → a = .ok → ¬ ShortLabels s) ∧
    (a = .ok → (splitDomainLabels s a).2 = .ok) := by
  unfold splitDomainLabels malloc
  cases hhead : a.head with
  | false =>
    refine ⟨nofun, fun _ ha => ?_, fun ha => ?_⟩
    · rw [ha] at hhead
      cases hhead
    · rw [ha]
      rfl
  | true =>
    have hrun := splitLoop_spec s.bytes ⟨s.bytes.length, [], a.tail⟩ (Nat.le_refl _)
      (by simpa using h)
    simp only [List.take_length] at hrun ⊢
    rcases hr : (splitLoop s.bytes).run ⟨s.bytes.length, [], a.tail⟩ with ⟨_ | ls, a'⟩
    · rw [hr] at hrun
      refine ⟨nofun, fun _ ha => ?_, fun ha => hrun.allocs_ok (by rw [ha]; rfl)⟩
      obtain ⟨l, hm, hl⟩ := hrun.none_long rfl (by rw [ha]; rfl)
      rw [shortLabels_iff]
      exact fun hshort => absurd (hshort l hm) (by omega)
    · rw [hr] at hrun
      obtain ⟨hls, hshort⟩ := hrun.some_eq ls rfl
      refine ⟨fun ls' h' => ?_, nofun, fun ha => hrun.allocs_ok (by rw [ha]; rfl)⟩
      cases h'
      have hcount : s.bytes.count dot + 1 - ls.length = 0 := by
        simp [hls, ← length_splitOn]
      rw [hcount, List.replicate_zero, List.append_nil, hls]
      exact ⟨rfl, (shortLabels_iff s).2 hshort⟩

/-- The labels of a normalised name are not empty. -/
theorem labels_ne_nil (s : CStr) : labels s ≠ [] := by
  simp [labels]

/-- The labels give the name back. -/
theorem labels_injective : Function.Injective labels := by
  intro m m' h
  have hsplit : m.bytes.splitOn dot = m'.bytes.splitOn dot := by
    rw [← bytes_labels, h, bytes_labels]
  have hm : [dot].intercalate (m.bytes.splitOn dot) = m.bytes := List.intercalate_splitOn dot
  have hm' : [dot].intercalate (m'.bytes.splitOn dot) = m'.bytes := List.intercalate_splitOn dot
  exact CStr.ext_bytes (by rw [← hm, hsplit, hm'])

end FilteringResolver
