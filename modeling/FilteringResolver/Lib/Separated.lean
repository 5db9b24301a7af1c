import Mathlib.Data.List.DropRight
import Mathlib.Data.List.Basic

/-!
# Texts of separated pieces

`List.splitOn` cuts a text at a separator and `List.intercalate` joins pieces with it. Here are
the facts about the two that code scanning such texts relies on: joining pieces that each carry
a trailing separator, cutting off the last piece, mapping and filtering characters, dropping
trailing separators and other characters, the texts with short pieces only
(`shortRuns_intercalate`) or with no empty one (`noEmptyPiece_iff`), and those that are read off
their tokens (`joined_iff_tokens`).
-/

namespace Separated

variable {α β : Type*} {sep : α}

/-! ## Joining -/

theorem intercalate_append {xs ys : List (List α)} (hx : xs ≠ []) (hy : ys ≠ []) :
    [sep].intercalate (xs ++ ys) = [sep].intercalate xs ++ sep :: [sep].intercalate ys := by
  induction xs with
  | nil => exact absurd rfl hx
  | cons x xs ih =>
    cases xs with
    | nil => simp [List.intercalate_cons_of_ne_nil hy]
    | cons x' xs =>
      rw [List.cons_append, List.cons_append, List.intercalate_cons_cons, ← List.cons_append,
        ih (by simp), List.intercalate_cons_cons]
      simp

/-- Pieces that each carry a trailing separator are the joined pieces and one separator. -/
theorem flatMap_append_sep {ls : List (List α)} (h : ls ≠ []) :
    (ls.flatMap fun l => l ++ [sep]) = [sep].intercalate ls ++ [sep] := by
  induction ls with
  | nil => exact absurd rfl h
  | cons l ls ih =>
    cases ls with
    | nil => simp
    | cons l' ls => rw [List.flatMap_cons, ih (by simp), List.intercalate_cons_cons]; simp

theorem length_intercalate {ls : List (List α)} :
    ([sep].intercalate ls).length = (ls.flatMap fun l => l ++ [sep]).length - 1 := by
  by_cases h : ls = []
  · subst h
    rfl
  · rw [flatMap_append_sep h, List.length_append, List.length_singleton, Nat.add_sub_cancel]

theorem mem_intercalate {ls : List (List α)} {c : α} (h : c ∈ [sep].intercalate ls) :
    c = sep ∨ ∃ l ∈ ls, c ∈ l := by
  induction ls with
  | nil => cases h
  | cons l ls ih =>
    cases ls with
    | nil => exact Or.inr ⟨l, by simp, by simpa using h⟩
    | cons l' ls =>
      rw [List.intercalate_cons_cons, List.mem_append, List.mem_append, List.mem_singleton] at h
      rcases h with (h | h) | h
      · exact Or.inr ⟨l, by simp, h⟩
      · exact Or.inl h
      · exact (ih h).imp_right fun ⟨m, hm, hc⟩ => ⟨m, List.mem_cons_of_mem _ hm, hc⟩

theorem mem_intercalate_of_mem {ls : List (List α)} {l : List α} {c : α} (hl : l ∈ ls)
    (hc : c ∈ l) : c ∈ [sep].intercalate ls := by
  obtain ⟨xs, ys, rfl⟩ := List.append_of_mem hl
  have hys : c ∈ [sep].intercalate (l :: ys) := by
    cases ys with
    | nil => simpa using hc
    | cons y ys => simp [List.intercalate_cons_cons, hc]
  by_cases hx : xs = []
  · simpa [hx] using hys
  · rw [intercalate_append hx (by simp)]
    simp [hys]

theorem map_intercalate (f : α → β) (ls : List (List α)) :
    ([sep].intercalate ls).map f = [f sep].intercalate (ls.map (List.map f)) := by
  induction ls with
  | nil => rfl
  | cons l ls ih =>
    cases ls with
    | nil => simp
    | cons l' ls =>
      rw [List.intercalate_cons_cons, List.map_append, ih]
      simp [List.intercalate_cons_cons]

theorem filter_intercalate {p : α → Bool} (hp : p sep = true) (ls : List (List α)) :
    ([sep].intercalate ls).filter p = [sep].intercalate (ls.map (List.filter p)) := by
  induction ls with
  | nil => rfl
  | cons l ls ih =>
    cases ls with
    | nil => simp
    | cons l' ls =>
      rw [List.intercalate_cons_cons, List.filter_append, ih]
      simp [List.intercalate_cons_cons, hp]

/-! ## Trailing characters -/

theorem rdropWhile_append (p : α → Bool) (s t : List α) :
    (s ++ t).rdropWhile p =
      if t.rdropWhile p = [] then s.rdropWhile p else s ++ t.rdropWhile p := by
  simp only [List.rdropWhile, List.reverse_append, List.dropWhile_append, List.reverse_eq_nil_iff,
    List.isEmpty_iff]
  split
  · rfl
  · rw [List.reverse_append, List.reverse_reverse]

theorem rdropWhile_append_of_all {p : α → Bool} (s : List α) {t : List α} (h : ∀ c ∈ t, p c) :
    (s ++ t).rdropWhile p = s.rdropWhile p := by
  rw [rdropWhile_append, if_pos (List.rdropWhile_eq_nil_iff.2 h)]

/-- A text that keeps something after its trailing characters are dropped cannot be extended
without changing what it keeps, but for more such characters behind it. -/
theorem extension_of_rdropWhile_eq {p : α → Bool} {pre s post : List α} (hs : s.rdropWhile p ≠ [])
    (h : (pre ++ s ++ post).rdropWhile p = s.rdropWhile p) :
    pre = [] ∧ ∀ c ∈ post, p c := by
  have hle := (List.rdropWhile_prefix p s).length_le
  rw [rdropWhile_append] at h
  split at h
  · next hpost =>
    rw [rdropWhile_append, if_neg hs] at h
    exact ⟨by simpa using h, List.rdropWhile_eq_nil_iff.1 hpost⟩
  · next hpost =>
    have hlen := congrArg List.length h
    rw [List.length_append, List.length_append] at hlen
    have hpos : 0 < (post.rdropWhile p).length := List.length_pos_iff.2 hpost
    omega

/-! ## Short pieces -/

/-- No run of characters without a separator is longer than `k`. -/
def ShortRuns (sep : α) (k : Nat) (s : List α) : Prop :=
  ∀ r, r <:+: s → sep ∉ r → r.length ≤ k

section ShortRuns

variable {k : Nat} {s t : List α}

theorem ShortRuns.of_infix (h : ShortRuns sep k s) (ht : t <:+: s) : ShortRuns sep k t :=
  fun r hr => h r (hr.trans ht)

theorem ShortRuns.filter (h : ShortRuns sep k s) {p : α → Bool} (hp : p sep = true) :
    ShortRuns sep k (s.filter p) := by
  intro r hr hsep
  obtain ⟨r', hr', rfl⟩ := List.infix_filter_iff.1 hr
  have hsep' : sep ∉ r' := fun h => hsep (List.mem_filter.2 ⟨h, hp⟩)
  exact (List.length_filter_le p r').trans (h r' hr' hsep')

theorem ShortRuns.map (h : ShortRuns sep k s) {f : α → α} (hf : f sep = sep) :
    ShortRuns sep k (s.map f) := by
  intro r hr hsep
  obtain ⟨r', hr', rfl⟩ := List.infix_map_iff.1 hr
  rw [List.length_map]
  exact h r' hr' fun hmem => hsep (hf ▸ List.mem_map_of_mem hmem)

/-- Pieces of at most `k` characters, whether or not they hold separators of their own. -/
theorem shortRuns_intercalate {ls : List (List α)} (h : ∀ l ∈ ls, l.length ≤ k) :
    ShortRuns sep k ([sep].intercalate ls) := by
  induction ls with
  | nil =>
    intro r hr _
    rw [List.intercalate_nil, List.infix_nil] at hr
    simp [hr]
  | cons l ls ih =>
    have hl : ∀ r, r <:+: l → r.length ≤ k := fun r hr => hr.length_le.trans (h l (by simp))
    cases ls with
    | nil => exact fun r hr _ => hl r (by simpa using hr)
    | cons l' ls =>
      intro r hr hsep
      have hstart : ∀ u, u <+: sep :: [sep].intercalate (l' :: ls) → sep ∉ u → u = [] := by
        intro u hu hfree
        cases u with
        | nil => rfl
        | cons c u => exact absurd (by simp [(List.cons_prefix_cons.1 hu).1]) hfree
      rw [List.intercalate_cons_cons, List.append_assoc, List.singleton_append,
        List.infix_append_iff] at hr
      rcases hr with hr | hr | ⟨u, v, rfl, hu, hv⟩
      · exact hl r hr
      · rcases List.infix_cons_iff.1 hr with hr | hr
        · simp [hstart r hr hsep]
        · exact ih (fun m hm => h m (List.mem_cons_of_mem l hm)) r hr hsep
      · rw [hstart v hv fun hmem => hsep (List.mem_append_right u hmem), List.append_nil]
        exact hl u hu.isInfix

theorem infix_intercalate {ls : List (List α)} {l : List α} (h : l ∈ ls) :
    l <:+: [sep].intercalate ls := by
  induction ls with
  | nil => cases h
  | cons m ls ih =>
    cases ls with
    | nil =>
      obtain rfl := List.mem_singleton.1 h
      simp
    | cons m' ls =>
      rw [List.intercalate_cons_cons, List.append_assoc]
      rcases List.mem_cons.1 h with rfl | h
      · exact List.infix_append_left
      · exact (ih h).trans (List.infix_append_right.trans List.infix_append_right)

end ShortRuns

section Cut

variable [BEq α] [LawfulBEq α]

/-! ## Cutting -/

theorem mem_of_mem_splitOn {s l : List α} {c : α} (h : l ∈ s.splitOn sep) (hc : c ∈ l) :
    c ∈ s := by
  have hs : [sep].intercalate (s.splitOn sep) = s := List.intercalate_splitOn sep
  rw [← hs]
  exact mem_intercalate_of_mem h hc

omit [LawfulBEq α] in
theorem length_splitOn (s : List α) : (s.splitOn sep).length = s.count sep + 1 := by
  induction s with
  | nil => rfl
  | cons c s ih =>
    rw [List.splitOn_cons_eq_if_modifyHead, List.count_cons]
    split <;> simp [ih]

/-- No piece holds a separator. -/
theorem not_mem_of_mem_splitOn {s l : List α} (h : l ∈ s.splitOn sep) : sep ∉ l := by
  induction s generalizing l with
  | nil =>
    rw [List.splitOn_nil, List.mem_singleton] at h
    simp [h]
  | cons c s ih =>
    obtain ⟨first, rest, hs⟩ := List.exists_cons_of_ne_nil (List.splitOn_ne_nil sep s)
    rw [hs] at ih
    rw [List.splitOn_cons_eq_if_modifyHead, hs] at h
    split at h
    · rcases List.mem_cons.1 h with rfl | h
      · simp
      · exact ih h
    · next hc =>
      rw [List.modifyHead_cons] at h
      rcases List.mem_cons.1 h with rfl | h
      · have hne : sep ≠ c := fun he => hc (beq_iff_eq.2 he.symm)
        simpa [hne] using ih List.mem_cons_self
      · exact ih (List.mem_cons_of_mem first h)

theorem ShortRuns.length_le {k : Nat} {s l : List α} (h : ShortRuns sep k s)
    (hl : l ∈ s.splitOn sep) : l.length ≤ k := by
  have hs : [sep].intercalate (s.splitOn sep) = s := List.intercalate_splitOn sep
  exact h l (hs ▸ infix_intercalate hl) (not_mem_of_mem_splitOn hl)

/-- The text up to its last separator, and the piece after it. -/
theorem splitOn_append_sep {s l : List α} (h : sep ∉ l) :
    (s ++ sep :: l).splitOn sep = s.splitOn sep ++ [l] := by
  rw [List.splitOn_append_cons_self, List.splitOn_eq_singleton h]

/-! ## No empty piece -/

omit [BEq α] [LawfulBEq α] in
/-- Two separators in a row, by their position. -/
theorem infix_pair_iff {s : List α} :
    [sep, sep] <:+: s ↔ ∃ j, s[j]? = some sep ∧ s[j + 1]? = some sep := by
  constructor
  · rintro ⟨x, y, rfl⟩
    exact ⟨x.length, by simp, by simp⟩
  · rintro ⟨j, h1, h2⟩
    obtain ⟨hj, h1⟩ := List.getElem?_eq_some_iff.1 h1
    obtain ⟨hj', h2⟩ := List.getElem?_eq_some_iff.1 h2
    refine ⟨s.take j, s.drop (j + 2), ?_⟩
    rw [List.append_assoc, List.cons_append, List.cons_append, List.nil_append]
    conv => rhs; rw [← List.take_append_drop j s, List.drop_eq_getElem_cons hj,
      List.drop_eq_getElem_cons hj', h1, h2]

/-- Every piece of the text has a character. -/
def NoEmptyPiece (sep : α) (s : List α) : Prop := [] ∉ s.splitOn sep

/-- A text has no empty piece when it is not empty, neither starts nor ends with a separator,
and has no two separators in a row. -/
theorem noEmptyPiece_iff {s : List α} :
    NoEmptyPiece sep s ↔
      s ≠ [] ∧ s.head? ≠ some sep ∧ s.getLast? ≠ some sep ∧ ¬ [sep, sep] <:+: s := by
  constructor
  · intro h
    refine ⟨?_, ?_, ?_, ?_⟩
    · rintro rfl
      simp [NoEmptyPiece] at h
    · intro hs
      obtain ⟨t, rfl⟩ := List.head?_eq_some_iff.1 hs
      exact h (by simp [List.splitOn_cons_eq_if_modifyHead])
    · intro hs
      obtain ⟨t, rfl⟩ := List.getLast?_eq_some_iff.1 hs
      exact h (by rw [splitOn_append_sep (by simp)]; simp)
    · rintro ⟨x, y, rfl⟩
      apply h
      rw [List.append_assoc, List.cons_append, List.cons_append, List.nil_append,
        List.splitOn_append_cons_self]
      simp [List.splitOn_cons_eq_if_modifyHead]
  · rintro ⟨hne, hhead, hlast, hmid⟩ h
    obtain ⟨xs, ys, hxy⟩ := List.append_of_mem h
    have hs : s = [sep].intercalate (xs ++ [] :: ys) := by rw [← hxy, List.intercalate_splitOn]
    by_cases hx : xs = []
    · by_cases hy : ys = []
      · exact hne (by simpa [hx, hy] using hs)
      · exact hhead (by simp [hs, hx, List.intercalate_cons_of_ne_nil hy])
    · rw [intercalate_append hx (by simp)] at hs
      by_cases hy : ys = []
      · exact hlast (by simp [hs, hy])
      · refine hmid ⟨[sep].intercalate xs, [sep].intercalate ys, ?_⟩
        rw [hs, List.intercalate_cons_of_ne_nil hy]
        simp

theorem noEmptyPiece_intercalate {ls : List (List α)} (hsep : ∀ l ∈ ls, sep ∉ l) (h : ls ≠ []) :
    NoEmptyPiece sep ([sep].intercalate ls) ↔ [] ∉ ls := by
  rw [NoEmptyPiece, List.splitOn_intercalate sep hsep h]

/-- Dropping the trailing separators of a text drops its trailing empty pieces. -/
theorem rdropWhile_intercalate {ls : List (List α)} (hsep : ∀ l ∈ ls, sep ∉ l) :
    ([sep].intercalate ls).rdropWhile (· == sep) =
      [sep].intercalate (ls.rdropWhile List.isEmpty) := by
  induction ls using List.reverseRecOn with
  | nil => rfl
  | append_singleton ls l ih =>
    have hsep' : ∀ m ∈ ls, sep ∉ m := fun m hm => hsep m (by simp [hm])
    cases hl : l.isEmpty with
    | true =>
      obtain rfl := List.isEmpty_iff.1 hl
      rw [List.rdropWhile_concat_pos _ _ _ rfl, ← ih hsep']
      cases ls with
      | nil => rfl
      | cons m ls =>
        rw [intercalate_append (by simp) (by simp), List.intercalate_singleton,
          List.rdropWhile_concat_pos _ _ _ (by simp)]
    | false =>
      rw [List.rdropWhile_concat_neg _ _ _ (by simp [hl])]
      obtain ⟨t, c, rfl⟩ :=
        (List.eq_nil_or_concat' l).resolve_left (List.isEmpty_eq_false_iff.1 hl)
      have hc : c ≠ sep := by
        rintro rfl
        exact hsep (t ++ [c]) (by simp) (by simp)
      -- the text ends with the last character of its last piece
      obtain ⟨w, hw⟩ : ∃ w, [sep].intercalate (ls ++ [t ++ [c]]) = w ++ [c] := by
        by_cases hls : ls = []
        · exact ⟨t, by simp [hls]⟩
        · exact ⟨[sep].intercalate ls ++ sep :: t, by
            rw [intercalate_append hls (by simp)]; simp⟩
      rw [hw, List.rdropWhile_concat_neg _ _ _ (by simpa using hc)]

/-! ## Tokens -/

/-- The pieces of a text that are not empty. -/
def tokens (sep : α) (s : List α) : List (List α) := (s.splitOn sep).filter (!·.isEmpty)

omit [LawfulBEq α] in
theorem ne_nil_of_mem_tokens {s l : List α} (h : l ∈ tokens sep s) : l ≠ [] := by
  simpa using (List.mem_filter.1 h).2

omit [LawfulBEq α] in
@[simp] theorem tokens_nil : tokens sep [] = [] := by simp [tokens]

@[simp] theorem tokens_cons_sep (s : List α) : tokens sep (sep :: s) = tokens sep s := by
  simp [tokens, List.splitOn_cons_eq_if_modifyHead]

theorem tokens_append_sep (s t : List α) :
    tokens sep (s ++ sep :: t) = tokens sep s ++ tokens sep t := by
  rw [tokens, List.splitOn_append_cons_self, List.filter_append]
  rfl

theorem tokens_of_not_mem {s : List α} (h : sep ∉ s) (hne : s ≠ []) : tokens sep s = [s] := by
  rw [tokens, List.splitOn_eq_singleton h]
  simp [hne]

/-- Leading separators start no token. -/
theorem tokens_dropWhile (s : List α) : tokens sep (s.dropWhile (· == sep)) = tokens sep s := by
  induction s with
  | nil => rfl
  | cons c s ih =>
    by_cases hc : c = sep
    · subst hc
      rw [List.dropWhile_cons_of_pos (by simp), ih, tokens_cons_sep]
    · rw [List.dropWhile_cons_of_neg (by simpa using hc)]

/-- A text that does not start with a separator starts with a token. -/
theorem tokens_takeWhile {s : List α} (hne : s ≠ []) (hs : s.head? ≠ some sep) :
    tokens sep s =
      s.takeWhile (· != sep) :: tokens sep (s.dropWhile (· != sep)).tail := by
  have hfree : sep ∉ s.takeWhile (· != sep) := fun h => by simpa using List.mem_takeWhile_imp h
  have hfirst : s.takeWhile (· != sep) ≠ [] := by
    cases s with
    | nil => exact absurd rfl hne
    | cons c s =>
      have hc : c ≠ sep := by simpa using hs
      rw [List.takeWhile_cons_of_pos (by simpa using hc)]
      exact List.cons_ne_nil _ _
  conv => lhs; rw [← List.takeWhile_append_dropWhile (p := (· != sep)) (l := s)]
  cases hd : s.dropWhile (· != sep) with
  | nil => rw [List.append_nil, List.tail_nil, tokens_nil, tokens_of_not_mem hfree hfirst]
  | cons c t =>
    obtain rfl : c = sep := by
      have := List.head_dropWhile_not (p := (· != sep)) (l := s) (by simp [hd])
      simpa [hd] using this
    rw [tokens_append_sep, tokens_of_not_mem hfree hfirst]
    rfl

theorem tokens_intercalate {ls : List (List α)} (h : ∀ l ∈ ls, sep ∉ l ∧ l ≠ []) :
    tokens sep ([sep].intercalate ls) = ls := by
  by_cases hls : ls = []
  · subst hls
    exact tokens_nil
  · rw [tokens, List.splitOn_intercalate sep (fun l hl => (h l hl).1) hls, List.filter_eq_self]
    intro l hl
    simpa using (h l hl).2

omit [LawfulBEq α] in
theorem tokens_eq_splitOn {s : List α} (h : NoEmptyPiece sep s) :
    tokens sep s = s.splitOn sep := by
  refine List.filter_eq_self.2 fun l hl => ?_
  have hne : l ≠ [] := fun hnil => h (hnil ▸ hl)
  simpa using hne

omit [BEq α] [LawfulBEq α] in
/-- A separator behind a text that does not end with one makes no pair. -/
theorem infix_pair_append_sep {s : List α} (h : s.getLast? ≠ some sep) :
    [sep, sep] <:+: s ++ [sep] ↔ [sep, sep] <:+: s := by
  refine ⟨fun hpair => ?_, fun hpair => hpair.trans (List.prefix_append s [sep]).isInfix⟩
  obtain ⟨j, h1, h2⟩ := infix_pair_iff.1 hpair
  have hlen := (List.getElem?_eq_some_iff.1 h2).1
  rw [List.length_append, List.length_singleton] at hlen
  rw [List.getElem?_append_left (by omega)] at h1
  by_cases hj : j + 1 = s.length
  · exact absurd (by rw [List.getLast?_eq_getElem?, ← hj, Nat.add_sub_cancel, h1]) h
  · rw [List.getElem?_append_left (by omega)] at h2
    exact infix_pair_iff.2 ⟨j, h1, h2⟩

/-- **Texts of tokens**: pieces that hold no separator and are not empty, joined by single
separators and with at most one behind them, make the texts whose tokens they are and that neither
start with a separator nor hold two in a row. -/
theorem joined_iff_tokens {ls : List (List α)} (h : ∀ l ∈ ls, sep ∉ l ∧ l ≠ []) {s : List α} :
    (s = [sep].intercalate ls ∨ ls ≠ [] ∧ s = [sep].intercalate ls ++ [sep]) ↔
      tokens sep s = ls ∧ s.head? ≠ some sep ∧ ¬ [sep, sep] <:+: s := by
  have hpieces : ls ≠ [] → NoEmptyPiece sep ([sep].intercalate ls) := fun hne =>
    (noEmptyPiece_intercalate (fun l hl => (h l hl).1) hne).2 fun hnil => (h [] hnil).2 rfl
  constructor
  · rintro (rfl | ⟨hne, rfl⟩)
    · refine ⟨tokens_intercalate h, ?_⟩
      by_cases hls : ls = []
      · simp [hls]
      · obtain ⟨-, hhead, -, hmid⟩ := noEmptyPiece_iff.1 (hpieces hls)
        exact ⟨hhead, hmid⟩
    · obtain ⟨hnil, hhead, hlast, hmid⟩ := noEmptyPiece_iff.1 (hpieces hne)
      refine ⟨?_, ?_, fun hpair => hmid ((infix_pair_append_sep hlast).1 hpair)⟩
      · rw [tokens_append_sep, tokens_intercalate h, tokens_nil, List.append_nil]
      · rwa [List.head?_append_of_ne_nil _ hnil]
  · rintro ⟨rfl, hhead, hmid⟩
    by_cases hnil : s = []
    · exact .inl (by simp [hnil])
    by_cases hlast : s.getLast? = some sep
    · -- the text without its last separator has no empty piece
      obtain ⟨t, rfl⟩ := List.getLast?_eq_some_iff.1 hlast
      have ht : t ≠ [] := by
        rintro rfl
        exact hhead rfl
      have htlast : t.getLast? ≠ some sep := by
        intro htl
        obtain ⟨u, rfl⟩ := List.getLast?_eq_some_iff.1 htl
        exact hmid ⟨u, [], by simp⟩
      have hpiece : NoEmptyPiece sep t := noEmptyPiece_iff.2
        ⟨ht, by rwa [List.head?_append_of_ne_nil _ ht] at hhead, htlast,
          fun hpair => hmid ((infix_pair_append_sep htlast).2 hpair)⟩
      rw [tokens_append_sep, tokens_nil, List.append_nil, tokens_eq_splitOn hpiece,
        List.intercalate_splitOn]
      exact .inr ⟨List.splitOn_ne_nil sep t, rfl⟩
    · rw [tokens_eq_splitOn (noEmptyPiece_iff.2 ⟨hnil, hhead, hlast, hmid⟩),
        List.intercalate_splitOn]
      exact .inl rfl

end Cut

end Separated
