import FilteringResolver.Verify.Labels

/-!
# Which names normalise, and to what

A name of any length normalises when the copy uses it up (`Fits`) and what it leaves has no
empty label (`normalName_iff`). A part of a name that fits fits as well (`Fits.of_append`), and a
normalised name is its own normal form (`normalName_self`). The copy judges the length before the
trailing dots and the whitespace behind them are gone, so a name at the bound may be refused for
characters that do not count (`normalizeDomain_clean_iff`).
-/

namespace FilteringResolver

open Separated

/-! ## Characters -/

theorem isspace_tolower (c : UInt8) : isspace (tolower c) = isspace c := by
  unfold isspace tolower
  split <;> grind

theorem tolower_tolower (c : UInt8) : tolower (tolower c) = tolower c := by
  unfold tolower
  split <;> grind

theorem clean_append (s t : Bytes) : clean (s ++ t) = clean s ++ clean t := by
  simp [clean]

theorem mem_clean {s : Bytes} {c : UInt8} (h : c ∈ clean s) :
    isspace c = false ∧ tolower c = c := by
  obtain ⟨c, hc, rfl⟩ := List.mem_map.1 h
  have hspace := (List.mem_filter.1 hc).2
  rw [isspace_tolower, tolower_tolower]
  exact ⟨by simpa using hspace, rfl⟩

/-- Characters that are clean stay as they are. -/
theorem clean_eq_self {s : Bytes} (h : ∀ c ∈ s, isspace c = false ∧ tolower c = c) :
    clean s = s := by
  have hfilter : s.filter (fun c => !isspace c) = s :=
    List.filter_eq_self.2 fun c hc => by rw [(h c hc).1]; rfl
  rw [clean, hfilter]
  exact List.map_congr_left (fun c hc => (h c hc).2) |>.trans (List.map_id s)

/-- Only whitespace is cleaned away. -/
theorem clean_eq_nil {s : Bytes} : clean s = [] ↔ ∀ c ∈ s, isspace c = true := by
  simp [clean]

/-! ## The copy loop -/

section Copy

variable {cap : Nat}

/-- What the copy has written when it has used up the name. -/
theorem copyLower_done (s out : Bytes) (h : (copyLower cap s out).1 = []) :
    (copyLower cap s out).2 = out ++ clean s := by
  induction s generalizing out with
  | nil => simp [copyLower, clean]
  | cons c s ih =>
    rw [copyLower] at h ⊢
    by_cases hroom : out.length < cap
    · cases hc : isspace c with
      | true =>
        simp only [if_pos hroom, hc, if_true] at h ⊢
        rw [ih out h]
        simp [clean, hc]
      | false =>
        simp only [if_pos hroom, hc, Bool.false_eq_true, if_false] at h ⊢
        rw [ih _ h]
        simp [clean, hc]
    · rw [if_neg hroom] at h
      cases h

/-- The copy stops early only on a full buffer. -/
theorem copyLower_full (s out : Bytes) (h : (copyLower cap s out).1 ≠ []) :
    cap ≤ (copyLower cap s out).2.length := by
  induction s generalizing out with
  | nil => exact absurd rfl h
  | cons c s ih =>
    rw [copyLower] at h ⊢
    by_cases hroom : out.length < cap
    · cases hc : isspace c with
      | true =>
        simp only [if_pos hroom, hc, if_true] at h ⊢
        exact ih out h
      | false =>
        simp only [if_pos hroom, hc, Bool.false_eq_true, if_false] at h ⊢
        exact ih _ h
    · rw [if_neg hroom]
      exact Nat.le_of_not_lt hroom

theorem copyLower_length_le (s : Bytes) {out : Bytes} (h : out.length ≤ cap) :
    (copyLower cap s out).2.length ≤ cap := by
  induction s generalizing out with
  | nil => exact h
  | cons c s ih =>
    rw [copyLower]
    by_cases hroom : out.length < cap
    · cases hc : isspace c with
      | true =>
        simp only [if_pos hroom, if_true]
        exact ih h
      | false =>
        simp only [if_pos hroom, Bool.false_eq_true, if_false]
        exact ih (by rw [List.length_append]; exact hroom)
    · rw [if_neg hroom]
      exact h

/-- A name that is used up has its parts used up. -/
theorem copyLower_append (s t out : Bytes) (h : (copyLower cap (s ++ t) out).1 = []) :
    (copyLower cap s out).1 = [] := by
  induction s generalizing out with
  | nil => rfl
  | cons c s ih =>
    rw [List.cons_append, copyLower] at h
    rw [copyLower]
    by_cases hroom : out.length < cap
    · cases hc : isspace c with
      | true =>
        simp only [if_pos hroom, hc, if_true] at h ⊢
        exact ih out h
      | false =>
        simp only [if_pos hroom, hc, Bool.false_eq_true, if_false] at h ⊢
        exact ih _ h
    · rw [if_neg hroom] at h
      cases h

/-- Without whitespace the buffer may be filled to the last octet. -/
theorem copyLower_solid (s out : Bytes) (hs : ∀ c ∈ s, isspace c = false)
    (hlen : out.length + s.length ≤ cap) : (copyLower cap s out).1 = [] := by
  induction s generalizing out with
  | nil => rfl
  | cons c s ih =>
    have hc := hs c List.mem_cons_self
    rw [List.length_cons] at hlen
    have hroom : out.length < cap := by omega
    simp only [copyLower, if_pos hroom, hc, Bool.false_eq_true, if_false]
    apply ih _ fun c' hc' => hs c' (List.mem_cons_of_mem c hc')
    rw [List.length_append, List.length_singleton]
    omega

end Copy

/-! ## Names that fit -/

/-- The copy of the name uses it up. -/
def Fits (s : Bytes) : Prop := (copyLower dnsMaxNameLen (s.dropWhile isspace) []).1 = []

instance (s : Bytes) : Decidable (Fits s) := inferInstanceAs (Decidable (_ = _))

theorem dropWhile_isspace_eq_nil {s : Bytes} : s.dropWhile isspace = [] ↔ clean s = [] := by
  rw [clean_eq_nil, List.dropWhile_eq_nil_iff]

theorem fits_dropWhile (s : Bytes) : Fits (s.dropWhile isspace) ↔ Fits s := by
  unfold Fits
  rw [List.dropWhile_idempotent]

/-- The start of a name that fits fits. -/
theorem Fits.of_append {s t : Bytes} (h : Fits (s ++ t)) : Fits s := by
  unfold Fits at h ⊢
  rw [List.dropWhile_append] at h
  split at h
  · next hs =>
    rw [List.isEmpty_iff.1 hs]
    rfl
  · exact copyLower_append _ t [] h

/-- **Normalisation of a name of any length**, in a buffer of any length. -/
theorem normalizeDomain_iff {d n : CStr} {len : Nat} (hlen : len ≠ 0) :
    normalizeDomain d len = some n ↔
      (copyLower (len - 1) (d.bytes.dropWhile isspace) []).1 = [] ∧
      n.bytes = (clean d.bytes).rdropWhile (· == dot) ∧ NoEmptyPiece dot n.bytes := by
  rw [← finishNormalize_iff (clean_nul_free d.nul_free), normalizeDomain, if_neg hlen]
  dsimp only
  by_cases hd : d.bytes.dropWhile isspace = []
  · rw [if_pos hd, dropWhile_isspace_eq_nil.1 hd]
    simp [finishNormalize]
  · rw [if_neg hd]
    by_cases hfits : (copyLower (len - 1) (d.bytes.dropWhile isspace) []).1 = []
    · have hcopy := copyLower_done (d.bytes.dropWhile isspace) [] hfits
      rw [clean_dropWhile, List.nil_append] at hcopy
      simp only [hfits, hcopy, ne_eq, not_true_eq_false, false_and, if_false, true_and,
        finishNormalize]
    · have hfull := copyLower_full (d.bytes.dropWhile isspace) [] hfits
      rw [if_pos ⟨hfits, hfull⟩]
      simp [hfits]

theorem normalName_iff {d n : CStr} :
    normalName d = some n ↔ Fits d.bytes ∧
      n.bytes = (clean d.bytes).rdropWhile (· == dot) ∧ NoEmptyPiece dot n.bytes :=
  normalizeDomain_iff (Nat.succ_ne_zero _)

/-- A normalised name has clean characters only, and at most 255 of them. -/
theorem normalName_clean {d n : CStr} (h : normalName d = some n) :
    (∀ c ∈ n.bytes, isspace c = false ∧ tolower c = c) ∧ n.bytes.length ≤ dnsMaxNameLen := by
  obtain ⟨hfits, hbytes, -⟩ := normalName_iff.1 h
  have hcut := List.rdropWhile_prefix (· == dot) (clean d.bytes)
  rw [hbytes]
  refine ⟨fun c hc => mem_clean (hcut.subset hc), Nat.le_trans hcut.length_le ?_⟩
  have hcopy := copyLower_done (d.bytes.dropWhile isspace) [] hfits
  have hle : (copyLower dnsMaxNameLen (d.bytes.dropWhile isspace) []).2.length ≤ dnsMaxNameLen :=
    copyLower_length_le _ (Nat.zero_le _)
  rwa [hcopy, clean_dropWhile, List.nil_append] at hle

/-- **A normalised name is its own normal form.** -/
theorem normalName_self {d n : CStr} (h : normalName d = some n) : normalName n = some n := by
  obtain ⟨hclean, hlen⟩ := normalName_clean h
  obtain ⟨-, hbytes, hpieces⟩ := normalName_iff.1 h
  have hsolid : n.bytes.dropWhile isspace = n.bytes := by
    cases hn : n.bytes with
    | nil => rfl
    | cons c s => rw [List.dropWhile_cons_of_neg (by simp [(hclean c (by simp [hn])).1])]
  refine normalName_iff.2 ⟨?_, ?_, hpieces⟩
  · unfold Fits
    rw [hsolid]
    exact copyLower_solid _ [] (fun c hc => (hclean c hc).1) (by simpa using hlen)
  · rw [clean_eq_self hclean, hbytes, List.rdropWhile_idempotent]

/-! ## Names at the bound -/

theorem getLast?_dropWhile {p : UInt8 → Bool} {s : Bytes} (h : s.dropWhile p ≠ []) :
    (s.dropWhile p).getLast? = s.getLast? := by
  have hne : s ≠ [] := by
    rintro rfl
    exact h rfl
  rw [List.getLast?_eq_some_getLast h, List.getLast?_eq_some_getLast hne,
    (List.dropWhile_suffix p).getLast h]

/-- **The copy uses a name up** when its characters, whitespace not counted, stay below the bound,
or reach it with the last character of the name. -/
theorem copyLower_usesUp_iff {cap : Nat} (s out : Bytes) (h : out.length ≤ cap) :
    (copyLower cap s out).1 = [] ↔ out.length + (clean s).length < cap ∨
      out.length + (clean s).length = cap ∧ ∀ c, s.getLast? = some c → isspace c = false := by
  induction s generalizing out with
  | nil =>
    simp only [copyLower, clean, List.filter_nil, List.map_nil, List.length_nil, List.getLast?_nil,
      true_iff]
    rcases Nat.lt_or_eq_of_le h with hlt | heq
    · exact .inl hlt
    · exact .inr ⟨heq, fun c hc => by cases hc⟩
  | cons c s ih =>
    have hlast : (c :: s).getLast? = if s = [] then some c else s.getLast? := by
      cases s <;> simp [List.getLast?_cons_cons]
    rw [copyLower]
    by_cases hroom : out.length < cap
    · cases hc : isspace c with
      | true =>
        have hclean : clean (c :: s) = clean s := by simp [clean, hc]
        simp only [if_pos hroom, if_true]
        rw [ih out h, hclean, hlast]
        by_cases hs : s = []
        · subst hs
          exact iff_of_true (.inl hroom) (.inl hroom)
        · rw [if_neg hs]
      | false =>
        have hclean : clean (c :: s) = tolower c :: clean s := by simp [clean, hc]
        have hcount : (out ++ [tolower c]).length + (clean s).length =
            out.length + (clean (c :: s)).length := by
          rw [hclean, List.length_append, List.length_singleton, List.length_cons]
          omega
        simp only [if_pos hroom, Bool.false_eq_true, if_false]
        rw [ih _ (by rw [List.length_append]; exact hroom), hcount, hlast]
        by_cases hs : s = []
        · subst hs
          simp [hc]
        · rw [if_neg hs]
    · rw [if_neg hroom]
      refine iff_of_false (List.cons_ne_nil _ _) ?_
      rintro (hlt | ⟨heq, hend⟩)
      · omega
      · -- nothing of the rest counts, so it ends with whitespace
        have hnil : clean (c :: s) = [] := List.length_eq_zero_iff.1 (by omega)
        have hmem := List.getLast_mem (List.cons_ne_nil c s)
        have hspace := clean_eq_nil.1 hnil _ hmem
        rw [hend _ (List.getLast?_eq_some_getLast (List.cons_ne_nil c s))] at hspace
        cases hspace

/-- What is left of a name when whitespace, case and trailing dots are gone. -/
def cleanedName (d : CStr) : Bytes := (clean d.bytes).rdropWhile (· == dot)

/-- A cleaned name that fits a buffer of `len` octets and has no empty label. -/
structure Normalizable (c : Bytes) (len : Nat) : Prop where
  ne_nil : c ≠ []
  length_le : c.length ≤ len - 1
  head : c.head? ≠ some dot
  mid : ¬ [dot, dot] <:+: c

theorem normalizeDomain_isSome_iff {d : CStr} {len : Nat} (hlen : len ≠ 0) :
    (normalizeDomain d len).isSome ↔
      (copyLower (len - 1) (d.bytes.dropWhile isspace) []).1 = [] ∧
      NoEmptyPiece dot (cleanedName d) := by
  constructor
  · intro h
    obtain ⟨n, hn⟩ := Option.isSome_iff_exists.1 h
    obtain ⟨hfits, hbytes, hpieces⟩ := (normalizeDomain_iff hlen).1 hn
    exact ⟨hfits, by rwa [cleanedName, ← hbytes]⟩
  · rintro ⟨hfits, hpieces⟩
    have h0 : 0 ∉ cleanedName d := fun h =>
      clean_nul_free d.nul_free ((List.rdropWhile_prefix _ _).subset h)
    rw [(normalizeDomain_iff (n := ⟨cleanedName d, h0⟩) hlen).2 ⟨hfits, rfl, hpieces⟩]
    rfl

/-- **Only the cleaned name counts** for the verdict and the result, except for a name whose other
characters fill the buffer: more than `len - 1` with its trailing dots, or whitespace behind exactly
so many. -/
theorem normalizeDomain_clean_iff (d : CStr) (len : Nat) (hlen : 1 ≤ len) :
    (∀ n, normalizeDomain d len = some n → n.bytes = cleanedName d) ∧
    (((normalizeDomain d len).isSome ↔ Normalizable (cleanedName d) len) ↔
      (clean d.bytes).length < len - 1 ∨
      ((clean d.bytes).length = len - 1 ∧ ∀ c, d.bytes.getLast? = some c → isspace c = false) ∨
      ¬ Normalizable (cleanedName d) len) := by
  have hlen0 : len ≠ 0 := Nat.pos_iff_ne_zero.1 hlen
  have hle : (cleanedName d).length ≤ (clean d.bytes).length :=
    (List.rdropWhile_prefix _ _).length_le
  have hscan : NoEmptyPiece dot (cleanedName d) ↔ cleanedName d ≠ [] ∧
      (cleanedName d).head? ≠ some dot ∧ ¬ [dot, dot] <:+: cleanedName d := by
    have hlast : (cleanedName d).getLast? ≠ some dot := getLast?_rdropWhile_dot _
    rw [noEmptyPiece_iff]
    tauto
  have hused := copyLower_usesUp_iff (d.bytes.dropWhile isspace) [] (Nat.zero_le (len - 1))
  rw [clean_dropWhile, List.length_nil, Nat.zero_add] at hused
  -- a name that leaves something ends as it does behind its leading whitespace
  have hlast : Normalizable (cleanedName d) len →
      (d.bytes.dropWhile isspace).getLast? = d.bytes.getLast? := fun hnorm =>
    getLast?_dropWhile fun hnil =>
      hnorm.ne_nil (by rw [cleanedName, dropWhile_isspace_eq_nil.1 hnil]; rfl)
  refine ⟨fun n hn => ((normalizeDomain_iff hlen0).1 hn).2.1, ?_⟩
  rw [normalizeDomain_isSome_iff hlen0, hscan]
  constructor
  · intro h
    by_cases hnorm : Normalizable (cleanedName d) len
    · rw [hlast hnorm] at hused
      exact (hused.1 (h.2 hnorm).1).imp_right .inl
    · exact .inr (.inr hnorm)
  · intro h
    constructor
    · rintro ⟨hfits, hne, hhead, hmid⟩
      refine ⟨hne, ?_, hhead, hmid⟩
      rcases hused.1 hfits with hlt | ⟨heq, -⟩ <;> omega
    · intro hnorm
      rw [hlast hnorm] at hused
      refine ⟨hused.2 ?_, hnorm.ne_nil, hnorm.head, hnorm.mid⟩
      rcases h with hlt | heq | hnot
      · exact .inl hlt
      · exact .inr heq
      · exact absurd hnorm hnot

/-- `a` and a space do not fit two octets, though `a` does. -/
theorem normalizeDomain_trailing_space :
    normalizeDomain (.ofBuffer [97]) 2 = some (.ofBuffer [97]) ∧
      normalizeDomain (.ofBuffer [97, 32]) 2 = none ∧
      Normalizable (cleanedName (.ofBuffer [97, 32])) 2 := by
  refine ⟨by decide, by decide, by decide, by decide, by decide, by decide⟩

/-- ` A.` in four octets. -/
theorem normalizeDomain_clean_trimmed :
    (normalizeDomain (.ofBuffer [32, 65, 46]) 4).isSome := by
  have h := (normalizeDomain_clean_iff (.ofBuffer [32, 65, 46]) 4 (by decide)).2
  refine (h.2 (.inl (by decide))).2 ⟨by decide, by decide, by decide, by decide⟩

end FilteringResolver
