import FilteringResolver.Verify.Blocklist
import FilteringResolver.Verify.Message

/-!
# The verdict on a name from the wire

The parser joins the labels of a name by dots and the lookup takes them apart again. For labels
without dots and NULs nothing is lost on the way: the verdict is that of the labels themselves,
cleaned of whitespace and case and with the trailing labels dropped that cleaning left empty
(`isDomainBlocked_dotted`).
-/

namespace FilteringResolver

open Separated

/-! ## Labels as octets -/

theorem bytes_injective : Function.Injective CStr.bytes := fun _ _ h => CStr.ext_bytes h

/-- Suffixes of labels are suffixes of their octets. -/
theorem suffix_labels_iff {m n : CStr} :
    (labels m).map (·.bytes) <:+ (labels n).map (·.bytes) ↔ labels m <:+ labels n := by
  constructor
  · intro h
    obtain ⟨ls, hls, heq⟩ := List.suffix_map_iff.1 h
    rwa [List.map_injective_iff.2 bytes_injective heq]
  · intro h
    exact h.map _

/-- The labels of a name as the lookup sees them. -/
def cleanLabels (ls : List Bytes) : List Bytes := (ls.map clean).rdropWhile List.isEmpty

theorem mem_cleanLabels {ls : List Bytes} {l : Bytes} (h : l ∈ cleanLabels ls) :
    ∃ l' ∈ ls, clean l' = l :=
  List.mem_map.1 ((List.rdropWhile_prefix _ _).subset h)

/-- Labels that hold neither a dot nor a NUL, as C strings joined by dots need it. -/
def PlainLabels (ls : List Bytes) : Prop := ∀ l ∈ ls, dot ∉ l ∧ 0 ∉ l

theorem PlainLabels.nul_free {ls : List Bytes} (h : PlainLabels ls) : 0 ∉ dotted ls := by
  intro h0
  rcases mem_intercalate h0 with h0 | ⟨l, hl, h0⟩
  · cases h0
  · exact (h l hl).2 h0

theorem PlainLabels.bytes_ofBuffer {ls : List Bytes} (h : PlainLabels ls) :
    (CStr.ofBuffer (dotted ls ++ [0])).bytes = dotted ls :=
  CStr.ofBuffer_append_nul h.nul_free []

theorem PlainLabels.cleanLabels {ls : List Bytes} (h : PlainLabels ls) :
    PlainLabels (cleanLabels ls) := by
  intro l hl
  obtain ⟨l', hl', rfl⟩ := mem_cleanLabels hl
  exact ⟨dot_not_mem_clean (h l' hl').1, clean_nul_free (h l' hl').2⟩

/-! ## The normalised name -/

section

variable {ls : List Bytes} (hplain : PlainLabels ls) (hoctets : labelOctets ls ≤ dnsMaxNameLen)
include hplain hoctets

theorem normalName_dotted {n : CStr} :
    normalName (.ofBuffer (dotted ls ++ [0])) = some n ↔
      n.bytes = dotted (cleanLabels ls) ∧ NoEmptyPiece dot n.bytes := by
  have hclean : clean (dotted ls) = [dot].intercalate (ls.map clean) := clean_intercalate ls
  have hdots : ∀ l ∈ ls.map clean, dot ∉ l := by
    intro l hl
    obtain ⟨l', hl', rfl⟩ := List.mem_map.1 hl
    exact dot_not_mem_clean (hplain l' hl').1
  have hshort : (clean (dotted ls)).length + 1 < dnsMaxNameLen + 1 := by
    have h1 := length_clean_le (dotted ls)
    rw [length_dotted] at h1
    simp only [dnsMaxNameLen] at hoctets ⊢
    omega
  rw [normalName, normalizeDomain_short (by rwa [hplain.bytes_ofBuffer]), hplain.bytes_ofBuffer,
    hclean, rdropWhile_intercalate hdots]
  rfl

/-- A name is normalised when cleaning leaves labels and no empty one among them. -/
theorem normalName_dotted_some (hne : cleanLabels ls ≠ []) (hempty : [] ∉ cleanLabels ls) :
    ∃ n, normalName (.ofBuffer (dotted ls ++ [0])) = some n ∧
      (labels n).map (·.bytes) = cleanLabels ls := by
  have hdots : ∀ l ∈ cleanLabels ls, dot ∉ l := fun l hl => (hplain.cleanLabels l hl).1
  refine ⟨⟨dotted (cleanLabels ls), hplain.cleanLabels.nul_free⟩,
    (normalName_dotted hplain hoctets).2 ⟨rfl, ?_⟩, ?_⟩
  · exact (noEmptyPiece_intercalate hdots hne).2 hempty
  · rw [bytes_labels]
    exact List.splitOn_intercalate dot hdots hne

theorem normalName_dotted_none (h : cleanLabels ls = [] ∨ [] ∈ cleanLabels ls) :
    normalName (.ofBuffer (dotted ls ++ [0])) = none := by
  have hdots : ∀ l ∈ cleanLabels ls, dot ∉ l := fun l hl => (hplain.cleanLabels l hl).1
  rw [Option.eq_none_iff_forall_ne_some]
  intro n hn
  obtain ⟨hbytes, hpieces⟩ := (normalName_dotted hplain hoctets).1 hn
  rw [hbytes] at hpieces
  rcases h with h | h
  · rw [h] at hpieces
    exact hpieces (by simp [dotted])
  · exact (noEmptyPiece_intercalate hdots (List.ne_nil_of_mem h)).1 hpieces h

/-- **The verdict on the labels.** -/
theorem isDomainBlocked_dotted (hlegal : LegalLabels ls) (calls : List (CStr × Allocs)) :
    (isDomainBlocked (buildFilter calls) (.ofBuffer (dotted ls ++ [0])) .ok).1 = true ↔
      [] ∉ cleanLabels ls ∧ ∃ d ∈ (addedDomains calls).filterMap normalName,
        (labels d).map (·.bytes) <:+ cleanLabels ls := by
  by_cases h : cleanLabels ls = [] ∨ [] ∈ cleanLabels ls
  · have hnone := normalName_dotted_none hplain hoctets h
    have hfalse : (isDomainBlocked (buildFilter calls) (.ofBuffer (dotted ls ++ [0])) .ok).1 =
        false := by
      rw [isDomainBlocked, ← normalName, hnone]
    rw [hfalse]
    refine iff_of_false (by decide) ?_
    rintro ⟨hempty, d, -, hd⟩
    have hnil : cleanLabels ls = [] := h.resolve_right hempty
    rw [hnil, List.suffix_nil, List.map_eq_nil_iff] at hd
    exact labels_ne_nil d hd
  · obtain ⟨hne, hempty⟩ := not_or.1 h
    obtain ⟨n, hn, hlabels⟩ := normalName_dotted_some hplain hoctets hne hempty
    have hshort : ShortLabels n := by
      rw [shortLabels_iff, ← bytes_labels, hlabels]
      intro l hl
      obtain ⟨l', hl', rfl⟩ := mem_cleanLabels hl
      exact (length_clean_le l').trans (hlegal l' hl').2
    rw [isDomainBlocked_of_normal calls hn hshort]
    constructor
    · rintro ⟨d, hd, m, hm, hsuffix⟩
      exact ⟨hempty, m, List.mem_filterMap.2 ⟨d, hd, hm⟩, hlabels ▸ suffix_labels_iff.2 hsuffix⟩
    · rintro ⟨-, m, hm, hsuffix⟩
      obtain ⟨d, hd, hm⟩ := List.mem_filterMap.1 hm
      exact ⟨d, hd, m, hm, suffix_labels_iff.1 (by rwa [hlabels])⟩

end

/-- **The verdict on a parsed question** is the verdict on the labels of its name in the datagram,
cleaned of whitespace and case. -/
theorem isDomainBlocked_parsed (calls : List (CStr × Allocs)) {b : Buffer} {offset next : Nat}
    {a a' : Allocs} {q : DnsQuestion} {ls : List Bytes} {jumps fin : Nat}
    (h : parseDnsQuestion b offset a = (some (q, next), a')) (hd : Decodes b offset ls jumps fin)
    (hplain : ∀ l ∈ ls, dot ∉ l ∧ 0 ∉ l) :
    (isDomainBlocked (buildFilter calls) q.qname .ok).1 = true ↔
      [] ∉ cleanLabels ls ∧ ∃ d ∈ (addedDomains calls).filterMap normalName,
        (labels d).map (·.bytes) <:+ cleanLabels ls := by
  obtain ⟨ls', jumps', fin', hq, rfl, -⟩ := parseDnsQuestion_sound h
  obtain ⟨rfl, -, -⟩ := hd.functional hq.decodes
  exact isDomainBlocked_dotted hplain hq.octets_le hd.labels_length calls

/-- The name with the labels `x` and `a`, below the blocked `a`. -/
theorem isDomainBlocked_parsed_below :
    let b := Buffer.ofBytes [1, 120, 1, 97, 0, 0, 1, 0, 1]
    ∃ q, (parseDnsQuestion b 0 .ok).1 = some (q, 9) ∧
      (isDomainBlocked (buildFilter [(.ofBuffer [97], .ok)]) q.qname .ok).1 = true := by
  intro b
  have hq : (parseDnsQuestion b 0 .ok).1 = some (⟨.ofBuffer [120, 46, 97, 0], 1, 1⟩, 9) := by decide
  refine ⟨_, hq, (isDomainBlocked_parsed _ (Prod.ext hq rfl)
    (.label (by decide) (by decide) (by decide)
      (.label (by decide) (by decide) (by decide) (.root (by decide) (by decide))))
    (by decide)).2 (by decide)⟩

/-- The label `a` with a space behind it is blocked with `a`, which it does not equal. -/
theorem isDomainBlocked_space :
    let b := Buffer.ofBytes [2, 97, 32, 0, 0, 1, 0, 1]
    let calls := [(CStr.ofBuffer [97], Allocs.ok)]
    ∃ q, (parseDnsQuestion b 0 .ok).1 = some (q, 8) ∧ Decodes b 0 [[97, 32]] 0 4 ∧
      (isDomainBlocked (buildFilter calls) q.qname .ok).1 = true ∧
      ∀ d ∈ addedDomains calls, ¬ (d.bytes.splitOn dot).map (·.map tolower) <:+
        [[97, 32]].map (·.map tolower) := by
  intro b calls
  exact ⟨⟨.ofBuffer [97, 32, 0], 1, 1⟩, by decide,
    .label (by decide) (by decide) (by decide) (.root (by decide) (by decide)), by decide,
    by decide⟩

end FilteringResolver
