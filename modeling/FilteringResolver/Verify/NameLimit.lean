import FilteringResolver.Verify.Encode

/-!
# The limit on names

A name of 255 octets has a dotted text of 253 characters. `parse_dns_name` compares the text it has
written, with a dot behind every label, and lets one octet too many pass
(`parseDnsName_wireLimit_iff`). `encode_dns_name` compares the length of the text, and the tokens of
`strtok` hide the dots in between, so it also takes texts that spell no name
(`encodeDnsName_exact_iff`).
-/

namespace FilteringResolver

open Loops Separated

/-! ## Parsing -/

/-- **A parsed name is within the limit** unless the buffer of the text is larger than the limit
and the name has one octet more than it allows. -/
theorem parseDnsName_wireLimit_iff (b : Buffer) (offset nameLen : Nat) :
    (∀ ls jumps fin, Decodes b offset ls jumps fin → (parseDnsName b offset nameLen).isSome →
        (wire ls).length ≤ dnsMaxNameLen) ↔
      nameLen ≤ dnsMaxNameLen ∨ ∀ ls jumps fin, Decodes b offset ls jumps fin →
        jumps ≤ maxCompressionJumps → (wire ls).length ≠ dnsMaxNameLen + 1 := by
  simp only [length_wire]
  constructor
  · intro h
    by_cases hn : nameLen ≤ dnsMaxNameLen
    · exact .inl hn
    · refine .inr fun ls jumps fin hd hj heq => ?_
      have hparse : parseDnsName b offset nameLen = some (dotted ls ++ [0], fin) :=
        parseDnsName_complete (by omega) hd hj (by omega)
      have hle := h ls jumps fin hd (by rw [hparse]; rfl)
      omega
  · intro h ls jumps fin hd hsome
    obtain ⟨⟨name, fin'⟩, hparse⟩ := Option.isSome_iff_exists.1 hsome
    obtain ⟨ls', jumps', hd', hj, ho, -⟩ := parseDnsName_sound hparse
    obtain ⟨rfl, rfl, -⟩ := hd.functional hd'
    rcases h with h | h
    · simp only [dnsMaxNameLen] at h ⊢
      omega
    · have hne := h ls jumps fin hd hj
      omega

/-- Three labels of 63 octets and one of 62: a name of 256 octets in all. -/
theorem parseDnsName_over_limit :
    let l : Bytes := List.replicate 63 97
    let ls : List Bytes := [l, l, l, List.replicate 62 97]
    Decodes (.ofBytes (wire ls)) 0 ls 0 256 ∧
      parseDnsName (.ofBytes (wire ls)) 0 (dnsMaxNameLen + 1) = some (dotted ls ++ [0], 256) ∧
      (wire ls).length = 256 := by
  intro l ls
  have hlegal : LegalLabels ls := by simp [LegalLabels, ls, l]
  have hd := decodes_wire_append hlegal []
  rw [List.append_nil] at hd
  exact ⟨hd, parseDnsName_complete (by decide) hd (by decide) (by decide), by rw [length_wire]; rfl⟩

/-! ## Encoding -/

/-- The text spells the labels: joined by single dots, with at most one dot behind them. -/
structure Spells (ls : List Bytes) (s : Bytes) : Prop where
  legal : LegalLabels ls
  plain : ∀ l ∈ ls, dot ∉ l
  text : s = dotted ls ∨ ls ≠ [] ∧ s = dotted ls ++ [dot]

theorem spells_iff {ls : List Bytes} {s : Bytes} :
    Spells ls s ↔
      LegalLabels ls ∧ tokens dot s = ls ∧ s.head? ≠ some dot ∧ ¬ [dot, dot] <:+: s := by
  constructor
  · rintro ⟨legal, plain, text⟩
    exact ⟨legal, (joined_iff_tokens fun l hl =>
      ⟨plain l hl, List.length_pos_iff.1 (legal l hl).1⟩).1 text⟩
  · rintro ⟨legal, rfl, hdots⟩
    have plain : ∀ l ∈ tokens dot s, dot ∉ l := fun l hl =>
      not_mem_of_mem_splitOn (List.mem_filter.1 hl).1
    exact ⟨legal, plain, (joined_iff_tokens fun l hl =>
      ⟨plain l hl, ne_nil_of_mem_tokens hl⟩).2 ⟨rfl, hdots⟩⟩

/-- The text spells a name within the limit that fits the buffer. -/
def Encodable (d : CStr) (bufLen : Nat) : Prop :=
  ∃ ls, Spells ls d.bytes ∧ (wire ls).length ≤ min dnsMaxNameLen bufLen

theorem encodable_iff {d : CStr} {bufLen : Nat} :
    Encodable d bufLen ↔ (d.bytes.head? ≠ some dot ∧ ¬ [dot, dot] <:+: d.bytes) ∧
      LegalLabels (tokens dot d.bytes) ∧
      (wire (tokens dot d.bytes)).length ≤ min dnsMaxNameLen bufLen := by
  constructor
  · rintro ⟨ls, hspells, hle⟩
    obtain ⟨legal, rfl, hdots⟩ := spells_iff.1 hspells
    exact ⟨hdots, legal, hle⟩
  · rintro ⟨hdots, legal, hle⟩
    exact ⟨_, spells_iff.2 ⟨legal, rfl, hdots⟩, hle⟩

/-- A name within the limit has a text of at most 254 characters. -/
theorem Encodable.length_le {d : CStr} {bufLen : Nat} (h : Encodable d bufLen) :
    d.bytes.length ≤ dnsMaxNameLen := by
  obtain ⟨ls, ⟨-, -, text⟩, hle⟩ := h
  have hdotted := length_dotted ls
  rw [length_wire] at hle
  rcases text with text | ⟨-, text⟩
  · rw [text]
    omega
  · rw [text, List.length_append, List.length_singleton]
    omega

/-- What the contract promises of a call: it accepts exactly the names within the limit, writes
their wire form, and stays in its buffer. -/
structure EncodesExactly (d : CStr) (bufLen : Nat) (r : Encoded) : Prop where
  accepts : r.ret.isSome ↔ Encodable d bufLen
  writes : ∀ n, r.ret = some n → ∀ ls, Spells ls d.bytes → r.written = wire ls ∧
    n = (wire ls).length
  bounded : r.written.length ≤ bufLen

/-- The loop writes inside the buffer, whatever becomes of the call. -/
theorem labelLoop_bounded {bufLen : Nat} {s : EncodeState} (h : s.written.length < bufLen) :
    ((labelLoop bufLen).run s).written.length ≤ bufLen := by
  refine (labelLoop bufLen).invariant (P := fun s => s.written.length < bufLen)
    (Q := fun r => r.written.length ≤ bufLen) ?_ ?_ h
  · intro s t _ hstep
    obtain ⟨label, rest, -, -, hroom, rfl⟩ := labelStep_next hstep
    rw [List.length_append, List.length_cons]
    omega
  · intro s r hs hstep
    rcases labelStep_exit hstep with ⟨-, -, rfl⟩ | ⟨-, -, rfl⟩ | ⟨_, _, -, -, rfl⟩
    · rw [List.length_append, List.length_singleton]
      omega
    · exact Nat.le_of_lt hs
    · exact Nat.le_of_lt hs

theorem encodeDnsName_bounded (d : CStr) (bufLen : Nat) (a : Allocs) :
    (encodeDnsName d bufLen a).1.written.length ≤ bufLen := by
  unfold encodeDnsName
  split <;> [exact Nat.zero_le _; skip]
  split
  · rw [List.length_singleton]
    omega
  · split <;> [exact Nat.zero_le _; skip]
    split
    · exact Nat.zero_le _
    · exact labelLoop_bounded (by rw [List.length_nil]; omega)

/-- **What is accepted**, once `strdup` has its copy: a text of at most 255 characters whose
non-empty pieces are short and fit the buffer. -/
theorem encodeDnsName_isSome_iff {d : CStr} {bufLen : Nat} (hbuf : 1 ≤ bufLen) {a : Allocs}
    (ha : a.head = true) :
    (encodeDnsName d bufLen a).1.ret.isSome ↔ d.bytes.length ≤ dnsMaxNameLen ∧
      LegalLabels (tokens dot d.bytes) ∧ labelOctets (tokens dot d.bytes) < bufLen := by
  constructor
  · intro h
    obtain ⟨n, hn⟩ := Option.isSome_iff_exists.1 h
    obtain ⟨hlegal, hw, rfl⟩ := encodeDnsName_sound (w := (encodeDnsName d bufLen a).1.written)
      (n := n) (by rw [← hn])
    have hbounded := encodeDnsName_bounded d bufLen a
    rw [hw, length_wire] at hbounded
    refine ⟨?_, hlegal, hbounded⟩
    by_contra hlong
    have hne : d.bytes ≠ [] := by
      intro hnil
      rw [hnil] at hlong
      exact hlong (Nat.zero_le _)
    rw [encodeDnsName, if_neg (by omega), if_neg hne, if_pos (Nat.lt_of_not_le hlong)] at hn
    cases hn
  · rintro ⟨hlen, hlegal, hroom⟩
    rw [encodeDnsName_complete ha hlen hlegal hroom]
    rfl

/-- The rest of the contract follows from accepting the right texts. -/
theorem encodesExactly_iff {d : CStr} {bufLen : Nat} {a : Allocs} :
    EncodesExactly d bufLen (encodeDnsName d bufLen a).1 ↔
      ((encodeDnsName d bufLen a).1.ret.isSome ↔ Encodable d bufLen) := by
  refine ⟨fun h => h.accepts, fun h => ⟨h, fun n hn ls hspells => ?_,
    encodeDnsName_bounded d bufLen a⟩⟩
  obtain ⟨-, rfl, -⟩ := spells_iff.1 hspells
  obtain ⟨-, hw, hlen⟩ := encodeDnsName_sound (w := (encodeDnsName d bufLen a).1.written)
    (n := n) (by rw [← hn])
  exact ⟨hw, hw ▸ hlen⟩

theorem legalLabels_tokens_iff {s : Bytes} :
    LegalLabels (tokens dot s) ↔ ¬ ∃ l ∈ tokens dot s, dnsMaxLabelLen < l.length := by
  simp only [not_exists, not_and, Nat.not_lt]
  constructor
  · intro h l hl
    exact (h l hl).2
  · intro h l hl
    exact ⟨List.length_pos_iff.2 (ne_nil_of_mem_tokens hl), h l hl⟩

/-- **The encoder keeps its contract** on a text without a leading dot and without two dots in a
row whose name is within the limit, and on a text that it rejects on another ground: for its own
length, for a label or for the buffer. -/
theorem encodeDnsName_exact_iff (d : CStr) (bufLen : Nat) (hbuf : 1 ≤ bufLen) (a : Allocs) :
    (encodeDnsName d bufLen a).1.written.length ≤ bufLen ∧
    (a.head = true → (EncodesExactly d bufLen (encodeDnsName d bufLen a).1 ↔
      (d.bytes.head? ≠ some dot ∧ ¬ [dot, dot] <:+: d.bytes ∧
        (wire (tokens dot d.bytes)).length ≤ dnsMaxNameLen) ∨
      dnsMaxNameLen < d.bytes.length ∨
      (∃ l ∈ tokens dot d.bytes, dnsMaxLabelLen < l.length) ∨
      bufLen < (wire (tokens dot d.bytes)).length)) ∧
    (a.head = false → d.bytes ≠ [] → (encodeDnsName d bufLen a).1 = ⟨[], none⟩) := by
  refine ⟨encodeDnsName_bounded d bufLen a, fun ha => ?_, fun ha hne => ?_⟩
  · have hwire := length_wire (tokens dot d.bytes)
    have hlength : Encodable d bufLen → d.bytes.length ≤ dnsMaxNameLen := Encodable.length_le
    have hencodable : Encodable d bufLen ↔ _ := encodable_iff
    rw [Nat.le_min, legalLabels_tokens_iff] at hencodable
    rw [encodesExactly_iff, encodeDnsName_isSome_iff hbuf ha, legalLabels_tokens_iff]
    constructor
    · intro h
      by_contra hnot
      simp only [not_or, Nat.not_lt] at hnot
      obtain ⟨hdots, hlen, hshort, hroom⟩ := hnot
      obtain ⟨⟨hhead, hmid⟩, -, hle, -⟩ := hencodable.1 (h.1 ⟨hlen, hshort, by omega⟩)
      exact hdots ⟨hhead, hmid, hle⟩
    · intro h
      constructor
      · rintro ⟨hlen, hshort, hroom⟩
        rcases h with ⟨hhead, hmid, hle⟩ | hlong | hlabel | hfull
        · exact hencodable.2 ⟨⟨hhead, hmid⟩, hshort, hle, by omega⟩
        · exact absurd hlen (Nat.not_le.2 hlong)
        · exact absurd hlabel hshort
        · exact absurd hroom (by omega)
      · intro henc
        obtain ⟨-, hshort, -, hroom⟩ := hencodable.1 henc
        exact ⟨hlength henc, hshort, by omega⟩
  · rw [encodeDnsName, if_neg (by omega), if_neg hne]
    split
    · rfl
    · simp only [strdup, ha, Bool.false_eq_true, if_false]

/-- Two dots between the labels `a` and `b` go unnoticed, and a text of 254 characters is written
as a name of 256 octets. -/
theorem encodeDnsName_double_dot :
    let l : Bytes := List.replicate 63 97
    let ls : List Bytes := [l, l, l, List.replicate 62 97]
    (encodeDnsName (.ofBuffer [97, 46, 46, 98]) 300 .ok).1 = ⟨[1, 97, 1, 98, 0], some 5⟩ ∧
      ¬ EncodesExactly (.ofBuffer [97, 46, 46, 98]) 300
        (encodeDnsName (.ofBuffer [97, 46, 46, 98]) 300 .ok).1 ∧
      ∀ d : CStr, d.bytes = dotted ls → (encodeDnsName d 300 .ok).1.ret = some 256 := by
  intro l ls
  refine ⟨by decide, fun h => ?_, fun d hd => ?_⟩
  · obtain ⟨_, hspells, -⟩ := h.accepts.1 (by decide)
    obtain ⟨-, -, -, hmid⟩ := spells_iff.1 hspells
    exact hmid ⟨[97], [98], rfl⟩
  · have hlegal : LegalLabels ls := by simp [LegalLabels, ls, l]
    have htokens : tokens dot d.bytes = ls := by
      rw [hd]
      exact tokens_intercalate (by simp [ls, l, dot])
    rw [encodeDnsName_complete rfl (by rw [hd, length_dotted]; decide) (by rwa [htokens])
      (by rw [htokens]; decide), htokens]
    rfl

/-- The domain `a.b.`. -/
theorem encodeDnsName_exact_trailingDot :
    EncodesExactly (.ofBuffer [97, 46, 98, 46]) 5
      (encodeDnsName (.ofBuffer [97, 46, 98, 46]) 5 .ok).1 := by
  refine ((encodeDnsName_exact_iff _ 5 (by decide) .ok).2.1 rfl).2 (.inl ⟨by decide, ?_, by decide⟩)
  decide

end FilteringResolver
