import FilteringResolver.DnsBuilder
import FilteringResolver.Verify.Uncompressed

/-!
# The name encoder

`encode_dns_name` writes the wire form of the non-empty labels of its argument
(`encodeDnsName_sound`, `encodeDnsName_complete`), which is what `parse_dns_name` reads back:
the two are inverse on the names within the wire limit (`encodeDnsName_parseDnsName`).
-/

namespace FilteringResolver

open Loops Separated

/-! ## `strtok` -/

theorem strtok_none {s : Bytes} (h : strtok s = none) : tokens dot s = [] := by
  unfold strtok at h
  dsimp only at h
  split at h <;> [skip; cases h]
  next hs =>
  rw [← tokens_dropWhile, hs, tokens_nil]

theorem strtok_some {s label rest : Bytes} (h : strtok s = some (label, rest)) :
    tokens dot s = label :: tokens dot rest := by
  unfold strtok at h
  dsimp only at h
  split at h <;> [cases h; skip]
  next hs =>
  cases h
  rw [← tokens_dropWhile, tokens_takeWhile hs]
  intro hhead
  rw [List.head?_eq_some_head hs, Option.some.injEq] at hhead
  have := List.head_dropWhile_not (p := (· == dot)) (l := s) hs
  simp [hhead] at this

/-! ## The loop over the labels -/

section Step

variable {bufLen : Nat} {s : EncodeState}

theorem labelStep_next {t : EncodeState} (h : labelStep bufLen s = .inl t) :
    ∃ label rest, tokens dot s.rest = label :: tokens dot rest ∧
      label.length ≤ dnsMaxLabelLen ∧ s.written.length + label.length + 1 < bufLen ∧
      t = ⟨rest, s.written ++ label.length.toUInt8 :: label⟩ := by
  unfold labelStep at h
  split at h
  · split at h <;> cases h
  · next label rest hs =>
    split at h <;> [cases h; skip]
    next hlabel =>
    split at h <;> cases h
    next hroom =>
    exact ⟨label, rest, strtok_some hs, by omega, by omega, rfl⟩

/-- The loop leaves with the terminating zero written, for want of room for it, or at a label
that is too long or does not fit. -/
theorem labelStep_exit {r : Encoded} (h : labelStep bufLen s = .inr r) :
    (tokens dot s.rest = [] ∧ s.written.length < bufLen ∧
      r = ⟨s.written ++ [0], some (s.written.length + 1)⟩) ∨
    (tokens dot s.rest = [] ∧ bufLen ≤ s.written.length ∧ r = ⟨s.written, none⟩) ∨
    ∃ label rest, tokens dot s.rest = label :: tokens dot rest ∧
      (dnsMaxLabelLen < label.length ∨ bufLen ≤ s.written.length + label.length + 1) ∧
      r = ⟨s.written, none⟩ := by
  unfold labelStep at h
  split at h
  · next hs =>
    split at h <;> cases h
    · exact Or.inr (Or.inl ⟨strtok_none hs, ‹_›, rfl⟩)
    · exact Or.inl ⟨strtok_none hs, by omega, rfl⟩
  · next label rest hs =>
    have htokens := strtok_some hs
    have hmem : label ∈ tokens dot s.rest := htokens ▸ List.mem_cons_self
    have hpos := List.length_pos_iff.2 (ne_nil_of_mem_tokens hmem)
    split at h
    · cases h
      exact Or.inr (Or.inr ⟨label, rest, htokens, Or.inl (by omega), rfl⟩)
    · split at h <;> cases h
      exact Or.inr (Or.inr ⟨label, rest, htokens, Or.inr ‹_›, rfl⟩)

end Step

/-- Success of the loop: the wire form of the remaining labels was appended. -/
theorem labelLoop_sound {bufLen : Nat} (s : EncodeState) {w : Bytes} {n : Nat}
    (h : (labelLoop bufLen).run s = ⟨w, some n⟩) :
    LegalLabels (tokens dot s.rest) ∧ w = s.written ++ wire (tokens dot s.rest) ∧ n = w.length := by
  induction s using (labelLoop bufLen).induction with
  | exit s r hstep =>
    rw [Loop.run_exit _ hstep] at h
    subst h
    rcases labelStep_exit hstep with ⟨htokens, -, h⟩ | ⟨-, -, h⟩ | ⟨_, _, -, -, h⟩ <;> cases h
    rw [htokens]
    exact ⟨by simp [LegalLabels], rfl, by simp⟩
  | next s t hstep ih =>
    rw [Loop.run_next _ hstep] at h
    obtain ⟨label, rest, htokens, hlabel, -, rfl⟩ := labelStep_next hstep
    obtain ⟨hlegal, rfl, hn⟩ := ih h
    have hmem : label ∈ tokens dot s.rest := htokens ▸ List.mem_cons_self
    rw [htokens]
    refine ⟨?_, by simp, by simpa using hn⟩
    intro l hl
    rcases List.mem_cons.1 hl with rfl | hl
    · exact ⟨List.length_pos_iff.2 (ne_nil_of_mem_tokens hmem), hlabel⟩
    · exact hlegal l hl

theorem labelLoop_complete {bufLen : Nat} (s : EncodeState)
    (hlegal : LegalLabels (tokens dot s.rest))
    (hroom : s.written.length + labelOctets (tokens dot s.rest) < bufLen) :
    (labelLoop bufLen).run s = ⟨s.written ++ wire (tokens dot s.rest),
      some (s.written.length + labelOctets (tokens dot s.rest) + 1)⟩ := by
  induction s using (labelLoop bufLen).induction with
  | exit s r hstep =>
    rw [Loop.run_exit _ hstep]
    rcases labelStep_exit hstep with ⟨htokens, -, rfl⟩ | ⟨htokens, hfull, -⟩ |
      ⟨label, rest, htokens, hbad, -⟩
    · simp [htokens]
    · rw [htokens, labelOctets_nil] at hroom
      omega
    · rw [htokens] at hlegal hroom
      rw [labelOctets_cons] at hroom
      obtain ⟨-, hmax⟩ := hlegal label List.mem_cons_self
      omega
  | next s t hstep ih =>
    rw [Loop.run_next _ hstep]
    obtain ⟨label, rest, htokens, -, -, rfl⟩ := labelStep_next hstep
    rw [htokens] at hlegal hroom ⊢
    rw [labelOctets_cons] at hroom ⊢
    rw [ih hlegal.tail (by simp only [List.length_append, List.length_cons]; omega)]
    simp only [wire_cons, List.length_append, List.length_cons, List.append_assoc, List.cons_append,
      Encoded.mk.injEq, Option.some.injEq, true_and]
    omega

/-! ## `encode_dns_name` -/

theorem encodeDnsName_sound {d : CStr} {bufLen : Nat} {a : Allocs} {w : Bytes} {n : Nat}
    (h : (encodeDnsName d bufLen a).1 = ⟨w, some n⟩) :
    LegalLabels (tokens dot d.bytes) ∧ w = wire (tokens dot d.bytes) ∧ n = w.length := by
  unfold encodeDnsName at h
  split at h <;> [cases h; skip]
  split at h
  · next hnil =>
    cases h
    rw [hnil, tokens_nil]
    exact ⟨by simp [LegalLabels], rfl, rfl⟩
  · split at h <;> [cases h; skip]
    cases ha : a.head with
    | false =>
      simp only [strdup, ha, Bool.false_eq_true, ite_false] at h
      cases h
    | true =>
      simp only [strdup, ha, ite_true] at h
      exact labelLoop_sound ⟨d.bytes, []⟩ h

theorem encodeDnsName_complete {d : CStr} {bufLen : Nat} {a : Allocs} (ha : a.head = true)
    (hlen : d.bytes.length ≤ dnsMaxNameLen) (hlegal : LegalLabels (tokens dot d.bytes))
    (hroom : labelOctets (tokens dot d.bytes) < bufLen) :
    (encodeDnsName d bufLen a).1 =
      ⟨wire (tokens dot d.bytes), some (labelOctets (tokens dot d.bytes) + 1)⟩ := by
  rw [encodeDnsName, if_neg (by omega)]
  split
  · next hnil => simp [hnil]
  · rw [if_neg (by omega)]
    simp only [strdup, ha, ite_true]
    rw [labelLoop_complete ⟨d.bytes, []⟩ hlegal (by simpa using hroom)]
    simp

/-- The wire form at the start of a buffer is a name without pointers. -/
theorem decodes_wire_append {ls : List Bytes} (hlegal : LegalLabels ls) (rest : Bytes) :
    Decodes (.ofBytes (wire ls ++ rest)) 0 ls 0 (labelOctets ls + 1) := by
  have hdata : (Buffer.ofBytes (wire ls ++ rest)).data = [] ++ (wire ls ++ rest) :=
    Buffer.data_ofBytes _
  simpa using decodes_behind hdata hlegal

/-- **Encoding and parsing a name are inverse** within the wire limit: what the encoder wrote is
parsed to the non-empty labels of the domain, and an uncompressed name without dots or NULs
inside its labels is encoded to its octets, once `strdup` has its copy. -/
theorem encodeDnsName_parseDnsName :
    (∀ (d : CStr) (bufLen : Nat) (a : Allocs) (w : Bytes) (n : Nat),
      (encodeDnsName d bufLen a).1 = ⟨w, some n⟩ → n ≤ dnsMaxNameLen →
        w.length = n ∧
        parseDnsName (.ofBytes w) 0 (dnsMaxNameLen + 1) =
          some (dotted (tokens dot d.bytes) ++ [0], n)) ∧
    ∀ (b : Buffer) (offset nameLen : Nat) (name : Bytes) (ls : List Bytes) (fin bufLen : Nat)
      (a : Allocs), parseDnsName b offset nameLen = some (name, fin) → Decodes b offset ls 0 fin →
        fin - offset ≤ dnsMaxNameLen → (∀ l ∈ ls, dot ∉ l ∧ 0 ∉ l) → fin - offset ≤ bufLen →
        a.head = true →
        (encodeDnsName (.ofBuffer name) bufLen a).1 =
          ⟨b.slice offset (fin - offset), some (fin - offset)⟩ := by
  constructor
  · intro d bufLen a w n h hn
    obtain ⟨hlegal, rfl, rfl⟩ := encodeDnsName_sound h
    rw [length_wire] at hn ⊢
    have hd := decodes_wire_append hlegal []
    rw [List.append_nil] at hd
    refine ⟨rfl, parseDnsName_complete (by omega) hd (by simp) ?_⟩
    simp only [dnsMaxNameLen] at hn ⊢
    omega
  · intro b offset nameLen name ls fin bufLen a hparse hd hfin hplain hroom ha
    obtain ⟨ls', jumps, hd', -, -, rfl⟩ := parseDnsName_sound hparse
    obtain ⟨rfl, -, -⟩ := hd.functional hd'
    obtain ⟨hlegal, hslice, rfl, -⟩ := decodes_zero_iff.1 hd
    have hk : offset + labelOctets ls + 1 - offset = labelOctets ls + 1 := by omega
    rw [hk] at hfin hroom ⊢
    have hnul : 0 ∉ dotted ls := fun h => by
      rcases mem_intercalate h with h | ⟨l, hl, h⟩
      · cases h
      · exact (hplain l hl).2 h
    have hbytes : (CStr.ofBuffer (dotted ls ++ [0])).bytes = dotted ls :=
      CStr.ofBuffer_append_nul hnul []
    have htokens : tokens dot (CStr.ofBuffer (dotted ls ++ [0])).bytes = ls := by
      rw [hbytes]
      exact tokens_intercalate fun l hl =>
        ⟨(hplain l hl).1, List.length_pos_iff.1 (hlegal l hl).1⟩
    rw [encodeDnsName_complete ha (by rw [hbytes, length_dotted]; omega) (by rwa [htokens])
      (by rw [htokens]; omega), htokens, hslice]

/-- The domain `a..b` is written as the labels `a` and `b`, and these are read and written back. -/
theorem encodeDnsName_parseDnsName_doubleDot :
    parseDnsName (.ofBytes [1, 97, 1, 98, 0]) 0 256 = some ([97, 46, 98, 0], 5) ∧
      (encodeDnsName (.ofBuffer [97, 46, 98, 0]) 5 .ok).1 = ⟨[1, 97, 1, 98, 0], some 5⟩ := by
  constructor
  · exact (encodeDnsName_parseDnsName.1 (.ofBuffer [97, 46, 46, 98]) 300 .ok [1, 97, 1, 98, 0] 5
      (by decide) (by decide)).2
  · exact encodeDnsName_parseDnsName.2 (.ofBytes [1, 97, 1, 98, 0]) 0 256 [97, 46, 98, 0]
      [[97], [98]] 5 5 .ok (by decide)
      (.label (by decide) (by decide) (by decide)
        (.label (by decide) (by decide) (by decide) (.root (by decide) (by decide))))
      (by decide) (by decide) (by decide) rfl

end FilteringResolver
