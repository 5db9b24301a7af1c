import FilteringResolver.Verify.Filtering

/-!
# Messages, written and read

A message is written with `build_dns_header` and, for each question, `encode_dns_name` and two
words (`writeMessage`). What is written is parsed to the same header and questions, whatever
follows them, and a message whose names have no pointers and no dots or NULs inside their labels is
written as it was received (`parseDnsMessage_writeMessage`). The two halves meet at `PlainRow`, the
rows of such questions.
-/

namespace FilteringResolver

open Separated

/-! ## Words in place -/

theorem octets16_be16 (hi lo : UInt8) : octets16 (be16 hi lo) = [hi, lo] := by
  obtain ⟨hhi, hlo⟩ := be16_inj (be16_octets16 (be16 hi lo))
  rw [octets16, hhi, hlo]

namespace Buffer

variable {b : Buffer}

theorem octets16_get16 {i : Nat} (h : i + 2 ≤ b.len) : octets16 (b.get16 i) = b.slice i 2 := by
  rw [get16, octets16_be16, slice_succ 1 (by omega), slice_one (by omega)]

/-- The header is written as it was received. -/
theorem buildDnsHeader_parsed {header : DnsHeader} (h : parseDnsHeader b = some header) :
    buildDnsHeader header = b.slice 0 dnsHeaderSize := by
  have hlen := parseDnsHeader_length h
  rw [parseDnsHeader, if_neg (Nat.not_lt.2 hlen)] at h
  simp only [dnsHeaderSize] at hlen
  cases h
  have hsplit : b.slice 0 (2 + 2 + 2 + 2 + 2 + 2) = b.slice 0 2 ++ b.slice 2 2 ++ b.slice 4 2 ++
      b.slice 6 2 ++ b.slice 8 2 ++ b.slice 10 2 := by
    rw [slice_add, slice_add, slice_add, slice_add, slice_add]
  rw [buildDnsHeader, octets16_get16 (by omega), octets16_get16 (by omega),
    octets16_get16 (by omega), octets16_get16 (by omega), octets16_get16 (by omega),
    octets16_get16 (by omega)]
  exact hsplit.symm

end Buffer

/-! ## Writing -/

/-- The octets of a question. -/
def writeQuestion (bufLen : Nat) (q : DnsQuestion) : Bytes :=
  (encodeDnsName q.qname bufLen .ok).1.written ++ (octets16 q.qtype ++ octets16 q.qclass)

/-- The octets of a header and its questions. -/
def writeMessage (bufLen : Nat) (header : DnsHeader) (questions : List DnsQuestion) : Bytes :=
  buildDnsHeader header ++ questions.flatMap (writeQuestion bufLen)

/-- The labels of a name that can be written and read back. -/
structure Spelling (name : CStr) (ls : List Bytes) : Prop where
  legal : LegalLabels ls
  plain : PlainLabels ls
  octets_le : labelOctets ls ≤ dnsMaxNameLen
  bytes : name.bytes = dotted ls

theorem Spelling.question_eq {name : CStr} {ls : List Bytes} (h : Spelling name ls) :
    CStr.ofBuffer (dotted ls ++ [0]) = name := by
  apply CStr.ext_bytes
  rw [h.plain.bytes_ofBuffer, h.bytes]

theorem Spelling.write {name : CStr} {ls : List Bytes} (h : Spelling name ls) {bufLen : Nat}
    (hbuf : dnsMaxNameLen < bufLen) (qtype qclass : UInt16) :
    writeQuestion bufLen ⟨name, qtype, qclass⟩ =
      wire ls ++ (octets16 qtype ++ octets16 qclass) := by
  have hoctets := h.octets_le
  have htokens : tokens dot name.bytes = ls := by
    rw [h.bytes]
    exact tokens_intercalate fun l hl =>
      ⟨(h.plain l hl).1, List.length_pos_iff.1 (h.legal l hl).1⟩
  have hlen : name.bytes.length ≤ dnsMaxNameLen := by
    rw [h.bytes, length_dotted]
    exact Nat.le_trans (Nat.sub_le _ _) hoctets
  have hlegal : LegalLabels (tokens dot name.bytes) := by
    rw [htokens]
    exact h.legal
  have hroom : labelOctets (tokens dot name.bytes) < bufLen := by
    rw [htokens]
    exact Nat.lt_of_le_of_lt hoctets hbuf
  rw [writeQuestion, encodeDnsName_complete rfl hlen hlegal hroom, htokens]

/-! ## Rows of plain questions -/

/-- Questions in a row without pointers, from an offset to the end of the last one. -/
inductive PlainRow (b : Buffer) : Nat → List DnsQuestion → Nat → Prop where
  | nil {offset : Nat} (le : offset ≤ b.len) : PlainRow b offset [] offset
  | cons {offset fin last : Nat} {ls : List Bytes} {qs : List DnsQuestion}
      (first : QuestionAt b offset ls 0 fin) (plain : PlainLabels ls)
      (rest : PlainRow b (fin + 4) qs last) : PlainRow b offset (questionOf b ls fin :: qs) last

theorem PlainRow.questionsAt {b : Buffer} {offset last : Nat} {qs : List DnsQuestion}
    (h : PlainRow b offset qs last) : QuestionsAt b offset qs last := by
  induction h with
  | nil => exact .nil
  | cons first _ _ ih => exact .cons first ih

/-- Questions that can be written are read back in place. -/
theorem plainRow_of_data {b : Buffer} {bufLen : Nat} (hbuf : dnsMaxNameLen < bufLen) {post : Bytes}
    {qs : List DnsQuestion} (hqs : ∀ q ∈ qs, ∃ ls, Spelling q.qname ls) {pre : Bytes}
    (h : b.data = pre ++ (qs.flatMap (writeQuestion bufLen) ++ post)) :
    PlainRow b pre.length qs (pre ++ qs.flatMap (writeQuestion bufLen)).length := by
  induction qs generalizing pre with
  | nil =>
    rw [List.flatMap_nil, List.append_nil]
    refine .nil ?_
    rw [← b.length_data, h, List.length_append]
    exact Nat.le_add_right _ _
  | cons q qs ih =>
    obtain ⟨name, qtype, qclass⟩ := q
    obtain ⟨ls, hspell⟩ := hqs _ List.mem_cons_self
    have hwrite := hspell.write hbuf qtype qclass
    rw [List.flatMap_cons] at h ⊢
    have hdata : b.data = pre ++ (wire ls ++ (octets16 qtype ++ (octets16 qclass ++
        (qs.flatMap (writeQuestion bufLen) ++ post)))) := by
      rw [h, hwrite]
      simp only [List.append_assoc]
    obtain ⟨hat, hof⟩ := questionAt_of_data hspell.legal hspell.octets_le hdata
    rw [hspell.question_eq] at hof
    have hnext : (pre ++ writeQuestion bufLen ⟨name, qtype, qclass⟩).length =
        pre.length + labelOctets ls + 1 + 4 := by
      rw [hwrite]
      simp only [List.length_append, length_wire, octets16, List.length_cons, List.length_nil]
      omega
    have hbehind : b.data = pre ++ writeQuestion bufLen ⟨name, qtype, qclass⟩ ++
        (qs.flatMap (writeQuestion bufLen) ++ post) := by
      rw [h]
      simp only [List.append_assoc]
    have hrest := ih (fun q hq => hqs q (List.mem_cons_of_mem _ hq)) hbehind
    rw [hnext, List.append_assoc] at hrest
    have hrow := PlainRow.cons hat hspell.plain hrest
    rwa [hof] at hrow

/-- Questions in a row without pointers are written as they were received. -/
theorem PlainRow.write {b : Buffer} {bufLen offset last : Nat} (hbuf : dnsMaxNameLen < bufLen)
    {qs : List DnsQuestion} (h : PlainRow b offset qs last) :
    offset ≤ last ∧ last ≤ b.len ∧ (∀ q ∈ qs, ∃ ls, Spelling q.qname ls) ∧
      qs.flatMap (writeQuestion bufLen) = b.slice offset (last - offset) := by
  induction h with
  | nil le =>
    refine ⟨Nat.le_refl _, le, List.forall_mem_nil _, ?_⟩
    rw [Nat.sub_self]
    rfl
  | @cons offset fin last ls qs first plain rest ih =>
    obtain ⟨hle, hend, hspell, hwrite⟩ := ih
    obtain ⟨hlegal, hslice, hfin, -⟩ := decodes_zero_iff.1 first.decodes
    have hfirst : Spelling (questionOf b ls fin).qname ls :=
      ⟨hlegal, plain, first.octets_le, plain.bytes_ofBuffer⟩
    have hfits := first.fits
    refine ⟨by omega, hend, List.forall_mem_cons.2 ⟨⟨ls, hfirst⟩, hspell⟩, ?_⟩
    have hsize : last - offset = labelOctets ls + 1 + 2 + 2 + (last - (fin + 4)) := by omega
    have hq : writeQuestion bufLen (questionOf b ls fin) = _ :=
      hfirst.write hbuf (b.get16 fin) (b.get16 (fin + 2))
    rw [List.flatMap_cons, hwrite, hq, hsize, Buffer.slice_add, Buffer.slice_add, Buffer.slice_add,
      hslice, Buffer.octets16_get16 (by omega), Buffer.octets16_get16 (by omega)]
    have h1 : offset + (labelOctets ls + 1) = fin := by omega
    have h2 : offset + (labelOctets ls + 1 + 2) = fin + 2 := by omega
    have h3 : offset + (labelOctets ls + 1 + 2 + 2) = fin + 4 := by omega
    rw [h1, h2, h3]
    simp only [List.append_assoc]

/-! ## Whole messages -/

/-- **Writing and parsing a message are inverse**: the header and the questions that were written
are parsed, with all octets of the datagram, and a parsed message without pointers is written as
the octets up to the end of its questions. -/
theorem parseDnsMessage_writeMessage {bufLen : Nat} (hbuf : dnsMaxNameLen < bufLen) (b : Buffer) :
    (∀ header qs trailing, (∀ q ∈ qs, ∃ ls, Spelling q.qname ls) →
      qs.length = header.qdcount.toNat → b.data = writeMessage bufLen header qs ++ trailing →
      ∃ m, parseDnsMessage b .ok = (.success, m, .ok) ∧ m.header = header ∧
        m.questions = (if qs = [] then none else some qs) ∧ m.rawData = some b.data) ∧
    ∀ m a a' qs last, parseDnsMessage b a = (.success, m, a') → m.questions = some qs →
      PlainRow b dnsHeaderSize qs last →
      (∀ q ∈ qs, ∃ ls, Spelling q.qname ls) ∧ qs.length = m.header.qdcount.toNat ∧
        b.data = writeMessage bufLen m.header qs ++ b.data.drop last := by
  constructor
  · intro header qs trailing hqs hcount hdata
    have hdata' : b.data = buildDnsHeader header ++
        (qs.flatMap (writeQuestion bufLen) ++ trailing) := by
      rw [hdata, writeMessage, List.append_assoc]
    have hheader := Buffer.parseDnsHeader_of_data hdata'
    have hrow := (plainRow_of_data hbuf hqs hdata').questionsAt
    by_cases hnil : qs = []
    · subst hnil
      have hzero : header.qdcount = 0 := UInt16.toNat.inj hcount.symm
      exact ⟨_, (Parsed.headerOnly hheader hzero).parse_ok, rfl, (if_pos rfl).symm, rfl⟩
    · have hne : header.qdcount ≠ 0 := by
        rintro hzero
        rw [hzero] at hcount
        exact hnil (List.length_eq_zero_iff.1 hcount)
      exact ⟨_, (Parsed.questions hheader hne hrow hcount).parse_ok, rfl, (if_neg hnil).symm, rfl⟩
  · intro m a a' qs last hparse hquestions hrow
    have hp := parseDnsMessage_parsed hparse
    obtain ⟨hle, hend, hspell, hwrite⟩ := hrow.write hbuf
    have hcount : qs.length = m.header.qdcount.toNat := by
      cases hp with
      | headerOnly => cases hquestions
      | questions _ _ _ length_eq =>
        cases hquestions
        exact length_eq
    refine ⟨hspell, hcount, ?_⟩
    have hsplit : b.slice 0 last = b.slice 0 dnsHeaderSize ++
        b.slice (0 + dnsHeaderSize) (last - dnsHeaderSize) := by
      rw [← Buffer.slice_add, Nat.add_sub_cancel' hle]
    rw [Nat.zero_add] at hsplit
    have hslice : b.slice 0 last = b.data.take last := by
      rw [Buffer.slice_eq (by omega), List.drop_zero]
    rw [writeMessage, hwrite, Buffer.buildDnsHeader_parsed hp.header_eq, ← hsplit, hslice,
      List.take_append_drop]

/-- The questions for `a` and `b`, and one more octet. -/
theorem parseDnsMessage_writeMessage_trailing :
    let qs : List DnsQuestion := [⟨.ofBuffer [97], 1, 1⟩, ⟨.ofBuffer [98], 28, 1⟩]
    let b := Buffer.ofBytes [0x12, 0x34, 1, 0, 0, 2, 0, 0, 0, 0, 0, 0, 1, 97, 0, 0, 1, 0, 1,
      1, 98, 0, 0, 28, 0, 1, 7]
    b.data = writeMessage 300 ⟨0x1234, 0x0100, 2, 0, 0, 0⟩ qs ++ [7] ∧
      ∃ m, parseDnsMessage b .ok = (.success, m, .ok) ∧ m.questions = some qs := by
  intro qs b
  have hdata : b.data = writeMessage 300 ⟨0x1234, 0x0100, 2, 0, 0, 0⟩ qs ++ [7] := by decide
  have hqs : ∀ q ∈ qs, ∃ ls, Spelling q.qname ls := by
    intro q hq
    simp only [qs, List.mem_cons, List.not_mem_nil, or_false] at hq
    rcases hq with rfl | rfl
    · exact ⟨[[97]], by simp [LegalLabels], by simp [PlainLabels, dot], by decide, by decide⟩
    · exact ⟨[[98]], by simp [LegalLabels], by simp [PlainLabels, dot], by decide, by decide⟩
  obtain ⟨m, hparse, -, hquestions, -⟩ := (parseDnsMessage_writeMessage (by decide) b).1 _ qs [7]
    hqs rfl hdata
  exact ⟨hdata, m, hparse, hquestions⟩

end FilteringResolver
