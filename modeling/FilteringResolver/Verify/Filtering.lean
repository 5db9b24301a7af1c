import FilteringResolver.Verify.Encode
import FilteringResolver.Verify.Query

/-!
# Filtering, end to end

A query for a plain name, written with the encoder, is parsed to that name and judged by its
labels in lower case: it is answered with NXDOMAIN and its own question when they end with the
labels of an added domain, and forwarded as received otherwise (`processDnsQuery_filters`).
-/

namespace FilteringResolver

open Separated

/-! ## Concatenated octets -/

namespace Buffer

variable {b : Buffer} {pre mid post : Bytes}

theorem slice_of_data (h : b.data = pre ++ (mid ++ post)) :
    b.slice pre.length mid.length = mid := by
  have hlen := b.length_data
  rw [h] at hlen
  simp only [List.length_append] at hlen
  rw [← slice_data (by omega), h]
  simp [slice, ofBytes]

theorem get16_of_data {w : UInt16} (h : b.data = pre ++ (octets16 w ++ post)) :
    b.get16 pre.length = w := by
  have hlen := b.length_data
  rw [h] at hlen
  simp only [List.length_append, octets16, List.length_cons] at hlen
  have hi : b.get pre.length = ((w >>> 8) &&& 0xFF).toUInt8 := by
    rw [← get_data (by omega), h]
    simp [get, ofBytes, octets16]
  have lo : b.get (pre.length + 1) = (w &&& 0xFF).toUInt8 := by
    rw [← get_data (by omega), h]
    simp [get, ofBytes, octets16]
  rw [get16, hi, lo, be16_octets16]

theorem parseDnsHeader_of_data {header : DnsHeader} (h : b.data = buildDnsHeader header ++ post) :
    parseDnsHeader b = some header := by
  have hlen := b.length_data
  rw [h, List.length_append, length_buildDnsHeader] at hlen
  have hbytes : b.bytes = buildDnsHeader header ++ (post ++ b.bytes.drop b.len) := by
    rw [← List.append_assoc, ← h]
    exact (List.take_append_drop b.len b.bytes).symm
  exact parseDnsHeader_build hbytes (by omega)

end Buffer

/-- Octets that hold the wire form of a name and two words hold that question. -/
theorem questionAt_of_data {b : Buffer} {pre post : Bytes} {ls : List Bytes} {qtype qclass : UInt16}
    (hlegal : LegalLabels ls) (hoctets : labelOctets ls ≤ dnsMaxNameLen)
    (h : b.data = pre ++ (wire ls ++ (octets16 qtype ++ (octets16 qclass ++ post)))) :
    QuestionAt b pre.length ls 0 (pre.length + labelOctets ls + 1) ∧
      questionOf b ls (pre.length + labelOctets ls + 1) =
        ⟨.ofBuffer (dotted ls ++ [0]), qtype, qclass⟩ := by
  have hlen := b.length_data
  rw [h] at hlen
  simp only [List.length_append, length_wire, octets16, List.length_cons, List.length_nil] at hlen
  have hname := Buffer.slice_of_data h
  have htype : b.get16 (pre ++ wire ls).length = qtype :=
    Buffer.get16_of_data (by rw [h, List.append_assoc])
  have hclass : b.get16 (pre ++ wire ls ++ octets16 qtype).length = qclass :=
    Buffer.get16_of_data (by rw [h, List.append_assoc, List.append_assoc])
  rw [length_wire] at hname
  rw [List.length_append, length_wire, ← Nat.add_assoc] at htype
  rw [List.length_append, List.length_append, length_wire, ← Nat.add_assoc] at hclass
  refine ⟨⟨decodes_zero_iff.2 ⟨hlegal, hname, rfl, by omega⟩, by simp, hoctets, by omega⟩, ?_⟩
  rw [questionOf, htype, hclass.symm]
  rfl

/-! ## Plain names -/

/-- A name of legal labels without dots, NULs and whitespace, within the wire limit. -/
structure PlainName where
  labels : List Bytes
  legal : LegalLabels labels
  plain : PlainLabels labels
  spaceless : ∀ l ∈ labels, ∀ c ∈ l, isspace c = false
  octets_le : labelOctets labels + 1 ≤ dnsMaxNameLen

namespace PlainName

/-- The dotted name. -/
def text (x : PlainName) : CStr := ⟨dotted x.labels, x.plain.nul_free⟩

/-- The labels in lower case. -/
def lower (x : PlainName) : List Bytes := x.labels.map (·.map tolower)

/-- The question for the address of the name. -/
def question (x : PlainName) (bufLen : Nat) (qclass : UInt16) : Bytes :=
  (encodeDnsName x.text bufLen .ok).1.written ++ (octets16 dnsTypeA ++ octets16 qclass)

/-- A datagram that asks for the address of the name, whatever follows the question. -/
def query (x : PlainName) (header : DnsHeader) (bufLen : Nat) (qclass : UInt16)
    (trailing : Bytes) : Bytes :=
  buildDnsHeader header ++ (x.question bufLen qclass ++ trailing)

variable (x : PlainName)

theorem cleanLabels_eq : cleanLabels x.labels = x.lower := by
  have hclean : x.labels.map clean = x.lower := by
    refine List.map_congr_left fun l hl => ?_
    have hspace : l.filter (fun c => !isspace c) = l :=
      List.filter_eq_self.2 fun c hc => by rw [x.spaceless l hl c hc]; rfl
    rw [clean, hspace]
  have hlast : ∀ h : x.lower ≠ [], ¬ (x.lower.getLast h).isEmpty = true := by
    intro h
    obtain ⟨l, hl, hmap⟩ := List.mem_map.1 (List.getLast_mem h)
    have hpos := (x.legal l hl).1
    rw [← hmap, List.isEmpty_iff, List.map_eq_nil_iff]
    rintro rfl
    simp at hpos
  rw [cleanLabels, hclean]
  exact List.rdropWhile_eq_self_iff.2 hlast

theorem nil_notMem_lower : [] ∉ x.lower := by
  intro h
  obtain ⟨l, hl, hmap⟩ := List.mem_map.1 h
  have hpos := (x.legal l hl).1
  rw [List.map_eq_nil_iff.1 hmap] at hpos
  simp at hpos

theorem question_eq {bufLen : Nat} (h : labelOctets x.labels < bufLen) (qclass : UInt16) :
    x.question bufLen qclass = wire x.labels ++ (octets16 dnsTypeA ++ octets16 qclass) := by
  have htokens : tokens dot x.text.bytes = x.labels := tokens_intercalate fun l hl =>
    ⟨(x.plain l hl).1, List.length_pos_iff.1 (x.legal l hl).1⟩
  have hlen : x.text.bytes.length ≤ dnsMaxNameLen := by
    have hoctets := x.octets_le
    have hdotted : x.text.bytes.length = labelOctets x.labels - 1 := length_dotted _
    omega
  rw [question, encodeDnsName_complete rfl hlen (by rw [htokens]; exact x.legal)
    (by rwa [htokens]), htokens]

/-! ## Its query -/

/-- The verdict on the name as the parser hands it over. -/
theorem blocked_iff (calls : List (CStr × Allocs)) :
    (isDomainBlocked (buildFilter calls) (.ofBuffer (dotted x.labels ++ [0])) .ok).1 = true ↔
      ∃ d ∈ (addedDomains calls).filterMap normalName,
        (FilteringResolver.labels d).map (·.bytes) <:+ x.lower := by
  have hoctets := x.octets_le
  rw [isDomainBlocked_dotted x.plain (by omega) x.legal, x.cleanLabels_eq]
  exact and_iff_right x.nil_notMem_lower

section

variable {x} {header : DnsHeader} {bufLen : Nat} {qclass : UInt16} {trailing : Bytes} {b : Buffer}
  (hbuf : labelOctets x.labels < bufLen) (hb : b.data = x.query header bufLen qclass trailing)
include hbuf hb

/-- The datagram holds the question for the name in place. -/
theorem query_question :
    QuestionAt b dnsHeaderSize x.labels 0 (dnsHeaderSize + labelOctets x.labels + 1) ∧
      questionOf b x.labels (dnsHeaderSize + labelOctets x.labels + 1) =
        ⟨.ofBuffer (dotted x.labels ++ [0]), dnsTypeA, qclass⟩ := by
  have hoctets := x.octets_le
  have hdata : b.data = buildDnsHeader header ++
      (wire x.labels ++ (octets16 dnsTypeA ++ (octets16 qclass ++ trailing))) := by
    rw [hb, query, x.question_eq hbuf]
    simp only [List.append_assoc]
  exact questionAt_of_data x.legal (by omega) hdata

theorem query_parsed (hone : header.qdcount = 1) :
    Parsed b (.ofParts header
      (some [⟨.ofBuffer (dotted x.labels ++ [0]), dnsTypeA, qclass⟩]) b) := by
  obtain ⟨hq, hof⟩ := query_question hbuf hb
  rw [← hof]
  exact .questions (Buffer.parseDnsHeader_of_data hb) (by rw [hone]; decide) (.cons hq .nil)
    (by rw [hone]; rfl)

/-- An error response echoes the question of the datagram. -/
theorem errorResponse_query (rcode : UInt8) :
    errorResponse b header rcode (dnsHeaderSize + labelOctets x.labels + 1) =
      buildDnsHeader (errorHeader header rcode) ++ x.question bufLen qclass := by
  have hsize : dnsHeaderSize + labelOctets x.labels + 1 + 4 - dnsHeaderSize =
      (x.question bufLen qclass).length := by
    simp only [x.question_eq hbuf, List.length_append, length_wire, octets16, List.length_cons,
      List.length_nil]
    omega
  have hslice : b.slice dnsHeaderSize (x.question bufLen qclass).length =
      x.question bufLen qclass := Buffer.slice_of_data hb
  rw [errorResponse, hsize, hslice]

end

end PlainName

/-! ## The guarantee -/

/-- **Filtering.** A query for a plain name is answered with NXDOMAIN and its own question when
the labels of the name in lower case end with the labels of an added domain, and the upstream is
not asked; every other one is forwarded as it was received. -/
theorem processDnsQuery_filters (calls : List (CStr × Allocs)) (upstream : CStr) (x : PlainName)
    (header : DnsHeader) (hone : header.qdcount = 1) (bufLen : Nat)
    (hbuf : labelOctets x.labels < bufLen) (qclass : UInt16) (trailing : Bytes) (b : Buffer)
    (hb : b.data = x.query header bufLen qclass trailing) (out : Out) (host : Host) :
    let r := processDnsQuery ⟨upstream, buildFilter calls⟩ b out host .ok
    let blocked := ∃ d ∈ (addedDomains calls).filterMap normalName,
      (labels d).map (·.bytes) <:+ x.lower
    let response := buildDnsHeader
      { id := header.id
        flags := dnsFlagQR ||| (header.flags &&& dnsFlagRD) ||| dnsRcodeNxdomain.toUInt16
        qdcount := 1, ancount := 0, nscount := 0, arcount := 0 } ++ x.question bufLen qclass
    (blocked → r.ret = .success ∧ r.out = ⟨some response, response.length⟩ ∧
      r.forwarded = none ∧ r.sent = []) ∧
    (¬ blocked → ∃ m, r.forwarded = some m ∧ m.rawData = some b.data ∧ m.rawLen = b.len) := by
  intro r blocked response
  have hp := PlainName.query_parsed hbuf hb hone
  obtain ⟨hq, -⟩ := PlainName.query_question hbuf hb
  have hresponse : errorResponse b header dnsRcodeNxdomain
      (dnsHeaderSize + labelOctets x.labels + 1) = response := by
    rw [PlainName.errorResponse_query hbuf hb, errorHeader, hone]
  have heq : r = _ := processDnsQuery_address ⟨upstream, buildFilter calls⟩ out host hp.parse_ok
    (by rw [DnsMessage.ofParts, hone]; decide) rfl rfl
  have hverdict : (isDomainBlocked (buildFilter calls)
      (.ofBuffer (dotted x.labels ++ [0])) .ok).1 = true ↔ blocked := x.blocked_iff calls
  rcases hv : isDomainBlocked (buildFilter calls) (.ofBuffer (dotted x.labels ++ [0])) .ok with
    ⟨_ | _, a⟩
  · rw [hv] at heq hverdict
    have hnb : ¬ blocked := fun hb => by simpa using hverdict.2 hb
    refine ⟨fun hb => absurd hb hnb, fun _ => ?_⟩
    rw [heq]
    dsimp only
    split
    · rw [replyError_forwarded]
      exact ⟨_, rfl, rfl, rfl⟩
    · exact ⟨_, rfl, rfl, rfl⟩
  · obtain rfl := isDomainBlocked_ok hv
    rw [hv] at heq hverdict
    dsimp only at heq
    rw [replyError_plain hp hq (by decide)] at heq
    rw [heq]
    refine ⟨fun _ => ⟨rfl, ?_, rfl, rfl⟩, fun hnb => absurd (hverdict.1 rfl) hnb⟩
    rw [← hresponse, length_errorResponse hq]
    rfl

/-- The name `X.a`, below the blocked `a`. -/
theorem processDnsQuery_filters_below :
    let b := Buffer.ofBytes [0x12, 0x34, 1, 0, 0, 1, 0, 0, 0, 0, 0, 0,
      1, 88, 1, 97, 0, 0, 1, 0, 1]
    let root := buildFilter [(.ofBuffer [97], .ok)]
    let r := processDnsQuery ⟨.ofBuffer [56], root⟩ b ⟨none, 0⟩ deafHost .ok
    r.ret = .success ∧ r.forwarded = none ∧ r.sent = [] := by
  intro b root r
  let x : PlainName :=
    { labels := [[88], [97]]
      legal := by simp [LegalLabels]
      plain := by simp [PlainLabels, dot]
      spaceless := by simp [isspace]
      octets_le := by decide }
  have h := (processDnsQuery_filters [(.ofBuffer [97], .ok)] (.ofBuffer [56]) x
    ⟨0x1234, 0x0100, 1, 0, 0, 0⟩ rfl 64 (by decide) 1 [] b (by decide) ⟨none, 0⟩ deafHost).1
    (by decide)
  exact ⟨h.1, h.2.2⟩

end FilteringResolver
