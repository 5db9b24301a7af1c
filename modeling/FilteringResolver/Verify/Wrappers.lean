import FilteringResolver.Verify.Counters
import FilteringResolver.Verify.HeapMessages

/-!
# The wrappers

`dns_parse_query` hands out the first question of a message with its whole name
(`dnsParseQuery_first`), `dns_build_error_response` the octets of an error response with their
number (`dnsBuildErrorResponse_octets`), and `encode_dns_name` writes what it does without a heap
(`encodeDnsName_memory`). None of them leaves memory behind.
-/

namespace FilteringResolver.Heap

open Ownership

variable {own : Resources} {a : Allocs}

/-! ## Parsing -/

theorem length_ofBuffer_le (s : Bytes) : (CStr.ofBuffer (s ++ [0])).bytes.length ≤ s.length := by
  have hs : (CStr.ofBuffer (s ++ [0])).bytes = s.takeWhile (· != 0) := by
    change (s ++ [0]).takeWhile (· != 0) = _
    rw [List.takeWhile_append]
    split
    · next hall =>
      rw [List.takeWhile_cons_of_neg (by decide), List.append_nil,
        (List.takeWhile_sublist _).eq_of_length hall]
    · rfl
  rw [hs]
  exact (List.takeWhile_sublist _).length_le

/-- The name of a question fits the 256 characters of `dns_query_t`. -/
theorem length_qname {b : Buffer} {offset : Nat} {ls : List Bytes} {jumps fin : Nat}
    (h : QuestionAt b offset ls jumps fin) :
    (questionOf b ls fin).qname.bytes.length ≤ dnsMaxNameLen := by
  have hoctets := h.octets_le
  have hlen := length_ofBuffer_le (dotted ls)
  rw [length_dotted] at hlen
  exact Nat.le_trans hlen (Nat.le_trans (Nat.sub_le _ _) hoctets)

/-- The copy by `strncpy` is the name. -/
theorem copied_qname {s : CStr} (h : s.bytes.length ≤ dnsMaxNameLen) :
    CStr.ofBuffer (s.bytes.take dnsMaxNameLen ++ [0]) = s := by
  rw [List.take_of_length_le h]
  exact CStr.ext_bytes (CStr.ofBuffer_append_nul s.nul_free [])

/-- **`dns_parse_query`** returns 0 exactly when `parse_dns_message` does and there is a question,
and has then copied the first one, no character of its name lost. It leaves no memory. -/
theorem dnsParseQuery_first (b : Buffer) (a : Allocs) (l : Ledger Kind) :
    ∃ r a' l', dnsParseQuery b a l = some ((r, a'), l') ∧ l'.live = l.live ∧
      ∀ query, r = some query ↔ ∃ m question rest a'',
        FilteringResolver.parseDnsMessage b a = (.success, m, a'') ∧
        m.questions = some (question :: rest) ∧
        query = ⟨question.qname, question.qtype, question.qclass⟩ := by
  suffices h : Owning l.live a (dnsParseQuery b) fun r _ own' => own' = l.live ∧
      ∀ query, r = some query ↔ ∃ m question rest a'',
        FilteringResolver.parseDnsMessage b a = (.success, m, a'') ∧
        m.questions = some (question :: rest) ∧
        query = ⟨question.qname, question.qtype, question.qclass⟩ from h.run
  have hnone : (∀ m question rest a'', FilteringResolver.parseDnsMessage b a = (.success, m, a'') →
        m.questions ≠ some (question :: rest)) → ∀ query, none = some query ↔
      ∃ m question rest a'', FilteringResolver.parseDnsMessage b a = (.success, m, a'') ∧
        m.questions = some (question :: rest) ∧
        query = DnsQuery.mk question.qname question.qtype question.qclass := by
    intro hno query
    refine ⟨by rintro ⟨⟩, ?_⟩
    rintro ⟨m, question, rest, a'', hparse, hquestions, -⟩
    exact absurd hquestions (hno m question rest a'' hparse)
  unfold dnsParseQuery
  split
  · next hshort =>
    refine .pure ⟨rfl, hnone fun m question rest a'' hparse => ?_⟩
    exact absurd (by rw [hparse]) (parseDnsMessage_short (a := a) hshort)
  refine .bind (parseDnsMessage_owning (fun a' header hp => ?_) fun a' m v hp hv => ?_)
  · refine .pure ⟨rfl, hnone fun m question rest a'' hparse => ?_⟩
    rw [hp] at hparse
    cases hparse
  dsimp only
  rw [if_neg (not_not.2 rfl), hv.header]
  have hparsed := parseDnsMessage_parsed hp
  split
  · next hzero =>
    refine .bind (freeDnsMessage_owning hv.length_eq rfl (.pure ⟨rfl, hnone ?_⟩))
    intro m' question rest a'' hparse
    rw [hp] at hparse
    cases hparse
    cases hparsed with
    | headerOnly => rintro ⟨⟩
    | questions parse nonzero row length_eq => exact absurd hzero nonzero
  next hzero =>
  obtain ⟨ls, jumps, fin, qs, hq, hquestions, -⟩ := hparsed.first hzero
  obtain ⟨array, addr, questions, harray, hfirst, harraymem, hnamemem⟩ := hv.first hquestions
  rw [harray]
  dsimp only
  refine .bind (load_owning (Multiset.mem_add.2 (.inr harraymem)) ?_)
  rw [hfirst]
  dsimp only [DnsQuestion.storedAt]
  refine .bind (load_owning (Multiset.mem_add.2 (.inr hnamemem)) (.bind (.pure ?_)))
  refine .bind (freeDnsMessage_owning hv.length_eq rfl (.pure ⟨rfl, ?_⟩))
  intro query
  rw [copied_qname (length_qname hq)]
  constructor
  · rintro ⟨⟩
    exact ⟨v, _, qs, a', hp, hquestions, rfl⟩
  · rintro ⟨m', question, rest, a'', hparse', hquestions', rfl⟩
    rw [hp] at hparse'
    cases hparse'
    rw [hquestions] at hquestions'
    cases hquestions'
    rfl

/-! ## Error responses -/

/-- An error response that `build_error_response` makes of the datagram and that has room. -/
def Answers (b : Buffer) (max : Nat) (rcode : UInt8) (a : Allocs) (reply : Bytes) : Prop :=
  ∃ m a₁ a₂, FilteringResolver.parseDnsMessage b a = (.success, m, a₁) ∧
    FilteringResolver.buildErrorResponse m rcode ⟨none, 0⟩ a₁ =
      (.success, ⟨some reply, reply.length⟩, a₂) ∧ reply.length ≤ max

/-- The question section of an error response is short when there is a question. -/
theorem length_errorResponse {b : Buffer} {m : FilteringResolver.DnsMessage} (h : Parsed b m)
    (hq : m.header.qdcount ≠ 0) {rcode : UInt8} {reply : Bytes} {a a' : Allocs}
    (hb : FilteringResolver.buildErrorResponse m rcode ⟨none, 0⟩ a =
      (.success, ⟨some reply, reply.length⟩, a')) : reply.length ≤ 272 := by
  obtain ⟨ls, jumps, fin, rest, hquestion, -, -⟩ := h.first hq
  obtain ⟨hj, hout⟩ := buildErrorResponse_success h hquestion hb
  have hlen : reply.length = fin + 4 := congrArg FilteringResolver.Out.respLen hout
  obtain ⟨-, hfin, -⟩ := hquestion.decodes.wire_slice hj
  have hoctets := hquestion.octets_le
  simp only [dnsMaxNameLen, dnsHeaderSize] at hoctets hfin
  omega

/-- **`dns_build_error_response`** writes the error response if there is one and it has room, and
nothing otherwise; it returns the number of octets written, which 16 bits hold unless the message
has no question. It leaves no memory. -/
theorem dnsBuildErrorResponse_octets (b : Buffer) (max : Nat) (rcode : UInt8) (a : Allocs)
    (l : Ledger Kind) :
    ∃ n octets a' l', dnsBuildErrorResponse b max rcode a l = some (((n, octets), a'), l') ∧
      l'.live = l.live ∧ n = octets.length.toUInt16 ∧
      (∀ reply, reply ≠ [] → (octets = reply ↔ max ≠ 0 ∧ Answers b max rcode a reply)) ∧
      (n.toNat ≠ octets.length → ∃ m a₁, FilteringResolver.parseDnsMessage b a =
        (.success, m, a₁) ∧ m.header.qdcount = 0 ∧ 65536 ≤ octets.length) := by
  suffices h : Owning l.live a (dnsBuildErrorResponse b max rcode) fun r _ own' =>
      own' = l.live ∧ r.1 = r.2.length.toUInt16 ∧
      (∀ reply, reply ≠ [] → (r.2 = reply ↔ max ≠ 0 ∧ Answers b max rcode a reply)) ∧
      (r.1.toNat ≠ r.2.length → ∃ m a₁, FilteringResolver.parseDnsMessage b a =
        (.success, m, a₁) ∧ m.header.qdcount = 0 ∧ 65536 ≤ r.2.length) by
    obtain ⟨⟨n, octets⟩, a', l', hrun, hpost⟩ := h.run
    exact ⟨n, octets, a', l', hrun, hpost⟩
  have hnothing : (max ≠ 0 → ∀ reply, ¬Answers b max rcode a reply) →
      (∀ reply, reply ≠ [] → (([] : Bytes) = reply ↔ max ≠ 0 ∧ Answers b max rcode a reply)) := by
    intro hno reply hne
    exact ⟨fun h => absurd h.symm hne, fun h => absurd h.2 (hno h.1 reply)⟩
  unfold dnsBuildErrorResponse
  split
  · next hempty =>
    refine .pure ⟨rfl, rfl, hnothing ?_, fun h => absurd rfl h⟩
    rintro hmax reply ⟨m, a₁, a₂, hparse, -⟩
    have hshort : b.len < dnsHeaderSize := by
      rw [hempty.resolve_right hmax]
      exact Nat.succ_pos 11
    exact absurd (by rw [hparse]) (parseDnsMessage_short (a := a) hshort)
  next hempty =>
  refine .bind (parseDnsMessage_owning (fun a' header hp => ?_) fun a' m v hp hv => ?_)
  · refine .pure ⟨rfl, rfl, hnothing ?_, fun h => absurd rfl h⟩
    rintro - reply ⟨m, a₁, a₂, hparse, -⟩
    rw [hp] at hparse
    cases hparse
  dsimp only
  rw [if_neg (not_not.2 rfl)]
  have hparsed := parseDnsMessage_parsed hp
  refine .bind (buildErrorResponse_owning hv rfl (fun a₂ len' hb => ?_)
    fun a₂ addr response len' hb => ?_)
  · refine .bind (freeDnsMessage_owning hv.length_eq rfl (.pure ⟨rfl, rfl, hnothing ?_,
      fun h => absurd rfl h⟩))
    rintro - reply ⟨m', a₁', a₂', hparse, hbuild, -⟩
    rw [hp] at hparse
    cases hparse
    rw [hb] at hbuild
    cases hbuild
  obtain ⟨_, hout, -, hheader⟩ := buildErrorResponse_header hparsed.raw_eq hb
  cases hout
  have hanswers : ∀ reply, Answers b max rcode a reply ↔
      reply = response ∧ response.length ≤ max := by
    intro reply
    constructor
    · rintro ⟨m', a₁', a₂', hparse, hbuild, hfits⟩
      rw [hp] at hparse
      cases hparse
      rw [hb] at hbuild
      cases hbuild
      exact ⟨rfl, hfits⟩
    · rintro ⟨rfl, hfits⟩
      exact ⟨v, a', a₂, hp, hb, hfits⟩
  dsimp only
  rw [if_neg (not_not.2 rfl)]
  split
  · next hlong =>
    refine .bind (free_owning rfl ?_)
    refine .bind (freeDnsMessage_owning hv.length_eq rfl (.pure ⟨rfl, rfl, hnothing ?_,
      fun h => absurd rfl h⟩))
    intro _ reply hreply
    exact absurd ((hanswers reply).1 hreply).2 (Nat.not_le.2 hlong)
  next hfits =>
  refine .bind (load_owning (Multiset.mem_add.2 (.inr (Multiset.mem_singleton_self _))) ?_)
  refine .bind (free_owning rfl ?_)
  refine .bind (freeDnsMessage_owning hv.length_eq rfl (.pure ⟨rfl, rfl, ?_, ?_⟩))
  · intro reply _
    rw [hanswers]
    exact ⟨fun h => ⟨fun h' => hempty (.inr h'), h.symm, Nat.not_lt.1 hfits⟩, fun h => h.2.1.symm⟩
  · intro hne
    refine ⟨v, a', hp, ?_, Nat.not_lt.1 fun hlt => hne (UInt16.toNat_ofNat_of_lt' hlt)⟩
    by_contra hq
    have hlen := length_errorResponse hparsed hq hb
    exact hne (UInt16.toNat_ofNat_of_lt' (Nat.lt_of_le_of_lt hlen (by decide)))

/-! ## Names -/

/-- **`encode_dns_name`**, which only callers of the interface use, frees the copy it tokenises on
every path and writes what the model without a heap says. -/
theorem encodeDnsName_memory (domain : CStr) (bufLen : Nat) (a : Allocs) (l : Ledger Kind) :
    ∃ r l', encodeDnsName domain bufLen a l = some (r, l') ∧
      r = FilteringResolver.encodeDnsName domain bufLen a ∧ l'.live = l.live := by
  suffices h : Owning l.live a (encodeDnsName domain bufLen) fun r a' own' =>
      (r, a') = FilteringResolver.encodeDnsName domain bufLen a ∧ own' = l.live by
    obtain ⟨r, a', l', hrun, hpost⟩ := h.run
    exact ⟨(r, a'), l', hrun, hpost⟩
  have hpure := FilteringResolver.encodeDnsName.eq_1 domain bufLen a
  unfold encodeDnsName
  split
  · next hbuf => exact .pure ⟨(hpure.trans (if_pos hbuf)).symm, rfl⟩
  next hbuf =>
  have hpure := hpure.trans (if_neg hbuf)
  split
  · next hroot => exact .pure ⟨(hpure.trans (if_pos hroot)).symm, rfl⟩
  next hroot =>
  have hpure := hpure.trans (if_neg hroot)
  split
  · next hlong => exact .pure ⟨(hpure.trans (if_pos hlong)).symm, rfl⟩
  next hlong =>
  have hpure := hpure.trans (if_neg hlong)
  refine .bind (mallocOf_owning (fun a' hm => ?_) fun a' addr hm => ?_)
  · rw [strdup_of_malloc hm] at hpure
    exact .pure ⟨hpure.symm, rfl⟩
  · rw [strdup_of_malloc hm] at hpure
    refine .bind (load_owning (Multiset.mem_add.2 (.inr (Multiset.mem_singleton_self _))) ?_)
    exact .bind (.release rfl (.pure ⟨hpure.symm, rfl⟩))

end FilteringResolver.Heap
