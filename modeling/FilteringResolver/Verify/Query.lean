import FilteringResolver.DnsServer
import FilteringResolver.Verify.ErrorResponse
import FilteringResolver.Verify.Forward
import FilteringResolver.Verify.QueryName

/-!
# Processing a query

`Processed` lists what `process_dns_query` can do with a datagram: drop it, build one of the four
error responses, or relay a reply. From it follow what is forwarded (`processDnsQuery_forwarded`),
which queries get an answer (`processDnsQuery_answers_iff`) and the filtering of a query for one
name (`processDnsQuery_filters`).
-/

namespace FilteringResolver

/-! ## The branches -/

/-- The datagram was parsed to a message with the first question `q`. -/
structure Asked (b : Buffer) (a : Allocs) (m : DnsMessage) (q : DnsQuestion) (a' : Allocs) :
    Prop where
  parse : parseDnsMessage b a = (.success, m, a')
  nonzero : m.header.qdcount ≠ 0
  first : ∃ rest, m.questions = some (q :: rest)

theorem Asked.eq_of_parse {b : Buffer} {a a₁ a₂ : Allocs} {m m' : DnsMessage}
    {q q' : DnsQuestion} {rest : List DnsQuestion} (h : parseDnsMessage b a = (.success, m, a₁))
    (hfirst : m.questions = some (q :: rest)) (asked : Asked b a m' q' a₂) :
    m = m' ∧ q = q' ∧ a₁ = a₂ := by
  obtain ⟨rest', hfirst'⟩ := asked.first
  obtain ⟨rfl, rfl⟩ : m = m' ∧ a₁ = a₂ := by simpa using h.symm.trans asked.parse
  rw [hfirst] at hfirst'
  exact ⟨rfl, (List.cons.inj (Option.some.inj hfirst')).1, rfl⟩

inductive Processed (config : ServerConfig) (b : Buffer) (out : Out) (host : Host) (a : Allocs) :
    QueryResult → Prop where
  | unparsed {a' : Allocs} (parse : (parseDnsMessage b a).1 ≠ .success) :
      Processed config b out host a ⟨.failure, out, none, [], a'⟩
  | noQuestion {m : DnsMessage} {a' : Allocs} (parse : parseDnsMessage b a = (.success, m, a'))
      (zero : m.header.qdcount = 0) :
      Processed config b out host a (replyError m dnsRcodeFormerr out a' none [])
  | otherType {m : DnsMessage} {q : DnsQuestion} {a' : Allocs} (asked : Asked b a m q a')
      (type : q.qtype ≠ dnsTypeA) :
      Processed config b out host a (replyError m dnsRcodeNotimpl out a' none [])
  | blocked {m : DnsMessage} {q : DnsQuestion} {a' a'' : Allocs} (asked : Asked b a m q a')
      (type : q.qtype = dnsTypeA)
      (verdict : isDomainBlocked config.filterRoot q.qname a' = (true, a'')) :
      Processed config b out host a (replyError m dnsRcodeNxdomain out a'' none [])
  | relayed {m : DnsMessage} {q : DnsQuestion} {a' a'' : Allocs} {f : ForwardResult}
      (asked : Asked b a m q a') (type : q.qtype = dnsTypeA)
      (verdict : isDomainBlocked config.filterRoot q.qname a' = (false, a''))
      (forward : forwardQuery host m config.upstreamServer out a'' = f) (ok : f.ret = .success) :
      Processed config b out host a ⟨.success, f.out, some m, f.sent, f.allocs⟩
  | unanswered {m : DnsMessage} {q : DnsQuestion} {a' a'' : Allocs} {f : ForwardResult}
      (asked : Asked b a m q a') (type : q.qtype = dnsTypeA)
      (verdict : isDomainBlocked config.filterRoot q.qname a' = (false, a''))
      (forward : forwardQuery host m config.upstreamServer out a'' = f) (ok : f.ret ≠ .success) :
      Processed config b out host a
        (replyError m dnsRcodeServfail f.out f.allocs (some m) f.sent)

section

variable (config : ServerConfig) (b : Buffer) (out : Out) (host : Host) (a : Allocs)

/-- **Every query takes one of the branches**; in particular the parser never leaves a message
that counts questions without its array of questions. -/
theorem processDnsQuery_processed :
    Processed config b out host a (processDnsQuery config b out host a) := by
  unfold processDnsQuery
  rcases hp : parseDnsMessage b a with ⟨ret, m, a'⟩
  cases ret with
  | failure => exact .unparsed (by rw [hp]; nofun)
  | undefined => exact .unparsed (by rw [hp]; nofun)
  | success =>
    dsimp only
    by_cases hzero : m.header.qdcount = 0
    · rw [if_pos hzero]
      exact .noQuestion hp hzero
    · obtain ⟨_, _, _, rest, -, hquestions, -⟩ := (parseDnsMessage_parsed hp).first hzero
      have hasked : Asked b a m _ a' := ⟨hp, hzero, rest, hquestions⟩
      rw [if_neg hzero, hquestions]
      dsimp only
      split
      · next htype => exact .otherType hasked htype
      · next htype =>
        split
        · next a'' hv => exact .blocked hasked (not_not.1 htype) hv
        · next a'' hv =>
          split
          · next hf => exact .unanswered hasked (not_not.1 htype) hv rfl hf
          · next hf => exact .relayed hasked (not_not.1 htype) hv rfl (not_not.1 hf)

variable {b a} in
/-- A query whose first question asks for an address comes down to the verdict on its name. -/
theorem processDnsQuery_address {m : DnsMessage} {q : DnsQuestion} {rest : List DnsQuestion}
    {a' : Allocs} (h : parseDnsMessage b a = (.success, m, a')) (hpos : m.header.qdcount ≠ 0)
    (hfirst : m.questions = some (q :: rest)) (htype : q.qtype = dnsTypeA) :
    processDnsQuery config b out host a =
      match isDomainBlocked config.filterRoot q.qname a' with
      | (true, a) => replyError m dnsRcodeNxdomain out a none []
      | (false, a) =>
        let f := forwardQuery host m config.upstreamServer out a
        if f.ret ≠ .success then
          replyError m dnsRcodeServfail f.out f.allocs (some m) f.sent
        else ⟨.success, f.out, some m, f.sent, f.allocs⟩ := by
  rw [processDnsQuery, h]
  dsimp only
  rw [if_neg hpos, hfirst]
  dsimp only
  exact if_neg (not_not.2 htype)

variable {b a} in
/-- Any other type is not implemented. -/
theorem processDnsQuery_otherType {m : DnsMessage} {q : DnsQuestion} {a' : Allocs}
    (asked : Asked b a m q a') (htype : q.qtype ≠ dnsTypeA) :
    processDnsQuery config b out host a = replyError m dnsRcodeNotimpl out a' none [] := by
  obtain ⟨rest, hfirst⟩ := asked.first
  rw [processDnsQuery, asked.parse]
  dsimp only
  rw [if_neg asked.nonzero, hfirst]
  exact if_pos htype

end

/-! ## What is forwarded -/

@[simp] theorem replyError_forwarded (m : DnsMessage) (rcode : UInt8) (out : Out) (a : Allocs)
    (forwarded : Option DnsMessage) (sent : List (SockAddr × Bytes)) :
    (replyError m rcode out a forwarded sent).forwarded = forwarded := by
  unfold replyError
  split <;> rfl

theorem forwarded_asked {config : ServerConfig} {b : Buffer} {out : Out} {host : Host} {a : Allocs}
    {m : DnsMessage} (h : (processDnsQuery config b out host a).forwarded = some m) :
    ∃ q a' a'', Asked b a m q a' ∧ q.qtype = dnsTypeA ∧
      isDomainBlocked config.filterRoot q.qname a' = (false, a'') := by
  have hproc := processDnsQuery_processed config b out host a
  generalize processDnsQuery config b out host a = r at h hproc
  cases hproc with
  | unparsed => cases h
  | noQuestion => rw [replyError_forwarded] at h; cases h
  | otherType => rw [replyError_forwarded] at h; cases h
  | blocked => rw [replyError_forwarded] at h; cases h
  | relayed asked type verdict =>
    cases h
    exact ⟨_, _, _, asked, type, verdict⟩
  | unanswered asked type verdict =>
    rw [replyError_forwarded] at h
    cases h
    exact ⟨_, _, _, asked, type, verdict⟩

/-- **A forwarded query asks for the address of a name that is not blocked**, in its first
question, and carries the received octets. -/
theorem processDnsQuery_forwarded {config : ServerConfig} {b : Buffer} {out : Out} {host : Host}
    {a : Allocs} {m : DnsMessage}
    (h : (processDnsQuery config b out host a).forwarded = some m) :
    m.rawData = some b.data ∧ ∃ q rest a', parseDnsMessage b a = (.success, m, a') ∧
      m.questions = some (q :: rest) ∧ rest.length + 1 = m.header.qdcount.toNat ∧
      q.qtype = dnsTypeA ∧ (isDomainBlocked config.filterRoot q.qname a').1 = false ∧
      (a = .ok → a' = .ok) := by
  obtain ⟨q, a', a'', asked, type, verdict⟩ := forwarded_asked h
  have hp := parseDnsMessage_parsed asked.parse
  obtain ⟨_, _, _, rest, -, hquestions, hlen⟩ := hp.first asked.nonzero
  obtain ⟨rest', hquestions'⟩ := asked.first
  obtain ⟨rfl, rfl⟩ := List.cons.inj (Option.some.inj (hquestions.symm.trans hquestions'))
  refine ⟨hp.rawData_eq, _, _, a', asked.parse, hquestions, hlen, type, by rw [verdict], ?_⟩
  rintro rfl
  exact parseDnsMessage_ok asked.parse

/-- A network that takes every query and never answers. -/
def deafHost : Host where
  inetPton _ := some 0x08080808
  inetNtop _ := none
  getaddrinfo _ := none
  socket := true
  setsockopt := true
  attempts _ := ⟨.sent 26, .error⟩

theorem processDnsQuery_forwarded_oneQuestion :
    let b := Buffer.ofBytes [0x12, 0x34, 1, 0, 0, 1, 0, 0, 0, 0, 0, 0, 1, 98, 0, 0, 1, 0, 1]
    ∃ m q, (processDnsQuery ⟨.ofBuffer [56], .empty⟩ b ⟨none, 0⟩ deafHost .ok).forwarded = some m ∧
      m.rawData = some b.data ∧ m.questions = some [q] := by
  intro b
  have hm : (processDnsQuery ⟨.ofBuffer [56], .empty⟩ b ⟨none, 0⟩ deafHost .ok).forwarded =
      some (parseDnsMessage b .ok).2.1 := by decide
  obtain ⟨hraw, q, rest, -, -, hquestions, hlen, -⟩ := processDnsQuery_forwarded hm
  have hone : (parseDnsMessage b .ok).2.1.header.qdcount.toNat = 1 := by decide
  rw [hone] at hlen
  obtain rfl : rest = [] := List.length_eq_zero_iff.1 (Nat.succ.inj hlen)
  exact ⟨_, q, hm, hraw, hquestions⟩

/-- Behind a question for `b`, the question for the blocked `a` is sent upstream. -/
theorem processDnsQuery_second_question :
    let b := Buffer.ofBytes [0x12, 0x34, 1, 0, 0, 2, 0, 0, 0, 0, 0, 0,
      1, 98, 0, 0, 1, 0, 1, 1, 97, 0, 0, 1, 0, 1]
    let root := buildFilter [(.ofBuffer [97], .ok)]
    let r := processDnsQuery ⟨.ofBuffer [56], root⟩ b ⟨none, 0⟩ deafHost .ok
    ∃ m first second, r.forwarded = some m ∧ m.rawData = some b.data ∧
      m.questions = some [first, second] ∧ (isDomainBlocked root second.qname .ok).1 = true ∧
      (⟨0x08080808, 53⟩, b.data) ∈ r.sent := by
  intro b root r
  exact ⟨(parseDnsMessage b .ok).2.1, ⟨.ofBuffer [98], 1, 1⟩, ⟨.ofBuffer [97], 1, 1⟩, by decide,
    by decide, by decide, by decide, by decide⟩

/-! ## Which queries are answered -/

section

variable {b : Buffer} {m : DnsMessage} {ls : List Bytes} {jumps fin : Nat} {rcode : UInt8}

/-- A question without pointers is answered when there is memory. -/
theorem replyError_question (h : Parsed b m) (hq : QuestionAt b dnsHeaderSize ls 0 fin)
    (hr : rcode ≤ dnsRcodeRefused) (out : Out) (a : Allocs) (forwarded : Option DnsMessage)
    (sent : List (SockAddr × Bytes)) :
    replyError m rcode out a forwarded sent =
      if a.head then
        ⟨.success, ⟨some (errorResponse b m.header rcode fin), fin + 4⟩, forwarded, sent, a.tail⟩
      else ⟨.failure, ⟨none, fin + 4⟩, forwarded, sent, a.tail⟩ := by
  rw [replyError, buildErrorResponse_plain h hq hr]
  cases a.head <;> rfl

theorem replyError_plain (h : Parsed b m) (hq : QuestionAt b dnsHeaderSize ls 0 fin)
    (hr : rcode ≤ dnsRcodeRefused) (out : Out) (forwarded : Option DnsMessage)
    (sent : List (SockAddr × Bytes)) :
    replyError m rcode out .ok forwarded sent =
      ⟨.success, ⟨some (errorResponse b m.header rcode fin), fin + 4⟩, forwarded, sent, .ok⟩ := by
  have hhead : Allocs.ok.head = true := rfl
  rw [replyError_question h hq hr, if_pos hhead]
  rfl

theorem replyError_answers_iff (h : Parsed b m) (hq : QuestionAt b dnsHeaderSize ls jumps fin)
    (hr : rcode ≤ dnsRcodeRefused) (out : Out) (forwarded : Option DnsMessage)
    (sent : List (SockAddr × Bytes)) :
    (replyError m rcode out .ok forwarded sent).ret = .success ∧
      (replyError m rcode out .ok forwarded sent).out.response.isSome ↔ jumps = 0 := by
  by_cases hj : jumps = 0
  · subst hj
    simp [replyError_plain h hq hr]
  · rw [replyError, buildErrorResponse_pointer h hq hj]
    simp [hj]

theorem replyError_pointer (hq : QuestionAt b dnsHeaderSize ls jumps fin) (h : Parsed b m)
    (hj : jumps ≠ 0) (out : Out) (a : Allocs) (forwarded : Option DnsMessage)
    (sent : List (SockAddr × Bytes)) :
    (replyError m rcode out a forwarded sent).ret = .failure := by
  rw [replyError, buildErrorResponse_pointer h hq hj]

end

/-- **A query with a question is answered** unless the name of its first question uses a pointer
and the answer is not a relayed reply; then it is dropped with -1. -/
theorem processDnsQuery_answers_iff (config : ServerConfig) (out : Out) (host : Host) {b : Buffer}
    {m : DnsMessage} {a' : Allocs} (h : parseDnsMessage b .ok = (.success, m, a'))
    (hpos : m.header.qdcount ≠ 0) :
    ∃ q rest ls jumps fin, m.questions = some (q :: rest) ∧ Decodes b dnsHeaderSize ls jumps fin ∧
      ((processDnsQuery config b out host .ok).ret = .success ∧
          (processDnsQuery config b out host .ok).out.response.isSome ↔
        jumps = 0 ∨ q.qtype = dnsTypeA ∧
          (isDomainBlocked config.filterRoot q.qname .ok).1 = false ∧
          (forwardQuery host m config.upstreamServer out .ok).ret = .success) ∧
      (¬(jumps = 0 ∨ q.qtype = dnsTypeA ∧
          (isDomainBlocked config.filterRoot q.qname .ok).1 = false ∧
          (forwardQuery host m config.upstreamServer out .ok).ret = .success) →
        (processDnsQuery config b out host .ok).ret = .failure) := by
  have hp := parseDnsMessage_parsed h
  obtain ⟨ls, jumps, fin, rest, hq, hquestions, -⟩ := hp.first hpos
  refine ⟨_, rest, ls, jumps, fin, hquestions, hq.decodes, ?_⟩
  obtain rfl := parseDnsMessage_ok h
  have hproc := processDnsQuery_processed config b out host .ok
  generalize processDnsQuery config b out host .ok = r at hproc
  cases hproc with
  | unparsed parse => exact absurd (by rw [h]) parse
  | noQuestion parse zero =>
    rw [h] at parse
    cases parse
    exact absurd zero hpos
  | otherType asked type =>
    obtain ⟨rfl, rfl, rfl⟩ := asked.eq_of_parse h hquestions
    refine ⟨?_, fun hdropped => replyError_pointer hq hp (fun hj => hdropped (.inl hj)) _ _ _ _⟩
    rw [replyError_answers_iff hp hq dnsRcodeNotimpl_le]
    simp [type]
  | blocked asked type verdict =>
    obtain ⟨rfl, rfl, rfl⟩ := asked.eq_of_parse h hquestions
    obtain rfl := isDomainBlocked_ok verdict
    refine ⟨?_, fun hdropped => replyError_pointer hq hp (fun hj => hdropped (.inl hj)) _ _ _ _⟩
    rw [replyError_answers_iff hp hq dnsRcodeNxdomain_le]
    simp [verdict]
  | relayed asked type verdict forward ok =>
    obtain ⟨rfl, rfl, rfl⟩ := asked.eq_of_parse h hquestions
    obtain rfl := isDomainBlocked_ok verdict
    have hrelayed := And.intro type (And.intro (congrArg Prod.fst verdict)
      ((congrArg ForwardResult.ret forward).trans ok))
    refine ⟨iff_of_true ⟨rfl, ?_⟩ (Or.inr hrelayed), fun hdropped =>
      absurd (Or.inr hrelayed) hdropped⟩
    cases forwardQuery_forwarded forward with
    | failed => cases ok
    | relayed => rfl
  | unanswered asked type verdict forward ok =>
    obtain ⟨rfl, rfl, rfl⟩ := asked.eq_of_parse h hquestions
    obtain rfl := isDomainBlocked_ok verdict
    refine ⟨?_, fun hdropped => replyError_pointer hq hp (fun hj => hdropped (.inl hj)) _ _ _ _⟩
    rw [forwardQuery_ok forward, replyError_answers_iff hp hq dnsRcodeServfail_le, forward]
    simp [ok]

/-- The query for the address of `a` is answered when the upstream is not. -/
theorem processDnsQuery_answers_servfail :
    let b := Buffer.ofBytes [0x12, 0x34, 1, 0, 0, 1, 0, 0, 0, 0, 0, 0, 1, 97, 0, 0, 1, 0, 1]
    (processDnsQuery ⟨.ofBuffer [56], .empty⟩ b ⟨none, 0⟩ deafHost .ok).ret = .success := by
  intro b
  have hparse : (parseDnsMessage b .ok).1 = .success := by decide
  obtain ⟨q, rest, ls, jumps, fin, -, hd, hiff, -⟩ :=
    processDnsQuery_answers_iff ⟨.ofBuffer [56], .empty⟩ ⟨none, 0⟩ deafHost (Prod.ext hparse rfl)
      (by decide)
  obtain ⟨-, rfl, -⟩ := hd.functional
    (.label (by decide) (by decide) (by decide) (.root (by decide) (by decide)))
  exact (hiff.2 (Or.inl rfl)).1

/-- A question whose name is a pointer to the zero octet of the counter in the header. -/
theorem processDnsQuery_pointer :
    let b := Buffer.ofBytes [0x12, 0x34, 1, 0, 0, 1, 0, 0, 0, 0, 0, 0, 0xC0, 4, 0, 16, 0, 1]
    let r := processDnsQuery ⟨.ofBuffer [56], .empty⟩ b ⟨none, 0⟩ deafHost .ok
    (parseDnsMessage b .ok).1 = .success ∧ (parseDnsMessage b .ok).2.1.header.qdcount = 1 ∧
      r.ret = .failure ∧ r.out.response = none := by
  decide

end FilteringResolver
