import Mathlib.Data.List.TakeDrop
import FilteringResolver.Verify.Server
import FilteringResolver.Verify.ValidOctets

/-!
# Answers from upstream

An allowed query is answered with the first datagram that is received after one of its copies was
sent, when that is a reply to it, and with SERVFAIL otherwise (`processDnsQuery_upstream`). Whose
datagram it is plays no part (`forwardQuery_sender`), and of a long one only what fits the buffer
is handed on (`forwardQuery_size`).
-/

namespace FilteringResolver

/-! ## The checks, over the octets -/

/-- A reply within the size of a UDP message is accepted exactly when it answers the query. -/
theorem acceptReply_iff_replyTo {query : Buffer} {reply : Bytes}
    (hlen : dnsHeaderSize ≤ query.len) (hle : reply.length ≤ dnsUdpMaxSize) :
    acceptReply query reply = true ↔ ReplyTo query.data reply := by
  constructor
  · intro h
    obtain ⟨-, queryHeader, respHeader, hq, hr, hid, hqr⟩ := acceptReply_accepted h
    exact replyTo_of_headers hq hr hid.symm hqr hle
  · rintro ⟨hge, -, hid, respHeader, hr, hqr⟩
    obtain ⟨queryHeader, hq⟩ : ∃ queryHeader, parseDnsHeader query = some queryHeader := by
      rw [parseDnsHeader, if_neg (Nat.not_lt.2 hlen)]
      exact ⟨_, rfl⟩
    apply AcceptedReply.accept
    refine ⟨hge, queryHeader, respHeader, hq, hr, ?_, hqr⟩
    have h2 : (reply.take 2) = [(Buffer.ofBytes reply).get 0, (Buffer.ofBytes reply).get 1] := by
      rw [← Buffer.take_two (b := .ofBytes reply) (Nat.le_trans (by decide) hge),
        Buffer.data_ofBytes]
    rw [h2, Buffer.take_two (Nat.le_trans (by decide) hlen)] at hid
    simp only [List.cons.injEq, and_true] at hid
    rw [parseDnsHeader_id hq, parseDnsHeader_id hr, hid.1, hid.2]

/-! ## Every outcome of the network -/

/-- The datagram that an allowed query is answered from, if there is one: the first one received,
once the address and the socket are set up. -/
def Host.answer (host : Host) (upstream : CStr) (len : Nat) : Option Datagram :=
  match host.upstreamIp upstream with
  | none => none
  | some _ => host.firstReceived len

theorem Host.answer_eq_some {host : Host} {upstream : CStr} {len : Nat} {d : Datagram} :
    host.answer upstream len = some d ↔
      ∃ ip, host.upstreamIp upstream = some ip ∧ host.firstReceived len = some d := by
  unfold Host.answer
  cases host.upstreamIp upstream with
  | none => simp
  | some ip => simp

/-- A datagram within the size of a UDP message is received whole. -/
theorem recvfrom_of_le {d : Datagram} (h : d.payload.length ≤ dnsUdpMaxSize) :
    recvfrom d dnsUdpMaxSize = d.payload :=
  List.take_of_length_le h

/-- Among datagrams that fit, a parsed query is answered from upstream exactly when the first one
is a reply to it. -/
theorem forwardQuery_success_iff_answer {b : Buffer} {m : DnsMessage} (hp : Parsed b m)
    (host : Host) (upstream : CStr) (out : Out)
    (hfit : ∀ k < upstreamRetries, ∀ d, (host.attempts k).recv = .datagram d →
      d.payload.length ≤ dnsUdpMaxSize) :
    (forwardQuery host m upstream out .ok).ret = .success ↔
      ∃ d, host.answer upstream b.len = some d ∧ ReplyTo b.data d.payload := by
  have hlen := parseDnsHeader_length hp.header_eq
  have hraw : (Buffer.ofBytes b.data).len = b.len := b.length_data
  have hpos : (Buffer.ofBytes b.data).len ≠ 0 := by
    simp only [dnsHeaderSize] at hlen
    omega
  have hjudge : ∀ d, host.firstReceived b.len = some d →
      (acceptReply (.ofBytes b.data) (recvfrom d dnsUdpMaxSize) = true ↔
        ReplyTo b.data d.payload) := by
    intro d hd
    obtain ⟨k, hk, hrecv⟩ := Host.firstReceived_recv hd
    have hle := hfit k hk d hrecv
    rw [recvfrom_of_le hle, acceptReply_iff_replyTo (hraw.symm ▸ hlen) hle, Buffer.data_ofBytes]
  rw [forwardQuery_success_iff host upstream out hp.raw_eq hpos, hraw]
  constructor
  · rintro ⟨ip, d, hip, hd, haccept⟩
    exact ⟨d, Host.answer_eq_some.2 ⟨ip, hip, hd⟩, (hjudge d hd).1 haccept⟩
  · rintro ⟨d, hd, hreply⟩
    obtain ⟨ip, hip, hd⟩ := Host.answer_eq_some.1 hd
    exact ⟨ip, d, hip, hd, (hjudge d hd).2 hreply⟩

/-- What a call relays of a datagram that fits. -/
theorem forwardQuery_out_answer {b : Buffer} {m : DnsMessage} (hp : Parsed b m) {host : Host}
    {upstream : CStr} {out : Out} {a : Allocs} {d : Datagram}
    (hd : host.answer upstream b.len = some d) (hle : d.payload.length ≤ dnsUdpMaxSize)
    (h : (forwardQuery host m upstream out a).ret = .success) :
    (forwardQuery host m upstream out a).out = ⟨some d.payload, d.payload.length⟩ := by
  obtain ⟨raw, ip, d', hraw, hip, hd', -, hout, -⟩ := forwardQuery_success host upstream out a h
  rw [hp.raw_eq] at hraw
  cases hraw
  obtain ⟨-, -, hd⟩ := Host.answer_eq_some.1 hd
  have hlen : (Buffer.ofBytes b.data).len = b.len := b.length_data
  rw [hlen, hd] at hd'
  cases hd'
  rw [hout, recvfrom_of_le hle]

/-- What is sent for a parsed query are copies of its octets, one for each attempt at most. -/
theorem forwardQuery_copies {b : Buffer} {m : DnsMessage} (hp : Parsed b m) (host : Host)
    (upstream : CStr) (out : Out) (a : Allocs) :
    (forwardQuery host m upstream out a).sent.length ≤ upstreamRetries ∧
      ∀ x ∈ (forwardQuery host m upstream out a).sent, x.2 = b.data := by
  obtain ⟨hcopies, hsent⟩ : (forwardQuery host m upstream out a).sent.length ≤ upstreamRetries ∧
      ∀ x ∈ (forwardQuery host m upstream out a).sent, _ := forwardQuery_sent host upstream out a
  refine ⟨hcopies, fun x hx => ?_⟩
  obtain ⟨raw, ip, hraw, -, rfl⟩ := hsent x hx
  rw [hp.raw_eq] at hraw
  cases hraw
  exact Buffer.data_ofBytes _

/-- An allowed query for an address is answered from upstream or with SERVFAIL. -/
theorem processDnsQuery_allowed (config : ServerConfig) (out : Out) (host : Host) {b : Buffer}
    {m : DnsMessage} {ls : List Bytes} {fin : Nat} {rest : List DnsQuestion}
    (h : parseDnsMessage b .ok = (.success, m, .ok)) (hpos : m.header.qdcount ≠ 0)
    (hfirst : m.questions = some (questionOf b ls fin :: rest))
    (hq : QuestionAt b dnsHeaderSize ls 0 fin) (htype : (questionOf b ls fin).qtype = dnsTypeA)
    (hallowed : (isDomainBlocked config.filterRoot (questionOf b ls fin).qname .ok).1 = false) :
    processDnsQuery config b out host .ok =
      let f := forwardQuery host m config.upstreamServer out .ok
      let servfail := errorResponse b m.header dnsRcodeServfail fin
      ⟨.success, if f.ret = .success then f.out else ⟨some servfail, servfail.length⟩, some m,
        f.sent, .ok⟩ := by
  rw [processDnsQuery_address config out host h hpos hfirst htype]
  rcases hv : isDomainBlocked config.filterRoot (questionOf b ls fin).qname .ok with ⟨v, a⟩
  rw [hv] at hallowed
  obtain rfl : v = false := hallowed
  obtain rfl := isDomainBlocked_ok hv
  dsimp only
  rw [forwardQuery_ok rfl, length_errorResponse hq]
  by_cases ok : (forwardQuery host m config.upstreamServer out .ok).ret = .success
  · rw [if_neg (not_not.2 ok), if_pos ok]
  · rw [if_pos ok, if_neg ok, replyError_plain (parseDnsMessage_parsed h) hq dnsRcodeServfail_le]

/-- **Whatever the network does**, an allowed query for an address is answered: with the first
datagram that comes back if it is a reply to the query, and with SERVFAIL in every other case. -/
theorem processDnsQuery_upstream (config : ServerConfig) (out : Out) (host : Host) {b : Buffer}
    {m : DnsMessage} {q : DnsQuestion} {a' : Allocs} {ls : List Bytes} {fin : Nat}
    (h : parseDnsMessage b .ok = (.success, m, a')) (hone : m.questions = some [q])
    (htype : q.qtype = dnsTypeA)
    (hallowed : (isDomainBlocked config.filterRoot q.qname .ok).1 = false)
    (hplain : Decodes b dnsHeaderSize ls 0 fin)
    (hfit : ∀ k < upstreamRetries, ∀ d, (host.attempts k).recv = .datagram d →
      d.payload.length ≤ dnsUdpMaxSize) :
    let r := processDnsQuery config b out host .ok
    let servfail := errorResponse b m.header dnsRcodeServfail fin
    r.ret = .success ∧
    (∀ d, host.answer config.upstreamServer b.len = some d → ReplyTo b.data d.payload →
      r.out = ⟨some d.payload, d.payload.length⟩) ∧
    ((∀ d, host.answer config.upstreamServer b.len = some d → ¬ ReplyTo b.data d.payload) →
      r.out = ⟨some servfail, servfail.length⟩) ∧
    parseDnsMessage (.ofBytes servfail) .ok = (.success, .ofParts
      { id := m.header.id
        flags := dnsFlagQR ||| (m.header.flags &&& dnsFlagRD) ||| dnsRcodeServfail.toUInt16
        qdcount := 1, ancount := 0, nscount := 0, arcount := 0 }
      (some [q]) (.ofBytes servfail), .ok) ∧
    r.sent.length ≤ 3 ∧ (∀ x ∈ r.sent, x.2 = b.data) ∧
    ∀ query out' a, (forwardQuery host query config.upstreamServer out' a).ret ≠ .success →
      (forwardQuery host query config.upstreamServer out' a).out = out' := by
  intro r servfail
  have hp := parseDnsMessage_parsed h
  obtain rfl := parseDnsMessage_ok h
  obtain ⟨hq, rfl, hcount⟩ := hp.one_question hone hplain
  have hparse := (parsed_errorResponse m.header dnsRcodeServfail hq hcount).parse_ok
  rw [errorHeader, hcount] at hparse
  have hsuccess := forwardQuery_success_iff_answer hp host config.upstreamServer out hfit
  obtain ⟨hcopies, hdata⟩ := forwardQuery_copies hp host config.upstreamServer out .ok
  have huntouched : ∀ query out' a,
      (forwardQuery host query config.upstreamServer out' a).ret ≠ .success →
        (forwardQuery host query config.upstreamServer out' a).out = out' :=
    fun query out' a => forwardQuery_failure host config.upstreamServer out' a
  have hpos : m.header.qdcount ≠ 0 := by
    rw [hcount]
    decide
  have heq : r = _ := processDnsQuery_allowed config out host h hpos hone hq htype hallowed
  rw [heq]
  refine ⟨rfl, fun d hd hreply => ?_, fun hnone => ?_, hparse, hcopies, hdata, huntouched⟩
  · have ok := hsuccess.2 ⟨d, hd, hreply⟩
    dsimp only
    rw [if_pos ok]
    exact forwardQuery_out_answer hp hd hreply.length_le ok
  · refine if_neg fun ok => ?_
    obtain ⟨d, hd, hreply⟩ := hsuccess.1 ok
    exact hnone d hd hreply

/-- The query for `a` loses its first copy, and a reply to the second one comes back. -/
theorem processDnsQuery_upstream_secondCopy :
    let b := Buffer.ofBytes [0x12, 0x34, 1, 0, 0, 1, 0, 0, 0, 0, 0, 0, 1, 97, 0, 0, 1, 0, 1]
    let d : Datagram := ⟨⟨0x08080808, 53⟩, [0x12, 0x34, 0x81, 0x80, 0, 0, 0, 0, 0, 0, 0, 0]⟩
    let host : Host := { deafHost with
      attempts := fun k => if k = 1 then ⟨.sent 19, .datagram d⟩ else ⟨.sent 19, .error⟩ }
    (processDnsQuery ⟨.ofBuffer [56], .empty⟩ b ⟨none, 0⟩ host .ok).out = ⟨some d.payload, 12⟩ := by
  intro b d host
  have hparse : (parseDnsMessage b .ok).1 = .success := by decide
  have hanswer : host.answer (.ofBuffer [56]) b.len = some d := rfl
  have hreply : ReplyTo b.data d.payload :=
    ⟨by decide, by decide, by decide, ⟨0x1234, 0x8180, 0, 0, 0, 0⟩, by decide, by decide⟩
  have hfit : ∀ k < upstreamRetries, ∀ d', (host.attempts k).recv = .datagram d' →
      d'.payload.length ≤ dnsUdpMaxSize := by
    intro k _ d' hd'
    by_cases hk : k = 1
    · subst hk
      cases hd'
      decide
    · rw [show host.attempts k = ⟨.sent 19, .error⟩ from if_neg hk] at hd'
      cases hd'
  exact (processDnsQuery_upstream ⟨.ofBuffer [56], .empty⟩ ⟨none, 0⟩ host (Prod.ext hparse rfl)
    (q := ⟨.ofBuffer [97], 1, 1⟩) (by decide) (by decide) (by decide)
    (.label (by decide) (by decide) (by decide) (.root (by decide) (by decide))) hfit).2.1 d hanswer
      hreply

/-! ## Whose reply it is -/

/-- **The sender is not looked at**: a call that returns 0 has sent the query to the upstream
only, and hands back what the first datagram holds that it received, whenever that came to the
socket; it has the length, the id and the QR bit of a reply. So it is the upstream's reply exactly
when this datagram came from there. -/
theorem forwardQuery_sender (host : Host) (query : DnsMessage) (upstream : CStr) (out : Out)
    (a : Allocs) (h : (forwardQuery host query upstream out a).ret = .success) :
    ∃ raw ip d, query.raw = some raw ∧ host.upstreamIp upstream = some ip ∧
      host.firstReceived raw.len = some d ∧
      (forwardQuery host query upstream out a).out =
        ⟨some (recvfrom d dnsUdpMaxSize), (recvfrom d dnsUdpMaxSize).length⟩ ∧
      ReplyTo raw.data (recvfrom d dnsUdpMaxSize) ∧
      (∀ x ∈ (forwardQuery host query upstream out a).sent,
        x = (⟨ip, upstreamPort⟩, raw.data)) ∧
      ((∃ x ∈ (forwardQuery host query upstream out a).sent, d.sender = x.1) ↔
        d.sender = ⟨ip, upstreamPort⟩) := by
  obtain ⟨raw, ip, d, hraw, hip, hd, haccept, hout, hmem⟩ :=
    forwardQuery_success host upstream out a h
  have hsent : ∀ x ∈ (forwardQuery host query upstream out a).sent,
      x = (⟨ip, upstreamPort⟩, raw.data) := by
    intro x hx
    obtain ⟨raw', ip', hraw', hip', rfl⟩ := (forwardQuery_sent host upstream out a).2 x hx
    rw [hraw] at hraw'
    rw [hip] at hip'
    cases hraw'
    cases hip'
    rfl
  obtain ⟨queryHeader, respHeader, hq, hr, hid, hqr⟩ := haccept.header
  refine ⟨raw, ip, d, hraw, hip, hd, hout,
    replyTo_of_headers hq hr hid.symm hqr (List.length_take_le _ _), hsent, ?_⟩
  constructor
  · rintro ⟨x, hx, hsender⟩
    rw [hsender, hsent x hx]
  · intro hsender
    exact ⟨_, hmem, hsender⟩

/-- The reply of the upstream itself. -/
theorem forwardQuery_sender_genuine :
    let b := Buffer.ofBytes [0x12, 0x34, 1, 0, 0, 1, 0, 0, 0, 0, 0, 0, 1, 97, 0, 0, 1, 0, 1]
    let d : Datagram := ⟨⟨0x08080808, 53⟩, [0x12, 0x34, 0x81, 0x80, 0, 0, 0, 0, 0, 0, 0, 0]⟩
    let host : Host := { deafHost with attempts := fun _ => ⟨.sent 19, .datagram d⟩ }
    let f := forwardQuery host (parseDnsMessage b .ok).2.1 (.ofBuffer [56]) ⟨none, 0⟩ .ok
    f.out = ⟨some d.payload, 12⟩ ∧ ∃ x ∈ f.sent, d.sender = x.1 := by
  intro b d host f
  have hparse : (parseDnsMessage b .ok).1 = .success := by decide
  have hm := parseDnsMessage_parsed (Prod.ext hparse rfl)
  have hret : f.ret = .success := by decide
  obtain ⟨raw, ip, d', hraw, hip, hd, hout, -, -, hsender⟩ := forwardQuery_sender _ _ _ _ _ hret
  rw [hm.raw_eq] at hraw
  cases hraw
  cases hip
  cases hd
  exact ⟨hout, hsender.2 rfl⟩

/-- A reply from somewhere else is handed back, with no datagram from the upstream at all. -/
theorem forwardQuery_forged :
    let b := Buffer.ofBytes [0x12, 0x34, 1, 0, 0, 1, 0, 0, 0, 0, 0, 0, 1, 97, 0, 0, 1, 0, 1]
    let d : Datagram := ⟨⟨0x06060606, 4444⟩, [0x12, 0x34, 0x81, 0x80, 0, 0, 0, 0, 0, 0, 0, 0]⟩
    let host : Host := { deafHost with attempts := fun _ => ⟨.sent 19, .datagram d⟩ }
    let f := forwardQuery host (parseDnsMessage b .ok).2.1 (.ofBuffer [56]) ⟨none, 0⟩ .ok
    f.ret = .success ∧ f.out = ⟨some d.payload, 12⟩ ∧
      (∀ x ∈ f.sent, x.1 = ⟨0x08080808, upstreamPort⟩) ∧
      ∀ k d', (host.attempts k).recv = .datagram d' → d'.sender ≠ ⟨0x08080808, upstreamPort⟩ := by
  intro b d host f
  refine ⟨by decide, by decide, by decide, fun k d' hd' => ?_⟩
  cases hd'
  decide

/-! ## How much of a reply -/

/-- A message that says it was truncated. -/
def Truncated (message : Bytes) : Prop :=
  ∃ header, parseDnsHeader (.ofBytes message) = some header ∧ header.flags &&& dnsFlagTC ≠ 0

/-- Cutting a message behind its header leaves the header. -/
theorem parseDnsHeader_take {message : Bytes} {n : Nat} (hn : dnsHeaderSize ≤ n) :
    parseDnsHeader (.ofBytes (message.take n)) = parseDnsHeader (.ofBytes message) := by
  have hlen : (Buffer.ofBytes (message.take n)).len = min n message.length := List.length_take
  apply parseDnsHeader_eq
  · rw [hlen]
    change _ ↔ message.length < dnsHeaderSize
    omega
  · intro _ i hi
    simp only [Buffer.get, Buffer.ofBytes, List.getD_eq_getElem?_getD,
      List.getElem?_take_of_lt (Nat.lt_of_lt_of_le hi hn)]

/-- **The buffer bounds a reply**: an accepted datagram is handed back whole when it fits, and
cut to 512 octets, its header as it came, when it does not; so what is handed back is complete or
marked as truncated exactly when the datagram fits or the upstream has marked it. -/
theorem forwardQuery_size (host : Host) (query : DnsMessage) (upstream : CStr) (out : Out)
    (a : Allocs) (h : (forwardQuery host query upstream out a).ret = .success) :
    ∃ raw d reply, query.raw = some raw ∧ host.firstReceived raw.len = some d ∧
      (forwardQuery host query upstream out a).out = ⟨some reply, reply.length⟩ ∧
      (d.payload.length ≤ dnsUdpMaxSize → reply = d.payload) ∧
      (dnsUdpMaxSize < d.payload.length → reply = d.payload.take dnsUdpMaxSize ∧
        parseDnsHeader (.ofBytes reply) = parseDnsHeader (.ofBytes d.payload)) ∧
      (reply = d.payload ∨ Truncated reply ↔
        d.payload.length ≤ dnsUdpMaxSize ∨ Truncated d.payload) := by
  obtain ⟨raw, ip, d, hraw, -, hd, -, hout, -⟩ := forwardQuery_success host upstream out a h
  have hheader : parseDnsHeader (.ofBytes (recvfrom d dnsUdpMaxSize)) =
      parseDnsHeader (.ofBytes d.payload) := parseDnsHeader_take (by decide)
  have htruncated : Truncated (recvfrom d dnsUdpMaxSize) ↔ Truncated d.payload := by
    rw [Truncated, Truncated, hheader]
  have hwhole : recvfrom d dnsUdpMaxSize = d.payload ↔ d.payload.length ≤ dnsUdpMaxSize :=
    List.take_eq_self_iff d.payload
  exact ⟨raw, d, recvfrom d dnsUdpMaxSize, hraw, hd, hout, recvfrom_of_le,
    fun _ => ⟨rfl, hheader⟩, or_congr hwhole htruncated⟩

/-- A reply of 13 octets. -/
theorem forwardQuery_size_fitting :
    let b := Buffer.ofBytes [0x12, 0x34, 1, 0, 0, 1, 0, 0, 0, 0, 0, 0, 1, 97, 0, 0, 1, 0, 1]
    let d : Datagram := ⟨⟨0x08080808, 53⟩, [0x12, 0x34, 0x81, 0x80, 0, 0, 0, 0, 0, 0, 0, 0, 7]⟩
    let host : Host := { deafHost with attempts := fun _ => ⟨.sent 19, .datagram d⟩ }
    let f := forwardQuery host (parseDnsMessage b .ok).2.1 (.ofBuffer [56]) ⟨none, 0⟩ .ok
    f.out = ⟨some d.payload, 13⟩ := by
  intro b d host f
  have hparse : (parseDnsMessage b .ok).1 = .success := by decide
  have hm := parseDnsMessage_parsed (Prod.ext hparse rfl)
  have hret : f.ret = .success := by decide
  obtain ⟨raw, d', reply, hraw, hd, hout, hfits, -⟩ := forwardQuery_size _ _ _ _ _ hret
  rw [hm.raw_eq] at hraw
  cases hraw
  cases hd
  obtain rfl := hfits (by decide)
  exact hout

/-- A reply of 513 octets without the TC flag loses its last octet, still without the flag. -/
theorem forwardQuery_cut :
    let b := Buffer.ofBytes [0x12, 0x34, 1, 0, 0, 1, 0, 0, 0, 0, 0, 0, 1, 97, 0, 0, 1, 0, 1]
    let header : Bytes := [0x12, 0x34, 0x81, 0x80, 0, 0, 0, 0, 0, 0, 0, 0]
    let d : Datagram := ⟨⟨0x08080808, 53⟩, header ++ List.replicate 501 0⟩
    let host : Host := { deafHost with attempts := fun _ => ⟨.sent 19, .datagram d⟩ }
    let f := forwardQuery host (parseDnsMessage b .ok).2.1 (.ofBuffer [56]) ⟨none, 0⟩ .ok
    ∃ reply, f.ret = .success ∧ f.out.response = some reply ∧ reply ≠ d.payload ∧
      ¬ Truncated reply := by
  intro b header d host f
  have hret : f.ret = .success := by decide +kernel
  refine ⟨header ++ List.replicate 500 0, hret, by decide +kernel, by decide +kernel, ?_⟩
  rintro ⟨h, hparse, htc⟩
  rw [← parseDnsHeader_take (n := 12) (by decide)] at hparse
  cases hparse
  exact htc (by decide)

end FilteringResolver
