import FilteringResolver.Verify.Query

/-!
# The server loop

Every datagram the loop sends answers the one it has just received: to its sender, within the
size of a UDP message, with its id and as a response (`ReplyTo`). The error responses have this
from the parsed header, the relayed replies from the checks of `forward_query`; one pass of the
loop keeps it (`serverPass_replies`) and so does every run (`runServer_replies`).
-/

namespace FilteringResolver

/-! ## Replies -/

/-- `reply` is a response that carries the id of `query`. -/
structure ReplyTo (query reply : Bytes) : Prop where
  length_ge : dnsHeaderSize ≤ reply.length
  length_le : reply.length ≤ dnsUdpMaxSize
  id : reply.take 2 = query.take 2
  response : ∃ header, parseDnsHeader (.ofBytes reply) = some header ∧
    header.flags &&& dnsFlagQR ≠ 0

theorem parseDnsHeader_id {b : Buffer} {header : DnsHeader}
    (h : parseDnsHeader b = some header) : header.id = be16 (b.get 0) (b.get 1) := by
  unfold parseDnsHeader at h
  split at h <;> cases h
  rfl

theorem Buffer.take_two {b : Buffer} (h : 2 ≤ b.len) : b.data.take 2 = [b.get 0, b.get 1] := by
  have hslice : b.slice 0 2 = [b.get 0, b.get 1] := by
    rw [Buffer.slice_succ 1 (by omega), Buffer.slice_one (by omega)]
  rw [← hslice, Buffer.data, List.take_take, Nat.min_eq_left h]
  rfl

/-- Two headers with one id start with the same two octets. -/
theorem replyTo_of_headers {b : Buffer} {reply : Bytes} {queryHeader respHeader : DnsHeader}
    (hq : parseDnsHeader b = some queryHeader)
    (hr : parseDnsHeader (.ofBytes reply) = some respHeader) (hid : respHeader.id = queryHeader.id)
    (hqr : respHeader.flags &&& dnsFlagQR ≠ 0) (hle : reply.length ≤ dnsUdpMaxSize) :
    ReplyTo b.data reply := by
  have hqlen : 12 ≤ b.len := parseDnsHeader_length hq
  have hrlen : 12 ≤ (Buffer.ofBytes reply).len := parseDnsHeader_length hr
  refine ⟨hrlen, hle, ?_, respHeader, hr, hqr⟩
  rw [parseDnsHeader_id hq, parseDnsHeader_id hr] at hid
  obtain ⟨h0, h1⟩ := be16_inj hid
  rw [Buffer.take_two (by omega), ← h0, ← h1, ← Buffer.take_two (by omega), Buffer.data_ofBytes]

/-! ## Processing a query -/

/-- `replyError` returns 0 when `build_error_response` does. -/
theorem replyError_ret (m : DnsMessage) (rcode : UInt8) (out : Out) (a : Allocs)
    (forwarded : Option DnsMessage) (sent : List (SockAddr × Bytes)) :
    (replyError m rcode out a forwarded sent).ret = .success ↔
      (buildErrorResponse m rcode out a).1 = .success := by
  rcases hb : buildErrorResponse m rcode out a with ⟨ret, out', a'⟩
  rw [replyError, hb]
  cases ret <;> simp

/-- `replyError` hands back what `build_error_response` has built. -/
theorem replyError_built {m : DnsMessage} {rcode : UInt8} {out : Out} {a : Allocs}
    {forwarded : Option DnsMessage} {sent : List (SockAddr × Bytes)}
    (hret : (replyError m rcode out a forwarded sent).ret = .success) :
    ∃ a', buildErrorResponse m rcode out a =
      (.success, (replyError m rcode out a forwarded sent).out, a') := by
  rcases hb : buildErrorResponse m rcode out a with ⟨ret, out', a'⟩
  rw [replyError, hb] at hret ⊢
  cases ret with
  | success => exact ⟨a', rfl⟩
  | failure => cases hret
  | undefined => cases hret

/-- What `replyError` hands back when it returns 0: a block no longer than the query that reads
back with the header it was built with. -/
theorem replyError_success {b : Buffer} {m : DnsMessage} (h : Parsed b m) {rcode : UInt8}
    {out : Out} {a : Allocs} {forwarded : Option DnsMessage} {sent : List (SockAddr × Bytes)}
    (hret : (replyError m rcode out a forwarded sent).ret = .success) :
    ∃ reply, (replyError m rcode out a forwarded sent).out = ⟨some reply, reply.length⟩ ∧
      reply.length ≤ b.len ∧
      parseDnsHeader (.ofBytes reply) = some (errorHeader m.header rcode) := by
  obtain ⟨a', hb⟩ := replyError_built hret
  obtain ⟨reply, hout, hle, hheader⟩ := buildErrorResponse_header h.raw_eq hb
  exact ⟨reply, hout, Nat.le_trans hle (Nat.le_of_eq b.length_data), hheader⟩

section

variable {b : Buffer} (hlen : b.len ≤ dnsUdpMaxSize)
include hlen

theorem replyError_replyTo {m : DnsMessage} (h : Parsed b m) {rcode : UInt8} {out : Out}
    {a : Allocs} {forwarded : Option DnsMessage} {sent : List (SockAddr × Bytes)}
    (hret : (replyError m rcode out a forwarded sent).ret = .success) :
    ∃ reply, (replyError m rcode out a forwarded sent).out = ⟨some reply, reply.length⟩ ∧
      ReplyTo b.data reply := by
  obtain ⟨reply, hout, hle, hheader⟩ := replyError_success h hret
  refine ⟨reply, hout, ?_⟩
  exact replyTo_of_headers h.header_eq hheader rfl (errorHeader_flags m.header rcode)
    (Nat.le_trans hle hlen)

/-- **Every answer answers its query**, whichever branch it comes from. -/
theorem processDnsQuery_replyTo {config : ServerConfig} {out : Out} {host : Host} {a : Allocs}
    (hret : (processDnsQuery config b out host a).ret = .success) :
    ∃ reply, (processDnsQuery config b out host a).out = ⟨some reply, reply.length⟩ ∧
      ReplyTo b.data reply := by
  have hproc := processDnsQuery_processed config b out host a
  generalize processDnsQuery config b out host a = r at hret hproc ⊢
  cases hproc with
  | unparsed => cases hret
  | noQuestion parse => exact replyError_replyTo hlen (parseDnsMessage_parsed parse) hret
  | otherType asked => exact replyError_replyTo hlen (parseDnsMessage_parsed asked.parse) hret
  | blocked asked => exact replyError_replyTo hlen (parseDnsMessage_parsed asked.parse) hret
  | unanswered asked => exact replyError_replyTo hlen (parseDnsMessage_parsed asked.parse) hret
  | relayed asked type verdict forward ok =>
    have hp := parseDnsMessage_parsed asked.parse
    cases forwardQuery_forwarded forward with
    | failed => cases ok
    | relayed raw_eq attempt recv accepted =>
      rw [hp.raw_eq] at raw_eq
      cases raw_eq
      obtain ⟨queryHeader, respHeader, hq, hr, hid, hqr⟩ := accepted.header
      have hreply := replyTo_of_headers hq hr hid.symm hqr (List.length_take_le _ _)
      rw [Buffer.data_ofBytes] at hreply
      exact ⟨_, rfl, hreply⟩

end

/-! ## The loop -/

@[simp] theorem QueryBuffer.data_received (q : QueryBuffer) (d : Datagram) :
    (q.received d).data = recvfrom d dnsUdpMaxSize := by
  simp [QueryBuffer.received, QueryBuffer.receive, Buffer.data]

/-- What a pass sends answers the datagram it received, at most once. -/
structure Replies (p : Pass) (sent : List (SockAddr × Bytes)) : Prop where
  at_most_one : sent.length ≤ 1
  reply : ∀ r ∈ sent, ∃ d, p.recv = .datagram d ∧ r.1 = d.sender ∧
    ReplyTo (recvfrom d dnsUdpMaxSize) r.2

theorem Replies.nil (p : Pass) : Replies p [] := ⟨Nat.zero_le 1, by simp⟩

theorem serveDatagram_replies (config : ServerConfig) (s : ServerState) {p : Pass} {d : Datagram}
    (hd : p.recv = .datagram d) : Replies p (serveDatagram config s p d).sent := by
  have hlen : (s.queryBuffer.received d).len ≤ dnsUdpMaxSize := List.length_take_le _ _
  unfold serveDatagram
  dsimp only
  split
  · exact .nil p
  · split
    · next response hret hresponse =>
      obtain ⟨reply, hout, hreply⟩ := processDnsQuery_replyTo hlen hret
      rw [hout] at hresponse
      cases hresponse
      rw [QueryBuffer.data_received] at hreply
      refine ⟨Nat.le_refl 1, fun r hr => ⟨d, hd, ?_⟩⟩
      rw [List.mem_singleton.1 hr, hout]
      dsimp only
      rw [List.take_length]
      exact ⟨rfl, hreply⟩
    · exact .nil p

/-- **One pass** sends nothing, or one reply to the datagram it received. -/
theorem serverPass_replies (config : ServerConfig) (s : ServerState) (p : Pass) :
    Replies p (serverPass config s p).sent := by
  unfold serverPass
  split
  · exact .nil p
  · split
    · exact .nil p
    · exact .nil p
    · exact .nil p
    · next d hd => exact serveDatagram_replies config s hd

/-- **Every reply matches its query, in every run** of the server loop. -/
theorem runServer_replies (config : ServerConfig) (s : ServerState) (passes : List Pass) :
    ∀ entry ∈ runServer config s passes, entry.2.sent.length ≤ 1 ∧
      ∀ r ∈ entry.2.sent, ∃ d, entry.1.recv = .datagram d ∧ r.1 = d.sender ∧
        ReplyTo (recvfrom d dnsUdpMaxSize) r.2 := by
  induction passes generalizing s with
  | nil => simp [runServer]
  | cons p passes ih =>
    intro entry hentry
    rw [runServer] at hentry
    rcases List.mem_cons.1 hentry with rfl | hentry
    · have hp := serverPass_replies config s p
      exact ⟨hp.at_most_one, hp.reply⟩
    · split at hentry
      · exact ih _ entry hentry
      · cases hentry

/-- A run over one query for the address of `a`, with a filter that blocks it. -/
theorem runServer_replies_blocked :
    let query : Bytes := [0x12, 0x34, 1, 0, 0, 1, 0, 0, 0, 0, 0, 0, 1, 97, 0, 0, 1, 0, 1]
    let s : ServerState := ⟨⟨List.replicate 512 0, List.length_replicate⟩, 0, 0, 0, 0⟩
    let p : Pass := ⟨true, true, .datagram ⟨⟨0x7F000001, 4242⟩, query⟩, deafHost, .ok, .sent 19⟩
    ∃ entry ∈ runServer ⟨.ofBuffer [56], buildFilter [(.ofBuffer [97], .ok)]⟩ s [p],
      ∃ r ∈ entry.2.sent, ReplyTo query r.2 := by
  intro query s p
  let entry := (p, serverPass ⟨.ofBuffer [56], buildFilter [(.ofBuffer [97], .ok)]⟩ s p)
  have hentry : entry ∈ runServer ⟨.ofBuffer [56], buildFilter [(.ofBuffer [97], .ok)]⟩ s [p] :=
    List.mem_cons_self
  have hsent : (⟨0x7F000001, 4242⟩, [0x12, 0x34, 0x81, 3, 0, 1, 0, 0, 0, 0, 0, 0,
      1, 97, 0, 0, 1, 0, 1]) ∈ entry.2.sent := by decide
  obtain ⟨d, hd, -, hreply⟩ := (runServer_replies _ s [p] entry hentry).2 _ hsent
  cases hd
  exact ⟨entry, hentry, _, hsent, hreply⟩

end FilteringResolver
