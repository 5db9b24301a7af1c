import FilteringResolver.Resolver
import FilteringResolver.Verify.Octets

/-!
# Forwarding a query

`forward_query` either leaves the out variables alone or hands back a datagram that one of its
attempts received and that passed the checks on its length, id and QR bit (`Forwarded`). The
datagram it judges is the first one that comes after the whole query was sent
(`Host.firstReceived`), and all it sends are copies of the query (`forwardQuery_eq`).
-/

namespace FilteringResolver

/-! ## The retry loop -/

/-- The datagram pass `k` receives: one that came after the whole query was sent. -/
def Host.delivered (host : Host) (len k : Nat) : Option Datagram :=
  match (host.attempts k).send, (host.attempts k).recv with
  | .sent n, .datagram d => if n = len then some d else none
  | _, _ => none

/-- The first datagram that a pass receives. -/
def Host.firstReceived (host : Host) (len : Nat) : Option Datagram :=
  (List.range upstreamRetries).findSome? (host.delivered len)

/-- The first datagram comes from one of the three passes. -/
theorem Host.firstReceived_recv {host : Host} {len : Nat} {d : Datagram}
    (h : host.firstReceived len = some d) :
    ∃ k < upstreamRetries, (host.attempts k).recv = .datagram d := by
  obtain ⟨k, hk, hd⟩ := List.exists_of_findSome?_eq_some h
  refine ⟨k, List.mem_range.1 hk, ?_⟩
  unfold Host.delivered at hd
  split at hd <;> [skip; cases hd]
  next d' _ hrecv =>
  split at hd <;> cases hd
  exact hrecv

/-- **The loop**: it leaves with what the first pass that received a datagram has received, and
every pass has sent the query to the address the loop started with. -/
theorem retryLoop_spec (host : Host) (raw : Buffer) (n attempt : Nat) {s : RetryState}
    (hs : s.received = none) :
    (retryLoop host raw n attempt s).received =
        ((List.range' attempt n).findSome? (host.delivered raw.len)).map
          (recvfrom · dnsUdpMaxSize) ∧
      ∃ j ≤ n, (0 < n → 0 < j) ∧ (retryLoop host raw n attempt s).sent =
        s.sent ++ List.replicate j (s.upstreamAddr, raw.data) := by
  induction n generalizing attempt s with
  | zero => exact ⟨hs, 0, Nat.le_refl 0, id, by simp [retryLoop]⟩
  | succ n ih =>
    -- the state that the next pass starts from when this one has received nothing
    have retry := ih (attempt + 1)
      (s := { s with sent := s.sent ++ [(s.upstreamAddr, raw.data)] }) hs
    obtain ⟨hreceived, j, hj, -, hsent⟩ := retry
    have hsent' : ∃ j ≤ n + 1, (0 < n + 1 → 0 < j) ∧ (retryLoop host raw n (attempt + 1)
        { s with sent := s.sent ++ [(s.upstreamAddr, raw.data)] }).sent =
        s.sent ++ List.replicate j (s.upstreamAddr, raw.data) := by
      refine ⟨j + 1, Nat.succ_le_succ hj, fun _ => Nat.succ_pos j, ?_⟩
      rw [hsent, List.append_assoc, List.replicate_succ, List.singleton_append]
    rw [List.range'_succ, List.findSome?_cons, Host.delivered, retryLoop]
    dsimp only
    cases hsend : (host.attempts attempt).send with
    | error => exact ⟨hreceived, hsent'⟩
    | sent sentLen =>
      dsimp only
      by_cases hlen : sentLen = raw.len
      · cases hrecv : (host.attempts attempt).recv with
        | error =>
          rw [if_neg (not_not.2 hlen)]
          exact ⟨hreceived, hsent'⟩
        | datagram d =>
          rw [if_neg (not_not.2 hlen)]
          dsimp only
          rw [if_pos hlen]
          exact ⟨rfl, 1, Nat.succ_le_succ (Nat.zero_le n), fun _ => Nat.one_pos, rfl⟩
      · rw [if_pos hlen]
        cases hrecv : (host.attempts attempt).recv with
        | error => exact ⟨hreceived, hsent'⟩
        | datagram d =>
          dsimp only
          rw [if_neg hlen]
          exact ⟨hreceived, hsent'⟩

/-! ## The checks on a reply -/

/-- A reply that is a response to the query, as far as the header tells. -/
structure AcceptedReply (query : Buffer) (reply : Bytes) : Prop where
  length_ge : dnsHeaderSize ≤ reply.length
  header : ∃ queryHeader respHeader, parseDnsHeader query = some queryHeader ∧
    parseDnsHeader (.ofBytes reply) = some respHeader ∧ queryHeader.id = respHeader.id ∧
    respHeader.flags &&& dnsFlagQR ≠ 0

theorem acceptReply_accepted {query : Buffer} {reply : Bytes} (h : acceptReply query reply = true) :
    AcceptedReply query reply := by
  unfold acceptReply at h
  split at h <;> [cases h; skip]
  next hlen =>
  split at h <;> [skip; cases h]
  next queryHeader respHeader hq hr =>
  split at h <;> [cases h; skip]
  next hid =>
  exact ⟨Nat.le_of_not_lt hlen, queryHeader, respHeader, hq, hr, not_not.1 hid, bne_iff_ne.1 h⟩

theorem AcceptedReply.accept {query : Buffer} {reply : Bytes} (h : AcceptedReply query reply) :
    acceptReply query reply = true := by
  obtain ⟨queryHeader, respHeader, hq, hr, hid, hqr⟩ := h.header
  rw [acceptReply, if_neg (Nat.not_lt.2 h.length_ge), hq, hr]
  dsimp only
  rw [if_neg (not_not.2 hid)]
  exact bne_iff_ne.2 hqr

/-! ## `forward_query` -/

inductive Forwarded (host : Host) (query : DnsMessage) (out : Out) : ForwardResult → Prop where
  | failed {sent : List (SockAddr × Bytes)} {a : Allocs} :
      Forwarded host query out ⟨.failure, out, sent, a⟩
  | relayed {raw : Buffer} {d : Datagram} {k : Nat} {sent : List (SockAddr × Bytes)} {a : Allocs}
      (raw_eq : query.raw = some raw) (attempt : k < upstreamRetries)
      (recv : (host.attempts k).recv = .datagram d)
      (accepted : AcceptedReply raw (recvfrom d dnsUdpMaxSize)) :
      Forwarded host query out ⟨.success, ⟨some (recvfrom d dnsUdpMaxSize),
        (recvfrom d dnsUdpMaxSize).length⟩, sent, a⟩

/-- The address that the set-up of a call comes to: the resolved one of the upstream, once there
is a socket with its timeout. -/
def Host.upstreamIp (host : Host) (upstream : CStr) : Option UInt32 :=
  match resolveUpstreamAddress host upstream with
  | none => none
  | some text =>
    if host.socket = false ∨ host.setsockopt = false then none else host.inetPton text

section

variable (host : Host) {query : DnsMessage} (upstream : CStr) (out : Out) (a : Allocs)

/-- Without octets to send or an address to send them to nothing is sent. -/
theorem forwardQuery_unsent
    (h : ∀ raw, query.raw = some raw → raw.len ≠ 0 → host.upstreamIp upstream = none) :
    forwardQuery host query upstream out a = ⟨.failure, out, [], a⟩ := by
  unfold forwardQuery
  split <;> [rfl; skip]
  next raw hraw =>
  split <;> [rfl; skip]
  next hlen =>
  have hip := h raw hraw hlen
  unfold Host.upstreamIp at hip
  split <;> [rfl; skip]
  next text htext =>
  rw [htext] at hip
  dsimp only at hip
  split <;> [rfl; skip]
  next hsock =>
  rw [if_neg hsock] at hip
  rw [hip]

/-- **What a call comes to** once it has octets to send and an address. -/
theorem forwardQuery_eq {raw : Buffer} (hraw : query.raw = some raw) (hlen : raw.len ≠ 0)
    {ip : UInt32} (hip : host.upstreamIp upstream = some ip) :
    ∃ j ≤ upstreamRetries, 0 < j ∧ forwardQuery host query upstream out a =
      if a.head then
        let sent := List.replicate j (⟨ip, upstreamPort⟩, raw.data)
        match host.firstReceived raw.len with
        | none => ⟨.failure, out, sent, a.tail⟩
        | some d =>
          let reply := recvfrom d dnsUdpMaxSize
          if acceptReply raw reply then ⟨.success, ⟨some reply, reply.length⟩, sent, a.tail⟩
          else ⟨.failure, out, sent, a.tail⟩
      else ⟨.failure, out, [], a.tail⟩ := by
  obtain ⟨hreceived, j, hj, hpos, hsent⟩ := retryLoop_spec host raw upstreamRetries 0
    (s := ⟨none, ⟨ip, upstreamPort⟩, []⟩) rfl
  rw [← List.range_eq_range', ← Host.firstReceived] at hreceived
  rw [List.nil_append] at hsent
  refine ⟨j, hj, hpos (by decide), ?_⟩
  unfold Host.upstreamIp at hip
  split at hip <;> [cases hip; skip]
  next text htext =>
  split at hip <;> [cases hip; skip]
  next hsock =>
  simp only [forwardQuery, hraw, hlen, if_false, htext, hsock, hip, malloc]
  cases a.head with
  | false => rfl
  | true =>
    simp only [hreceived, hsent, if_true]
    cases host.firstReceived raw.len with
    | none => rfl
    | some d => rfl

variable (query) in
/-- **What a call can do**: fail before it sends anything, or send copies of the query and then
fail or relay the first datagram received. -/
theorem forwardQuery_cases :
    (∃ a', forwardQuery host query upstream out a = ⟨.failure, out, [], a'⟩) ∨
      ∃ raw ip j a', query.raw = some raw ∧ host.upstreamIp upstream = some ip ∧ 0 < j ∧
        j ≤ upstreamRetries ∧ (forwardQuery host query upstream out a =
            ⟨.failure, out, List.replicate j (⟨ip, upstreamPort⟩, raw.data), a'⟩ ∨
          ∃ d, host.firstReceived raw.len = some d ∧ AcceptedReply raw (recvfrom d dnsUdpMaxSize) ∧
            forwardQuery host query upstream out a =
              ⟨.success, ⟨some (recvfrom d dnsUdpMaxSize), (recvfrom d dnsUdpMaxSize).length⟩,
                List.replicate j (⟨ip, upstreamPort⟩, raw.data), a'⟩) := by
  by_cases hno : ∀ raw, query.raw = some raw → raw.len ≠ 0 → host.upstreamIp upstream = none
  · exact Or.inl ⟨a, forwardQuery_unsent host upstream out a hno⟩
  · push Not at hno
    obtain ⟨raw, hraw, hlen, hip⟩ := hno
    obtain ⟨ip, hip⟩ := Option.ne_none_iff_exists'.1 hip
    obtain ⟨j, hj, hpos, heq⟩ := forwardQuery_eq host upstream out a hraw hlen hip
    rw [heq]
    split
    · refine Or.inr ⟨raw, ip, j, a.tail, hraw, hip, hpos, hj, ?_⟩
      dsimp only
      split
      · exact Or.inl rfl
      · next d hd =>
        split
        · next haccept => exact Or.inr ⟨d, hd, acceptReply_accepted haccept, rfl⟩
        · exact Or.inl rfl
    · exact Or.inl ⟨a.tail, rfl⟩

/-- A call that fails leaves the out variables alone. -/
theorem forwardQuery_failure (h : (forwardQuery host query upstream out a).ret ≠ .success) :
    (forwardQuery host query upstream out a).out = out := by
  rcases forwardQuery_cases host query upstream out a with ⟨a', heq⟩ |
    ⟨raw, ip, j, a', -, -, -, -, heq | ⟨d, -, -, heq⟩⟩
  · rw [heq]
  · rw [heq]
  · rw [heq] at h
    exact absurd rfl h

/-- At most three copies of the query are sent, all to one address. -/
theorem forwardQuery_sent :
    (forwardQuery host query upstream out a).sent.length ≤ upstreamRetries ∧
      ∀ x ∈ (forwardQuery host query upstream out a).sent, ∃ raw ip, query.raw = some raw ∧
        host.upstreamIp upstream = some ip ∧ x = (⟨ip, upstreamPort⟩, raw.data) := by
  rcases forwardQuery_cases host query upstream out a with ⟨a', heq⟩ |
    ⟨raw, ip, j, a', hraw, hip, -, hj, hcalled⟩
  · rw [heq]
    exact ⟨Nat.zero_le _, by simp⟩
  · have hsent : (forwardQuery host query upstream out a).sent =
        List.replicate j (⟨ip, upstreamPort⟩, raw.data) := by
      rcases hcalled with heq | ⟨d, -, -, heq⟩ <;> rw [heq]
    rw [hsent]
    refine ⟨by rwa [List.length_replicate], fun x hx => ?_⟩
    exact ⟨raw, ip, hraw, hip, (List.mem_replicate.1 hx).2⟩

/-- What is known of a call that returns 0: it relays the first datagram received. -/
theorem forwardQuery_success (h : (forwardQuery host query upstream out a).ret = .success) :
    ∃ raw ip d, query.raw = some raw ∧ host.upstreamIp upstream = some ip ∧
      host.firstReceived raw.len = some d ∧ AcceptedReply raw (recvfrom d dnsUdpMaxSize) ∧
      (forwardQuery host query upstream out a).out =
        ⟨some (recvfrom d dnsUdpMaxSize), (recvfrom d dnsUdpMaxSize).length⟩ ∧
      (⟨ip, upstreamPort⟩, raw.data) ∈ (forwardQuery host query upstream out a).sent := by
  rcases forwardQuery_cases host query upstream out a with ⟨a', heq⟩ |
    ⟨raw, ip, j, a', hraw, hip, hpos, -, heq | ⟨d, hd, haccept, heq⟩⟩
  · rw [heq] at h
    cases h
  · rw [heq] at h
    cases h
  · rw [heq]
    exact ⟨raw, ip, d, hraw, hip, hd, haccept, rfl,
      List.mem_replicate.2 ⟨Nat.ne_of_gt hpos, rfl⟩⟩

/-- With its allocation succeeding, a call with octets to send returns 0 exactly when there is a
first datagram and it is accepted. -/
theorem forwardQuery_success_iff {raw : Buffer} (hraw : query.raw = some raw) (hlen : raw.len ≠ 0) :
    (forwardQuery host query upstream out .ok).ret = .success ↔
      ∃ ip d, host.upstreamIp upstream = some ip ∧ host.firstReceived raw.len = some d ∧
        acceptReply raw (recvfrom d dnsUdpMaxSize) = true := by
  constructor
  · intro h
    obtain ⟨raw', ip, d, hraw', hip, hd, haccept, -, -⟩ :=
      forwardQuery_success host upstream out .ok h
    obtain rfl : raw = raw' := Option.some.inj (hraw.symm.trans hraw')
    exact ⟨ip, d, hip, hd, haccept.accept⟩
  · rintro ⟨ip, d, hip, hd, haccept⟩
    obtain ⟨j, -, -, heq⟩ := forwardQuery_eq host upstream out .ok hraw hlen hip
    have hhead : Allocs.ok.head = true := rfl
    rw [heq, if_pos hhead]
    simp only [hd, haccept, if_true]

end

theorem forwardQuery_forwarded {host : Host} {query : DnsMessage} {upstream : CStr} {out : Out}
    {a : Allocs} {f : ForwardResult} (h : forwardQuery host query upstream out a = f) :
    Forwarded host query out f := by
  subst h
  rcases forwardQuery_cases host query upstream out a with ⟨a', heq⟩ |
    ⟨raw, ip, j, a', hraw, -, -, -, heq | ⟨d, hd, haccept, heq⟩⟩
  · rw [heq]
    exact .failed
  · rw [heq]
    exact .failed
  · rw [heq]
    obtain ⟨k, hk, hrecv⟩ := Host.firstReceived_recv hd
    exact .relayed hraw hk hrecv haccept

theorem forwardQuery_ok {host : Host} {query : DnsMessage} {upstream : CStr} {out : Out}
    {f : ForwardResult} (h : forwardQuery host query upstream out .ok = f) : f.allocs = .ok := by
  subst h
  unfold forwardQuery
  split <;> [rfl; skip]
  split <;> [rfl; skip]
  split <;> [rfl; skip]
  split <;> [rfl; skip]
  split <;> [rfl; skip]
  dsimp only [malloc_ok]
  split <;> [rfl; skip]
  split <;> rfl

end FilteringResolver
