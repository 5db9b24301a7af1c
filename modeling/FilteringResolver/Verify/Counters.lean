import FilteringResolver.Verify.ValidOctets
import FilteringResolver.Verify.Server

/-!
# The statistics of the server

The counters of `run_server` are derived from the RCODE of what it is about to send. `answerSource`
says where an answer comes from before there is an answer; the local answers carry the code of their
branch and a relayed one carries its own (`RcodeOf`). So `blocked_count` counts the responses to
blocked names and the relayed replies with NXDOMAIN, and `forwarded_count` the relayed replies with
NOERROR, whether they get out or not (`runServer_counts`). Both count what they are named after
exactly when each pass is taken for what it is (`Pass.TakenRight`).
-/

namespace FilteringResolver

/-! ## Where an answer comes from -/

inductive AnswerSource where
  | filter
  | upstream
  | other
  deriving DecidableEq

/-- The decision on a datagram: the filter blocks the name whose address it asks for, or a reply
of the upstream is accepted for it, or neither. -/
def answerSource (config : ServerConfig) (b : Buffer) (host : Host) (a : Allocs) : AnswerSource :=
  match parseDnsMessage b a with
  | (.success, query, a) =>
    match query.questions with
    | some (question :: _) =>
      if question.qtype ≠ dnsTypeA then .other
      else
        match isDomainBlocked config.filterRoot question.qname a with
        | (true, _) => .filter
        | (false, a) =>
          if (forwardQuery host query config.upstreamServer ⟨none, 0⟩ a).ret = .success then
            .upstream
          else .other
    | _ => .other
  | _ => .other

/-- The datagram asks for the address of a blocked name, and `build_error_response` builds the
NXDOMAIN response to it. -/
def blockedReply (config : ServerConfig) (b : Buffer) (a : Allocs) : Bool :=
  match parseDnsMessage b a with
  | (.success, query, a) =>
    match query.questions with
    | some (question :: _) =>
      if question.qtype ≠ dnsTypeA then false
      else
        match isDomainBlocked config.filterRoot question.qname a with
        | (true, a) => (buildErrorResponse query dnsRcodeNxdomain ⟨none, 0⟩ a).1 = .success
        | (false, _) => false
    | _ => false
  | _ => false

/-- The RCODE of the first datagram that the upstream socket receives for a query of `len`
octets. -/
def Host.replyRcode (host : Host) (len : Nat) : Option UInt16 :=
  match host.firstReceived len with
  | none => none
  | some d => (parseDnsHeader (.ofBytes (recvfrom d dnsUdpMaxSize))).map (·.flags &&& 0x0F)

/-- The RCODEs an answer can have, by its source. -/
inductive RcodeOf (reply : Option UInt16) : AnswerSource → UInt16 → Prop where
  | filter : RcodeOf reply .filter dnsRcodeNxdomain.toUInt16
  | upstream {rcode : UInt16} (relayed : reply = some rcode) : RcodeOf reply .upstream rcode
  | other {rcode : UInt16} (ne_nxdomain : rcode ≠ dnsRcodeNxdomain.toUInt16)
      (ne_noerror : rcode ≠ dnsRcodeNoerror.toUInt16) : RcodeOf reply .other rcode

section

variable {config : ServerConfig} {b : Buffer} {host : Host} {a a' a'' : Allocs} {m : DnsMessage}
  {q : DnsQuestion}

/-- Past the parser, the source is read off the first question. -/
theorem Asked.answerSource_eq (asked : Asked b a m q a') :
    answerSource config b host a =
      if q.qtype ≠ dnsTypeA then .other
      else
        match isDomainBlocked config.filterRoot q.qname a' with
        | (true, _) => .filter
        | (false, a) =>
          if (forwardQuery host m config.upstreamServer ⟨none, 0⟩ a).ret = .success then .upstream
          else .other := by
  obtain ⟨rest, hfirst⟩ := asked.first
  rw [answerSource, asked.parse]
  dsimp only
  rw [hfirst]

theorem Asked.answerSource_otherType (asked : Asked b a m q a') (type : q.qtype ≠ dnsTypeA) :
    answerSource config b host a = .other := by
  rw [asked.answerSource_eq, if_pos type]

theorem Asked.answerSource_blocked (asked : Asked b a m q a') (type : q.qtype = dnsTypeA)
    (verdict : isDomainBlocked config.filterRoot q.qname a' = (true, a'')) :
    answerSource config b host a = .filter := by
  rw [asked.answerSource_eq, if_neg (not_not.2 type), verdict]

/-- A name that is not blocked: the source is the upstream when it has an answer. -/
theorem Asked.answerSource_allowed (asked : Asked b a m q a') (type : q.qtype = dnsTypeA)
    (verdict : isDomainBlocked config.filterRoot q.qname a' = (false, a'')) :
    answerSource config b host a =
      if (forwardQuery host m config.upstreamServer ⟨none, 0⟩ a'').ret = .success then .upstream
      else .other := by
  rw [asked.answerSource_eq, if_neg (not_not.2 type), verdict]

/-- Past the parser, so is whether a blocked name gets its response. -/
theorem Asked.blockedReply_eq (asked : Asked b a m q a') :
    blockedReply config b a =
      if q.qtype ≠ dnsTypeA then false
      else
        match isDomainBlocked config.filterRoot q.qname a' with
        | (true, a) => (buildErrorResponse m dnsRcodeNxdomain ⟨none, 0⟩ a).1 = .success
        | (false, _) => false := by
  obtain ⟨rest, hfirst⟩ := asked.first
  rw [blockedReply, asked.parse]
  dsimp only
  rw [hfirst]

theorem answerSource_unparsed (h : (parseDnsMessage b a).1 ≠ .success) :
    answerSource config b host a = .other := by
  unfold answerSource
  split
  · next hparse => exact absurd (by rw [hparse]) h
  · rfl

theorem answerSource_noQuestion (h : parseDnsMessage b a = (.success, m, a'))
    (zero : m.header.qdcount = 0) : answerSource config b host a = .other := by
  rw [answerSource, h]
  cases parseDnsMessage_parsed h with
  | headerOnly => rfl
  | questions _ nonzero => exact absurd zero nonzero

/-- The source depends on the octets of the datagram only. -/
theorem answerSource_congr {b' : Buffer} (h : b.data = b'.data) :
    answerSource config b host a = answerSource config b' host a := by
  rw [answerSource, answerSource, parseDnsMessage_congr h]

theorem blockedReply_congr {b' : Buffer} (h : b.data = b'.data) :
    blockedReply config b a = blockedReply config b' a := by
  rw [blockedReply, blockedReply, parseDnsMessage_congr h]

theorem blockedReply_source (h : blockedReply config b a = true) :
    answerSource config b host a = .filter := by
  unfold blockedReply at h
  unfold answerSource
  split at h
  · split at h
    · split at h
      · cases h
      · next htype =>
        split at h
        · exact if_neg htype
        · cases h
    · cases h
  · cases h

/-- The response to a blocked name is what `process_dns_query` hands back for it. -/
theorem blockedReply_iff : blockedReply config b a = true ↔ answerSource config b host a = .filter ∧
    (processDnsQuery config b ⟨none, 0⟩ host a).ret = .success := by
  have elsewhere (hsource : answerSource config b host a ≠ .filter) :
      blockedReply config b a = true ↔ answerSource config b host a = .filter ∧
        (processDnsQuery config b ⟨none, 0⟩ host a).ret = .success :=
    iff_of_false (fun h => hsource (blockedReply_source h)) (fun h => hsource h.1)
  have hproc := processDnsQuery_processed config b ⟨none, 0⟩ host a
  generalize processDnsQuery config b ⟨none, 0⟩ host a = r at hproc elsewhere ⊢
  cases hproc with
  | unparsed parse => exact elsewhere (by rw [answerSource_unparsed parse]; nofun)
  | noQuestion parse zero => exact elsewhere (by rw [answerSource_noQuestion parse zero]; nofun)
  | otherType asked type => exact elsewhere (by rw [asked.answerSource_otherType type]; nofun)
  | blocked asked type verdict =>
    rw [asked.answerSource_blocked type verdict, asked.blockedReply_eq, if_neg (not_not.2 type),
      verdict, replyError_ret]
    simp
  | relayed asked type verdict =>
    refine elsewhere ?_
    rw [asked.answerSource_allowed type verdict]
    split <;> nofun
  | unanswered asked type verdict =>
    refine elsewhere ?_
    rw [asked.answerSource_allowed type verdict]
    split <;> nofun

/-- A datagram too short for a header is not parsed. -/
theorem parseDnsMessage_short (h : b.len < dnsHeaderSize) : (parseDnsMessage b a).1 ≠ .success := by
  intro hret
  have hp := parseDnsMessage_parsed (Prod.ext hret rfl)
  exact absurd (parseDnsHeader_length hp.header_eq) (Nat.not_le.2 h)

/-- An answer that is handed back reads back with an RCODE of its source. -/
def QueryResult.Coded (r : QueryResult) (reply : Option UInt16) (source : AnswerSource) : Prop :=
  r.ret = .success → ∃ response header, r.out = ⟨some response, response.length⟩ ∧
    parseDnsHeader (.ofBytes response) = some header ∧ RcodeOf reply source (header.flags &&& 0x0F)

theorem replyError_coded (h : Parsed b m) {rcode : UInt8} (hr : rcode ≤ dnsRcodeRefused)
    {reply : Option UInt16} {source : AnswerSource} (hof : RcodeOf reply source rcode.toUInt16)
    (out : Out) (a : Allocs) (forwarded : Option DnsMessage) (sent : List (SockAddr × Bytes)) :
    (replyError m rcode out a forwarded sent).Coded reply source := by
  intro hret
  obtain ⟨response, hout, -, hheader⟩ := replyError_success h hret
  exact ⟨response, _, hout, hheader, by rwa [errorHeader_rcode _ hr]⟩

theorem replyError_coded_other (h : Parsed b m) {rcode : UInt8} {reply : Option UInt16}
    (hr : rcode ≤ dnsRcodeRefused) (ne_nxdomain : rcode.toUInt16 ≠ dnsRcodeNxdomain.toUInt16)
    (ne_noerror : rcode.toUInt16 ≠ dnsRcodeNoerror.toUInt16) (out : Out) (a : Allocs)
    (forwarded : Option DnsMessage) (sent : List (SockAddr × Bytes)) :
    (replyError m rcode out a forwarded sent).Coded reply .other :=
  replyError_coded h hr (.other ne_nxdomain ne_noerror) out a forwarded sent

variable (config b host a) in
/-- **Every answer has the RCODE of its source**, and what the upstream answers is relayed. -/
theorem processDnsQuery_coded :
    (answerSource config b host a = .upstream →
      (processDnsQuery config b ⟨none, 0⟩ host a).ret = .success) ∧
    (processDnsQuery config b ⟨none, 0⟩ host a).Coded (host.replyRcode b.len)
      (answerSource config b host a) := by
  have hproc := processDnsQuery_processed config b ⟨none, 0⟩ host a
  generalize processDnsQuery config b ⟨none, 0⟩ host a = r at hproc ⊢
  cases hproc with
  | unparsed parse =>
    rw [answerSource_unparsed parse]
    exact ⟨nofun, nofun⟩
  | noQuestion parse zero =>
    rw [answerSource_noQuestion parse zero]
    exact ⟨nofun, replyError_coded_other (parseDnsMessage_parsed parse) dnsRcodeFormerr_le
      (by decide) (by decide) _ _ _ _⟩
  | otherType asked type =>
    rw [asked.answerSource_otherType type]
    exact ⟨nofun, replyError_coded_other (parseDnsMessage_parsed asked.parse) dnsRcodeNotimpl_le
      (by decide) (by decide) _ _ _ _⟩
  | blocked asked type verdict =>
    rw [asked.answerSource_blocked type verdict]
    exact ⟨nofun, replyError_coded (parseDnsMessage_parsed asked.parse) dnsRcodeNxdomain_le .filter
      _ _ _ _⟩
  | unanswered asked type verdict forward ok =>
    rw [asked.answerSource_allowed type verdict, forward, if_neg ok]
    exact ⟨nofun, replyError_coded_other (parseDnsMessage_parsed asked.parse) dnsRcodeServfail_le
      (by decide) (by decide) _ _ _ _⟩
  | relayed asked type verdict forward ok =>
    subst forward
    rw [asked.answerSource_allowed type verdict, if_pos ok]
    refine ⟨fun _ => rfl, fun _ => ?_⟩
    obtain ⟨raw, ip, d, hraw, -, hd, haccept, hout, -⟩ := forwardQuery_success host _ _ _ ok
    obtain ⟨-, header, -, hheader, -, -⟩ := haccept.header
    rw [(parseDnsMessage_parsed asked.parse).raw_eq] at hraw
    cases hraw
    have hlen : (Buffer.ofBytes b.data).len = b.len := b.length_data
    rw [hlen] at hd
    refine ⟨_, header, hout, hheader, .upstream ?_⟩
    rw [Host.replyRcode, hd]
    dsimp only
    rw [hheader]
    rfl

end

/-! ## Counting -/

theorem countResponse_blockedCount {s : ServerState} {response : Buffer} {header : DnsHeader}
    (h : parseDnsHeader response = some header) :
    (countResponse s response).blockedCount =
      if header.flags &&& 0x0F = dnsRcodeNxdomain.toUInt16 then s.blockedCount + 1
      else s.blockedCount := by
  rw [countResponse, h]
  dsimp only
  split
  · rfl
  · split <;> rfl

theorem countResponse_forwardedCount {s : ServerState} {response : Buffer} {header : DnsHeader}
    (h : parseDnsHeader response = some header) :
    (countResponse s response).forwardedCount =
      if header.flags &&& 0x0F = dnsRcodeNoerror.toUInt16 then s.forwardedCount + 1
      else s.forwardedCount := by
  rw [countResponse, h]
  dsimp only
  split
  · next hnx =>
    rw [hnx]
    rfl
  · split <;> rfl

theorem countResponse_queryCount (s : ServerState) (response : Buffer) :
    (countResponse s response).queryCount = s.queryCount := by
  unfold countResponse
  split <;> [rfl; skip]
  dsimp only
  split <;> [rfl; skip]
  split <;> rfl

def SendResult.delivered : SendResult → Bool
  | .error => false
  | .sent _ => true

/-- The pass is for a datagram with room for a header. -/
def Pass.isQuery (p : Pass) : Bool :=
  p.running && match p.recv with
    | .datagram d => dnsHeaderSize ≤ (recvfrom d dnsUdpMaxSize).length
    | _ => false

/-- Where the answer of a pass comes from. -/
def Pass.answerSource (config : ServerConfig) (p : Pass) : AnswerSource :=
  if p.running = false then .other
  else
    match p.recv with
    | .datagram d =>
      FilteringResolver.answerSource config (.ofBytes (recvfrom d dnsUdpMaxSize)) p.host p.allocs
    | _ => .other

/-- The pass is for a blocked name, and a response to it is built. -/
def Pass.blockedReply (config : ServerConfig) (p : Pass) : Bool :=
  p.running && match p.recv with
    | .datagram d =>
      FilteringResolver.blockedReply config (.ofBytes (recvfrom d dnsUdpMaxSize)) p.allocs
    | _ => false

/-- The RCODE of the reply that arrives for the datagram of a pass. -/
def Pass.replyRcode (p : Pass) : Option UInt16 :=
  match p.recv with
  | .datagram d => p.host.replyRcode (recvfrom d dnsUdpMaxSize).length
  | _ => none

/-- What the pass handed to `sendto` came from `source`. -/
def sentFrom (config : ServerConfig) (source : AnswerSource) (e : Pass × PassResult) : Bool :=
  !e.2.sent.isEmpty && e.1.answerSource config = source

/-- The pass answered its datagram, and from `source`: `sendto` took the answer. -/
def answeredFrom (config : ServerConfig) (source : AnswerSource) (e : Pass × PassResult) : Bool :=
  sentFrom config source e && e.1.send.delivered

/-- What `blocked_count` counts. -/
def countedBlocked (config : ServerConfig) (e : Pass × PassResult) : Bool :=
  sentFrom config .filter e ||
    sentFrom config .upstream e && e.1.replyRcode = some dnsRcodeNxdomain.toUInt16

/-- What `forwarded_count` counts. -/
def countedForwarded (config : ServerConfig) (e : Pass × PassResult) : Bool :=
  sentFrom config .upstream e && e.1.replyRcode = some dnsRcodeNoerror.toUInt16

/-- The counters after the passes `run`, from those before. -/
structure Counts (config : ServerConfig) (s : ServerState) (run : List (Pass × PassResult))
    (s' : ServerState) : Prop where
  blocked : s'.blockedCount = s.blockedCount + .ofNat (run.countP (countedBlocked config))
  forwarded : s'.forwardedCount = s.forwardedCount + .ofNat (run.countP (countedForwarded config))
  queries : s'.queryCount = s.queryCount + .ofNat (run.countP fun e => e.1.isQuery)
  total : run.countP (countedBlocked config) + run.countP (countedForwarded config) ≤
    run.countP fun e => e.1.isQuery
  blocks : ∀ e ∈ run, sentFrom config .filter e = e.1.blockedReply config
  relays : ∀ e ∈ run, sentFrom config .upstream e = decide (e.1.answerSource config = .upstream)

theorem Counts.append {config : ServerConfig} {s s' s'' : ServerState}
    {run run' : List (Pass × PassResult)} (h : Counts config s run s')
    (h' : Counts config s' run' s'') : Counts config s (run ++ run') s'' where
  blocked := by rw [h'.blocked, h.blocked, List.countP_append, UInt64.ofNat_add, UInt64.add_assoc]
  forwarded := by
    rw [h'.forwarded, h.forwarded, List.countP_append, UInt64.ofNat_add, UInt64.add_assoc]
  queries := by rw [h'.queries, h.queries, List.countP_append, UInt64.ofNat_add, UInt64.add_assoc]
  total := by
    have := h.total
    have := h'.total
    rw [List.countP_append, List.countP_append, List.countP_append]
    omega
  blocks e he := (List.mem_append.1 he).elim (h.blocks e) (h'.blocks e)
  relays e he := (List.mem_append.1 he).elim (h.relays e) (h'.relays e)

section

variable {config : ServerConfig} {s : ServerState} {p : Pass}

/-- The source of a pass is the source of the octets in its buffer. -/
theorem Pass.answerSource_received {d : Datagram} (hrun : p.running = true)
    (hd : p.recv = .datagram d) : p.answerSource config =
      FilteringResolver.answerSource config (s.queryBuffer.received d) p.host p.allocs := by
  simp only [Pass.answerSource, hrun, hd]
  apply answerSource_congr
  rw [QueryBuffer.data_received, Buffer.data_ofBytes]

/-- A pass that sends nothing and counts no more than a query. -/
theorem Counts.unanswered {r : PassResult} (hsent : r.sent = [])
    (hsource : p.answerSource config ≠ .upstream) (hblocks : p.blockedReply config = false)
    (hblocked : r.state.blockedCount = s.blockedCount)
    (hforwarded : r.state.forwardedCount = s.forwardedCount)
    (hqueries : r.state.queryCount = if p.isQuery then s.queryCount + 1 else s.queryCount) :
    Counts config s [(p, r)] r.state where
  blocked := by simp [hblocked, countedBlocked, sentFrom, hsent]
  forwarded := by simp [hforwarded, countedForwarded, sentFrom, hsent]
  queries := by
    rw [hqueries, List.countP_singleton]
    split
    · rfl
    · exact (UInt64.add_zero _).symm
  total := by simp [countedBlocked, countedForwarded, sentFrom, hsent]
  blocks e he := by
    rw [List.mem_singleton.1 he]
    simp [sentFrom, hsent, hblocks]
  relays e he := by
    rw [List.mem_singleton.1 he]
    simp [sentFrom, hsent, hsource]

/-- A pass that sends an answer with a code of its source, and counts by this code. -/
theorem Counts.answer {r : PassResult} {rcode : UInt16} (hsent : r.sent ≠ [])
    (hof : RcodeOf p.replyRcode (p.answerSource config) rcode)
    (hblocks : p.blockedReply config = decide (p.answerSource config = .filter))
    (hblocked : r.state.blockedCount =
      if rcode = dnsRcodeNxdomain.toUInt16 then s.blockedCount + 1 else s.blockedCount)
    (hforwarded : r.state.forwardedCount =
      if rcode = dnsRcodeNoerror.toUInt16 then s.forwardedCount + 1 else s.forwardedCount)
    (hquery : p.isQuery = true) (hqueries : r.state.queryCount = s.queryCount + 1) :
    Counts config s [(p, r)] r.state := by
  have hanswered : r.sent.isEmpty = false := List.isEmpty_eq_false_iff.2 hsent
  have hne : dnsRcodeNxdomain.toUInt16 ≠ dnsRcodeNoerror.toUInt16 := by decide
  have hcounted : countedBlocked config (p, r) = decide (rcode = dnsRcodeNxdomain.toUInt16) ∧
      countedForwarded config (p, r) = decide (rcode = dnsRcodeNoerror.toUInt16) := by
    simp only [countedBlocked, countedForwarded, sentFrom, hanswered]
    generalize p.answerSource config = source at hof
    cases hof with
    | filter => simp [hne]
    | upstream relayed => simp [relayed]
    | other hnx hno => simp [hnx, hno]
  obtain ⟨hb, hf⟩ := hcounted
  refine ⟨?_, ?_, ?_, ?_, fun e he => ?_, fun e he => ?_⟩
  · rw [hblocked, List.countP_singleton, hb]
    by_cases hnx : rcode = dnsRcodeNxdomain.toUInt16 <;> simp [hnx]
  · rw [hforwarded, List.countP_singleton, hf]
    by_cases hno : rcode = dnsRcodeNoerror.toUInt16 <;> simp [hno]
  · rw [hqueries, List.countP_singleton, if_pos hquery]
    rfl
  · -- a code is counted once
    rw [List.countP_singleton, List.countP_singleton, List.countP_singleton, hb, hf, if_pos hquery]
    by_cases hnx : rcode = dnsRcodeNxdomain.toUInt16
    · simp [hnx, hne]
    · simp only [hnx, decide_false]
      by_cases hno : rcode = dnsRcodeNoerror.toUInt16 <;> simp [hno]
  · rw [List.mem_singleton.1 he, hblocks]
    simp [sentFrom, hanswered]
  · rw [List.mem_singleton.1 he]
    simp [sentFrom, hanswered]

theorem serveDatagram_counts {d : Datagram} (hrun : p.running = true) (hd : p.recv = .datagram d) :
    Counts config s [(p, serveDatagram config s p d)] (serveDatagram config s p d).state := by
  have hdata : (s.queryBuffer.received d).data = (Buffer.ofBytes (recvfrom d dnsUdpMaxSize)).data :=
    by rw [QueryBuffer.data_received, Buffer.data_ofBytes]
  have hsource : p.answerSource config =
      answerSource config (s.queryBuffer.received d) p.host p.allocs :=
    Pass.answerSource_received hrun hd
  have hblocks : p.blockedReply config =
      blockedReply config (s.queryBuffer.received d) p.allocs := by
    simp only [Pass.blockedReply, hrun, hd, Bool.true_and]
    exact blockedReply_congr hdata.symm
  have hreply : p.replyRcode = p.host.replyRcode (s.queryBuffer.received d).len := by
    simp only [Pass.replyRcode, hd]
    rfl
  have hquery : p.isQuery = decide (dnsHeaderSize ≤ (s.queryBuffer.received d).len) := by
    simp only [Pass.isQuery, hrun, hd, Bool.true_and]
    rfl
  have hiff : blockedReply config (s.queryBuffer.received d) p.allocs = true ↔
      answerSource config (s.queryBuffer.received d) p.host p.allocs = .filter ∧
        (processDnsQuery config (s.queryBuffer.received d) ⟨none, 0⟩ p.host p.allocs).ret =
          .success := blockedReply_iff
  obtain ⟨hrelayed, hcoded⟩ :=
    processDnsQuery_coded config (s.queryBuffer.received d) p.host p.allocs
  rw [← hsource] at hrelayed
  rw [← hsource, ← hreply] at hcoded
  rw [← hsource, ← hblocks] at hiff
  unfold serveDatagram
  dsimp only
  split
  · next hshort =>
    have hunparsed := parseDnsMessage_short (a := p.allocs) hshort
    have hother : p.answerSource config = .other := by rw [hsource, answerSource_unparsed hunparsed]
    refine Counts.unanswered rfl ?_ ?_ rfl rfl ?_
    · rw [hother]
      nofun
    · rw [Bool.eq_false_iff, Ne, hiff, hother]
      simp
    · rw [hquery, if_neg (fun h => Nat.not_le.2 hshort (of_decide_eq_true h))]
  next hlong =>
  have hlong : p.isQuery = true := by
    rw [hquery, decide_eq_true_eq]
    exact Nat.le_of_not_lt hlong
  split
  · next response hret hresponse =>
    obtain ⟨reply, header, hout, hheader, hof⟩ := hcoded hret
    rw [hout] at hresponse
    cases hresponse
    rw [hout]
    dsimp only
    rw [List.take_length]
    refine Counts.answer (List.cons_ne_nil _ _) hof ?_ ?_ ?_ hlong ?_
    · rw [Bool.eq_iff_iff, hiff, decide_eq_true_eq]
      exact and_iff_left hret
    · split <;> exact countResponse_blockedCount hheader
    · split <;> exact countResponse_forwardedCount hheader
    · split <;> exact countResponse_queryCount _ _
  · next hno =>
    have hfailed : (processDnsQuery config (s.queryBuffer.received d) ⟨none, 0⟩ p.host
        p.allocs).ret ≠ .success := by
      intro hret
      obtain ⟨reply, header, hout, -, -⟩ := hcoded hret
      exact hno reply hret (by rw [hout])
    refine Counts.unanswered rfl (fun hupstream => hfailed (hrelayed hupstream)) ?_ rfl rfl ?_
    · rw [Bool.eq_false_iff, Ne, hiff]
      exact fun h => hfailed h.2
    · rw [if_pos hlong]

variable (config s p) in
/-- **One pass**: what it adds to the counters. -/
theorem serverPass_counts :
    Counts config s [(p, serverPass config s p)] (serverPass config s p).state := by
  unfold serverPass
  split
  · next hstop =>
    refine Counts.unanswered rfl ?_ ?_ rfl rfl ?_
    · rw [Pass.answerSource, if_pos hstop]
      nofun
    · rw [Pass.blockedReply, hstop, Bool.false_and]
    · rw [Pass.isQuery, hstop, Bool.false_and, if_neg Bool.false_ne_true]
  · next hrun =>
    have hrun : p.running = true := by simpa using hrun
    split
    case h_4 d hd => exact serveDatagram_counts hrun hd
    all_goals
      next hrecv =>
      refine Counts.unanswered rfl ?_ ?_ rfl rfl ?_
      · simp only [Pass.answerSource, hrun, hrecv]
        nofun
      · simp only [Pass.blockedReply, hrecv, Bool.and_false]
      · simp only [Pass.isQuery, hrecv, Bool.and_false, Bool.false_eq_true, if_false]

end

/-! ## Every run -/

/-- **Every run**: the counters after each of its passes. -/
theorem runServer_counts {config : ServerConfig} {s : ServerState} {passes : List Pass}
    {pre post : List (Pass × PassResult)} {e : Pass × PassResult}
    (h : runServer config s passes = pre ++ e :: post) :
    Counts config s (pre ++ [e]) e.2.state := by
  induction passes generalizing s pre with
  | nil => simp [runServer] at h
  | cons p passes ih =>
    rw [runServer] at h
    have hp := serverPass_counts config s p
    cases pre with
    | nil =>
      obtain ⟨rfl, -⟩ := List.cons.inj h
      exact hp
    | cons first pre =>
      obtain ⟨rfl, hrest⟩ := List.cons.inj h
      split at hrest
      · exact hp.append (ih hrest)
      · simp at hrest

/-- The counters say the truth about the passes `run` that led to the state `s`. -/
structure TruthfulCounts (config : ServerConfig) (run : List (Pass × PassResult))
    (s : ServerState) : Prop where
  blocked : s.blockedCount.toNat = run.countP (answeredFrom config .filter)
  forwarded : s.forwardedCount.toNat = run.countP (answeredFrom config .upstream)
  /-- No datagram is counted twice. -/
  once : s.blockedCount.toNat + s.forwardedCount.toNat =
    run.countP fun e => answeredFrom config .filter e || answeredFrom config .upstream e
  total : s.blockedCount.toNat + s.forwardedCount.toNat ≤ s.queryCount.toNat

/-- The counters take the pass for what it is: what they count is answered, and by its source. -/
structure Pass.TakenRight (config : ServerConfig) (p : Pass) : Prop where
  blocked : p.blockedReply config = true → p.send.delivered = true
  relayed : p.answerSource config = .upstream → p.send.delivered = true →
    p.replyRcode = some dnsRcodeNoerror.toUInt16
  lost : p.answerSource config = .upstream → p.send.delivered = false →
    p.replyRcode ≠ some dnsRcodeNoerror.toUInt16 ∧ p.replyRcode ≠ some dnsRcodeNxdomain.toUInt16

theorem Counts.takenRight_iff {config : ServerConfig} {s s' : ServerState}
    {run : List (Pass × PassResult)} (h : Counts config s run s') {e : Pass × PassResult}
    (he : e ∈ run) : e.1.TakenRight config ↔
      countedBlocked config e = answeredFrom config .filter e ∧
        countedForwarded config e = answeredFrom config .upstream e := by
  have hblocks := h.blocks e he
  have hrelays := h.relays e he
  have hdisjoint : e.1.blockedReply config = true → e.1.answerSource config ≠ .upstream := by
    rw [← hblocks]
    intro hsent hsource
    simp [sentFrom, hsource] at hsent
  rw [countedBlocked, countedForwarded, answeredFrom, answeredFrom, hblocks, hrelays]
  constructor
  · rintro ⟨blocked, relayed, lost⟩
    by_cases hsource : e.1.answerSource config = .upstream
    · have hno : e.1.blockedReply config = false := by
        rw [Bool.eq_false_iff]
        exact fun hyes => hdisjoint hyes hsource
      cases hsend : e.1.send.delivered with
      | true =>
        have hne : dnsRcodeNoerror.toUInt16 ≠ dnsRcodeNxdomain.toUInt16 := by decide
        simp [hno, hsource, relayed hsource hsend, hne]
      | false =>
        obtain ⟨hne, hne'⟩ := lost hsource hsend
        simp [hno, hne, hne']
    · cases hyes : e.1.blockedReply config with
      | true => simp [hsource, blocked hyes]
      | false => simp [hsource]
  · rintro ⟨hblocked, hforwarded⟩
    refine ⟨fun hyes => ?_, fun hsource hsend => ?_, fun hsource hsend => ?_⟩
    · simpa [hyes] using hblocked
    · simpa [hsource, hsend] using hforwarded
    · have hno : e.1.blockedReply config = false := by
        rw [Bool.eq_false_iff]
        exact fun hyes => hdisjoint hyes hsource
      simp only [hsource, hsend, hno] at hblocked hforwarded
      exact ⟨by simpa using hforwarded, by simpa using hblocked⟩

/-- Two predicates that hold equally often up to every point of a list agree on its elements. -/
theorem eq_of_countP_prefixes {α : Type*} {p q : α → Bool} {l : List α}
    (h : ∀ pre x post, l = pre ++ x :: post → (pre ++ [x]).countP p = (pre ++ [x]).countP q) {x : α}
    (hx : x ∈ l) : p x = q x := by
  obtain ⟨pre, post, rfl⟩ := List.append_of_mem hx
  have hpre : pre.countP p = pre.countP q := by
    rcases List.eq_nil_or_concat pre with rfl | ⟨init, last, rfl⟩
    · rfl
    · simpa using h init last (x :: post) (by simp)
  have hcount := h pre x post rfl
  rw [List.countP_append, List.countP_append, hpre, List.countP_singleton, List.countP_singleton]
    at hcount
  cases hp : p x <;> cases hq : q x <;> simp [hp, hq] at hcount ⊢

theorem countP_or_of_disjoint {α : Type*} {p q : α → Bool} {l : List α}
    (h : ∀ x ∈ l, p x → q x = false) :
    (l.countP fun x => p x || q x) = l.countP p + l.countP q := by
  induction l with
  | nil => rfl
  | cons x l ih =>
    have hx := h x List.mem_cons_self
    have ih := ih fun y hy => h y (List.mem_cons_of_mem x hy)
    simp only [List.countP_cons, ih]
    cases hp : p x with
    | false =>
      simp
      omega
    | true =>
      simp [hx hp]
      omega

section

variable {config : ServerConfig} {q : QueryBuffer} {s : ServerState}
  {run : List (Pass × PassResult)}

/-- Before the queries exceed the counters, nothing wraps. -/
theorem Counts.toNat (h : Counts config ⟨q, 0, 0, 0, 0⟩ run s)
    (hfew : (run.countP fun e => e.1.isQuery) < UInt64.size) :
    s.blockedCount.toNat = run.countP (countedBlocked config) ∧
      s.forwardedCount.toNat = run.countP (countedForwarded config) ∧
      s.queryCount.toNat = run.countP fun e => e.1.isQuery := by
  have htotal := h.total
  rw [h.blocked, h.forwarded, h.queries, UInt64.zero_add, UInt64.zero_add, UInt64.zero_add]
  refine ⟨UInt64.toNat_ofNat_of_lt' ?_, UInt64.toNat_ofNat_of_lt' ?_,
    UInt64.toNat_ofNat_of_lt' hfew⟩
  · omega
  · omega

/-- From zero counters, passes that are taken right are counted truthfully. -/
theorem Counts.truthful (h : Counts config ⟨q, 0, 0, 0, 0⟩ run s)
    (hfew : (run.countP fun e => e.1.isQuery) < UInt64.size)
    (hright : ∀ e ∈ run, e.1.TakenRight config) : TruthfulCounts config run s := by
  obtain ⟨hblocked, hforwarded, hqueries⟩ := h.toNat hfew
  have hb : run.countP (countedBlocked config) = run.countP (answeredFrom config .filter) :=
    List.countP_congr fun e he => by rw [((h.takenRight_iff he).1 (hright e he)).1]
  have hf : run.countP (countedForwarded config) = run.countP (answeredFrom config .upstream) :=
    List.countP_congr fun e he => by rw [((h.takenRight_iff he).1 (hright e he)).2]
  refine ⟨hblocked.trans hb, hforwarded.trans hf, ?_, ?_⟩
  · rw [hblocked, hforwarded, hb, hf]
    refine (countP_or_of_disjoint fun e _ he => ?_).symm
    have hsource : e.1.answerSource config = .filter := by
      simp only [answeredFrom, sentFrom, Bool.and_eq_true, decide_eq_true_eq] at he
      exact he.1.2
    simp [answeredFrom, sentFrom, hsource]
  · rw [hblocked, hforwarded, hqueries]
    exact h.total

end

/-- **The statistics tell the truth in exactly the runs whose passes are all taken right**, as long
as the counters can hold the number of queries. -/
theorem runServer_statistics_iff (config : ServerConfig) (q : QueryBuffer) (passes : List Pass)
    (hfew : ((runServer config ⟨q, 0, 0, 0, 0⟩ passes).countP fun e => e.1.isQuery) <
      UInt64.size) :
    (∀ pre e post, runServer config ⟨q, 0, 0, 0, 0⟩ passes = pre ++ e :: post →
        TruthfulCounts config (pre ++ [e]) e.2.state) ↔
      ∀ e ∈ runServer config ⟨q, 0, 0, 0, 0⟩ passes, e.1.TakenRight config := by
  have few {pre post : List (Pass × PassResult)} {e : Pass × PassResult}
      (hrun : runServer config ⟨q, 0, 0, 0, 0⟩ passes = pre ++ e :: post) :
      ((pre ++ [e]).countP fun e => e.1.isQuery) < UInt64.size := by
    rw [hrun, List.append_cons, List.countP_append] at hfew
    exact Nat.lt_of_le_of_lt (Nat.le_add_right _ _) hfew
  constructor
  · intro h e he
    have hblocked : countedBlocked config e = answeredFrom config .filter e := by
      refine eq_of_countP_prefixes (fun pre x post hrun => ?_) he
      rw [← ((runServer_counts hrun).toNat (few hrun)).1, (h pre x post hrun).blocked]
    have hforwarded : countedForwarded config e = answeredFrom config .upstream e := by
      refine eq_of_countP_prefixes (fun pre x post hrun => ?_) he
      rw [← ((runServer_counts hrun).toNat (few hrun)).2.1, (h pre x post hrun).forwarded]
    obtain ⟨pre, post, hrun⟩ := List.append_of_mem he
    exact ((runServer_counts hrun).takenRight_iff (by simp)).2 ⟨hblocked, hforwarded⟩
  · intro h pre e post hrun
    refine (runServer_counts hrun).truthful (few hrun) fun x hx => h x ?_
    rw [hrun, List.append_cons]
    exact List.mem_append_left post hx

/-- An upstream that answers with the octets `reply`. -/
def replyingHost (reply : Bytes) : Host :=
  { deafHost with attempts := fun _ => ⟨.sent 19, .datagram ⟨⟨0x08080808, 53⟩, reply⟩⟩ }

/-- A query for the blocked `a`, one for `b` whose reply has NOERROR, and one for `a` that names it
by a pointer to the identifier in the header: there is no response to the last that could be lost,
and one of the three is counted as blocked and one as forwarded. -/
theorem runServer_statistics_mixed :
    let config : ServerConfig := ⟨.ofBuffer [56], buildFilter [(.ofBuffer [97], .ok)]⟩
    let header : Bytes := [1, 97, 0, 0, 0, 1, 0, 0, 0, 0, 0, 0]
    let q : QueryBuffer := ⟨List.replicate 512 0, List.length_replicate⟩
    let host := replyingHost [1, 97, 0x81, 0x80, 0, 1, 0, 0, 0, 0, 0, 0, 1, 98, 0, 0, 1, 0, 1]
    let pass (question : Bytes) (send : SendResult) : Pass :=
      ⟨true, true, .datagram ⟨⟨0x7F000001, 4242⟩, header ++ question⟩, host, .ok, send⟩
    let p₁ := pass [1, 97, 0, 0, 1, 0, 1] (.sent 19)
    let p₂ := pass [1, 98, 0, 0, 1, 0, 1] (.sent 19)
    let p₃ := pass [0xC0, 0, 0, 1, 0, 1] .error
    ∃ e₁ e₂ e₃, runServer config ⟨q, 0, 0, 0, 0⟩ [p₁, p₂, p₃] = [e₁, e₂] ++ e₃ :: [] ∧
      p₃.answerSource config = .filter ∧ TruthfulCounts config ([e₁, e₂] ++ [e₃]) e₃.2.state ∧
      e₃.2.state.queryCount = 3 ∧ e₃.2.state.blockedCount = 1 ∧ e₃.2.state.forwardedCount = 1 := by
  intro config header q host pass p₁ p₂ p₃
  let s : ServerState := ⟨q, 0, 0, 0, 0⟩
  let r₁ := serverPass config s p₁
  let r₂ := serverPass config r₁.state p₂
  let r₃ := serverPass config r₂.state p₃
  have hrun : runServer config s [p₁, p₂, p₃] = [(p₁, r₁), (p₂, r₂)] ++ (p₃, r₃) :: [] := by
    have hgoes₁ : r₁.goesOn = true := by decide
    have hgoes₂ : r₂.goesOn = true := by decide
    rw [runServer, runServer, runServer, if_pos hgoes₁, if_pos hgoes₂, runServer, ite_self]
    rfl
  have hfew : ((runServer config s [p₁, p₂, p₃]).countP fun e => e.1.isQuery) < UInt64.size := by
    rw [hrun]
    decide
  have hright : ∀ e ∈ runServer config s [p₁, p₂, p₃], e.1.TakenRight config := by
    rw [hrun]
    intro e he
    simp only [List.cons_append, List.nil_append, List.mem_cons, List.not_mem_nil, or_false] at he
    obtain rfl | rfl | rfl := he
    · exact ⟨by decide, by decide, by decide⟩
    · exact ⟨by decide, by decide, by decide⟩
    · exact ⟨by decide, by decide, by decide⟩
  exact ⟨_, _, _, hrun, by decide, (runServer_statistics_iff config q _ hfew).2 hright _ _ _ hrun,
    by decide, by decide, by decide⟩

/-- An upstream that answers each query for `b` with NXDOMAIN. -/
def nxdomainHost : Host where
  inetPton _ := some 0x08080808
  inetNtop _ := none
  getaddrinfo _ := none
  socket := true
  setsockopt := true
  attempts _ := ⟨.sent 19, .datagram ⟨⟨0x08080808, 53⟩,
    [0x12, 0x34, 0x81, 0x83, 0, 1, 0, 0, 0, 0, 0, 0, 1, 98, 0, 0, 1, 0, 1]⟩⟩

/-- With nothing blocked, a relayed NXDOMAIN is counted as blocked. -/
theorem runServer_relayed_nxdomain :
    let config : ServerConfig := ⟨.ofBuffer [56], .empty⟩
    let query : Bytes := [0x12, 0x34, 1, 0, 0, 1, 0, 0, 0, 0, 0, 0, 1, 98, 0, 0, 1, 0, 1]
    let q : QueryBuffer := ⟨List.replicate 512 0, List.length_replicate⟩
    let p : Pass := ⟨true, true, .datagram ⟨⟨0x7F000001, 4242⟩, query⟩, nxdomainHost, .ok, .sent 19⟩
    ∃ e, runServer config ⟨q, 0, 0, 0, 0⟩ [p] = [e] ∧ e.2.state.blockedCount = 1 ∧
      e.2.state.forwardedCount = 0 ∧ answeredFrom config .filter e = false ∧
      answeredFrom config .upstream e = true ∧ ¬ TruthfulCounts config [e] e.2.state := by
  intro config query q p
  refine ⟨(p, serverPass config ⟨q, 0, 0, 0, 0⟩ p), ?_, by decide, by decide, by decide, by decide,
    ?_⟩
  · rw [runServer]
    simp [runServer]
  · intro h
    exact absurd h.blocked (by decide)

end FilteringResolver
