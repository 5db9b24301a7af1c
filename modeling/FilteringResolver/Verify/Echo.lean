import FilteringResolver.Verify.Counters
import FilteringResolver.Verify.RawData

/-!
# Answers to answers

Nothing on the way from `recvfrom` to the answer looks at the QR bit, so an answer that reaches a
server is processed like a query. `Unanswered` lists the datagrams that get no answer; among the
error responses they are those that count more questions than the one they hold
(`unanswered_errorResponse_iff`), and every other one is answered again (`serverPass_echo`).
-/

namespace FilteringResolver

open Loops

/-! ## Datagrams without an answer -/

/-- Why the datagram `d` gets no answer, with memory to spare. -/
inductive Unanswered (config : ServerConfig) (d : Bytes) (host : Host) : Prop where
  | rejected (parse : (parseDnsMessage (.ofBytes d) .ok).1 ≠ .success)
  | unsized {m : DnsMessage} (parse : parseDnsMessage (.ofBytes d) .ok = (.success, m, .ok))
      (zero : m.header.qdcount = 0) (size : questionSize (.ofBytes d) = none)
  | compressed {m : DnsMessage} {ls : List Bytes} {jumps fin : Nat}
      (parse : parseDnsMessage (.ofBytes d) .ok = (.success, m, .ok))
      (nonzero : m.header.qdcount ≠ 0)
      (decodes : Decodes (.ofBytes d) dnsHeaderSize ls jumps fin) (pointer : jumps ≠ 0)
      (source : answerSource config (.ofBytes d) host .ok ≠ .upstream)

section

variable {config : ServerConfig} {d : Bytes} {host : Host} {m : DnsMessage}

theorem not_unanswered_of_upstream (h : answerSource config (.ofBytes d) host .ok = .upstream) :
    ¬ Unanswered config d host := by
  rintro (parse | ⟨parse, zero, -⟩ | ⟨-, -, -, -, source⟩)
  · rw [answerSource_unparsed parse] at h
    cases h
  · rw [answerSource_noQuestion parse zero] at h
    cases h
  · exact source h

/-- Of a message that is parsed, the builder must find the size of the question section. -/
theorem unanswered_iff_questionSize (parse : parseDnsMessage (.ofBytes d) .ok = (.success, m, .ok))
    (source : answerSource config (.ofBytes d) host .ok ≠ .upstream) :
    Unanswered config d host ↔ questionSize (.ofBytes d) = none := by
  have hp := parseDnsMessage_parsed parse
  constructor
  · rintro (reject | ⟨-, -, size⟩ | ⟨parse', nonzero, decodes, pointer, -⟩)
    · rw [parse] at reject
      exact absurd rfl reject
    · exact size
    · rw [parse] at parse'
      cases parse'
      obtain ⟨_, _, _, _, hq, -, -⟩ := hp.first nonzero
      obtain ⟨-, rfl, -⟩ := hq.decodes.functional decodes
      rw [questionSize_eq hq, if_neg pointer]
  · intro size
    by_cases zero : m.header.qdcount = 0
    · exact .unsized parse zero size
    · obtain ⟨_, jumps, _, _, hq, -, -⟩ := hp.first zero
      refine .compressed parse zero hq.decodes (fun hj => ?_) source
      rw [questionSize_eq hq, if_pos hj] at size
      cases size

/-- An error response is built exactly for the answered datagrams. -/
theorem replyError_answers (parse : parseDnsMessage (.ofBytes d) .ok = (.success, m, .ok))
    (source : answerSource config (.ofBytes d) host .ok ≠ .upstream) {rcode : UInt8}
    (hr : rcode ≤ dnsRcodeRefused) (out : Out) (forwarded : Option DnsMessage)
    (sent : List (SockAddr × Bytes)) :
    (replyError m rcode out .ok forwarded sent).ret = .success ↔ ¬ Unanswered config d host := by
  have hraw := (parseDnsMessage_parsed parse).raw_eq
  rw [Buffer.data_ofBytes] at hraw
  rw [replyError_ret_iff hraw hr, unanswered_iff_questionSize parse source]

variable (config d host) in
/-- **Every datagram is answered or unanswered**, with memory to spare. -/
theorem processDnsQuery_success_iff :
    (processDnsQuery config (.ofBytes d) ⟨none, 0⟩ host .ok).ret = .success ↔
      ¬ Unanswered config d host := by
  have hproc := processDnsQuery_processed config (.ofBytes d) ⟨none, 0⟩ host .ok
  generalize processDnsQuery config (.ofBytes d) ⟨none, 0⟩ host .ok = r at hproc
  cases hproc with
  | unparsed parse => exact iff_of_false nofun (not_not.2 (.rejected parse))
  | noQuestion parse zero =>
    have source : answerSource config (.ofBytes d) host .ok = .other :=
      answerSource_noQuestion parse zero
    have parse' := parse
    obtain rfl := parseDnsMessage_ok parse'
    exact replyError_answers parse (by rw [source]; nofun) dnsRcodeFormerr_le _ _ _
  | otherType asked type =>
    have source : answerSource config (.ofBytes d) host .ok = .other :=
      asked.answerSource_otherType type
    have parse := asked.parse
    obtain rfl := parseDnsMessage_ok parse
    exact replyError_answers parse (by rw [source]; nofun) dnsRcodeNotimpl_le _ _ _
  | blocked asked type verdict =>
    have source : answerSource config (.ofBytes d) host .ok = .filter :=
      asked.answerSource_blocked type verdict
    have parse := asked.parse
    obtain rfl := parseDnsMessage_ok parse
    obtain rfl := isDomainBlocked_ok verdict
    exact replyError_answers parse (by rw [source]; nofun) dnsRcodeNxdomain_le _ _ _
  | unanswered asked type verdict forward ok =>
    have source : answerSource config (.ofBytes d) host .ok = .other := by
      rw [asked.answerSource_allowed type verdict, forward, if_neg ok]
    have parse := asked.parse
    obtain rfl := parseDnsMessage_ok parse
    obtain rfl := isDomainBlocked_ok verdict
    rw [forwardQuery_ok forward]
    exact replyError_answers parse (by rw [source]; nofun) dnsRcodeServfail_le _ _ _
  | relayed asked type verdict forward ok =>
    have source : answerSource config (.ofBytes d) host .ok = .upstream := by
      rw [asked.answerSource_allowed type verdict, forward, if_pos ok]
    exact iff_of_true rfl (not_unanswered_of_upstream source)

end

/-! ## Error responses -/

/-- The walk over the QNAME reads the octets up to its end and no others. -/
theorem qnameLoop_congr {b b' : Buffer} {p q : Nat} (h : (qnameLoop b).run p = some q)
    (hq : q < b.len) (hq' : q < b'.len) (hget : ∀ i, p ≤ i → i ≤ q → b'.get i = b.get i) :
    (qnameLoop b').run p = some q := by
  induction p using (qnameLoop b).induction with
  | exit p r hstep =>
    rw [Loop.run_exit _ hstep] at h
    subst h
    apply Loop.run_exit
    simp only [qnameLoop, qnameStep] at hstep ⊢
    split at hstep
    · split at hstep <;> cases hstep
    · next hstop =>
      cases hstep
      rw [hget q (Nat.le_refl q) (Nat.le_refl q), if_neg fun hgo => hstop ⟨hq, hgo.2⟩]
  | next p t hstep ih =>
    rw [Loop.run_next _ hstep] at h
    have hle := qnameLoop_ge h
    simp only [qnameLoop, qnameStep] at hstep
    split at hstep <;> [skip; cases hstep]
    next hgo =>
    split at hstep <;> cases hstep
    next hsmall =>
    have hp : b'.get p = b.get p := hget p (Nat.le_refl p) (by omega)
    have hstep' : (qnameLoop b').step p = .inl (p + (b.get p).toNat + 1) := by
      simp only [qnameLoop, qnameStep]
      rw [hp, if_pos ⟨by omega, hgo.2⟩, if_neg hsmall]
    rw [Loop.run_next _ hstep']
    exact ih h fun i hi => hget i (by omega)

/-- The question section that was copied behind a header is found there again. -/
theorem questionSize_copy {raw : Buffer} {size : Nat} (h : questionSize raw = some size)
    {head : Bytes} (hhead : head.length = dnsHeaderSize) :
    questionSize (.ofBytes (head ++ raw.slice dnsHeaderSize size)) = some size := by
  obtain ⟨-, hle⟩ := questionSize_le h
  have hlen : (Buffer.ofBytes (head ++ raw.slice dnsHeaderSize size)).len =
      dnsHeaderSize + size := by
    change (head ++ raw.slice dnsHeaderSize size).length = _
    rw [List.length_append, Buffer.length_slice hle, hhead]
  unfold questionSize at h
  split at h <;> [cases h; skip]
  next q hq =>
  have hge := qnameLoop_ge hq
  split at h <;> [cases h; skip]
  split at h <;> cases h
  have hrun : (qnameLoop (.ofBytes (head ++ raw.slice dnsHeaderSize
      (q + 5 - dnsHeaderSize)))).run dnsHeaderSize = some q := by
    apply qnameLoop_congr hq (by omega) (by omega)
    intro i hi hiq
    obtain ⟨k, rfl⟩ := Nat.exists_eq_add_of_le hi
    have hcopy := get_append_slice (b := raw) head (i := k) (n := q + 5 - dnsHeaderSize) (by omega)
    rwa [hhead] at hcopy
  rw [questionSize, hrun]
  dsimp only
  rw [if_neg (by omega), if_neg (by omega)]

/-- A message whose question section has a size is answered. -/
theorem not_unanswered_of_size {config : ServerConfig} {d : Bytes} {host : Host} {m : DnsMessage}
    {size : Nat} (parse : parseDnsMessage (.ofBytes d) .ok = (.success, m, .ok))
    (hsize : questionSize (.ofBytes d) = some size) : ¬ Unanswered config d host := by
  by_cases source : answerSource config (.ofBytes d) host .ok = .upstream
  · exact not_unanswered_of_upstream source
  · rw [unanswered_iff_questionSize parse source, hsize]
    nofun

/-- A response that counts two questions or more holds one of them, and is not parsed. -/
theorem errorResponse_rejected {b : Buffer} {ls : List Bytes} {fin : Nat} {header : DnsHeader}
    (hq : QuestionAt b dnsHeaderSize ls 0 fin) (hmany : 2 ≤ header.qdcount.toNat)
    (rcode : UInt8) :
    (parseDnsMessage (.ofBytes (errorResponse b header rcode fin)) .ok).1 ≠ .success := by
  intro hparse
  have hheader := parseDnsHeader_errorResponse header rcode hq
  have hcount := parseQuestions_isSome_iff (questionAt_errorResponse header rcode hq)
    (length_errorResponse hq header rcode) header.qdcount.toNat
  obtain ⟨m', hp⟩ : ∃ m', Parsed (.ofBytes (errorResponse b header rcode fin)) m' :=
    ⟨_, parseDnsMessage_parsed (Prod.ext hparse rfl)⟩
  cases hp with
  | headerOnly parse zero =>
    rw [hheader] at parse
    cases parse
    change header.qdcount = 0 at zero
    rw [zero] at hmany
    exact absurd hmany (by decide)
  | questions parse nonzero row length_eq =>
    rw [hheader] at parse
    cases parse
    have hsome := parseQuestions_complete row
    rw [length_eq] at hsome
    change parseQuestions _ header.qdcount.toNat _ _ = _ at hsome
    have hle := hcount.1 (by rw [hsome]; rfl)
    omega

/-- **An error response is unanswered** exactly when it counts more questions than it holds. -/
theorem unanswered_errorResponse_iff {b : Buffer} {m : DnsMessage} (h : Parsed b m) {rcode : UInt8}
    {out : Out} {a a' : Allocs} {response : Bytes} {n : Nat}
    (hb : buildErrorResponse m rcode out a = (.success, ⟨some response, n⟩, a'))
    (config : ServerConfig) (host : Host) :
    ∃ header, parseDnsHeader (.ofBytes response) = some header ∧
      (Unanswered config response host ↔ 2 ≤ header.qdcount.toNat) := by
  obtain ⟨response', hout, -, hheader⟩ := buildErrorResponse_header h.raw_eq hb
  cases hout
  refine ⟨_, hheader, ?_⟩
  change _ ↔ 2 ≤ m.header.qdcount.toNat
  by_cases hzero : m.header.qdcount = 0
  · obtain ⟨size, hsize, -, hout⟩ := buildErrorResponse_echo h.raw_eq hb
    obtain rfl : response = _ := Option.some.inj (congrArg Out.response hout)
    have parse := (Parsed.headerOnly hheader hzero).parse_ok
    refine iff_of_false (not_unanswered_of_size parse (questionSize_copy hsize rfl)) ?_
    rw [hzero]
    decide
  · obtain ⟨ls, jumps, fin, rest, hq, -, -⟩ := h.first hzero
    obtain ⟨rfl, hout⟩ := buildErrorResponse_success h hq hb
    obtain rfl : response = _ := Option.some.inj (congrArg Out.response hout)
    by_cases hone : m.header.qdcount = 1
    · have parse := (parsed_errorResponse m.header rcode hq hone).parse_ok
      have hsize := questionSize_eq (questionAt_errorResponse m.header rcode hq)
      rw [if_pos rfl] at hsize
      refine iff_of_false (not_unanswered_of_size parse hsize) ?_
      rw [hone]
      decide
    · have hne0 : m.header.qdcount.toNat ≠ 0 := fun h0 => hzero (UInt16.toNat.inj h0)
      have hne1 : m.header.qdcount.toNat ≠ 1 := fun h1 => hone (UInt16.toNat.inj h1)
      have hmany : 2 ≤ m.header.qdcount.toNat := by omega
      exact iff_of_true (.rejected (errorResponse_rejected hq hmany rcode)) hmany

/-! ## A server that gets an answer -/

/-- What a pass sends is what `process_dns_query` handed back for its datagram. -/
theorem serverPass_sent {config : ServerConfig} {s : ServerState} {p : Pass} {x : SockAddr × Bytes}
    (h : x ∈ (serverPass config s p).sent) :
    ∃ d, p.running = true ∧ p.recv = .datagram d ∧ x.1 = d.sender ∧
      (processDnsQuery config (s.queryBuffer.received d) ⟨none, 0⟩ p.host p.allocs).ret =
        .success ∧
      (processDnsQuery config (s.queryBuffer.received d) ⟨none, 0⟩ p.host p.allocs).out =
        ⟨some x.2, x.2.length⟩ := by
  unfold serverPass at h
  split at h <;> [cases h; skip]
  next hrun =>
  split at h <;> [cases h; cases h; cases h; skip]
  next d hd =>
  have hlen : (s.queryBuffer.received d).len ≤ dnsUdpMaxSize := List.length_take_le _ _
  refine ⟨d, by simpa using hrun, hd, ?_⟩
  unfold serveDatagram at h
  dsimp only at h
  split at h <;> [cases h; skip]
  split at h <;> [skip; cases h]
  next response hret hresponse =>
  obtain ⟨reply, hout, -⟩ := processDnsQuery_replyTo hlen hret
  rw [hout] at hresponse
  cases hresponse
  rw [hout] at h
  dsimp only at h
  rw [List.take_length] at h
  obtain rfl := List.mem_singleton.1 h
  exact ⟨rfl, hret, hout⟩

/-- An answer that does not come from the upstream was built as an error response. -/
theorem processDnsQuery_built {config : ServerConfig} {b : Buffer} {host : Host} {a : Allocs}
    (hret : (processDnsQuery config b ⟨none, 0⟩ host a).ret = .success)
    (hsource : answerSource config b host a ≠ .upstream) :
    ∃ m rcode out a₁ a₂, Parsed b m ∧ buildErrorResponse m rcode out a₁ =
      (.success, (processDnsQuery config b ⟨none, 0⟩ host a).out, a₂) := by
  have hproc := processDnsQuery_processed config b ⟨none, 0⟩ host a
  generalize processDnsQuery config b ⟨none, 0⟩ host a = r at hret hproc ⊢
  have built : ∀ {m : DnsMessage} {rcode : UInt8} {out : Out} {a₁ : Allocs}
      {forwarded : Option DnsMessage} {sent : List (SockAddr × Bytes)}, Parsed b m →
      (replyError m rcode out a₁ forwarded sent).ret = .success →
      ∃ m' rcode' out' a₁' a₂, Parsed b m' ∧ buildErrorResponse m' rcode' out' a₁' =
        (.success, (replyError m rcode out a₁ forwarded sent).out, a₂) := by
    intro m rcode out a₁ forwarded sent hp hret
    obtain ⟨a₂, hb⟩ := replyError_built hret
    exact ⟨m, rcode, out, a₁, a₂, hp, hb⟩
  cases hproc with
  | unparsed => cases hret
  | noQuestion parse => exact built (parseDnsMessage_parsed parse) hret
  | otherType asked => exact built (parseDnsMessage_parsed asked.parse) hret
  | blocked asked => exact built (parseDnsMessage_parsed asked.parse) hret
  | unanswered asked => exact built (parseDnsMessage_parsed asked.parse) hret
  | relayed asked type verdict forward ok =>
    rw [asked.answerSource_allowed type verdict, forward, if_pos ok] at hsource
    exact absurd rfl hsource

/-- **A pass is silent** exactly on the datagrams without an answer, with memory to spare. -/
theorem serverPass_silent_iff (config : ServerConfig) (s : ServerState) {p : Pass} {d : Datagram}
    (hrun : p.running = true) (hd : p.recv = .datagram d) (hmem : p.allocs = .ok)
    (hle : d.payload.length ≤ dnsUdpMaxSize) :
    (serverPass config s p).sent = [] ↔ Unanswered config d.payload p.host := by
  have hdata : (s.queryBuffer.received d).data = (Buffer.ofBytes d.payload).data := by
    rw [QueryBuffer.data_received, Buffer.data_ofBytes, recvfrom, List.take_of_length_le hle]
  have hproc := processDnsQuery_congr hdata config ⟨none, 0⟩ p.host p.allocs
  rw [hmem] at hproc
  have hiff := processDnsQuery_success_iff config d.payload p.host
  rw [← hproc] at hiff
  constructor
  · intro hsent
    by_contra hanswered
    have hret := hiff.2 hanswered
    have hlen : (s.queryBuffer.received d).len ≤ dnsUdpMaxSize := List.length_take_le _ _
    obtain ⟨reply, hout, -⟩ := processDnsQuery_replyTo hlen hret
    rw [serverPass, if_neg (by rw [hrun]; nofun), hd] at hsent
    dsimp only at hsent
    unfold serveDatagram at hsent
    rw [hmem] at hsent
    dsimp only at hsent
    split at hsent
    · next hshort =>
      rw [Buffer.len_congr hdata] at hshort
      exact hanswered (.rejected (parseDnsMessage_short hshort))
    · split at hsent
      · cases hsent
      · next hno => exact hno reply hret (by rw [hout])
  · intro hun
    apply List.eq_nil_iff_forall_not_mem.2
    intro x hx
    obtain ⟨d', -, hd', -, hret, -⟩ := serverPass_sent hx
    rw [hd] at hd'
    cases hd'
    rw [hmem] at hret
    exact hiff.1 hret hun

/-- **Answers to answers**: whatever a pass sends, a server that gets it sends one datagram back
at most, and with memory to spare none exactly when it is `Unanswered`; an error response is
answered again unless it counts two questions or more. -/
theorem serverPass_echo {config : ServerConfig} {s : ServerState} {p p' : Pass}
    {client peer : SockAddr} {answer : Bytes} (config' : ServerConfig) (s' : ServerState)
    (h : (client, answer) ∈ (serverPass config s p).sent) (hrun : p'.running = true)
    (hrecv : p'.recv = .datagram ⟨peer, answer⟩) :
    (serverPass config' s' p').sent.length ≤ 1 ∧
      (∀ x ∈ (serverPass config' s' p').sent, x.1 = peer) ∧
      (p'.allocs = .ok →
        ((serverPass config' s' p').sent = [] ↔ Unanswered config' answer p'.host) ∧
        (p.answerSource config ≠ .upstream → ((serverPass config' s' p').sent = [] ↔
          ∃ header, parseDnsHeader (.ofBytes answer) = some header ∧
            2 ≤ header.qdcount.toNat))) := by
  have hreplies := serverPass_replies config' s' p'
  refine ⟨hreplies.at_most_one, fun x hx => ?_, fun hmem => ?_⟩
  · obtain ⟨d', hd', hpeer, -⟩ := hreplies.reply x hx
    rw [hrecv] at hd'
    cases hd'
    exact hpeer
  · obtain ⟨d, hrun₀, hd, -, hret, hout⟩ := serverPass_sent h
    have hle : answer.length ≤ dnsUdpMaxSize := by
      obtain ⟨_, -, -, hreply⟩ := (serverPass_replies config s p).reply _ h
      exact hreply.length_le
    have hsilent := serverPass_silent_iff config' s' hrun hrecv hmem hle
    refine ⟨hsilent, fun hsource => ?_⟩
    rw [Pass.answerSource_received (s := s) hrun₀ hd] at hsource
    obtain ⟨m, rcode, out, a₁, a₂, hp, hbuild⟩ := processDnsQuery_built hret hsource
    rw [hout] at hbuild
    obtain ⟨header, hheader, hiff⟩ := unanswered_errorResponse_iff hp hbuild config' p'.host
    rw [hsilent, hiff, hheader]
    simp

/-- The response that blocks `a`, sent to a server that blocks it as well: it is answered again,
by itself. -/
theorem serverPass_echoes_itself :
    let config : ServerConfig := ⟨.ofBuffer [56], buildFilter [(.ofBuffer [97], .ok)]⟩
    let s : ServerState := ⟨⟨List.replicate 512 0, List.length_replicate⟩, 0, 0, 0, 0⟩
    let query : Bytes := [0x12, 0x34, 1, 0, 0, 1, 0, 0, 0, 0, 0, 0, 1, 97, 0, 0, 1, 0, 1]
    let answer : Bytes := [0x12, 0x34, 0x81, 3, 0, 1, 0, 0, 0, 0, 0, 0, 1, 97, 0, 0, 1, 0, 1]
    let client : SockAddr := ⟨0x7F000001, 4242⟩
    let peer : SockAddr := ⟨0x7F000001, 5353⟩
    (serverPass config s ⟨true, true, .datagram ⟨client, query⟩, deafHost, .ok, .sent 19⟩).sent =
        [(client, answer)] ∧
      (serverPass config s ⟨true, true, .datagram ⟨peer, answer⟩, deafHost, .ok, .sent 19⟩).sent =
        [(peer, answer)] := by
  decide

/-- The same two passes: the second one is not silent. -/
theorem serverPass_echo_answered :
    let config : ServerConfig := ⟨.ofBuffer [56], buildFilter [(.ofBuffer [97], .ok)]⟩
    let s : ServerState := ⟨⟨List.replicate 512 0, List.length_replicate⟩, 0, 0, 0, 0⟩
    let answer : Bytes := [0x12, 0x34, 0x81, 3, 0, 1, 0, 0, 0, 0, 0, 0, 1, 97, 0, 0, 1, 0, 1]
    let peer : SockAddr := ⟨0x7F000001, 5353⟩
    (serverPass config s ⟨true, true, .datagram ⟨peer, answer⟩, deafHost, .ok, .sent 19⟩).sent ≠
      [] := by
  intro config s answer peer hsent
  let query : Bytes := [0x12, 0x34, 1, 0, 0, 1, 0, 0, 0, 0, 0, 0, 1, 97, 0, 0, 1, 0, 1]
  let client : SockAddr := ⟨0x7F000001, 4242⟩
  let p : Pass := ⟨true, true, .datagram ⟨client, query⟩, deafHost, .ok, .sent 19⟩
  let p' : Pass := ⟨true, true, .datagram ⟨peer, answer⟩, deafHost, .ok, .sent 19⟩
  have h : (client, answer) ∈ (serverPass config s p).sent := by decide
  have hsource : p.answerSource config ≠ .upstream := by decide
  have hrecv : p'.recv = .datagram ⟨peer, answer⟩ := rfl
  obtain ⟨-, -, hiff⟩ := serverPass_echo config s h rfl hrecv
  obtain ⟨header, hheader, htwo⟩ := ((hiff rfl).2 hsource).1 hsent
  have hone : parseDnsHeader (.ofBytes answer) = some ⟨0x1234, 0x8103, 1, 0, 0, 0⟩ := by decide
  rw [hone] at hheader
  cases hheader
  exact absurd htwo (by decide)

end FilteringResolver
