import FilteringResolver.Lib.Machine
import FilteringResolver.Verify.Counters

/-!
# The server as a service

To the world outside, a pass of `run_server` is an event that depends on what the pass meets and on
nothing that an earlier pass has left (`Pass.event`, `serverPass_shows`). So a run is the image of
its passes, from any state and whatever the receive buffer holds (`runServer_stateless`), what it
sends upstream are copies of allowed queries (`runServer_upstream`), and the four counters are
counts of the events so far (`runServer_accounts`).
-/

namespace FilteringResolver

open Machines

/-! ## Events -/

/-- What `process_dns_query` hands to `run_server` to send. -/
def QueryResult.answer (r : QueryResult) : Option Bytes :=
  match r.ret, r.out.response with
  | .success, some response => some (response.take r.out.respLen)
  | _, _ => none

inductive Event where
  | stop
  | idle
  | receiveError
  | malformed
  | unanswered (upstream : List (SockAddr × Bytes))
  | answered (client : SockAddr) (response : Bytes) (upstream : List (SockAddr × Bytes))
      (delivered : Bool)

namespace Event

def goesOn : Event → Bool
  | .stop => false
  | _ => true

/-- What is sent to clients. -/
def sent : Event → List (SockAddr × Bytes)
  | .answered client response _ _ => [(client, response)]
  | _ => []

/-- What is sent to the upstream server. -/
def upstream : Event → List (SockAddr × Bytes)
  | .unanswered upstream => upstream
  | .answered _ _ upstream _ => upstream
  | _ => []

def isQuery : Event → Bool
  | .unanswered _ => true
  | .answered .. => true
  | _ => false

def isUnanswered : Event → Bool
  | .unanswered _ => true
  | _ => false

/-- The answer has a header with this RCODE. -/
def hasRcode (rcode : UInt8) : Event → Bool
  | .answered _ response _ _ =>
    (parseDnsHeader (.ofBytes response)).map (·.flags &&& 0x0F) = some rcode.toUInt16
  | _ => false

/-- `recvfrom` failed, the datagram was too short, there was nothing to answer it with, or
`sendto` failed. -/
def isError : Event → Bool
  | .receiveError => true
  | .malformed => true
  | .unanswered _ => true
  | .answered _ _ _ delivered => !delivered
  | _ => false

end Event

/-- What a pass comes to, from what it meets. -/
def Pass.event (config : ServerConfig) (p : Pass) : Event :=
  if p.running = false then .stop
  else
    match p.recv with
    | .eintr => if p.runningAfter then .idle else .stop
    | .timeout => .idle
    | .error => .receiveError
    | .datagram d =>
      let octets := recvfrom d dnsUdpMaxSize
      if octets.length < dnsHeaderSize then .malformed
      else
        let r := processDnsQuery config (.ofBytes octets) ⟨none, 0⟩ p.host p.allocs
        match r.answer with
        | none => .unanswered r.sent
        | some response => .answered d.sender response r.sent p.send.delivered

/-! ## One pass -/

/-- What the query of a pass sent upstream. -/
def PassResult.upstream (r : PassResult) : List (SockAddr × Bytes) :=
  r.query.elim [] QueryResult.sent

/-- The counters of `s'` are those of `s` after the event `e`. -/
structure Tallies (s : ServerState) (e : Event) (s' : ServerState) : Prop where
  queries : s'.queryCount = if e.isQuery then s.queryCount + 1 else s.queryCount
  blocked : s'.blockedCount =
    if e.hasRcode dnsRcodeNxdomain then s.blockedCount + 1 else s.blockedCount
  forwarded : s'.forwardedCount =
    if e.hasRcode dnsRcodeNoerror then s.forwardedCount + 1 else s.forwardedCount
  errors : s'.errorCount = if e.isError then s.errorCount + 1 else s.errorCount

/-- A pass that left `r` in the state `s` was the event `e`. -/
structure Shows (s : ServerState) (r : PassResult) (e : Event) : Prop where
  goesOn : r.goesOn = e.goesOn
  sent : r.sent = e.sent
  upstream : r.upstream = e.upstream
  tallies : Tallies s e r.state

theorem countResponse_errorCount (s : ServerState) (response : Buffer) :
    (countResponse s response).errorCount = s.errorCount := by
  unfold countResponse
  split <;> [rfl; skip]
  dsimp only
  split <;> [rfl; skip]
  split <;> rfl

theorem countResponse_noHeader {s : ServerState} {response : Buffer}
    (h : parseDnsHeader response = none) : countResponse s response = s := by
  rw [countResponse, h]

/-- The response is counted by its RCODE. -/
theorem countResponse_tallies (s : ServerState) (client : SockAddr) (response : Bytes)
    (upstream : List (SockAddr × Bytes)) :
    let s' := countResponse { s with queryCount := s.queryCount + 1 } (.ofBytes response)
    Tallies s (.answered client response upstream true) s' := by
  cases hheader : parseDnsHeader (.ofBytes response) with
  | none =>
    rw [countResponse_noHeader hheader]
    constructor <;> simp [Event.isQuery, Event.hasRcode, Event.isError, hheader]
  | some header =>
    constructor
    · exact countResponse_queryCount _ _
    · rw [countResponse_blockedCount hheader]
      simp [Event.hasRcode, hheader]
    · rw [countResponse_forwardedCount hheader]
      simp [Event.hasRcode, hheader]
    · exact countResponse_errorCount _ _

theorem serveDatagram_shows (config : ServerConfig) (s : ServerState) {p : Pass} {d : Datagram}
    (hrun : ¬p.running = false) (hd : p.recv = .datagram d) :
    Shows s (serveDatagram config s p d) (p.event config) := by
  have hquery : processDnsQuery config (s.queryBuffer.received d) ⟨none, 0⟩ p.host p.allocs =
      processDnsQuery config (.ofBytes (recvfrom d dnsUdpMaxSize)) ⟨none, 0⟩ p.host p.allocs := by
    apply processDnsQuery_congr
    rw [QueryBuffer.data_received, Buffer.data_ofBytes]
  have hevent := Pass.event.eq_1 config p
  rw [if_neg hrun, hd] at hevent
  dsimp only at hevent
  unfold serveDatagram
  dsimp only
  rw [hquery]
  split
  · next hshort =>
    rw [hevent.trans (if_pos hshort)]
    exact ⟨rfl, rfl, rfl, rfl, rfl, rfl, rfl⟩
  next hlong =>
  have hevent := hevent.trans (if_neg hlong)
  generalize processDnsQuery config (.ofBytes (recvfrom d dnsUdpMaxSize)) ⟨none, 0⟩ p.host
    p.allocs = r at hevent ⊢
  split
  · next response hret hresponse =>
    have hanswer : r.answer = some (response.take r.out.respLen) := by
      rw [QueryResult.answer, hret, hresponse]
    rw [hanswer] at hevent
    rw [hevent]
    obtain ⟨hqueries, hblocked, hforwarded, herrors⟩ := countResponse_tallies
      { s with queryBuffer := s.queryBuffer.receive d } d.sender (response.take r.out.respLen)
      r.sent
    cases p.send with
    | error => exact ⟨rfl, rfl, rfl, hqueries, hblocked, hforwarded, congrArg (· + 1) herrors⟩
    | sent n => exact ⟨rfl, rfl, rfl, hqueries, hblocked, hforwarded, herrors⟩
  · next hno =>
    have hanswer : r.answer = none := by
      unfold QueryResult.answer
      split
      · next response hret hresponse => exact absurd hresponse (hno response hret)
      · rfl
    rw [hanswer] at hevent
    rw [hevent]
    exact ⟨rfl, rfl, rfl, rfl, rfl, rfl, rfl⟩

/-- **One pass is its event**, in every state. -/
theorem serverPass_shows (config : ServerConfig) (s : ServerState) (p : Pass) :
    Shows s (serverPass config s p) (p.event config) := by
  have hevent := Pass.event.eq_1 config p
  unfold serverPass
  split
  · next hstop =>
    rw [hevent.trans (if_pos hstop)]
    exact ⟨rfl, rfl, rfl, rfl, rfl, rfl, rfl⟩
  next hrun =>
  rw [if_neg hrun] at hevent
  cases hrecv : p.recv with
  | datagram d => exact serveDatagram_shows config s hrun hrecv
  | eintr =>
    rw [hrecv] at hevent
    dsimp only at hevent ⊢
    rw [hevent]
    cases p.runningAfter with
    | false => exact ⟨rfl, rfl, rfl, rfl, rfl, rfl, rfl⟩
    | true => exact ⟨rfl, rfl, rfl, rfl, rfl, rfl, rfl⟩
  | timeout =>
    rw [hrecv] at hevent
    rw [hevent]
    exact ⟨rfl, rfl, rfl, rfl, rfl, rfl, rfl⟩
  | error =>
    rw [hrecv] at hevent
    rw [hevent]
    exact ⟨rfl, rfl, rfl, rfl, rfl, rfl, rfl⟩

/-! ## Every run -/

/-- The receive loop. -/
def serverMachine (config : ServerConfig) : Machine Pass ServerState PassResult where
  step := serverPass config
  state := PassResult.state
  goesOn := PassResult.goesOn

theorem runServer_eq_run (config : ServerConfig) (s : ServerState) (passes : List Pass) :
    runServer config s passes = (serverMachine config).run s passes := by
  induction passes generalizing s with
  | nil => rfl
  | cons p passes ih =>
    rw [runServer, Machine.run, ih]
    rfl

/-- A run makes its passes up to the first that stops it, and each sends what its event says, to
its client and upstream. -/
theorem runServer_events (config : ServerConfig) (s : ServerState) (passes : List Pass) :
    (runServer config s passes).map (fun e => (e.1, e.2.sent, e.2.upstream)) =
      (upTo (fun p => (p.event config).goesOn) passes).map fun p =>
        (p, (p.event config).sent, (p.event config).upstream) := by
  rw [runServer_eq_run]
  refine (serverMachine config).map_run (fun r => (r.sent, r.upstream)) (fun s p => ?_)
    (fun s p => (serverPass_shows config s p).goesOn) s passes
  obtain ⟨-, hsent, hupstream, -⟩ := serverPass_shows config s p
  exact Prod.ext hsent hupstream

/-- What a pass of a run sent is what its event says. -/
theorem runServer_sent {config : ServerConfig} {s : ServerState} {passes : List Pass}
    {e : Pass × PassResult} (h : e ∈ runServer config s passes) :
    e.2.sent = (e.1.event config).sent ∧ e.2.upstream = (e.1.event config).upstream := by
  have hmem := List.mem_map_of_mem (f := fun e => (e.1, e.2.sent, e.2.upstream)) h
  rw [runServer_events] at hmem
  obtain ⟨p, -, heq⟩ := List.mem_map.1 hmem
  obtain ⟨rfl, heq⟩ := Prod.mk.inj heq
  exact ⟨(congrArg Prod.fst heq).symm, (congrArg Prod.snd heq).symm⟩

/-- **No memory of earlier passes**: what a run sends, to its clients and upstream, does not depend
on the state it starts from, and each of its passes sends what it would send as the first one. -/
theorem runServer_stateless (config : ServerConfig) (s s' : ServerState) (passes : List Pass) :
    (runServer config s passes).map (fun e => (e.1, e.2.sent, e.2.upstream)) =
        (runServer config s' passes).map (fun e => (e.1, e.2.sent, e.2.upstream)) ∧
      ∀ e ∈ runServer config s passes, ∀ s'', (serverPass config s'' e.1).sent = e.2.sent ∧
        (serverPass config s'' e.1).upstream = e.2.upstream := by
  refine ⟨by rw [runServer_events, runServer_events], fun e he s'' => ?_⟩
  obtain ⟨hsent, hupstream⟩ := runServer_sent he
  have hshows := serverPass_shows config s'' e.1
  exact ⟨hshows.sent.trans hsent.symm, hshows.upstream.trans hupstream.symm⟩

theorem countP_isQuery {config : ServerConfig} {run : List (Pass × PassResult)}
    (h : ∀ e ∈ run, e.2.sent = (e.1.event config).sent) :
    (run.countP fun e => (e.1.event config).isQuery) = (run.flatMap fun e => e.2.sent).length +
      run.countP fun e => (e.1.event config).isUnanswered := by
  induction run with
  | nil => rfl
  | cons e run ih =>
    rw [List.countP_cons, List.countP_cons, List.flatMap_cons, List.length_append,
      h e List.mem_cons_self, ih fun x hx => h x (List.mem_cons_of_mem e hx)]
    cases e.1.event config <;> simp [Event.isQuery, Event.isUnanswered, Event.sent] <;> omega

/-! ## Upstream traffic -/

/-- `x` is a copy of the query `b` to the upstream server, for a name that is not blocked. -/
structure Forwards (config : ServerConfig) (b : Buffer) (host : Host) (a : Allocs)
    (x : SockAddr × Bytes) : Prop where
  octets : x.2 = b.data
  address : host.upstreamIp config.upstreamServer = some x.1.ip
  port : x.1.port = upstreamPort
  asked : ∃ m q a', Asked b a m q a' ∧ q.qtype = dnsTypeA ∧
    (isDomainBlocked config.filterRoot q.qname a').1 = false

@[simp] theorem replyError_sent (m : DnsMessage) (rcode : UInt8) (out : Out) (a : Allocs)
    (forwarded : Option DnsMessage) (sent : List (SockAddr × Bytes)) :
    (replyError m rcode out a forwarded sent).sent = sent := by
  unfold replyError
  split <;> rfl

theorem forwardQuery_forwards {config : ServerConfig} {b : Buffer} {host : Host}
    {a a' a'' : Allocs} {m : DnsMessage} {q : DnsQuestion} (asked : Asked b a m q a')
    (type : q.qtype = dnsTypeA)
    (verdict : isDomainBlocked config.filterRoot q.qname a' = (false, a'')) (out : Out) :
    (forwardQuery host m config.upstreamServer out a'').sent.length ≤ upstreamRetries ∧
      ∀ x ∈ (forwardQuery host m config.upstreamServer out a'').sent,
        Forwards config b host a x := by
  obtain ⟨hle, hsent⟩ : _ ∧ ∀ x ∈ (forwardQuery host m config.upstreamServer out a'').sent, _ :=
    forwardQuery_sent host config.upstreamServer out a''
  refine ⟨hle, fun x hx => ?_⟩
  obtain ⟨raw, ip, hraw, hip, rfl⟩ := hsent x hx
  rw [(parseDnsMessage_parsed asked.parse).raw_eq] at hraw
  cases hraw
  exact ⟨Buffer.data_ofBytes _, hip, rfl, m, q, a', asked, type, by rw [verdict]⟩

/-- **What a query sends upstream**: at most three copies of itself, when its name is allowed. -/
theorem processDnsQuery_forwards (config : ServerConfig) (b : Buffer) (out : Out) (host : Host)
    (a : Allocs) :
    (processDnsQuery config b out host a).sent.length ≤ upstreamRetries ∧
      ∀ x ∈ (processDnsQuery config b out host a).sent, Forwards config b host a x := by
  have hproc := processDnsQuery_processed config b out host a
  generalize processDnsQuery config b out host a = r at hproc
  cases hproc with
  | unparsed => exact ⟨Nat.zero_le _, List.forall_mem_nil _⟩
  | noQuestion =>
    rw [replyError_sent]
    exact ⟨Nat.zero_le _, List.forall_mem_nil _⟩
  | otherType =>
    rw [replyError_sent]
    exact ⟨Nat.zero_le _, List.forall_mem_nil _⟩
  | blocked =>
    rw [replyError_sent]
    exact ⟨Nat.zero_le _, List.forall_mem_nil _⟩
  | relayed asked type verdict forward =>
    subst forward
    exact forwardQuery_forwards asked type verdict out
  | unanswered asked type verdict forward =>
    subst forward
    rw [replyError_sent]
    exact forwardQuery_forwards asked type verdict out

/-- Only a query sends anything upstream. -/
theorem Pass.event_upstream (config : ServerConfig) (p : Pass) :
    (p.event config).upstream = [] ∨ (p.event config).isQuery = true ∧
      ∃ d, p.recv = .datagram d ∧ (p.event config).upstream = (processDnsQuery config
        (.ofBytes (recvfrom d dnsUdpMaxSize)) ⟨none, 0⟩ p.host p.allocs).sent := by
  unfold Pass.event
  split
  · exact .inl rfl
  split
  · split <;> exact .inl rfl
  · exact .inl rfl
  · exact .inl rfl
  · next d hd =>
    dsimp only
    split
    · exact .inl rfl
    · split
      · exact .inr ⟨rfl, d, hd, rfl⟩
      · exact .inr ⟨rfl, d, hd, rfl⟩

theorem length_upstream_le {config : ServerConfig} {run : List (Pass × PassResult)}
    (h : ∀ e ∈ run, e.2.upstream = (e.1.event config).upstream) :
    (run.flatMap fun e => e.2.upstream).length ≤
      upstreamRetries * run.countP fun e => (e.1.event config).isQuery := by
  induction run with
  | nil => exact Nat.zero_le _
  | cons e run ih =>
    have ih := ih fun x hx => h x (List.mem_cons_of_mem e hx)
    rw [List.flatMap_cons, List.length_append, List.countP_cons, h e List.mem_cons_self]
    obtain hnone | ⟨hquery, d, -, hsent⟩ := e.1.event_upstream config
    · rw [hnone, List.length_nil, Nat.zero_add]
      exact Nat.le_trans ih (Nat.mul_le_mul_left _ (Nat.le_add_right _ _))
    · have hle := (processDnsQuery_forwards config (.ofBytes (recvfrom d dnsUdpMaxSize)) ⟨none, 0⟩
        e.1.host e.1.allocs).1
      rw [hsent, hquery, if_pos rfl, Nat.mul_add, Nat.mul_one, Nat.add_comm]
      exact Nat.add_le_add ih hle

/-! ## The statistics -/

/-- The counters `s` account for the events of the passes `run`, up to what they can hold, and the
events for what the passes sent. -/
structure Accounts (config : ServerConfig) (run : List (Pass × PassResult)) (s : ServerState) :
    Prop where
  queries : s.queryCount = .ofNat (run.countP fun e => (e.1.event config).isQuery)
  blocked : s.blockedCount =
    .ofNat (run.countP fun e => (e.1.event config).hasRcode dnsRcodeNxdomain)
  forwarded : s.forwardedCount =
    .ofNat (run.countP fun e => (e.1.event config).hasRcode dnsRcodeNoerror)
  errors : s.errorCount = .ofNat (run.countP fun e => (e.1.event config).isError)
  /-- A query is answered or an error. -/
  answers : (run.countP fun e => (e.1.event config).isQuery) =
    (run.flatMap fun e => e.2.sent).length + run.countP fun e => (e.1.event config).isUnanswered
  /-- A query is worth a bounded number of datagrams. -/
  upstream : (run.flatMap fun e => e.2.upstream).length ≤
    upstreamRetries * run.countP fun e => (e.1.event config).isQuery

/-- Counting up from zero, a counter holds the count as far as it can. -/
theorem iterate_add_one (n : Nat) : (· + 1)^[n] (0 : UInt64) = .ofNat n := by
  induction n with
  | zero => rfl
  | succ n ih =>
    rw [Function.iterate_succ_apply', ih, UInt64.ofNat_add]
    rfl

/-- **The counters account for every pass**, at every point of every run, modulo 2^64. -/
theorem runServer_accounts {config : ServerConfig} {q : QueryBuffer} {passes : List Pass}
    {pre post : List (Pass × PassResult)} {e : Pass × PassResult}
    (h : runServer config ⟨q, 0, 0, 0, 0⟩ passes = pre ++ e :: post) :
    Accounts config (pre ++ [e]) e.2.state := by
  have hsent : ∀ x ∈ pre ++ [e], x.2.sent = (x.1.event config).sent ∧
      x.2.upstream = (x.1.event config).upstream := by
    intro x hx
    have hmem : x ∈ runServer config ⟨q, 0, 0, 0, 0⟩ passes := by
      rw [h, List.append_cons]
      exact List.mem_append_left post hx
    exact runServer_sent hmem
  have hrun := (runServer_eq_run config ⟨q, 0, 0, 0, 0⟩ passes).symm.trans h
  have htallies : ∀ s p, Tallies s (p.event config) (serverPass config s p).state :=
    fun s p => (serverPass_shows config s p).tallies
  have hqueries := (serverMachine config).count_run ServerState.queryCount (· + 1)
    (fun s p => (htallies s p).queries) hrun
  have hblocked := (serverMachine config).count_run ServerState.blockedCount (· + 1)
    (fun s p => (htallies s p).blocked) hrun
  have hforwarded := (serverMachine config).count_run ServerState.forwardedCount (· + 1)
    (fun s p => (htallies s p).forwarded) hrun
  have herrors := (serverMachine config).count_run ServerState.errorCount (· + 1)
    (fun s p => (htallies s p).errors) hrun
  rw [iterate_add_one] at hqueries hblocked hforwarded herrors
  exact ⟨hqueries, hblocked, hforwarded, herrors, countP_isQuery fun x hx => (hsent x hx).1,
    length_upstream_le fun x hx => (hsent x hx).2⟩

/-- A failed `recvfrom`, then a query for `b` whose reply from upstream has NXDOMAIN. -/
theorem runServer_accounts_nxdomain :
    let config : ServerConfig := ⟨.ofBuffer [56], .empty⟩
    let query : Bytes := [0x12, 0x34, 1, 0, 0, 1, 0, 0, 0, 0, 0, 0, 1, 98, 0, 0, 1, 0, 1]
    let q : QueryBuffer := ⟨List.replicate 512 0, List.length_replicate⟩
    let lost : Pass := ⟨true, true, .error, nxdomainHost, .ok, .sent 0⟩
    let p : Pass :=
      ⟨true, true, .datagram ⟨⟨0x7F000001, 4242⟩, query⟩, nxdomainHost, .ok, .sent 19⟩
    ∃ e₁ e₂, runServer config ⟨q, 0, 0, 0, 0⟩ [lost, p] = [e₁] ++ e₂ :: [] ∧
      Accounts config ([e₁] ++ [e₂]) e₂.2.state ∧ e₂.2.state.queryCount = 1 ∧
      e₂.2.state.blockedCount = 1 ∧ e₂.2.state.errorCount = 1 := by
  intro config query q lost p
  have hrun : runServer config ⟨q, 0, 0, 0, 0⟩ [lost, p] =
      [(lost, serverPass config ⟨q, 0, 0, 0, 0⟩ lost)] ++
        (p, serverPass config ⟨q, 0, 0, 0, 1⟩ p) :: [] := by
    rw [runServer, runServer]
    simp only [runServer, ite_self]
    rfl
  exact ⟨_, _, hrun, runServer_accounts hrun, by decide, by decide, by decide⟩

end FilteringResolver
