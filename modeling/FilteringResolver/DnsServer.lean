import FilteringResolver.DnsBuilder
import FilteringResolver.Filter
import FilteringResolver.Resolver

/-!
# `dns_server.c`

One query (`processDnsQuery`) and the receive loop (`runServer`). A pass of the loop gets from
outside what `recvfrom` answers, whether a signal has cleared `server_running`, the `Host` that
a forwarded query would meet and the allocations; it sends at most what `sendto` is called with.
-/

namespace FilteringResolver

structure ServerConfig where
  upstreamServer : CStr
  filterRoot : FilterNode

/-- The outcome of `process_dns_query`: what it returns, the out variables, the message it
handed to `forward_query` if it called it, and what was sent upstream. -/
structure QueryResult where
  ret : Ret
  out : Out
  forwarded : Option DnsMessage
  sent : List (SockAddr × Bytes)
  allocs : Allocs

/-- `build_error_response`, and `return -1` unless it returns 0. -/
def replyError (query : DnsMessage) (rcode : UInt8) (out : Out) (a : Allocs)
    (forwarded : Option DnsMessage) (sent : List (SockAddr × Bytes)) : QueryResult :=
  match buildErrorResponse query rcode out a with
  | (.success, out, a) => ⟨.success, out, forwarded, sent, a⟩
  | (_, out, a) => ⟨.failure, out, forwarded, sent, a⟩

def processDnsQuery (config : ServerConfig) (queryBuffer : Buffer) (out : Out) (host : Host)
    (a : Allocs) : QueryResult :=
  match parseDnsMessage queryBuffer a with
  | (.success, query, a) =>
    if query.header.qdcount = 0 then replyError query dnsRcodeFormerr out a none []
    else
      match query.questions with
      | some (question :: _) =>
        if question.qtype ≠ dnsTypeA then replyError query dnsRcodeNotimpl out a none []
        else
          match isDomainBlocked config.filterRoot question.qname a with
          | (true, a) => replyError query dnsRcodeNxdomain out a none []
          | (false, a) =>
            let f := forwardQuery host query config.upstreamServer out a
            if f.ret ≠ .success then
              replyError query dnsRcodeServfail f.out f.allocs (some query) f.sent
            else ⟨.success, f.out, some query, f.sent, f.allocs⟩
      | _ => ⟨.undefined, out, none, [], a⟩  -- `query.questions[0]` of no array
  | (_, _, a) => ⟨.failure, out, none, [], a⟩

/-! ## The receive loop -/

/-- `uint8_t query_buffer[DNS_UDP_MAX_SIZE]`, which keeps its octets from pass to pass. -/
structure QueryBuffer where
  bytes : Bytes
  length_eq : bytes.length = dnsUdpMaxSize

/-- What `recvfrom` on the server socket answers: interrupted, no datagram in time, another
error, or a datagram. -/
inductive ServerRecv where
  | eintr
  | timeout
  | error
  | datagram (d : Datagram)

/-- What one pass of the loop meets. `running` and `runningAfter` are the values of
`server_running` at the loop test and after an interrupted `recvfrom`. -/
structure Pass where
  running : Bool
  runningAfter : Bool
  recv : ServerRecv
  host : Host
  allocs : Allocs
  send : SendResult

/-- What goes from pass to pass; the counters are `unsigned long`s of 64 bits. -/
structure ServerState where
  queryBuffer : QueryBuffer
  queryCount : UInt64
  blockedCount : UInt64
  forwardedCount : UInt64
  errorCount : UInt64

/-- The buffer after a datagram was received into it. -/
def QueryBuffer.receive (q : QueryBuffer) (d : Datagram) : QueryBuffer where
  bytes := recvfrom d dnsUdpMaxSize ++ q.bytes.drop (recvfrom d dnsUdpMaxSize).length
  length_eq := by
    have := q.length_eq
    simp only [recvfrom, List.length_append, List.length_drop, List.length_take] at *
    omega

/-- The first `recv_len` octets of the buffer that received `d`. -/
def QueryBuffer.received (q : QueryBuffer) (d : Datagram) : Buffer where
  bytes := (q.receive d).bytes
  len := (recvfrom d dnsUdpMaxSize).length
  len_le := by simp [QueryBuffer.receive]

/-- The counters after a response, by the RCODE of its header. -/
def countResponse (s : ServerState) (response : Buffer) : ServerState :=
  match parseDnsHeader response with
  | none => s
  | some respHeader =>
    let rcode := respHeader.flags &&& 0x0F
    if rcode = dnsRcodeNxdomain.toUInt16 then { s with blockedCount := s.blockedCount + 1 }
    else if rcode = dnsRcodeNoerror.toUInt16 then
      { s with forwardedCount := s.forwardedCount + 1 }
    else s

/-- What one pass leaves: the state, whether the loop goes on, the outcome of the query if one
was processed, and the datagrams sent to the client. -/
structure PassResult where
  state : ServerState
  goesOn : Bool
  query : Option QueryResult
  sent : List (SockAddr × Bytes)

/-- The body of the loop on a datagram. -/
def serveDatagram (config : ServerConfig) (s : ServerState) (p : Pass) (d : Datagram) :
    PassResult :=
  let query := s.queryBuffer.received d
  let s := { s with queryBuffer := s.queryBuffer.receive d }
  if query.len < dnsHeaderSize then
    { state := { s with errorCount := s.errorCount + 1 }, goesOn := true, query := none,
      sent := [] }
  else
    let s := { s with queryCount := s.queryCount + 1 }
    let r := processDnsQuery config query ⟨none, 0⟩ p.host p.allocs
    match r.ret, r.out.response with
    | .success, some response =>
      let sent := response.take r.out.respLen
      let s := countResponse s (.ofBytes sent)
      let s := match p.send with
        | .error => { s with errorCount := s.errorCount + 1 }
        | .sent _ => s
      { state := s, goesOn := true, query := some r, sent := [(d.sender, sent)] }
    | _, _ =>
      { state := { s with errorCount := s.errorCount + 1 }, goesOn := true, query := some r,
        sent := [] }

/-- One pass of `while (server_running)`. -/
def serverPass (config : ServerConfig) (s : ServerState) (p : Pass) : PassResult :=
  if p.running = false then { state := s, goesOn := false, query := none, sent := [] }
  else
    match p.recv with
    | .eintr => { state := s, goesOn := p.runningAfter, query := none, sent := [] }
    | .timeout => { state := s, goesOn := true, query := none, sent := [] }
    | .error =>
      { state := { s with errorCount := s.errorCount + 1 }, goesOn := true, query := none,
        sent := [] }
    | .datagram d => serveDatagram config s p d

/-- A run of the loop: every pass it made, with what the pass left. -/
def runServer (config : ServerConfig) : ServerState → List Pass → List (Pass × PassResult)
  | _, [] => []
  | s, p :: passes =>
    let r := serverPass config s p
    (p, r) :: if r.goesOn then runServer config r.state passes else []

end FilteringResolver
