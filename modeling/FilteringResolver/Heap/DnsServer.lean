import FilteringResolver.DnsServer
import FilteringResolver.Heap.Filter
import FilteringResolver.Heap.Messages

/-!
# `resolver.c` and `dns_server.c` with their memory

Forwarding, one query and the server, with the socket of each, the address list of `getaddrinfo`
and every block that a query allocates. A server that has not left its loop has no return value
yet.
-/

namespace FilteringResolver.Heap

open Ownership

/-! ## Forwarding -/

/-- The loop over the list that `getaddrinfo` returned; both ways out free the list. -/
def firstInet (host : Host) (list : Nat) : List AddrInfo → Mem (Option CStr)
  | [] => do
    release (.addrinfo, list)
    pure none
  | .inet ip :: rest => do
    use (.addrinfo, list)
    match host.inetNtop ip with
    | some text =>
      release (.addrinfo, list)
      pure (some text)
    | none => firstInet host list rest
  | .other :: rest => do
    use (.addrinfo, list)
    firstInet host list rest

def resolveUpstreamAddress (host : Host) (hostname : CStr) : Mem (Option CStr) :=
  match host.inetPton hostname with
  | some _ => pure (some (.ofBuffer (hostname.bytes.take 15)))
  | none =>
    match host.getaddrinfo hostname with
    | none => pure none
    | some result => do
      let list ← acquire .addrinfo
      firstInet host list result

/-- A UDP socket with a receive timeout, or `-1`. -/
def createUpstreamSocket (socket setsockopt : Bool) : Mem (Option Nat) :=
  if socket = false then pure none
  else do
    let sockfd ← acquire .socket
    if setsockopt = false then
      release (.socket, sockfd)
      pure none
    else pure (some sockfd)

structure ForwardResult where
  ret : Ret
  out : Out
  sent : List (SockAddr × Bytes)

def forwardQuery (host : Host) (query : DnsMessage) (upstream : Option (Ptr CStr)) (out : Out) :
    Mem ForwardResult :=
  match upstream, query.raw with
  | some upstream, some raw =>
    if raw.val.len = 0 then pure ⟨.failure, out, []⟩
    else do
      let hostname ← load upstream
      match ← resolveUpstreamAddress host hostname with
      | none => pure ⟨.failure, out, []⟩
      | some upstreamIp =>
        if host.socket = false then pure ⟨.failure, out, []⟩
        else
          let sockfd ← acquire .socket
          if host.setsockopt = false then
            release (.socket, sockfd)
            pure ⟨.failure, out, []⟩
          else
            match host.inetPton upstreamIp with
            | none =>
              release (.socket, sockfd)
              pure ⟨.failure, out, []⟩
            | some ip =>
              match ← mallocOf () with
              | none =>
                release (.socket, sockfd)
                pure ⟨.failure, out, []⟩
              | some respBuffer =>
                use (.socket, sockfd)
                use respBuffer.block
                let octets ← load raw
                let s := retryLoop host octets upstreamRetries 0 ⟨none, ⟨ip, upstreamPort⟩, []⟩
                match s.received with
                | none =>
                  release respBuffer.block
                  release (.socket, sockfd)
                  pure ⟨.failure, out, s.sent⟩
                | some reply =>
                  if acceptReply octets reply then
                    release (.socket, sockfd)
                    pure ⟨.success,
                      { response := some ⟨respBuffer.addr, reply⟩, respLen := reply.length },
                      s.sent⟩
                  else
                    release respBuffer.block
                    release (.socket, sockfd)
                    pure ⟨.failure, out, s.sent⟩
  | _, _ => pure ⟨.failure, out, []⟩

/-! ## One query -/

/-- `server_config_t` at the address `addr`. -/
structure ServerConfig where
  addr : Nat
  upstreamServer : Option (Ptr CStr)
  localPort : UInt16
  filterFile : Option (Ptr CStr)
  verbose : Bool
  filterRoot : Option FilterNode

/-- What `process_dns_query` returns, the out variables and what was sent upstream. -/
structure QueryResult where
  ret : Ret
  out : Out
  sent : List (SockAddr × Bytes)

/-- `build_error_response`, and `return -1` unless it returns 0; the query is freed either way. -/
def replyError (query : DnsMessage) (rcode : UInt8) (out : Out)
    (sent : List (SockAddr × Bytes)) : Mem QueryResult := do
  let (ret, out) ← buildErrorResponse query rcode out
  if ret ≠ .success then
    let _ ← freeDnsMessage query
    pure ⟨.failure, out, sent⟩
  else
    let _ ← freeDnsMessage query
    pure ⟨.success, out, sent⟩

/-- `is_domain_blocked` of pointers that may be `NULL`. -/
def checkFilter (root : Option FilterNode) (qname : Option (Ptr CStr)) : Mem Bool :=
  match root, qname with
  | some root, some qname => do
    let domain ← load qname
    isDomainBlocked root domain
  | _, _ => pure false

def processDnsQuery (config : ServerConfig) (queryBuffer : Buffer) (out : Out) (host : Host) :
    Mem QueryResult := do
  use (.block, config.addr)
  let (ret, query) ← parseDnsMessage queryBuffer
  if ret ≠ .success then pure ⟨.failure, out, []⟩
  else if query.header.qdcount = 0 then replyError query dnsRcodeFormerr out []
  else
    match query.questions with
    | none => stuck  -- `query.questions[0]` of no array
    | some questions =>
      match ← load questions with
      | [] => stuck
      | question :: _ =>
        if question.qtype ≠ dnsTypeA then replyError query dnsRcodeNotimpl out []
        else
          let blocked ← checkFilter config.filterRoot question.qname
          if blocked then replyError query dnsRcodeNxdomain out []
          else
            let f ← forwardQuery host query config.upstreamServer out
            if f.ret ≠ .success then replyError query dnsRcodeServfail f.out f.sent
            else
              let _ ← freeDnsMessage query
              pure ⟨.success, f.out, f.sent⟩

/-! ## The server -/

/-- What one pass leaves: the state, whether the loop goes on, and the datagrams sent. -/
structure PassResult where
  state : ServerState
  goesOn : Bool
  sent : List (SockAddr × Bytes)

def serveDatagram (config : ServerConfig) (sockfd : Nat) (s : ServerState) (p : Pass)
    (d : Datagram) : Mem PassResult :=
  let query := s.queryBuffer.received d
  let s := { s with queryBuffer := s.queryBuffer.receive d }
  if query.len < dnsHeaderSize then
    pure ⟨{ s with errorCount := s.errorCount + 1 }, true, []⟩
  else do
    let s := { s with queryCount := s.queryCount + 1 }
    let r ← processDnsQuery config query ⟨none, 0⟩ p.host
    match r.ret, r.out.response with
    | .success, some response =>
      let octets ← load response
      let sent := octets.take r.out.respLen
      let s := countResponse s (.ofBytes sent)
      use (.socket, sockfd)
      let s := match p.send with
        | .error => { s with errorCount := s.errorCount + 1 }
        | .sent _ => s
      release response.block
      pure ⟨s, true, [(d.sender, sent)]⟩
    | _, _ =>
      free r.out.response
      pure ⟨{ s with errorCount := s.errorCount + 1 }, true, []⟩

/-- One pass of `while (server_running)`. -/
def serverPass (config : ServerConfig) (sockfd : Nat) (s : ServerState) (p : Pass) :
    Mem PassResult :=
  if p.running = false then pure ⟨s, false, []⟩
  else do
    use (.socket, sockfd)
    match p.recv with
    | .eintr => pure ⟨s, p.runningAfter, []⟩
    | .timeout => pure ⟨s, true, []⟩
    | .error => pure ⟨{ s with errorCount := s.errorCount + 1 }, true, []⟩
    | .datagram d => serveDatagram config sockfd s p d

/-- What `socket`, the two `setsockopt` and `bind` answer when the server starts. -/
structure ServerHost where
  socket : Bool
  reuseaddr : Bool
  rcvtimeo : Bool
  bind : UInt16 → Bool

variable {σ : Type}

def initUdpServer (host : ServerHost) (port : UInt16) : Prog σ Kind (Option Nat) :=
  if host.socket = false then pure none
  else do
    let sockfd ← acquire .socket
    if host.reuseaddr = false then
      release (.socket, sockfd)
      pure none
    else if host.rcvtimeo = false then
      release (.socket, sockfd)
      pure none
    else if host.bind port = false then
      release (.socket, sockfd)
      pure none
    else pure (some sockfd)

/-- Whether the socket is open before the first system call of `init_udp_server` and after each of
them: `socket`, twice `setsockopt`, `bind`, and `close` behind one of these that failed. -/
def ServerHost.opening (host : ServerHost) (port : UInt16) : List Bool :=
  false ::
    if host.socket = false then [false]
    else true ::
      if host.reuseaddr = false then [true, false]
      else true ::
        if host.rcvtimeo = false then [true, false]
        else true :: if host.bind port = false then [true, false] else [true]

/-- `init_udp_server` cut off where its socket is open or where it is not. -/
def initUdpServerCut (isOpen : Bool) : Prog σ Kind (Option Nat) :=
  if isOpen then do
    let sockfd ← acquire .socket
    pure (some sockfd)
  else pure none

/-- The passes of the loop, each with the allocations it meets, and whether the loop has ended. -/
def serverLoop (config : ServerConfig) (sockfd : Nat) : ServerState → List Pass →
    Prog σ Kind (List PassResult × Bool)
  | _, [] => pure ([], false)
  | s, p :: passes => do
    let r ← within p.allocs (serverPass config sockfd s p)
    if r.goesOn then
      let (results, ended) ← serverLoop config sockfd r.state passes
      pure (r :: results, ended)
    else pure ([r], true)

def errSuccess : Nat := 0
def errInvalidArgs : Nat := 1
def errSocketCreate : Nat := 2
def errFilterFile : Nat := 4
def errMemory : Nat := 7

/-- What `run_server` returns, if it does, and the passes it made. -/
structure ServerRun where
  ret : Option Nat
  passes : List PassResult

def runServer (config : Option ServerConfig) (host : ServerHost) (queryBuffer : QueryBuffer)
    (passes : List Pass) : Prog σ Kind ServerRun :=
  match config with
  | none => pure ⟨some errInvalidArgs, []⟩
  | some config => do
    use (.block, config.addr)
    match ← initUdpServer host config.localPort with
    | none => pure ⟨some errSocketCreate, []⟩
    | some sockfd =>
      let (results, ended) ← serverLoop config sockfd ⟨queryBuffer, 0, 0, 0, 0⟩ passes
      if ended then
        release (.socket, sockfd)
        pure ⟨some errSuccess, results⟩
      else pure ⟨none, results⟩

end FilteringResolver.Heap
