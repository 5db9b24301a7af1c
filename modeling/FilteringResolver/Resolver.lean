import FilteringResolver.DnsParser

/-!
# `resolver.c`

Forwarding to the upstream server. What the C library, the kernel and the network answer during
one call of `forward_query` is the `Host`; the call's own effects are the two out variables and
the log of what it sends.
-/

namespace FilteringResolver

/-- An IPv4 `struct sockaddr_in`. -/
structure SockAddr where
  ip : UInt32
  port : UInt16
  deriving DecidableEq

/-- A datagram on its way to a socket. -/
structure Datagram where
  sender : SockAddr
  payload : Bytes

/-- The result of `sendto`: an error, or the number of octets it took. -/
inductive SendResult where
  | error
  | sent (n : Nat)

/-- The result of `recvfrom`: an error (timeouts among them), or the datagram it delivers. -/
inductive RecvResult where
  | error
  | datagram (d : Datagram)

/-- What the network answers in one pass of the retry loop. -/
structure Attempt where
  send : SendResult
  recv : RecvResult

/-- An entry of the list `getaddrinfo` returns: an `AF_INET` address or another family. -/
inductive AddrInfo where
  | inet (ip : UInt32)
  | other

structure Host where
  inetPton : CStr → Option UInt32
  inetNtop : UInt32 → Option CStr
  getaddrinfo : CStr → Option (List AddrInfo)
  socket : Bool
  setsockopt : Bool
  attempts : Nat → Attempt

def upstreamPort : UInt16 := 53
def upstreamRetries : Nat := 3

/-- `recvfrom` copies at most `size` octets and drops the rest. -/
def recvfrom (d : Datagram) (size : Nat) : Bytes := d.payload.take size

/-- The first IPv4 address of the list that prints. -/
def firstInet (host : Host) : List AddrInfo → Option CStr
  | [] => none
  | .inet ip :: rest =>
    match host.inetNtop ip with
    | some text => some text
    | none => firstInet host rest
  | .other :: rest => firstInet host rest

def resolveUpstreamAddress (host : Host) (hostname : CStr) : Option CStr :=
  match host.inetPton hostname with
  | some _ => some (.ofBuffer (hostname.bytes.take 15))
  | none =>
    match host.getaddrinfo hostname with
    | none => none
    | some result => firstInet host result

/-- What the retry loop leaves: `recv_len` and `resp_buffer` when a datagram came, the address
variable, and the arguments of every `sendto` so far. -/
structure RetryState where
  received : Option Bytes
  upstreamAddr : SockAddr
  sent : List (SockAddr × Bytes)

/-- `n` more passes of `for (attempt = 0; attempt < UPSTREAM_RETRIES; attempt++)`. -/
def retryLoop (host : Host) (raw : Buffer) : Nat → Nat → RetryState → RetryState
  | 0, _, s => s
  | n + 1, attempt, s =>
    let s := { s with sent := s.sent ++ [(s.upstreamAddr, raw.data)] }
    match (host.attempts attempt).send with
    | .error => retryLoop host raw n (attempt + 1) s
    | .sent sentLen =>
      if sentLen ≠ raw.len then retryLoop host raw n (attempt + 1) s
      else
        match (host.attempts attempt).recv with
        | .error => retryLoop host raw n (attempt + 1) s
        | .datagram d =>
          { s with received := some (recvfrom d dnsUdpMaxSize), upstreamAddr := d.sender }

/-- The checks on the received reply. -/
def acceptReply (query : Buffer) (reply : Bytes) : Bool :=
  if reply.length < dnsHeaderSize then false
  else
    match parseDnsHeader query, parseDnsHeader (.ofBytes reply) with
    | some queryHeader, some respHeader =>
      if queryHeader.id ≠ respHeader.id then false
      else respHeader.flags &&& dnsFlagQR != 0
    | _, _ => false

structure ForwardResult where
  ret : Ret
  out : Out
  sent : List (SockAddr × Bytes)
  allocs : Allocs

def forwardQuery (host : Host) (query : DnsMessage) (upstream : CStr) (out : Out) (a : Allocs) :
    ForwardResult :=
  match query.raw with
  | none => ⟨.failure, out, [], a⟩
  | some raw =>
    if raw.len = 0 then ⟨.failure, out, [], a⟩
    else
      match resolveUpstreamAddress host upstream with
      | none => ⟨.failure, out, [], a⟩
      | some upstreamIp =>
        if host.socket = false ∨ host.setsockopt = false then ⟨.failure, out, [], a⟩
        else
          match host.inetPton upstreamIp with
          | none => ⟨.failure, out, [], a⟩
          | some ip =>
            match malloc a with
            | (false, a) => ⟨.failure, out, [], a⟩
            | (true, a) =>
              let s := retryLoop host raw upstreamRetries 0 ⟨none, ⟨ip, upstreamPort⟩, []⟩
              match s.received with
              | none => ⟨.failure, out, s.sent, a⟩
              | some reply =>
                if acceptReply raw reply then
                  ⟨.success, { response := some reply, respLen := reply.length }, s.sent, a⟩
                else ⟨.failure, out, s.sent, a⟩

end FilteringResolver
