import FilteringResolver.Lib.Inet
import FilteringResolver.Verify.Forward
import FilteringResolver.Verify.Query

/-!
# The upstream's address

`resolve_upstream_address` hands its result on as text, in a buffer of sixteen octets, and
`forward_query` reads the text again. With an `inet_pton` that reads short texts only and an
`inet_ntop` whose texts it reads back (`Host.Inet`), nothing is lost on the way: the address is
the one the command line names, or the first one the name has (`upstreamIp_eq`). With it all that
a call of `forward_query` sends is known (`forwardQuery_traffic`).
-/

namespace FilteringResolver

/-- What the C library's address functions are known for: a dotted address has fifteen characters
at most, and every address has a text that is read back as this address. -/
structure Host.Inet (host : Host) : Prop where
  short : ∀ {text ip}, host.inetPton text = some ip → text.bytes.length ≤ 15
  prints : ∀ ip, ∃ text, host.inetNtop ip = some text ∧ host.inetPton text = some ip

/-- A host with the address functions on dotted texts. -/
def Host.withInet (host : Host) : Host :=
  { host with
    inetPton := fun text => Inet.pton text.bytes
    inetNtop := fun ip => some ⟨Inet.ntop ip, Inet.zero_not_mem_ntop ip⟩ }

theorem Host.inet_withInet (host : Host) : host.withInet.Inet where
  short h := Inet.length_le_of_pton h
  prints ip := ⟨_, rfl, Inet.pton_ntop ip⟩

/-- The IPv4 address of an entry. -/
def AddrInfo.ip? : AddrInfo → Option UInt32
  | .inet ip => some ip
  | .other => none

/-- The address that an upstream's name means: the one it spells, or else the first IPv4 address
that the name has. -/
def Host.serverAddress (host : Host) (upstream : CStr) : Option UInt32 :=
  match host.inetPton upstream with
  | some ip => some ip
  | none => (host.getaddrinfo upstream).bind (List.findSome? AddrInfo.ip?)

/-! ## Through the text and back -/

section

variable {host : Host} (hinet : host.Inet)
include hinet

/-- The first address of the list prints, and its text is read back. -/
theorem Host.Inet.firstInet (infos : List AddrInfo) :
    (firstInet host infos).bind host.inetPton = infos.findSome? AddrInfo.ip? ∧
      (FilteringResolver.firstInet host infos = none ↔ infos.findSome? AddrInfo.ip? = none) := by
  induction infos with
  | nil => exact ⟨rfl, iff_of_true rfl rfl⟩
  | cons info infos ih =>
    cases info with
    | other => exact ih
    | inet ip =>
      obtain ⟨text, htext, hread⟩ := hinet.prints ip
      rw [FilteringResolver.firstInet, htext]
      exact ⟨hread, by simp [AddrInfo.ip?]⟩

/-- A dotted address fits the buffer it is copied to. -/
theorem Host.Inet.copy {text : CStr} {ip : UInt32} (h : host.inetPton text = some ip) :
    CStr.ofBuffer (text.bytes.take 15) = text := by
  apply CStr.ext_bytes
  rw [List.take_of_length_le (hinet.short h)]
  exact CStr.ofBuffer_of_nul_free text.nul_free

/-- **The address that a call comes to is the one that was meant.** -/
theorem Host.Inet.upstreamIp_eq (upstream : CStr) :
    host.upstreamIp upstream =
      if host.socket = false ∨ host.setsockopt = false then none
      else host.serverAddress upstream := by
  unfold Host.upstreamIp resolveUpstreamAddress Host.serverAddress
  cases hip : host.inetPton upstream with
  | some ip =>
    dsimp only
    rw [hinet.copy hip, hip]
  | none =>
    cases hinfos : host.getaddrinfo upstream with
    | none => exact (ite_self none).symm
    | some infos =>
      obtain ⟨hread, -⟩ := hinet.firstInet infos
      dsimp only [Option.bind_some]
      rw [← hread]
      cases FilteringResolver.firstInet host infos with
      | none => exact (ite_self none).symm
      | some text => rfl

end

/-! ## All that a call sends -/

/-- The number of passes that a loop of `n` passes from `attempt` on makes: it stops after the
first one that receives a datagram. -/
def Host.passesFrom (host : Host) (len attempt n : Nat) : Nat :=
  min n ((List.range' attempt n).findIdx (fun k => (host.delivered len k).isSome) + 1)

theorem Host.passesFrom_delivered {host : Host} {len attempt : Nat} (n : Nat) {d : Datagram}
    (h : host.delivered len attempt = some d) : host.passesFrom len attempt (n + 1) = 1 := by
  simp [passesFrom, List.range'_succ, List.findIdx_cons, h]

theorem Host.passesFrom_retry {host : Host} {len attempt : Nat} (n : Nat)
    (h : host.delivered len attempt = none) :
    host.passesFrom len attempt (n + 1) = host.passesFrom len (attempt + 1) n + 1 := by
  simp only [passesFrom, List.range'_succ, List.findIdx_cons, h, Option.isSome_none, cond_false]
  exact Nat.add_min_add_right ..

/-- Every pass of the loop sends one copy of the query. -/
theorem retryLoop_sent (host : Host) (raw : Buffer) (n attempt : Nat) (s : RetryState) :
    (retryLoop host raw n attempt s).sent =
      s.sent ++ List.replicate (host.passesFrom raw.len attempt n) (s.upstreamAddr, raw.data) := by
  induction n generalizing attempt s with
  | zero => simp [retryLoop, Host.passesFrom]
  | succ n ih =>
    have retry (h : host.delivered raw.len attempt = none) :
        (retryLoop host raw n (attempt + 1)
          { s with sent := s.sent ++ [(s.upstreamAddr, raw.data)] }).sent =
        s.sent ++ List.replicate (host.passesFrom raw.len attempt (n + 1))
          (s.upstreamAddr, raw.data) := by
      rw [ih, Host.passesFrom_retry n h, List.replicate_succ, List.append_assoc,
        List.singleton_append]
    rw [retryLoop]
    dsimp only
    split
    · next hsend => exact retry (by rw [Host.delivered, hsend])
    · next sentLen hsend =>
      split
      · next hlen =>
        apply retry
        rw [Host.delivered, hsend]
        cases (host.attempts attempt).recv with
        | error => rfl
        | datagram d => exact if_neg hlen
      · next hlen =>
        split
        · next hrecv => exact retry (by rw [Host.delivered, hsend, hrecv])
        · next d hrecv =>
          have hd : host.delivered raw.len attempt = some d := by
            rw [Host.delivered, hsend, hrecv]
            exact if_pos (not_not.1 hlen)
          rw [Host.passesFrom_delivered n hd]
          rfl

/-- With octets to send, an address to send them to and a buffer for the reply, a call sends what
its loop sends. -/
theorem forwardQuery_sent_loop (host : Host) {query : DnsMessage} (upstream : CStr) (out : Out)
    (a : Allocs) {raw : Buffer} (hraw : query.raw = some raw) (hlen : raw.len ≠ 0) {ip : UInt32}
    (hip : host.upstreamIp upstream = some ip) :
    (forwardQuery host query upstream out a).sent =
      if a.head then
        List.replicate (host.passesFrom raw.len 0 upstreamRetries) (⟨ip, upstreamPort⟩, raw.data)
      else [] := by
  have hsent := retryLoop_sent host raw upstreamRetries 0 ⟨none, ⟨ip, upstreamPort⟩, []⟩
  rw [List.nil_append] at hsent
  unfold Host.upstreamIp at hip
  split at hip <;> [cases hip; skip]
  next text htext =>
  split at hip <;> [cases hip; skip]
  next hsock =>
  simp only [forwardQuery, hraw, hlen, if_false, htext, hsock, hip, malloc]
  cases a.head with
  | false => rfl
  | true =>
    dsimp only
    split
    · exact hsent
    · split <;> exact hsent

/-- **What leaves for the upstream**: the query itself, to port 53 of the address that was meant,
once for every pass up to the first one that receives a datagram; and nothing at all without
octets to send, without such an address, without a socket and its timeout, or without the buffer
for the reply. -/
theorem forwardQuery_traffic {host : Host} (hinet : host.Inet) (query : DnsMessage)
    (upstream : CStr) (out : Out) (a : Allocs) :
    (forwardQuery host query upstream out a).sent =
      match query.raw, host.serverAddress upstream with
      | some raw, some ip =>
        if raw.len ≠ 0 ∧ host.socket ∧ host.setsockopt ∧ a.head then
          List.replicate (host.passesFrom raw.len 0 upstreamRetries)
            (⟨ip, upstreamPort⟩, raw.data)
        else []
      | _, _ => [] := by
  have hip := hinet.upstreamIp_eq upstream
  have unsent (h : ∀ raw, query.raw = some raw → raw.len ≠ 0 → host.upstreamIp upstream = none) :
      (forwardQuery host query upstream out a).sent = [] := by
    rw [forwardQuery_unsent host upstream out a h]
  split
  · next raw ip hraw haddr =>
    rw [haddr] at hip
    by_cases hlen : raw.len = 0
    · rw [if_neg fun h => h.1 hlen]
      refine unsent fun raw' hraw' hlen' => ?_
      rw [hraw] at hraw'
      cases hraw'
      exact absurd hlen hlen'
    by_cases hsock : host.socket = false ∨ host.setsockopt = false
    · rw [if_neg fun h => by rcases hsock with hs | hs <;> simp [hs] at h]
      rw [if_pos hsock] at hip
      exact unsent fun _ _ _ => hip
    · rw [if_neg hsock] at hip
      rw [forwardQuery_sent_loop host upstream out a hraw hlen hip]
      rw [not_or, Bool.not_eq_false, Bool.not_eq_false] at hsock
      by_cases ha : a.head = true
      · rw [if_pos ha, if_pos ⟨hlen, hsock.1, hsock.2, ha⟩]
      · rw [if_neg ha, if_neg fun h => ha h.2.2.2]
  · next hnone =>
    refine unsent fun raw hraw _ => ?_
    rw [hip]
    cases haddr : host.serverAddress upstream with
    | none => exact ite_self none
    | some ip => exact absurd haddr (hnone raw ip hraw)

/-- A name with an address of another family before its IPv4 address, and a first pass that
times out: two copies go to the IPv4 address. -/
theorem forwardQuery_traffic_retried :
    let b := Buffer.ofBytes [0x12, 0x34, 1, 0, 0, 1, 0, 0, 0, 0, 0, 0, 1, 98, 0, 0, 1, 0, 1]
    let d : Datagram := ⟨⟨0x01020304, 53⟩, [0x12, 0x34, 0x81, 0x80, 0, 0, 0, 0, 0, 0, 0, 0]⟩
    let host : Host := Host.withInet { deafHost with
      getaddrinfo := fun _ => some [.other, .inet 0x01020304]
      attempts := fun k => if k = 1 then ⟨.sent 19, .datagram d⟩ else ⟨.sent 19, .error⟩ }
    (forwardQuery host (parseDnsMessage b .ok).2.1 (.ofBuffer [98]) ⟨none, 0⟩ .ok).sent =
      List.replicate 2 (⟨0x01020304, 53⟩, b.data) := by
  intro b d host
  rw [forwardQuery_traffic (Host.inet_withInet _)]
  decide

end FilteringResolver
