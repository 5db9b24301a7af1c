import FilteringResolver.Verify.FilterFile
import FilteringResolver.Verify.Filtering
import FilteringResolver.Verify.HeapMain
import FilteringResolver.Verify.Service
import FilteringResolver.Verify.Upstream

/-!
# From the command line to the answers

A process that has been started with arguments that ask for something, can read its filter file and
can open its socket serves its passes with the filter of the file (`main_serves`). So whoever asks
such a process for the address of a name gets NXDOMAIN when a line of the file covers the name, and
else what the upstream answers or SERVFAIL (`main_answers`).
-/

namespace FilteringResolver

/-! ## Relaying -/

/-- The reply that is relayed for a query, if the first datagram is one. -/
def Host.relays (host : Host) (upstream : CStr) (query : Bytes) : Option Bytes :=
  match host.answer upstream query.length with
  | none => none
  | some d =>
    let reply := recvfrom d dnsUdpMaxSize
    if acceptReply (.ofBytes query) reply then some reply else none

theorem Host.relays_eq_some {host : Host} {upstream : CStr} {query reply : Bytes} :
    host.relays upstream query = some reply ↔ ∃ ip d, host.upstreamIp upstream = some ip ∧
      host.firstReceived query.length = some d ∧
      acceptReply (.ofBytes query) (recvfrom d dnsUdpMaxSize) = true ∧
      recvfrom d dnsUdpMaxSize = reply := by
  unfold Host.relays Host.answer
  cases host.upstreamIp upstream with
  | none => simp
  | some ip =>
    cases host.firstReceived query.length with
    | none => simp
    | some d =>
      constructor
      · intro h
        obtain ⟨haccept, hreply⟩ := Option.ite_none_right_eq_some.1 h
        exact ⟨ip, d, rfl, rfl, haccept, Option.some.inj hreply⟩
      · rintro ⟨_, _, ⟨⟩, ⟨⟩, haccept, rfl⟩
        exact if_pos haccept

/-- With memory to spare, a parsed query is relayed what `Host.relays` says. -/
theorem forwardQuery_relays {b : Buffer} {m : DnsMessage} (hp : Parsed b m) (host : Host)
    (upstream : CStr) (out : Out) :
    match host.relays upstream b.data with
    | some reply => (forwardQuery host m upstream out .ok).ret = .success ∧
        (forwardQuery host m upstream out .ok).out = ⟨some reply, reply.length⟩
    | none => (forwardQuery host m upstream out .ok).ret ≠ .success := by
  have hlen : (Buffer.ofBytes b.data).len ≠ 0 := by
    have hge := parseDnsHeader_length hp.header_eq
    have hraw : (Buffer.ofBytes b.data).len = b.len := b.length_data
    simp only [dnsHeaderSize] at hge
    omega
  have hsuccess := forwardQuery_success_iff host upstream out hp.raw_eq hlen
  cases hrelays : host.relays upstream b.data with
  | some reply =>
    obtain ⟨ip, d, hip, hd, haccept, hreply⟩ := Host.relays_eq_some.1 hrelays
    have hret := hsuccess.2 ⟨ip, d, hip, hd, haccept⟩
    obtain ⟨raw, ip', d', hraw, -, hd', -, hout, -⟩ :=
      forwardQuery_success host upstream out .ok hret
    rw [hp.raw_eq] at hraw
    cases hraw
    cases hd.symm.trans hd'
    exact ⟨hret, by rw [hout, hreply]⟩
  | none =>
    intro hret
    obtain ⟨ip, d, hip, hd, haccept⟩ := hsuccess.1 hret
    rw [Host.relays_eq_some.2 ⟨ip, d, hip, hd, haccept, rfl⟩] at hrelays
    cases hrelays

/-! ## Asking for a name -/

namespace PlainName

variable (x : PlainName)

/-- An entry of the filter covers the name. -/
def CoveredBy (entries : List (List CStr)) : Prop :=
  ∃ e ∈ entries, e.map (·.bytes) <:+ x.lower

instance (entries : List (List CStr)) : Decidable (x.CoveredBy entries) :=
  inferInstanceAs (Decidable (∃ e ∈ entries, e.map (·.bytes) <:+ x.lower))

/-- The error response to the query for the name. -/
def refusal (header : DnsHeader) (bufLen : Nat) (qclass : UInt16) (rcode : UInt8) : Bytes :=
  buildDnsHeader (errorHeader header rcode) ++ x.question bufLen qclass

/-- What a client that sends `query` is to be answered. -/
def answer (entries : List (List CStr)) (host : Host) (upstream : CStr) (header : DnsHeader)
    (bufLen : Nat) (qclass : UInt16) (query : Bytes) : Bytes :=
  if x.CoveredBy entries then x.refusal header bufLen qclass dnsRcodeNxdomain
  else (host.relays upstream query).getD (x.refusal header bufLen qclass dnsRcodeServfail)

theorem coveredBy_filterOf (domains : List CStr) :
    (isDomainBlocked (filterOf domains) (.ofBuffer (dotted x.labels ++ [0])) .ok).1 = true ↔
      x.CoveredBy (domains.filterMap entryOf) := by
  rw [filterOf, x.blocked_iff, addedDomains_ok]
  constructor
  · rintro ⟨m, hm, hsuffix⟩
    obtain ⟨d, hd, hnormal⟩ := List.mem_filterMap.1 hm
    obtain ⟨hd, hentry⟩ := List.mem_filter.1 hd
    obtain ⟨e, he⟩ := Option.isSome_iff_exists.1 hentry
    obtain ⟨m', hnormal', -, rfl⟩ := entryOf_eq_some.1 he
    cases hnormal.symm.trans hnormal'
    exact ⟨FilteringResolver.labels m, List.mem_filterMap.2 ⟨d, hd, he⟩, hsuffix⟩
  · rintro ⟨e, he, hsuffix⟩
    obtain ⟨d, hd, hentry⟩ := List.mem_filterMap.1 he
    obtain ⟨m, hnormal, -, rfl⟩ := entryOf_eq_some.1 hentry
    refine ⟨m, List.mem_filterMap.2 ⟨d, List.mem_filter.2 ⟨hd, ?_⟩, hnormal⟩, hsuffix⟩
    rw [hentry]
    rfl

variable {x} {header : DnsHeader} {bufLen : Nat} {qclass : UInt16} {trailing : Bytes} {b : Buffer}
  (hone : header.qdcount = 1) (hbuf : labelOctets x.labels < bufLen)
  (hb : b.data = x.query header bufLen qclass trailing)
include hone hbuf hb

/-- **The answer to a query for a name**, with memory to spare. -/
theorem processDnsQuery_answer (upstream : CStr) (domains : List CStr) (host : Host) :
    (processDnsQuery ⟨upstream, filterOf domains⟩ b ⟨none, 0⟩ host .ok).answer =
      some (x.answer (domains.filterMap entryOf) host upstream header bufLen qclass b.data) := by
  have hp := query_parsed hbuf hb hone
  obtain ⟨hq, hof⟩ := query_question hbuf hb
  have hpos : (DnsMessage.ofParts header (some [⟨.ofBuffer (dotted x.labels ++ [0]), dnsTypeA,
      qclass⟩]) b).header.qdcount ≠ 0 := by
    rw [DnsMessage.ofParts, hone]
    decide
  have hrefusal : ∀ rcode, errorResponse b header rcode
      (dnsHeaderSize + labelOctets x.labels + 1) = x.refusal header bufLen qclass rcode :=
    errorResponse_query hbuf hb
  have hverdict := x.coveredBy_filterOf domains
  rcases hv : isDomainBlocked (filterOf domains) (.ofBuffer (dotted x.labels ++ [0])) .ok with
    ⟨_ | _, a⟩
  · rw [hv] at hverdict
    have hfirst : (DnsMessage.ofParts header (some [⟨.ofBuffer (dotted x.labels ++ [0]), dnsTypeA,
        qclass⟩]) b).questions =
        some (questionOf b x.labels (dnsHeaderSize + labelOctets x.labels + 1) :: []) := by
      rw [hof]
      rfl
    have hallowed : (isDomainBlocked (filterOf domains)
        (questionOf b x.labels (dnsHeaderSize + labelOctets x.labels + 1)).qname .ok).1 =
          false := by
      rw [hof, hv]
    rw [processDnsQuery_allowed ⟨upstream, filterOf domains⟩ ⟨none, 0⟩ host hp.parse_ok hpos hfirst
      hq (by rw [hof]) hallowed, answer, if_neg fun h => Bool.false_ne_true (hverdict.2 h)]
    have hrelays := forwardQuery_relays hp host upstream ⟨none, 0⟩
    cases hreply : host.relays upstream b.data with
    | some reply =>
      rw [hreply] at hrelays
      obtain ⟨hret, hout⟩ := hrelays
      dsimp only [QueryResult.answer]
      rw [if_pos hret, hout]
      exact congrArg some List.take_length
    | none =>
      rw [hreply] at hrelays
      dsimp only [QueryResult.answer]
      rw [if_neg hrelays]
      dsimp only
      rw [List.take_length, ← hrefusal]
      rfl
  · obtain rfl := isDomainBlocked_ok hv
    rw [hv] at hverdict
    rw [processDnsQuery_address ⟨upstream, filterOf domains⟩ ⟨none, 0⟩ host hp.parse_ok hpos rfl
      rfl, hv, answer, if_pos (hverdict.1 rfl)]
    dsimp only
    rw [replyError_plain hp hq dnsRcodeNxdomain_le, ← hrefusal]
    dsimp only [QueryResult.answer]
    rw [← length_errorResponse hq, List.take_length]
    rfl

/-- The pass that meets the query. -/
theorem event_query {p : Pass} (hrun : p.running = true) (halloc : p.allocs = .ok)
    {client : SockAddr} (hrecv : p.recv = .datagram ⟨client, b.data⟩)
    (hfit : b.data.length ≤ dnsUdpMaxSize) (upstream : CStr) (domains : List CStr) :
    (p.event ⟨upstream, filterOf domains⟩).sent = [(client,
      x.answer (domains.filterMap entryOf) p.host upstream header bufLen qclass b.data)] := by
  have hp := query_parsed hbuf hb hone
  have hlong : ¬b.data.length < dnsHeaderSize := by
    rw [b.length_data]
    exact Nat.not_lt.2 (parseDnsHeader_length hp.header_eq)
  have hwhole : recvfrom ⟨client, b.data⟩ dnsUdpMaxSize = b.data := recvfrom_of_le hfit
  have hdata : (Buffer.ofBytes b.data).data = b.data := Buffer.data_ofBytes _
  have hanswer := processDnsQuery_answer hone hbuf (hdata.trans hb) upstream domains p.host
  rw [hdata] at hanswer
  have hevent := Pass.event.eq_1 ⟨upstream, filterOf domains⟩ p
  rw [hrun, if_neg (by decide), hrecv] at hevent
  dsimp only at hevent
  rw [hwhole, if_neg hlong, halloc, hanswer] at hevent
  rw [hevent]
  rfl

end PlainName

/-! ## The process -/

namespace Heap

open Getopt Ownership Machines

/-- A process whose arguments ask for `line`, that can read its filter and open its socket. -/
structure Started (env : Process) (argv : List CStr) (line : CommandLine) (file : Bytes) :
    Prop where
  arguments : ∃ opts, (getoptOptions env.toEnvironment).Spells (argv.map (·.bytes)) opts [] ∧
    line.Means env.toEnvironment opts
  readable : env.fopen line.filter = some file
  uninterrupted : env.signal = none
  listens : env.server.listens line.port = true

/-- The filter of a file. -/
def fileFilter (file : Bytes) : FilteringResolver.FilterNode :=
  filterOf ((fileReads file).filterMap lineDomain)

theorem taken_ok (n : Nat) : Taken n .ok .ok := by
  induction n with
  | zero => exact ⟨fun i hi => absurd hi (Nat.not_lt_zero i), rfl⟩
  | succ n ih => exact taken_succ.2 ⟨.ok, ih, rfl, rfl⟩

variable {env : Process} {argv : List CStr} {line : CommandLine} {file : Bytes}

theorem Started.parse (h : Started env argv line file) :
    FilteringResolver.parseArguments env.toEnvironment argv (malloc .ok).2 =
      (0, line.arguments, .ok) := by
  obtain ⟨opts, hspells, hline⟩ := h.arguments
  exact parseArguments_of_means hspells hline (taken_ok 2)

/-- It is configured for the server and the port of its arguments and the filter of the file. -/
theorem Started.configured (h : Started env argv line file)
    {c : FilteringResolver.ServerConfig} {port : UInt16} (hc : Configured env argv .ok c port) :
    c = ⟨line.server, fileFilter file⟩ ∧ port = line.port := by
  obtain ⟨args, a₁, filename, a₂, hparse, hserver, hport, hfilter, hload⟩ := hc.parse
  obtain ⟨upstream, root⟩ := c
  cases h.parse.symm.trans hparse
  cases hserver
  cases hfilter
  rw [h.readable, loadFilterFile_eq] at hload
  cases hload
  exact ⟨rfl, hport.symm⟩

/-- The only outcomes left are those of a server that serves. -/
theorem Started.passes (h : Started env argv line file) {run : ServerRun} {left : Resources}
    (houtcome : Outcome env argv .ok run left) :
    Passes ⟨line.server, fileFilter file⟩ env.queryBuffer env.passes run.passes := by
  cases houtcome with
  | noMemory alloc => cases alloc
  | help pos parse => exact absurd (congrArg Prod.fst (h.parse.symm.trans parse)) (Int.ne_of_lt pos)
  | rejected neg parse =>
    exact absurd (congrArg Prod.fst (h.parse.symm.trans parse)) (Int.ne_of_gt neg)
  | noFilter parse load =>
    cases h.parse.symm.trans parse
    rw [show line.arguments.filterFile.bind env.fopen = some file from h.readable,
      loadFilterFile_eq] at load
    cases load
  | interrupted configured signal | abandoned configured signal =>
    rw [Process.interrupted, h.uninterrupted] at signal
    cases signal
  | unopened configured signal listens =>
    rw [(h.configured configured).2, h.listens] at listens
    cases listens
  | ended configured signal listens passes ended =>
    rwa [(h.configured configured).1] at passes
  | running configured signal listens passes going holds =>
    rwa [(h.configured configured).1] at passes

theorem Passes.sent {c : FilteringResolver.ServerConfig} {q : QueryBuffer} {passes : List Pass}
    {results : List PassResult} (h : Passes c q passes results) :
    results.map (fun r => r.sent) =
      (upTo (fun p => (p.event c).goesOn) passes).map fun p => (p.event c).sent := by
  have hevents := congrArg (List.map fun e => e.2.1) (runServer_events c ⟨q, 0, 0, 0, 0⟩ passes)
  rw [List.map_map, List.map_map] at hevents
  rw [Passes] at h
  refine Eq.trans ?_ hevents
  generalize FilteringResolver.runServer c ⟨q, 0, 0, 0, 0⟩ passes = run at h
  induction h with
  | nil => rfl
  | cons hr _ ih => exact congrArg₂ List.cons hr.sent ih

/-- A pass that met a query for a name has answered it. -/
def Serves (line : CommandLine) (file : Bytes) (p : Pass) (sent : List (SockAddr × Bytes)) :
    Prop :=
  ∀ (x : PlainName) (header : DnsHeader) (bufLen : Nat) (qclass : UInt16) (trailing : Bytes)
    (client : SockAddr),
    let query := x.query header bufLen qclass trailing
    header.qdcount = 1 → labelOctets x.labels < bufLen → query.length ≤ dnsUdpMaxSize →
    p.running = true → p.allocs = .ok → p.recv = .datagram ⟨client, query⟩ →
    sent = [(client, x.answer ((fileReads file).filterMap lineEntry) p.host line.server header
      bufLen qclass query)]

/-- **The resolver**: a process that has been started answers every query for a plain name, in every
pass of its loop, by the lines of its filter file and the replies of its upstream server. -/
theorem main_answers (h : Started env argv line file) (l : Ledger Kind) :
    ∃ run a' l', main env argv .ok l = some ((run, a'), l') ∧
      List.Forall₂ (fun p r => Serves line file p r.sent)
        (upTo (fun p => (p.event ⟨line.server, fileFilter file⟩).goesOn) env.passes)
        run.passes := by
  have hmain : Owning l.live .ok (main env argv) _ := main_owning
  obtain ⟨run, a', l', hrun, left, hlive, houtcome⟩ := hmain.run
  refine ⟨run, a', l', hrun, ?_⟩
  have hsent := (h.passes houtcome).sent
  rw [← List.forall₂_map_right_iff (f := fun r : PassResult => r.sent), hsent,
    List.forall₂_map_right_iff, List.forall₂_same]
  intro p _ x header bufLen qclass trailing client query hone hbuf hfit hrun halloc hrecv
  have hdata : (Buffer.ofBytes query).data = query := Buffer.data_ofBytes query
  rw [← hdata] at hrecv hfit
  rw [fileFilter, PlainName.event_query hone hbuf hdata hrun halloc hrecv hfit, hdata,
    filterMap_lineEntry]

/-- `-s 8 -f f` starts a process where the file `f` holds the line `a`. -/
theorem started_oneLine (passes : List Pass) :
    let env : Process :=
      { permute := true
        root := true
        fopen := fun _ => some [97, 10]
        signal := none
        server := ⟨true, true, true, fun _ => true⟩
        queryBuffer := ⟨List.replicate 512 0, List.length_replicate⟩
        passes := passes }
    Started env ([[45, 115], [56], [45, 102], [102]].map CStr.ofBuffer)
      ⟨.ofBuffer [56], 53, .ofBuffer [102], false⟩ [97, 10] := by
  refine ⟨⟨[.key .server [56], .key .filter [102]], ?_, ?_⟩, rfl, rfl, rfl⟩
  · refine Options.scan_eq_iff.1 ⟨rfl, fun c h => ?_⟩
    simp at h
  · exact
      { server := rfl
        server_ne := by decide
        filter := rfl
        filter_ne := by decide
        ports := fun text htext => absurd htext List.not_mem_nil
        default := fun _ => rfl
        port := nofun
        verbose := by decide
        noHelp := by decide }

/-- Started with `-s 8 -f f` where the file `f` holds the line `a`, and asked for `X.a`. -/
theorem main_answers_subdomain :
    let query : Bytes := [0x12, 0x34, 1, 0, 0, 1, 0, 0, 0, 0, 0, 0, 1, 88, 1, 97, 0, 0, 1, 0, 1]
    let p : Pass := ⟨true, true, .datagram ⟨⟨0x7F000001, 4242⟩, query⟩, deafHost, .ok, .sent 21⟩
    let env : Process :=
      { permute := true
        root := true
        fopen := fun _ => some [97, 10]
        signal := none
        server := ⟨true, true, true, fun _ => true⟩
        queryBuffer := ⟨List.replicate 512 0, List.length_replicate⟩
        passes := [p] }
    let argv := [[45, 115], [56], [45, 102], [102]].map CStr.ofBuffer
    ∃ run a' l', main env argv .ok .empty = some ((run, a'), l') ∧
      run.passes.map (fun r => r.sent) = [[(⟨0x7F000001, 4242⟩,
        [0x12, 0x34, 0x81, 3, 0, 1, 0, 0, 0, 0, 0, 0, 1, 88, 1, 97, 0, 0, 1, 0, 1])]] := by
  intro query p env argv
  let x : PlainName :=
    { labels := [[88], [97]]
      legal := by simp [LegalLabels]
      plain := by simp [PlainLabels, dot]
      spaceless := by simp [isspace]
      octets_le := by decide }
  obtain ⟨run, a', l', hrun, hserves⟩ := main_answers (started_oneLine [p]) .empty
  refine ⟨run, a', l', hrun, ?_⟩
  rw [upTo, upTo, ite_self] at hserves
  obtain ⟨r, rest, hr, hrest, hpasses⟩ := List.forall₂_cons_left_iff.1 hserves
  cases hrest
  have hsent := hr x ⟨0x1234, 0x0100, 1, 0, 0, 0⟩ 64 1 [] ⟨0x7F000001, 4242⟩ rfl (by decide)
    (by decide) rfl rfl rfl
  rw [hpasses, List.map_singleton, hsent]
  decide

end Heap

end FilteringResolver
