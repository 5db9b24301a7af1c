import FilteringResolver.Verify.EndToEnd
import FilteringResolver.Verify.FilterApi
import FilteringResolver.Verify.Loader
import FilteringResolver.Verify.Pressure

/-!
# What is refused and what is answered

Memory that runs out can make the resolver forget a name it should refuse, as `Degraded` says. It
never makes it refuse one: a client that gets NXDOMAIN has asked for the address of a name that a
line of the filter file covers, or the upstream server has said so (`main_refuses`), whatever the
file, the clients and the upstream send and whichever allocations fail. With memory for the
datagram, the answer is known for every datagram there is (`main_resolves`): the filter refuses
exactly the names that the file lists, since no name of the wire has a label that is too long for a
lookup (`shortLabels_of_legal`).
-/

namespace FilteringResolver

open Machines Ownership

/-! ## The filter -/

/-- A line of the file covers the name that is asked for. -/
def Listed (octets : Bytes) (qname : CStr) : Prop :=
  ∃ n, normalName qname = some n ∧ ∃ e ∈ (fileReads octets).filterMap lineEntry, e <:+ labels n

instance (octets : Bytes) (qname : CStr) : Decidable (Listed octets qname) :=
  inferInstanceAs (Decidable (∃ n, normalName qname = some n ∧ _))

/-- A trie that was loaded from a file was built by adding the domains of its lines, each with the
allocations that were left for it. -/
theorem loadFilterFile_calls {file : Option Bytes} {a a' : Allocs} {root : FilterNode}
    (h : loadFilterFile file a = (some root, a')) :
    ∃ octets calls, file = some octets ∧ root = buildFilter calls ∧
      calls.map Prod.fst = (fileReads octets).filterMap lineDomain := by
  have howning : Owning 0 a (Heap.loadFilterFile file) fun _ _ _ =>
      ∃ octets calls, file = some octets ∧ root = buildFilter calls ∧
        calls.map Prod.fst = (fileReads octets).filterMap lineDomain := by
    refine Heap.loadFilterFile_owning (fun _ hfailed => ?_)
      fun _ octets node counts calls hfile hload hloaded _ => ?_
    · rw [h] at hfailed
      cases hfailed
    · rw [h] at hload
      obtain rfl : root = node.val := Option.some.inj (congrArg Prod.fst hload)
      exact ⟨octets, calls, hfile, hloaded.trie, hloaded.domains⟩
  obtain ⟨_, _, _, -, hcalls⟩ := howning.run (l := .empty)
  exact hcalls

/-- A domain that was added has an entry. -/
theorem entryOf_of_mem_added {root : FilterNode} {calls : List (CStr × Allocs)} {d m : CStr}
    (hd : d ∈ (addDomains root calls).2) (hm : normalName d = some m) :
    entryOf d = some (labels m) := by
  induction calls generalizing root with
  | nil => cases hd
  | cons call calls ih =>
    obtain ⟨domain, a⟩ := call
    simp only [addDomains] at hd
    split at hd
    · next hret =>
      rcases List.mem_cons.1 hd with rfl | hd
      · exact entryOf_of_added hm hret
      · exact ih hd
    · exact ih hd

/-- **A loaded filter blocks nothing that its file does not list.** -/
theorem loadFilterFile_listed {octets : Bytes} {a a' a'' : Allocs} {root : FilterNode}
    (h : loadFilterFile (some octets) a = (some root, a')) {qname : CStr}
    (hblocked : (isDomainBlocked root qname a'').1 = true) : Listed octets qname := by
  obtain ⟨_, calls, ⟨⟩, rfl, hcalls⟩ := loadFilterFile_calls h
  obtain ⟨n, hn, -, d, hd, m, hm, hsuffix⟩ :=
    (isDomainBlocked_iff_suffix calls qname).1 (isDomainBlocked_all hblocked)
  refine ⟨n, hn, labels m, ?_, hsuffix⟩
  rw [← filterMap_lineEntry, ← hcalls]
  exact List.mem_filterMap.2
    ⟨d, (Heap.addDomains_sublist .empty calls).subset hd, entryOf_of_mem_added hd hm⟩

/-! ## One query -/

/-- The octets start with a header with the RCODE. -/
def HasRcode (response : Bytes) (rcode : UInt8) : Prop :=
  ∃ header, parseDnsHeader (.ofBytes response) = some header ∧
    header.flags &&& 0x0F = rcode.toUInt16

/-- The octets are a datagram that an attempt to reach the upstream received. -/
def Host.Sends (host : Host) (response : Bytes) : Prop :=
  ∃ k < upstreamRetries, ∃ d, (host.attempts k).recv = .datagram d ∧
    response = recvfrom d dnsUdpMaxSize

/-- The first question of the datagram asks for the address of a name that the file lists. -/
def AsksListed (octets : Bytes) (b : Buffer) : Prop :=
  ∃ m q, Asked b .ok m q .ok ∧ q.qtype = dnsTypeA ∧ Listed octets q.qname

theorem QueryResult.ret_of_answer {r : QueryResult} {response : Bytes}
    (h : r.answer = some response) : r.ret = .success := by
  unfold QueryResult.answer at h
  split at h
  · assumption
  · cases h

theorem replyError_hasRcode {b : Buffer} {m : DnsMessage} (h : Parsed b m) {rcode : UInt8}
    (hrcode : rcode ≤ dnsRcodeRefused) {out : Out} {a : Allocs} {forwarded : Option DnsMessage}
    {sent : List (SockAddr × Bytes)} {response : Bytes}
    (hanswer : (replyError m rcode out a forwarded sent).answer = some response) :
    HasRcode response rcode := by
  have hret : (replyError m rcode out a forwarded sent).ret = .success :=
    QueryResult.ret_of_answer hanswer
  obtain ⟨reply, hout, -, hheader⟩ := replyError_success h hret
  rw [QueryResult.answer, hret, hout] at hanswer
  obtain rfl : reply = response := by
    rw [← Option.some.inj hanswer]
    exact List.take_length.symm
  exact ⟨_, hheader, errorHeader_rcode _ hrcode⟩

/-- **A refusal has a reason**: the upstream has sent it, or the file lists the name. -/
theorem processDnsQuery_refusal {octets : Bytes} {a₀ a₁ : Allocs} {config : ServerConfig}
    (hload : loadFilterFile (some octets) a₀ = (some config.filterRoot, a₁)) {b : Buffer}
    {host : Host} {a : Allocs} {response : Bytes}
    (hanswer : (processDnsQuery config b ⟨none, 0⟩ host a).answer = some response)
    (hrefusal : HasRcode response dnsRcodeNxdomain) :
    host.Sends response ∨ AsksListed octets b := by
  have hother {m : DnsMessage} (h : Parsed b m) {rcode : UInt8} (hrcode : rcode ≤ dnsRcodeRefused)
      (hne : rcode.toUInt16 ≠ dnsRcodeNxdomain.toUInt16) {out : Out} {a : Allocs}
      {forwarded : Option DnsMessage} {sent : List (SockAddr × Bytes)}
      (hanswer : (replyError m rcode out a forwarded sent).answer = some response) : False := by
    obtain ⟨header, hheader, hcode⟩ := replyError_hasRcode h hrcode hanswer
    obtain ⟨_, hheader', hnxdomain⟩ := hrefusal
    cases hheader.symm.trans hheader'
    exact hne (hcode.symm.trans hnxdomain)
  have hproc := processDnsQuery_processed config b ⟨none, 0⟩ host a
  generalize processDnsQuery config b ⟨none, 0⟩ host a = r at hanswer hproc
  cases hproc with
  | unparsed _ => cases hanswer
  | noQuestion parse zero =>
    exact (hother (parseDnsMessage_parsed parse) dnsRcodeFormerr_le (by decide) hanswer).elim
  | otherType asked type =>
    exact (hother (parseDnsMessage_parsed asked.parse) dnsRcodeNotimpl_le (by decide)
      hanswer).elim
  | blocked asked type verdict =>
    exact .inr ⟨_, _, asked.ok, type, loadFilterFile_listed hload (congrArg Prod.fst verdict)⟩
  | relayed asked type verdict forward ok =>
    left
    cases forwardQuery_forwarded forward with
    | failed => cases ok
    | relayed _ attempt recv _ =>
      refine ⟨_, attempt, _, recv, ?_⟩
      rw [← Option.some.inj hanswer]
      exact List.take_length
  | unanswered asked type verdict forward ok =>
    exact (hother (parseDnsMessage_parsed asked.parse) dnsRcodeServfail_le (by decide)
      hanswer).elim

/-! ## One pass -/

/-- Whoever is refused in a pass has asked for it, or the upstream has. -/
def Refuses (octets : Bytes) (p : Pass) (sent : List (SockAddr × Bytes)) : Prop :=
  ∀ client response, (client, response) ∈ sent → HasRcode response dnsRcodeNxdomain →
    ∃ d, p.recv = .datagram d ∧ d.sender = client ∧
      (p.host.Sends response ∨ AsksListed octets (.ofBytes (recvfrom d dnsUdpMaxSize)))

theorem event_refuses {octets : Bytes} {a₀ a₁ : Allocs} {config : ServerConfig}
    (hload : loadFilterFile (some octets) a₀ = (some config.filterRoot, a₁)) (p : Pass) :
    Refuses octets p (p.event config).sent := by
  intro client response hsent hrefusal
  unfold Pass.event at hsent
  split at hsent <;> [cases hsent; skip]
  split at hsent
  · split at hsent <;> cases hsent
  · cases hsent
  · cases hsent
  next d hrecv =>
  dsimp only at hsent
  split at hsent <;> [cases hsent; skip]
  split at hsent <;> [cases hsent; skip]
  next response' hanswer =>
  cases List.mem_singleton.1 hsent
  exact ⟨d, hrecv, rfl, processDnsQuery_refusal hload hanswer hrefusal⟩

/-! ## The names of the wire -/

open Separated in
/-- Whatever octets its labels hold, the normal form of a parsed name has short labels. -/
theorem shortLabels_of_legal {ls : List Bytes} (h : LegalLabels ls) {n : CStr}
    (hn : normalName (.ofBuffer (dotted ls ++ [0])) = some n) : ShortLabels n := by
  have hread : (CStr.ofBuffer (dotted ls ++ [0])).bytes <+: dotted ls := by
    rcases List.prefix_concat_iff.1 (List.takeWhile_prefix (l := dotted ls ++ [0]) (· != 0)) with
      heq | hprefix
    · have h0 : 0 ∉ (dotted ls ++ [0]).takeWhile (· != 0) := (CStr.ofBuffer _).nul_free
      rw [heq] at h0
      simp at h0
    · exact hprefix
  have hwire : ShortRuns dot dnsMaxLabelLen (dotted ls) :=
    shortRuns_intercalate fun l hl => (h l hl).2
  have hclean : ShortRuns dot dnsMaxLabelLen (clean (CStr.ofBuffer (dotted ls ++ [0])).bytes) :=
    ((hwire.of_infix hread.isInfix).filter (by simp [isspace_dot])).map (tolower_eq_dot.2 rfl)
  rw [shortLabels_iff, (normalName_iff.1 hn).2.1]
  exact fun l hl => (hclean.of_infix (List.rdropWhile_prefix _ _).isInfix).length_le hl

theorem Asked.question {b : Buffer} {a a' : Allocs} {m : DnsMessage} {q : DnsQuestion}
    (asked : Asked b a m q a') : ∃ ls jumps fin, QuestionAt b dnsHeaderSize ls jumps fin ∧
      q = questionOf b ls fin := by
  obtain ⟨ls, jumps, fin, _, hq, hquestions, -⟩ :=
    (parseDnsMessage_parsed asked.parse).first asked.nonzero
  obtain ⟨_, hfirst⟩ := asked.first
  exact ⟨ls, jumps, fin, hq,
    (List.cons.inj (Option.some.inj (hfirst.symm.trans hquestions))).1⟩

/-- **The filter of a file blocks what the file lists**, for every name that can be asked for. -/
theorem fileFilter_blocks_iff {b : Buffer} {m : DnsMessage} {q : DnsQuestion}
    (asked : Asked b .ok m q .ok) (octets : Bytes) :
    (isDomainBlocked (Heap.fileFilter octets) q.qname .ok).1 = true ↔ Listed octets q.qname := by
  refine ⟨loadFilterFile_listed (loadFilterFile_eq octets), ?_⟩
  rintro ⟨n, hn, e, he, hsuffix⟩
  obtain ⟨ls, _, fin, hq, rfl⟩ := asked.question
  rw [← filterMap_lineEntry] at he
  obtain ⟨d, hd, hentry⟩ := List.mem_filterMap.1 he
  obtain ⟨k, hk, -, rfl⟩ := entryOf_eq_some.1 hentry
  refine (isDomainBlocked_iff_suffix _ _).2
    ⟨n, hn, shortLabels_of_legal hq.decodes.labels_length hn, d, ?_, k, hk, hsuffix⟩
  rw [addedDomains_ok, List.mem_filter, hentry]
  exact ⟨hd, rfl⟩

/-! ## What is answered -/

/-- The error response to a question that ends at `fin`. There is none when its name uses
pointers. -/
def errorAnswer (b : Buffer) (header : DnsHeader) (jumps fin : Nat) (rcode : UInt8) :
    Option Bytes :=
  if jumps = 0 then some (errorResponse b header rcode fin) else none

/-- The answer to a datagram whose first question is `q`. -/
def questionAnswer (upstream : CStr) (octets : Bytes) (host : Host) (b : Buffer)
    (header : DnsHeader) (q : DnsQuestion) (jumps fin : Nat) : Option Bytes :=
  let error := errorAnswer b header jumps fin
  if q.qtype ≠ dnsTypeA then error dnsRcodeNotimpl
  else if Listed octets q.qname then error dnsRcodeNxdomain
  else (host.relays upstream b.data).or (error dnsRcodeServfail)

section

variable {b : Buffer} {m : DnsMessage} {q : DnsQuestion} {ls : List Bytes} {jumps fin : Nat}

theorem replyError_errorAnswer (h : Parsed b m) (hq : QuestionAt b dnsHeaderSize ls jumps fin)
    {rcode : UInt8} (hr : rcode ≤ dnsRcodeRefused) (out : Out) (forwarded : Option DnsMessage)
    (sent : List (SockAddr × Bytes)) :
    (replyError m rcode out .ok forwarded sent).answer =
      errorAnswer b m.header jumps fin rcode := by
  by_cases hj : jumps = 0
  · subst hj
    rw [replyError_plain h hq hr, errorAnswer, if_pos rfl, ← length_errorResponse hq m.header rcode]
    exact congrArg some List.take_length
  · rw [replyError, buildErrorResponse_pointer h hq hj, errorAnswer, if_neg hj]
    rfl

/-- **The answer to any question**, with memory to spare. -/
theorem processDnsQuery_questionAnswer (asked : Asked b .ok m q .ok)
    (hq : QuestionAt b dnsHeaderSize ls jumps fin) (upstream : CStr) (octets : Bytes)
    (host : Host) :
    (processDnsQuery ⟨upstream, Heap.fileFilter octets⟩ b ⟨none, 0⟩ host .ok).answer =
      questionAnswer upstream octets host b m.header q jumps fin := by
  have hp := parseDnsMessage_parsed asked.parse
  have hblocks := fileFilter_blocks_iff asked octets
  by_cases htype : q.qtype = dnsTypeA
  · rw [questionAnswer, if_neg (not_not.2 htype)]
    by_cases hlisted : Listed octets q.qname
    · rw [if_pos hlisted, processDnsQuery_blocked _ _ host asked htype (hblocks.2 hlisted)]
      exact replyError_errorAnswer hp hq dnsRcodeNxdomain_le ..
    · rw [if_neg hlisted, processDnsQuery_allowed_ok _ _ host asked htype
        (eq_false_of_ne_true fun h => hlisted (hblocks.1 h))]
      have hrelays := forwardQuery_relays hp host upstream ⟨none, 0⟩
      dsimp only
      cases hreply : host.relays upstream b.data with
      | some reply =>
        rw [hreply] at hrelays
        obtain ⟨hret, hout⟩ := hrelays
        rw [if_neg (not_not.2 hret), hout]
        exact congrArg some List.take_length
      | none =>
        rw [hreply] at hrelays
        rw [if_pos hrelays]
        exact replyError_errorAnswer hp hq dnsRcodeServfail_le ..
  · rw [questionAnswer, if_pos htype, processDnsQuery_otherType _ _ host asked htype]
    exact replyError_errorAnswer hp hq dnsRcodeNotimpl_le ..

end

theorem processDnsQuery_unparsed {b : Buffer} (h : (parseDnsMessage b .ok).1 ≠ .success)
    (config : ServerConfig) (host : Host) :
    (processDnsQuery config b ⟨none, 0⟩ host .ok).answer = none := by
  unfold processDnsQuery
  rcases hp : parseDnsMessage b .ok with ⟨_ | _ | _, m, a⟩
  · rw [hp] at h
    exact absurd rfl h
  · rfl
  · rfl

/-- What a pass with the memory it needs sends is what `process_dns_query` answers. -/
theorem Pass.event_sent (config : ServerConfig) {p : Pass} {d : Datagram}
    (hrun : p.running = true) (hrecv : p.recv = .datagram d)
    (hmem : ∀ i < 233, p.allocs.get i = true) :
    let b := Buffer.ofBytes (recvfrom d dnsUdpMaxSize)
    (p.event config).sent = ((processDnsQuery config b ⟨none, 0⟩ p.host .ok).answer.map
      fun response => (d.sender, response)).toList := by
  intro b
  have hlen : b.len ≤ dnsUdpMaxSize := List.length_take_le _ _
  rw [Pass.event, hrun, if_neg (by decide), hrecv]
  dsimp only
  split
  · next hshort =>
    have hparse : (parseDnsMessage b .ok).1 ≠ .success := by
      intro hok
      have hheader := (parseDnsMessage_parsed (Prod.ext hok rfl)).header_eq
      exact absurd (parseDnsHeader_length hheader) (Nat.not_le.2 hshort)
    rw [processDnsQuery_unparsed hparse]
    rfl
  · have heq := QueryResult.eq_of_outcome
      (processDnsQuery_enough config ⟨none, 0⟩ p.host hlen hmem)
    rw [heq]
    generalize processDnsQuery config b ⟨none, 0⟩ p.host .ok = r
    have hanswer : QueryResult.answer { r with
        allocs := (processDnsQuery config b ⟨none, 0⟩ p.host p.allocs).allocs } = r.answer := rfl
    rw [hanswer]
    cases r.answer <;> rfl

/-- What has been sent for the octets `b` of a client. -/
structure Resolved (upstream : CStr) (octets : Bytes) (host : Host) (client : SockAddr)
    (b : Buffer) (sent : List (SockAddr × Bytes)) : Prop where
  unparsed : (parseDnsMessage b .ok).1 ≠ .success → sent = []
  noQuestion (m : DnsMessage) : parseDnsMessage b .ok = (.success, m, .ok) →
    m.header.qdcount = 0 → ∀ x ∈ sent, x.1 = client ∧ HasRcode x.2 dnsRcodeFormerr
  asked (m : DnsMessage) (q : DnsQuestion) : Asked b .ok m q .ok → ∃ ls jumps fin,
    QuestionAt b dnsHeaderSize ls jumps fin ∧ q = questionOf b ls fin ∧
      sent = ((questionAnswer upstream octets host b m.header q jumps fin).map
        fun response => (client, response)).toList

theorem event_resolved (upstream : CStr) (octets : Bytes) {p : Pass} {d : Datagram}
    (hrun : p.running = true) (hrecv : p.recv = .datagram d)
    (hmem : ∀ i < 233, p.allocs.get i = true) :
    Resolved upstream octets p.host d.sender (.ofBytes (recvfrom d dnsUdpMaxSize))
      (p.event ⟨upstream, Heap.fileFilter octets⟩).sent := by
  rw [Pass.event_sent _ hrun hrecv hmem]
  generalize Buffer.ofBytes (recvfrom d dnsUdpMaxSize) = b
  constructor
  · intro hparse
    rw [processDnsQuery_unparsed hparse]
    rfl
  · intro m hparse hzero x hx
    rw [processDnsQuery, hparse] at hx
    dsimp only at hx
    rw [if_pos hzero] at hx
    obtain ⟨response, hanswer, rfl⟩ := Option.map_eq_some_iff.1 (Option.mem_toList.1 hx)
    exact ⟨rfl, replyError_hasRcode (parseDnsMessage_parsed hparse) dnsRcodeFormerr_le hanswer⟩
  · intro m q asked
    obtain ⟨ls, jumps, fin, hq, heq⟩ := asked.question
    exact ⟨ls, jumps, fin, hq, heq, by rw [processDnsQuery_questionAnswer asked hq]⟩

/-! ## The process -/

namespace Heap

variable {env : Process} {argv : List CStr} {a : Allocs}

/-- The file that the arguments name, as the process reads it. -/
def ReadsFilter (env : Process) (argv : List CStr) (a : Allocs) (octets : Bytes) : Prop :=
  ∃ args a', FilteringResolver.parseArguments env.toEnvironment argv (malloc a).2 = (0, args, a') ∧
    args.filterFile.bind env.fopen = some octets

/-- A configured process has loaded a filter file. -/
theorem Configured.load {c : FilteringResolver.ServerConfig} {port : UInt16}
    (h : Configured env argv a c port) : ∃ octets a₁ a₂, ReadsFilter env argv a octets ∧
      FilteringResolver.loadFilterFile (some octets) a₁ = (some c.filterRoot, a₂) := by
  obtain ⟨args, a₁, file, a₂, hparse, -, -, hfile, hload⟩ := h.parse
  obtain ⟨octets, -, hoctets, -⟩ := loadFilterFile_calls hload
  exact ⟨octets, a₁, a₂, ⟨args, a₁, hparse, by rw [hfile]; exact hoctets⟩, hoctets ▸ hload⟩

/-- The passes of a run have sent what holds of their events. -/
theorem Passes.forall_sent {c : FilteringResolver.ServerConfig} {q : QueryBuffer}
    {passes : List Pass} {results : List PassResult} (h : Passes c q passes results)
    {holds : Pass → List (SockAddr × Bytes) → Prop} (hevent : ∀ p, holds p (p.event c).sent) :
    List.Forall₂ (fun p r => holds p r.sent) (upTo (fun p => (p.event c).goesOn) passes)
      results := by
  rw [← List.forall₂_map_right_iff (f := fun r : PassResult => r.sent), h.sent,
    List.forall₂_map_right_iff, List.forall₂_same]
  exact fun p _ => hevent p

/-- A pass refuses only what the filter file of the process lists and what the upstream refuses. -/
def RefusesByFile (env : Process) (argv : List CStr) (a : Allocs) (p : Pass) (r : PassResult) :
    Prop :=
  ∃ octets, ReadsFilter env argv a octets ∧ Refuses octets p r.sent

theorem Configured.refuses {c : FilteringResolver.ServerConfig} {port : UInt16}
    (h : Configured env argv a c port) {results : List PassResult}
    (hpasses : Passes c env.queryBuffer env.passes results) :
    ∃ passes, passes <+: env.passes ∧
      List.Forall₂ (RefusesByFile env argv a) passes results := by
  obtain ⟨octets, a₁, a₂, hreads, hload⟩ := h.load
  refine ⟨_, upTo_prefix (fun p => (p.event c).goesOn) env.passes, ?_⟩
  exact (hpasses.forall_sent (event_refuses hload)).imp fun _ _ h => ⟨octets, hreads, h⟩

/-- **No refusal without a line**: in a run of `main`, with any arguments, files, datagrams and
failing allocations, every pass that answers NXDOMAIN passes on what the upstream has sent or
answers a question for a name that a line of the filter file covers. -/
theorem main_refuses (env : Process) (argv : List CStr) (a : Allocs) (l : Ledger Kind) :
    ∃ run a' l', main env argv a l = some ((run, a'), l') ∧
      ∃ passes, passes <+: env.passes ∧
        List.Forall₂ (RefusesByFile env argv a) passes run.passes := by
  have hmain : Owning l.live a (main env argv) _ := main_owning
  obtain ⟨run, a', l', hrun, left, -, houtcome⟩ := hmain.run
  refine ⟨run, a', l', hrun, ?_⟩
  cases houtcome with
  | ended configured signal listens passes ended => exact configured.refuses passes
  | running configured signal listens passes going holds => exact configured.refuses passes
  | _ => exact ⟨[], List.nil_prefix, .nil⟩

/-- A pass that met a datagram, with memory for 233 allocations, has sent what is due for it. -/
def Resolves (line : CommandLine) (file : Bytes) (p : Pass) (sent : List (SockAddr × Bytes)) :
    Prop :=
  ∀ d, p.running = true → p.recv = .datagram d → (∀ i < 233, p.allocs.get i = true) →
    Resolved line.server file p.host d.sender (.ofBytes (recvfrom d dnsUdpMaxSize)) sent

/-- **The resolver on any datagram**: a process that has been started drops what is not a message,
answers FORMERR to a message without a question and, by the type of the first question, the lines
of its filter file and the replies of its upstream server, any other message. -/
theorem main_resolves {line : CommandLine} {file : Bytes} (h : Started env argv line file)
    (l : Ledger Kind) :
    ∃ run a' l', main env argv .ok l = some ((run, a'), l') ∧
      List.Forall₂ (fun p r => Resolves line file p r.sent)
        (upTo (fun p => (p.event ⟨line.server, fileFilter file⟩).goesOn) env.passes)
        run.passes := by
  have hmain : Owning l.live .ok (main env argv) _ := main_owning
  obtain ⟨run, a', l', hrun, left, -, houtcome⟩ := hmain.run
  refine ⟨run, a', l', hrun, (h.passes houtcome).forall_sent fun p d hrunning hrecv hmem => ?_⟩
  exact event_resolved line.server file hrunning hrecv hmem

/-- Started with `-s 8 -f f` where the file `f` holds the line `a`, and asked for `A`, with a space
behind it, in memory for 233 allocations. -/
theorem main_resolves_spaced :
    let query : Bytes := [0x12, 0x34, 1, 0, 0, 1, 0, 0, 0, 0, 0, 0, 2, 65, 32, 0, 0, 1, 0, 1]
    let scarce : Allocs := fun i => decide (i < 233)
    let p : Pass := ⟨true, true, .datagram ⟨⟨0x7F000001, 4242⟩, query⟩, deafHost, scarce, .sent 20⟩
    let env : Process :=
      { permute := true
        root := true
        fopen := fun _ => some [97, 10]
        signal := none
        server := ⟨true, true, true, fun _ => true⟩
        queryBuffer := ⟨List.replicate 512 0, List.length_replicate⟩
        passes := [p] }
    let argv := [[45, 115], [56], [45, 102], [102]].map CStr.ofBuffer
    ∃ run a' l', main env argv .ok .empty = some ((run, a'), l') ∧
      run.passes.map (fun r => r.sent) = [[(⟨0x7F000001, 4242⟩,
        [0x12, 0x34, 0x81, 3, 0, 1, 0, 0, 0, 0, 0, 0, 2, 65, 32, 0, 0, 1, 0, 1])]] := by
  intro query scarce p env argv
  obtain ⟨run, a', l', hrun, hresolves⟩ := main_resolves (started_oneLine [p]) .empty
  refine ⟨run, a', l', hrun, ?_⟩
  rw [upTo, upTo, ite_self] at hresolves
  obtain ⟨r, rest, hr, hrest, hpasses⟩ := List.forall₂_cons_left_iff.1 hresolves
  cases hrest
  have hresolved := hr ⟨⟨0x7F000001, 4242⟩, query⟩ rfl rfl fun i hi => decide_eq_true hi
  have asked : Asked (.ofBytes query) .ok
      (FilteringResolver.parseDnsMessage (.ofBytes query) .ok).2.1 ⟨.ofBuffer [65, 32], 1, 1⟩ .ok :=
    ⟨(parseDnsMessage_parsed (Prod.ext (by decide) rfl)).parse_ok, by decide, [], by decide⟩
  obtain ⟨ls, jumps, fin, hq, -, hsent⟩ := hresolved.asked _ _ asked
  obtain ⟨-, rfl, rfl⟩ := hq.decodes.functional
    (.label (by decide) (by decide) (by decide) (.root (by decide) (by decide)))
  rw [hpasses, List.map_singleton, hsent]
  decide

end Heap

end FilteringResolver
