import FilteringResolver.Heap.DnsServer
import FilteringResolver.Verify.HeapFilter
import FilteringResolver.Verify.HeapMessages
import FilteringResolver.Verify.Server

/-!
# The memory of the server

`forward_query` closes its socket and frees the address list and the buffer it does not hand back
(`forwardQuery_owning`), one query leaves its response and nothing else
(`processDnsQuery_owning`), and a pass of the server loop leaves nothing at all. What the server
answers is what it answers without memory, so everything known of `runServer` is known of the
program that allocates and frees (`serverLoop_owning`). The function of the interface that opens a
socket for a caller leaves nothing else (`createUpstreamSocket_memory`).
-/

namespace FilteringResolver.Heap

open Ownership

variable {own rest : Resources} {a : Allocs} {host : Host}

/-! ## Forwarding -/

theorem firstInet_owning {list : Nat} {infos : List AddrInfo}
    {post : Option CStr → Allocs → Resources → Prop} (hown : own = rest + {(Kind.addrinfo, list)})
    (h : post (FilteringResolver.firstInet host infos) a rest) :
    Owning own a (firstInet host list infos) post := by
  have hlive : (Kind.addrinfo, list) ∈ own := by simp [hown]
  induction infos with
  | nil => exact .bind (.release hown (.pure h))
  | cons info infos ih =>
    cases info with
    | inet ip =>
      rw [FilteringResolver.firstInet] at h
      refine .bind (.use hlive ?_)
      cases htext : host.inetNtop ip with
      | none =>
        rw [htext] at h
        exact ih h
      | some text =>
        rw [htext] at h
        exact .bind (.release hown (.pure h))
    | other => exact .bind (.use hlive (ih h))

theorem resolveUpstreamAddress_owning {hostname : CStr}
    {post : Option CStr → Allocs → Resources → Prop}
    (h : post (FilteringResolver.resolveUpstreamAddress host hostname) a own) :
    Owning own a (resolveUpstreamAddress host hostname) post := by
  unfold resolveUpstreamAddress
  unfold FilteringResolver.resolveUpstreamAddress at h
  split
  · next hpton =>
    rw [hpton] at h
    exact .pure h
  · next hpton =>
    rw [hpton] at h
    split
    · next hinfo =>
      rw [hinfo] at h
      exact .pure h
    · next infos hinfo =>
      rw [hinfo] at h
      exact .bind (.acquire fun list => firstInet_owning rfl h)

/-- **`forward_query` owns what it hands back**: the reply when it returns 0, and nothing when it
fails; its socket and the address list are gone either way. -/
theorem forwardQuery_owning {m : DnsMessage} {v : FilteringResolver.DnsMessage} (hv : m.Holds v)
    (hown : own = rest + m.blocks) {upstream : Ptr CStr} (hup : upstream.block ∈ own) {len : Nat}
    {post : ForwardResult → Allocs → Resources → Prop}
    (failed : ∀ a' sent, FilteringResolver.forwardQuery host v upstream.val ⟨none, len⟩ a =
      ⟨.failure, ⟨none, len⟩, sent, a'⟩ → post ⟨.failure, ⟨none, len⟩, sent⟩ a' own)
    (relayed : ∀ a' addr reply sent,
      FilteringResolver.forwardQuery host v upstream.val ⟨none, len⟩ a =
        ⟨.success, ⟨some reply, reply.length⟩, sent, a'⟩ →
      post ⟨.success, ⟨some ⟨addr, reply⟩, reply.length⟩, sent⟩ a' (own + {(.block, addr)})) :
    Owning own a (forwardQuery host m (some upstream) ⟨none, len⟩) post := by
  have hpure := FilteringResolver.forwardQuery.eq_1 host v upstream.val ⟨none, len⟩ a
  rw [← hv.raw] at hpure
  unfold forwardQuery
  cases hraw : m.raw with
  | none =>
    rw [hraw] at hpure
    exact .pure (failed a [] hpure)
  | some raw =>
    have hlive : raw.block ∈ own := by
      rw [hown]
      exact Multiset.mem_add.2 (.inr (DnsMessage.raw_block_mem hraw))
    rw [hraw] at hpure
    dsimp only [Option.map_some] at hpure ⊢
    split
    · next hlen => exact .pure (failed a [] (hpure.trans (if_pos hlen)))
    rw [if_neg ‹_›] at hpure
    refine .bind (load_owning hup (.bind (resolveUpstreamAddress_owning ?_)))
    cases hres : FilteringResolver.resolveUpstreamAddress host upstream.val with
    | none =>
      rw [hres] at hpure
      exact .pure (failed a [] hpure)
    | some ip =>
      rw [hres] at hpure
      dsimp only at hpure ⊢
      split
      · next hsock => exact .pure (failed a [] (hpure.trans (if_pos (.inl hsock))))
      refine .bind (.acquire fun sockfd => ?_)
      split
      · next hopt =>
        exact .bind (.release rfl (.pure (failed a [] (hpure.trans (if_pos (.inr hopt))))))
      next hsock hopt =>
      rw [if_neg (not_or.2 ⟨hsock, hopt⟩)] at hpure
      cases hpton : host.inetPton ip with
      | none =>
        rw [hpton] at hpure
        exact .bind (.release rfl (.pure (failed a [] hpure)))
      | some addr =>
        rw [hpton] at hpure
        dsimp only at hpure ⊢
        refine .bind (mallocOf_owning (fun a' hm => ?_) fun a' buffer hm => ?_)
        · exact .bind (.release rfl (.pure (failed a' [] (by rw [hpure, hm]))))
        rw [hm] at hpure
        dsimp only at hpure ⊢
        refine .bind (.use (by simp) (.bind (.use (by simp [Ptr.block]) (.bind (load_owning
          (by simp [hlive]) ?_)))))
        -- the buffer goes, and the socket after it
        have hfail : ∀ sent, FilteringResolver.forwardQuery host v upstream.val ⟨none, len⟩ a =
            ⟨.failure, ⟨none, len⟩, sent, a'⟩ →
            Owning (own + {(.socket, sockfd)} + {(.block, buffer)}) a' (do
              release (.block, buffer)
              release (.socket, sockfd)
              pure (ForwardResult.mk .failure ⟨none, len⟩ sent)) post := fun sent h =>
          .bind (.release rfl (.bind (.release rfl (.pure (failed a' sent h)))))
        split
        · next hnone => exact hfail _ (by rw [hpure, hnone])
        · next reply hsome =>
          rw [hsome] at hpure
          dsimp only at hpure
          split
          · next haccept =>
            rw [if_pos haccept] at hpure
            exact .bind (.release (add_right_comm _ _ _) (.pure (relayed a' buffer reply _ hpure)))
          · next haccept => exact hfail _ (hpure.trans (if_neg haccept))

/-- **`create_upstream_socket`** of the interface of the resolver, which nothing in the program
calls, hands out its socket or leaves none. -/
theorem createUpstreamSocket_memory (socket setsockopt : Bool) (a : Allocs) (l : Ledger Kind) :
    ∃ r l', createUpstreamSocket socket setsockopt a l = some ((r, a), l') ∧
      (r.isSome ↔ socket ∧ setsockopt) ∧
      l'.live = l.live + r.elim 0 fun sockfd => {(.socket, sockfd)} := by
  suffices h : Owning l.live a (createUpstreamSocket socket setsockopt) fun r a' own' =>
      a' = a ∧ (r.isSome ↔ socket ∧ setsockopt) ∧
        own' = l.live + r.elim 0 fun sockfd => {(.socket, sockfd)} by
    obtain ⟨r, a', l', hrun, rfl, hpost⟩ := h.run
    exact ⟨r, l', hrun, hpost⟩
  unfold createUpstreamSocket
  split
  · next hsock => exact .pure ⟨rfl, by simp [hsock], (add_zero _).symm⟩
  next hsock =>
  refine .bind (.acquire fun sockfd => ?_)
  split
  · next hopt => exact .bind (.release rfl (.pure ⟨rfl, by simp [hopt], (add_zero _).symm⟩))
  · next hopt => exact .pure ⟨rfl, by simp_all, rfl⟩

/-! ## One query -/

/-- The out variables without the address of the response. -/
def Out.val (out : Out) : FilteringResolver.Out := ⟨out.response.map (·.val), out.respLen⟩

/-- The blocks behind a configuration. -/
def ServerConfig.blocks (config : ServerConfig) : Resources :=
  {(Kind.block, config.addr)} + blockOf config.upstreamServer + blockOf config.filterFile +
    config.filterRoot.elim 0 FilterNode.blocks

/-- A configuration as `main` hands it to `run_server`: with an upstream server and a filter. -/
structure ServerConfig.Holds (config : ServerConfig) (c : FilteringResolver.ServerConfig) :
    Prop where
  upstream : ∃ p, config.upstreamServer = some p ∧ p.val = c.upstreamServer
  root : ∃ n, config.filterRoot = some n ∧ n.val = c.filterRoot ∧ n.Allocated

/-- An error reply frees the query and hands back its response. -/
theorem replyError_owning {m : DnsMessage} {v : FilteringResolver.DnsMessage} (hv : m.Holds v)
    (hown : own = rest + m.blocks) {rcode : UInt8} {len : Nat}
    {forwarded : Option FilteringResolver.DnsMessage} {sent : List (SockAddr × Bytes)}
    {post : QueryResult → Allocs → Resources → Prop}
    (h : ∀ r a', FilteringResolver.replyError v rcode ⟨none, len⟩ a forwarded sent =
        ⟨r.ret, r.out.val, forwarded, r.sent, a'⟩ → (r.ret ≠ .success → r.out.response = none) →
      post r a' (rest + blockOf r.out.response)) :
    Owning own a (replyError m rcode ⟨none, len⟩ sent) post := by
  have hpure := FilteringResolver.replyError.eq_1 v rcode ⟨none, len⟩ a forwarded sent
  refine .bind (buildErrorResponse_owning hv hown (fun a' len' hb => ?_)
    fun a' addr reply len' hb => ?_)
  · rw [hb] at hpure
    refine .bind (freeDnsMessage_owning hv.length_eq hown (.pure ?_))
    have hp := h ⟨.failure, ⟨none, len'⟩, sent⟩ a' hpure fun _ => rfl
    rwa [blockOf_none, add_zero] at hp
  · rw [hb] at hpure
    have hown' : own + {(Kind.block, addr)} = rest + {(Kind.block, addr)} + m.blocks := by
      rw [hown, add_right_comm]
    refine .bind (freeDnsMessage_owning hv.length_eq hown' (.pure ?_))
    exact h ⟨.success, ⟨some ⟨addr, reply⟩, len'⟩, sent⟩ a' hpure fun hne => absurd rfl hne

/-- **`process_dns_query` leaves its response and nothing else**, on every one of its ways out,
and answers what it answers without memory. -/
theorem processDnsQuery_owning {config : ServerConfig} {c : FilteringResolver.ServerConfig}
    (hc : config.Holds c) (hle : config.blocks ≤ own) {b : Buffer} {len : Nat}
    {post : QueryResult → Allocs → Resources → Prop}
    (h : ∀ r forwarded a', FilteringResolver.processDnsQuery c b ⟨none, len⟩ host a =
        ⟨r.ret, r.out.val, forwarded, r.sent, a'⟩ → (r.ret ≠ .success → r.out.response = none) →
      post r a' (own + blockOf r.out.response)) :
    Owning own a (processDnsQuery config b ⟨none, len⟩ host) post := by
  obtain ⟨upstream, hupstream, hup⟩ := hc.upstream
  obtain ⟨root, hroot, hval, halloc⟩ := hc.root
  have hpure := FilteringResolver.processDnsQuery.eq_1 c b ⟨none, len⟩ host a
  have hconfig : (Kind.block, config.addr) ∈ own := Multiset.mem_of_le hle (by
    simp [ServerConfig.blocks])
  have hupmem : upstream.block ∈ own := Multiset.mem_of_le hle (by
    simp [ServerConfig.blocks, hupstream])
  have hrootle : root.blocks ≤ own := le_trans (by
    rw [ServerConfig.blocks, hroot]
    exact Multiset.le_add_left _ _) hle
  refine .bind (.use hconfig (.bind (parseDnsMessage_owning (fun a' header hp => ?_)
    fun a' m v hp hv => ?_)))
  · rw [hp] at hpure
    have hr := h ⟨.failure, ⟨none, len⟩, []⟩ none a' hpure fun _ => rfl
    exact .pure (by rwa [blockOf_none, add_zero] at hr)
  have hparsed := parseDnsMessage_parsed hp
  rw [hp] at hpure
  dsimp only at hpure ⊢
  rw [if_neg (not_not.2 rfl), hv.header]
  split
  · next hzero =>
    rw [if_pos hzero] at hpure
    exact replyError_owning hv rfl fun r a'' hr => h r none a'' (hpure.trans hr)
  next hzero =>
  rw [if_neg hzero] at hpure
  obtain ⟨ls, jumps, fin, qs, -, hquestions, -⟩ := hparsed.first hzero
  obtain ⟨array, addr, questions, harray, hfirst, harraymem, hnamemem⟩ := hv.first hquestions
  rw [hquestions] at hpure
  rw [harray]
  dsimp only at hpure ⊢
  refine .bind (load_owning (Multiset.mem_add.2 (.inr harraymem)) ?_)
  rw [hfirst]
  dsimp only [DnsQuestion.storedAt]
  split
  · next htype =>
    rw [if_pos htype] at hpure
    exact replyError_owning hv rfl fun r a'' hr => h r none a'' (hpure.trans hr)
  next htype =>
  rw [if_neg htype] at hpure
  rw [hroot]
  refine .bind (.bind (load_owning (Multiset.mem_add.2 (.inr hnamemem))
    (isDomainBlocked_owning halloc (le_trans hrootle (Multiset.le_add_right _ _))
      fun a'' verdict hverdict => ?_)))
  rw [hval] at hverdict
  rw [hverdict] at hpure
  cases verdict with
  | true => exact replyError_owning hv rfl fun r a₃ hr => h r none a₃ (hpure.trans hr)
  | false =>
    rw [hupstream]
    refine .bind (forwardQuery_owning hv rfl (Multiset.mem_add.2 (.inl hupmem))
      (fun a₃ sent hf => ?_) fun a₃ addr reply sent hf => ?_)
    · rw [hup] at hf
      simp only [hf] at hpure
      exact replyError_owning hv rfl fun r a₄ hr => h r _ a₄ (hpure.trans hr)
    · rw [hup] at hf
      simp only [hf] at hpure
      refine .bind (freeDnsMessage_owning hv.length_eq (add_right_comm _ _ _) (.pure ?_))
      exact h ⟨.success, ⟨some ⟨addr, reply⟩, reply.length⟩, sent⟩ _ a₃ hpure
        fun hne => absurd rfl hne

/-- **One query** never reads or frees what is gone, whatever the datagram, the network and the
allocations answer; it adds the block of its response to what is live, and nothing when it fails,
and its answer is the one of the function without memory. -/
theorem processDnsQuery_response {config : ServerConfig} {c : FilteringResolver.ServerConfig}
    (hc : config.Holds c) (l : Ledger Kind) (hle : config.blocks ≤ l.live) (b : Buffer)
    (host : Host) (a : Allocs) :
    ∃ r forwarded a' l', processDnsQuery config b ⟨none, 0⟩ host a l = some ((r, a'), l') ∧
      FilteringResolver.processDnsQuery c b ⟨none, 0⟩ host a =
        ⟨r.ret, r.out.val, forwarded, r.sent, a'⟩ ∧
      l'.live = l.live + blockOf r.out.response ∧
      (r.ret ≠ .success → l'.live = l.live) := by
  have hquery : Owning l.live a (processDnsQuery config b ⟨none, 0⟩ host) fun r a' own' =>
      ∃ forwarded, FilteringResolver.processDnsQuery c b ⟨none, 0⟩ host a =
          ⟨r.ret, r.out.val, forwarded, r.sent, a'⟩ ∧
        own' = l.live + blockOf r.out.response ∧ (r.ret ≠ .success → own' = l.live) :=
    processDnsQuery_owning hc hle fun r forwarded a' hr hfailed =>
      ⟨forwarded, hr, rfl, fun hne => by rw [hfailed hne, blockOf_none, add_zero]⟩
  obtain ⟨r, a', l', hrun, forwarded, hpure, hlive, hfailed⟩ := hquery.run
  exact ⟨r, forwarded, a', l', hrun, hpure, hlive, hfailed⟩

/-- A configuration in the blocks 0 and 1 with an empty filter in block 2. -/
def emptyConfig : ServerConfig :=
  ⟨0, some ⟨1, .ofBuffer [56]⟩, dnsDefaultPort, none, false, some ⟨2, none, none, [], false⟩⟩

theorem emptyConfig_holds : emptyConfig.Holds ⟨.ofBuffer [56], .empty⟩ :=
  ⟨⟨_, rfl, rfl⟩, _, rfl, rfl, allocated_of_children_nil rfl⟩

/-- The three blocks. -/
def emptyConfigLedger : Ledger Kind where
  live := {(.block, 0), (.block, 1), (.block, 2)}
  next := 3
  nodup := by decide
  fresh := by decide

theorem emptyConfig_live : emptyConfig.blocks ≤ emptyConfigLedger.live := by decide

/-- A query for `a` that no upstream answers. -/
theorem processDnsQuery_response_unanswered :
    let b : Buffer := .ofBytes [0x12, 0x34, 1, 0, 0, 1, 0, 0, 0, 0, 0, 0, 1, 97, 0, 0, 1, 0, 1]
    ∃ r forwarded a' l',
      processDnsQuery emptyConfig b ⟨none, 0⟩ deafHost .ok emptyConfigLedger =
        some ((r, a'), l') ∧
      FilteringResolver.processDnsQuery ⟨.ofBuffer [56], .empty⟩ b ⟨none, 0⟩ deafHost .ok =
        ⟨r.ret, r.out.val, forwarded, r.sent, a'⟩ ∧
      l'.live = emptyConfigLedger.live + blockOf r.out.response ∧
      (r.ret ≠ .success → l'.live = emptyConfigLedger.live) :=
  processDnsQuery_response emptyConfig_holds emptyConfigLedger emptyConfig_live _ deafHost .ok

/-! ## The loop -/

section

variable {config : ServerConfig} {c : FilteringResolver.ServerConfig} {sockfd : Nat}
  {s : ServerState} {p : Pass}

/-- Two passes agree in everything that the caller of the loop sees. -/
structure PassResult.Holds (r : PassResult) (r' : FilteringResolver.PassResult) : Prop where
  state : r.state = r'.state
  goesOn : r.goesOn = r'.goesOn
  sent : r.sent = r'.sent

theorem serveDatagram_owning (hc : config.Holds c) (hle : config.blocks ≤ own)
    (hsock : (Kind.socket, sockfd) ∈ own) {d : Datagram}
    {post : PassResult → Allocs → Resources → Prop}
    (h : ∀ r a', r.Holds (FilteringResolver.serveDatagram c s p d) → post r a' own) :
    Owning own p.allocs (serveDatagram config sockfd s p d) post := by
  unfold serveDatagram
  unfold FilteringResolver.serveDatagram at h
  dsimp only at h ⊢
  split
  · next hshort =>
    rw [if_pos hshort] at h
    exact .pure (h _ _ ⟨rfl, rfl, rfl⟩)
  next hshort =>
  rw [if_neg hshort] at h
  refine .bind (processDnsQuery_owning hc hle fun r forwarded a' hr _ => ?_)
  rw [hr] at h
  obtain ⟨ret, ⟨response, respLen⟩, sent⟩ := r
  have hdrop : ∀ r' : PassResult, post r' a' own →
      Owning (own + blockOf response) a' (do free response; pure r') post :=
    fun r' hr' => .bind (free_owning rfl (.pure hr'))
  cases ret with
  | failure => exact hdrop _ (h _ _ ⟨rfl, rfl, rfl⟩)
  | undefined => exact hdrop _ (h _ _ ⟨rfl, rfl, rfl⟩)
  | success =>
    cases response with
    | none => exact hdrop _ (h _ _ ⟨rfl, rfl, rfl⟩)
    | some response =>
      refine .bind (load_owning (by simp) (.bind (.use (by simp [hsock]) ?_)))
      exact .bind (.release rfl (.pure (h _ _ ⟨rfl, rfl, rfl⟩)))

/-- **A pass of the loop leaves nothing**: no block, no socket and no address list, whatever came
in and whichever allocation failed. -/
theorem serverPass_owning (hc : config.Holds c) (hle : config.blocks ≤ own)
    (hsock : (Kind.socket, sockfd) ∈ own) {post : PassResult → Allocs → Resources → Prop}
    (h : ∀ r a', r.Holds (FilteringResolver.serverPass c s p) → post r a' own) :
    Owning own p.allocs (serverPass config sockfd s p) post := by
  unfold serverPass
  unfold FilteringResolver.serverPass at h
  split
  · next hrun =>
    rw [if_pos hrun] at h
    exact .pure (h _ _ ⟨rfl, rfl, rfl⟩)
  · next hrun =>
    rw [if_neg hrun] at h
    refine .bind (.use hsock ?_)
    cases hrecv : p.recv with
    | eintr =>
      rw [hrecv] at h
      exact .pure (h _ _ ⟨rfl, rfl, rfl⟩)
    | timeout =>
      rw [hrecv] at h
      exact .pure (h _ _ ⟨rfl, rfl, rfl⟩)
    | error =>
      rw [hrecv] at h
      exact .pure (h _ _ ⟨rfl, rfl, rfl⟩)
    | datagram d =>
      rw [hrecv] at h
      exact serveDatagram_owning hc hle hsock h

/-- The loop's passes are those of the loop without memory, and what it owned is what it owns. -/
theorem serverLoop_owning {σ : Type} {env : σ} (hc : config.Holds c) (hle : config.blocks ≤ own)
    (hsock : (Kind.socket, sockfd) ∈ own) {passes : List Pass}
    {post : List PassResult × Bool → σ → Resources → Prop}
    (h : ∀ results, List.Forall₂ (fun r e => r.Holds e.2) results
        (FilteringResolver.runServer c s passes) →
      post (results, results.any fun r => !r.goesOn) env own) :
    Owning own env (serverLoop config sockfd s passes) post := by
  induction passes generalizing s post with
  | nil => exact .pure (h [] .nil)
  | cons p passes ih =>
    rw [FilteringResolver.runServer] at h
    refine .bind (.within (serverPass_owning hc hle hsock fun r a' hr => ?_))
    dsimp only at h ⊢
    rw [← hr.goesOn] at h
    split
    · next hgo =>
      rw [if_pos hgo, ← hr.state] at h
      refine .bind (ih fun results hresults => ?_)
      have hp := h (r :: results) (.cons hr hresults)
      rw [List.any_cons, hgo, Bool.not_true, Bool.false_or] at hp
      exact .pure hp
    · next hgo =>
      rw [if_neg hgo] at h
      have hp := h [r] (.cons hr .nil)
      simp only [List.any_cons, hgo] at hp
      exact .pure hp

end

/-! ## The server -/

/-- The socket of the server opens. -/
def ServerHost.listens (host : ServerHost) (port : UInt16) : Bool :=
  host.socket && host.reuseaddr && host.rcvtimeo && host.bind port

theorem initUdpServer_owning {σ : Type} {env : σ} {host : ServerHost} {port : UInt16}
    {post : Option Nat → σ → Resources → Prop}
    (failed : host.listens port = false → post none env own)
    (opened : ∀ sockfd, host.listens port = true →
      post (some sockfd) env (own + {(.socket, sockfd)})) :
    Owning own env (initUdpServer host port) post := by
  unfold initUdpServer
  split
  · next hsocket => exact .pure (failed (by simp [ServerHost.listens, hsocket]))
  next hsocket =>
  have hclose : ∀ sockfd, host.listens port = false →
      Owning (own + {(Kind.socket, sockfd)}) env (do release (.socket, sockfd); pure none) post :=
    fun sockfd h => .bind (.release rfl (.pure (failed h)))
  refine .bind (.acquire fun sockfd => ?_)
  split
  · next hreuse => exact hclose sockfd (by simp [ServerHost.listens, hreuse])
  split
  · next htime => exact hclose sockfd (by simp [ServerHost.listens, htime])
  split
  · next hbind => exact hclose sockfd (by simp [ServerHost.listens, hbind])
  · next hreuse htime hbind =>
    exact .pure (opened sockfd (by simp_all [ServerHost.listens]))

/-- The socket is open in the end exactly when the server listens on it. -/
theorem getLast?_opening (host : ServerHost) (port : UInt16) :
    (host.opening port).getLast? = some (host.listens port) := by
  unfold ServerHost.opening ServerHost.listens
  cases host.socket <;> cases host.reuseaddr <;> cases host.rcvtimeo <;>
    cases host.bind port <;> rfl

theorem initUdpServerCut_owning {σ : Type} {env : σ} {isOpen : Bool}
    {post : Option Nat → σ → Resources → Prop} (closed : isOpen = false → post none env own)
    (opened : ∀ sockfd, isOpen = true → post (some sockfd) env (own + {(.socket, sockfd)})) :
    Owning own env (initUdpServerCut isOpen) post := by
  unfold initUdpServerCut
  split
  · next hopen => exact .bind (.acquire fun sockfd => .pure (opened sockfd hopen))
  · next hclosed => exact .pure (closed (eq_false_of_ne_true hclosed))

/-- **`run_server` owns its socket while it runs and nothing when it returns.** -/
theorem runServer_owning {σ : Type} {env : σ} {config : ServerConfig}
    {c : FilteringResolver.ServerConfig} (hc : config.Holds c) (hle : config.blocks ≤ own)
    {host : ServerHost} {q : QueryBuffer} {passes : List Pass}
    {post : ServerRun → σ → Resources → Prop}
    (unopened : host.listens config.localPort = false →
      post ⟨some errSocketCreate, []⟩ env own)
    (ended : ∀ results, host.listens config.localPort = true →
      List.Forall₂ (fun r e => r.Holds e.2) results
        (FilteringResolver.runServer c ⟨q, 0, 0, 0, 0⟩ passes) →
      (∃ r ∈ results, r.goesOn = false) → post ⟨some errSuccess, results⟩ env own)
    (running : ∀ results sockfd, host.listens config.localPort = true →
      List.Forall₂ (fun r e => r.Holds e.2) results
        (FilteringResolver.runServer c ⟨q, 0, 0, 0, 0⟩ passes) →
      (∀ r ∈ results, r.goesOn = true) → post ⟨none, results⟩ env (own + {(.socket, sockfd)})) :
    Owning own env (runServer (some config) host q passes) post := by
  have hconfig : (Kind.block, config.addr) ∈ own := Multiset.mem_of_le hle (by
    simp [ServerConfig.blocks])
  refine .bind (.use hconfig (.bind (initUdpServer_owning (fun hlisten => ?_)
    fun sockfd hlisten => ?_)))
  · exact .pure (unopened hlisten)
  · refine .bind (serverLoop_owning hc (le_trans hle (Multiset.le_add_right _ _)) (by simp)
      fun results hresults => ?_)
    dsimp only
    split
    · next hended =>
      rw [List.any_eq_true] at hended
      obtain ⟨r, hr, hgo⟩ := hended
      refine .bind (.release rfl (.pure (ended results hlisten hresults ⟨r, hr, ?_⟩)))
      simpa using hgo
    · next hgoing => exact .pure (running results sockfd hlisten hresults (by simpa using hgoing))

/-- The passes are those of the loop without memory. -/
def Passes (c : FilteringResolver.ServerConfig) (q : QueryBuffer) (passes : List Pass)
    (results : List PassResult) : Prop :=
  List.Forall₂ (fun r e => r.Holds e.2) results
    (FilteringResolver.runServer c ⟨q, 0, 0, 0, 0⟩ passes)

/-- **A whole run of the server** never reads or frees what is gone, and its passes are those of
the loop without memory. When it returns, everything is as before, and while it runs it holds its
socket and nothing else, however many datagrams it has answered. -/
theorem runServer_memory {σ : Type} (env : σ) {config : ServerConfig}
    {c : FilteringResolver.ServerConfig} (hc : config.Holds c) (l : Ledger Kind)
    (hle : config.blocks ≤ l.live) (host : ServerHost) (q : QueryBuffer) (passes : List Pass) :
    ∃ run l', runServer (some config) host q passes env l = some ((run, env), l') ∧
      (host.listens config.localPort = true → Passes c q passes run.passes) ∧
      (run.ret = some errSocketCreate ∧ host.listens config.localPort = false ∧
          run.passes = [] ∧ l'.live = l.live ∨
        run.ret = some errSuccess ∧ (∃ r ∈ run.passes, r.goesOn = false) ∧ l'.live = l.live ∨
        run.ret = none ∧ (∀ r ∈ run.passes, r.goesOn = true) ∧
          ∃ sockfd, l'.live = l.live + {(.socket, sockfd)}) := by
  have hserver : Owning l.live env (runServer (some config) host q passes) fun run env' own' =>
      env' = env ∧ (host.listens config.localPort = true → Passes c q passes run.passes) ∧
      (run.ret = some errSocketCreate ∧ host.listens config.localPort = false ∧
          run.passes = [] ∧ own' = l.live ∨
        run.ret = some errSuccess ∧ (∃ r ∈ run.passes, r.goesOn = false) ∧ own' = l.live ∨
        run.ret = none ∧ (∀ r ∈ run.passes, r.goesOn = true) ∧
          ∃ sockfd, own' = l.live + {(.socket, sockfd)}) := by
    refine runServer_owning hc hle (fun hlisten => ?_) (fun results hlisten hpasses hended => ?_)
      fun results sockfd hlisten hpasses hgoing => ?_
    · refine ⟨rfl, fun hlisten' => ?_, .inl ⟨rfl, hlisten, rfl, rfl⟩⟩
      rw [hlisten] at hlisten'
      cases hlisten'
    · exact ⟨rfl, fun _ => hpasses, .inr (.inl ⟨rfl, hended, rfl⟩)⟩
    · exact ⟨rfl, fun _ => hpasses, .inr (.inr ⟨rfl, hgoing, sockfd, rfl⟩)⟩
  obtain ⟨run, _, l', hrun, rfl, hpasses, hret⟩ := hserver.run
  exact ⟨run, l', hrun, hpasses, hret⟩

/-- The server on its port, with a query for `a` and then a signal. -/
theorem runServer_memory_stopped :
    let b : Bytes := [0x12, 0x34, 1, 0, 0, 1, 0, 0, 0, 0, 0, 0, 1, 97, 0, 0, 1, 0, 1]
    let host : ServerHost := ⟨true, true, true, fun _ => true⟩
    let q : QueryBuffer := ⟨List.replicate 512 0, List.length_replicate⟩
    let passes : List Pass :=
      [⟨true, true, .datagram ⟨⟨0x7F000001, 4242⟩, b⟩, deafHost, .ok, .sent 19⟩,
        ⟨false, false, .timeout, deafHost, .ok, .error⟩]
    ∃ run l',
      runServer (some emptyConfig) host q passes () emptyConfigLedger = some ((run, ()), l') ∧
      (host.listens emptyConfig.localPort = true →
        Passes ⟨.ofBuffer [56], .empty⟩ q passes run.passes) ∧
      (run.ret = some errSocketCreate ∧ host.listens emptyConfig.localPort = false ∧
          run.passes = [] ∧ l'.live = emptyConfigLedger.live ∨
        run.ret = some errSuccess ∧ (∃ r ∈ run.passes, r.goesOn = false) ∧
          l'.live = emptyConfigLedger.live ∨
        run.ret = none ∧ (∀ r ∈ run.passes, r.goesOn = true) ∧
          ∃ sockfd, l'.live = emptyConfigLedger.live + {(.socket, sockfd)}) :=
  runServer_memory () emptyConfig_holds emptyConfigLedger emptyConfig_live _ _ _

end FilteringResolver.Heap
