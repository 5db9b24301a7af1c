import FilteringResolver.Lib.Requests
import FilteringResolver.Verify.Bounds
import FilteringResolver.Verify.Service

/-!
# Short of memory

What becomes of a query when allocations fail. A message needs one allocation for each question
and two more, or a single one without questions (`messageAllocs`); a lookup needs one for the array
and one for each label it cuts off (`lookupAllocs`). Without them a query gets no answer, SERVFAIL,
or, for a blocked name, the upstream's reply (`processDnsQuery_degraded`,
`processDnsQuery_leaked_iff`); with memory for 233 allocations in each pass a run shows what it
would show with any amount of it (`runServer_enough`).
-/

namespace FilteringResolver

open Loops Requests Separated

/-! ## Parsing -/

section

variable {b : Buffer} {offset jumps fin last : Nat} {ls : List Bytes} {qs : List DnsQuestion}

/-- A question that is there fails only for memory. -/
theorem parseDnsQuestion_eq (h : QuestionAt b offset ls jumps fin) (a : Allocs) :
    parseDnsQuestion b offset a =
      if a.head then (some (questionOf b ls fin, fin + 4), a.tail) else (none, a.tail) := by
  have hlt := h.decodes.pos_lt
  have hfits := h.fits
  rw [parseDnsQuestion, if_neg (by omega),
    parseDnsName_complete (by omega) h.decodes h.jumps_le (by simpa using h.octets_le)]
  dsimp only
  rw [if_neg (by omega), strdup]
  cases a.head <;> rfl

/-- A row of questions needs an allocation for each. -/
theorem QuestionsAt.needs (h : QuestionsAt b offset qs last) :
    Needs qs.length (· = none) (parseQuestions b qs.length offset) := by
  induction h with
  | nil => exact .pure _ _
  | @cons offset jumps fin last ls qs first rest ih =>
    rw [List.length_cons, Nat.add_comm]
    have hrest : Needs qs.length (· = none) fun a =>
        ((parseQuestions b qs.length (fin + 4) a).1.map fun r => (questionOf b ls fin :: r.1, r.2),
          (parseQuestions b qs.length (fin + 4) a).2) := by
      refine ih.map (Option.map _) (fun _ => rfl) ?_
      rintro _ rfl
      rfl
    refine hrest.request (fun a ha => ?_) fun a ha => ?_
    · rw [Nat.add_comm, parseQuestions, parseDnsQuestion_eq first, if_pos ha]
      dsimp only
      rcases parseQuestions b qs.length (fin + 4) a.tail with ⟨_ | ⟨questions, offset⟩, a'⟩ <;> rfl
    · rw [Nat.add_comm, parseQuestions, parseDnsQuestion_eq first, ha]
      rfl

end

/-- The allocations of a message with this header: the copy of the datagram and, when it has
questions, their array and names. -/
def messageAllocs (header : DnsHeader) : Nat :=
  if header.qdcount = 0 then 1 else header.qdcount.toNat + 2

/-- **An accepted datagram** is parsed when its allocations succeed and fails otherwise. -/
theorem Parsed.needs {b : Buffer} {m : DnsMessage} (h : Parsed b m) :
    Needs (messageAllocs m.header) (·.1 = Ret.failure) fun a =>
      (((parseDnsMessage b a).1, (parseDnsMessage b a).2.1), (parseDnsMessage b a).2.2) := by
  cases h with
  | @headerOnly header parse zero =>
    have hcount : messageAllocs (DnsMessage.ofParts header none b).header = 1 := if_pos zero
    rw [hcount]
    refine (Needs.pure _ (Ret.success, DnsMessage.ofParts header none b)).request
      (fun a ha => ?_) fun a ha => ?_
    · simp only [parseDnsMessage, parse, zero, ite_true, malloc, ha]
    · simp only [parseDnsMessage, parse, zero, ite_true, malloc, ha]
  | @questions header qs last parse nonzero row length_eq =>
    have hcount : messageAllocs (DnsMessage.ofParts header (some qs) b).header =
        1 + (qs.length + (1 + 0)) := by
      rw [length_eq, Nat.add_comm]
      exact if_neg nonzero
    have hall : (parseQuestions b qs.length dnsHeaderSize all).1 = some (qs, last) :=
      congrArg Prod.fst (parseQuestions_complete row)
    rw [hcount]
    -- the copy of the datagram, when there are questions
    let copy (r : Option (List DnsQuestion × Nat)) (a : Allocs) : (Ret × DnsMessage) × Allocs :=
      r.elim ((.failure, .ofHeader header), a) fun rows =>
        if a.head then ((.success, .ofParts header (some rows.1) b), a.tail)
        else ((.failure, .ofHeader header), a.tail)
    have hcopy : Needs (qs.length + (1 + 0)) (·.1 = Ret.failure) fun a =>
        copy (parseQuestions b qs.length dnsHeaderSize a).1
          (parseQuestions b qs.length dnsHeaderSize a).2 := by
      refine row.needs.bind (g := copy) ?_ (fun _ => rfl) ?_
      · rw [hall]
        refine (Needs.pure _ _).request (fun a ha => if_pos ha) fun a ha => ?_
        dsimp only [copy, Option.elim]
        rw [ha]
        rfl
      · rintro _ a rfl
        rfl
    refine hcopy.request (fun a ha => ?_) fun a ha => ?_
    · simp only [parseDnsMessage, parse, nonzero, ite_false, malloc, ha, ← length_eq]
      rcases parseQuestions b qs.length dnsHeaderSize a.tail with ⟨_ | ⟨rows, next⟩, a'⟩
      · rfl
      · dsimp only [copy, Option.elim]
        cases a'.head <;> rfl
    · simp only [parseDnsMessage, parse, nonzero, ite_false, malloc, ha]

/-! ## Looking up -/

/-- The labels that the splitter cuts off: from the last one on, up to one that is too long. -/
def cutLabels (ls : List Bytes) : List Bytes :=
  ls.reverse.takeWhile fun l => l.length ≤ dnsMaxLabelLen

theorem cutLabels_append (ls : List Bytes) (l : Bytes) :
    cutLabels (ls ++ [l]) = if l.length ≤ dnsMaxLabelLen then l :: cutLabels ls else [] := by
  simp only [cutLabels, List.reverse_append, List.reverse_singleton, List.singleton_append,
    List.takeWhile_cons, decide_eq_true_eq]

/-- What one pass of the splitter does with a text without empty labels, whatever its allocation
answers: it stops at a long label, or cuts the last label off. -/
inductive CutPass (domain : Bytes) (e : Nat) : Prop where
  | long {label : Bytes} {init : List Bytes} (lt : dnsMaxLabelLen < label.length)
      (pieces : (domain.take e).splitOn dot = init ++ [label])
      (step : ∀ acc a, splitStep domain ⟨e, acc, a⟩ = .inr (none, a))
  | last {label : Bytes} (le : label.length ≤ dnsMaxLabelLen)
      (pieces : (domain.take e).splitOn dot = [label])
      (step : ∀ acc a, splitStep domain ⟨e, acc, a⟩ =
        if a.head then .inr (some (acc ++ [.ofBuffer label]), a.tail) else .inr (none, a.tail))
  | next {label : Bytes} {e' : Nat} (le : label.length ≤ dnsMaxLabelLen) (lt : e' < e)
      (pieces : (domain.take e).splitOn dot = (domain.take e').splitOn dot ++ [label])
      (step : ∀ acc a, splitStep domain ⟨e, acc, a⟩ =
        if a.head then .inl ⟨e', acc ++ [.ofBuffer label], a.tail⟩ else .inr (none, a.tail))

theorem splitStep_cutPass {domain : Bytes} {e : Nat} (he : e ≤ domain.length)
    (h : NoEmptyPiece dot (domain.take e)) : CutPass domain e := by
  obtain ⟨h0, hlen, hpos, hdot, hfst, hrest⟩ := scanStart_cut he h
  have hle : scanStart domain (e - 1) ≤ e - 1 := scanStart_le _ _
  have hstep (acc : List CStr) (a : Allocs) : splitStep domain ⟨e, acc, a⟩ =
      if e - scanStart domain (e - 1) = 0 then .inr (none, a)
      else if dnsMaxLabelLen < e - scanStart domain (e - 1) then .inr (none, a)
      else if a.head then
        if 0 < scanStart domain (e - 1) then
          .inl ⟨scanStart domain (e - 1) - 1, acc ++ [.ofBuffer
            ((domain.drop (scanStart domain (e - 1))).take (e - scanStart domain (e - 1)))], a.tail⟩
        else .inr (some (acc ++ [.ofBuffer
          ((domain.drop (scanStart domain (e - 1))).take (e - scanStart domain (e - 1)))]), a.tail)
      else .inr (none, a.tail) := by
    simp only [splitStep, if_pos h0, malloc]
    cases a.head <;> rfl
  generalize scanStart domain (e - 1) = start at *
  have hne : e - start ≠ 0 := by omega
  have hpieces : ∃ init, (domain.take e).splitOn dot =
      init ++ [(domain.drop start).take (e - start)] := by
    rcases Nat.eq_zero_or_pos start with hs | hs
    · exact ⟨[], by rw [hfst hs, List.splitOn_eq_singleton hdot]; rfl⟩
    · exact ⟨_, by rw [hrest hs, splitOn_append_sep hdot]⟩
  by_cases hlong : dnsMaxLabelLen < e - start
  · obtain ⟨init, hinit⟩ := hpieces
    refine .long (by rwa [hlen]) hinit fun acc a => ?_
    rw [hstep, if_neg hne, if_pos hlong]
  have hshort : ((domain.drop start).take (e - start)).length ≤ dnsMaxLabelLen := by
    rw [hlen]
    exact Nat.le_of_not_lt hlong
  by_cases hs : 0 < start
  · refine @CutPass.next _ _ _ (start - 1) hshort (by omega) ?_ fun acc a => ?_
    · rw [hrest hs, splitOn_append_sep hdot]
    · rw [hstep, if_neg hne, if_neg hlong, if_pos hs]
  · refine .last hshort ?_ fun acc a => ?_
    · rw [hfst (Nat.eq_zero_of_not_pos hs), List.splitOn_eq_singleton hdot]
    · rw [hstep, if_neg hne, if_neg hlong, if_neg hs]

/-- The splitter needs an allocation for each label that it cuts off. -/
theorem splitLoop_needs (domain : Bytes) (e : Nat) (acc : List CStr) (he : e ≤ domain.length)
    (h : NoEmptyPiece dot (domain.take e)) :
    Needs (cutLabels ((domain.take e).splitOn dot)).length (· = none)
      fun a => (splitLoop domain).run ⟨e, acc, a⟩ := by
  induction e using Nat.strongRecOn generalizing acc with
  | ind e ih =>
    -- without memory for its label a pass leaves the loop
    have refused {f : Allocs → SplitState ⊕ Option (List CStr) × Allocs}
        (hstep : ∀ a, splitStep domain ⟨e, acc, a⟩ =
          if a.head then f a else .inr (none, a.tail)) (a : Allocs) (ha : a.head = false) :
        ((splitLoop domain).run ⟨e, acc, a⟩).1 = none := by
      have hexit : (splitLoop domain).step ⟨e, acc, a⟩ = .inr (none, a.tail) := by
        refine (hstep a).trans ?_
        rw [ha]
        rfl
      rw [Loop.run_exit _ hexit]
    cases splitStep_cutPass he h with
    | long lt pieces step =>
      rw [pieces, cutLabels_append, if_neg (Nat.not_le.2 lt)]
      have hrun : (fun a => (splitLoop domain).run ⟨e, acc, a⟩) = fun a => (none, a) :=
        funext fun a => Loop.run_exit _ (step acc a)
      rw [hrun]
      exact .pure _ _
    | @last label le pieces step =>
      rw [pieces, ← List.nil_append [label], cutLabels_append, if_pos le]
      refine (Needs.pure _ (some (acc ++ [CStr.ofBuffer label]))).request (fun a ha => ?_)
        (refused (step acc))
      exact Loop.run_exit _ ((step acc a).trans (if_pos ha))
    | @next label e' le lt pieces step =>
      have hcut : NoEmptyPiece dot (domain.take e') := fun hm =>
        h (pieces ▸ List.mem_append_left _ hm)
      rw [pieces, cutLabels_append, if_pos le, List.length_cons, Nat.add_comm]
      refine (ih e' lt (acc ++ [.ofBuffer label]) (Nat.le_trans (Nat.le_of_lt lt) he)
        hcut).request (fun a ha => ?_) (refused (step acc))
      exact Loop.run_next _ ((step acc a).trans (if_pos ha))

/-- The array of labels needs itself and its labels. -/
theorem splitDomainLabels_needs {n : CStr} (h : NoEmptyPiece dot n.bytes) :
    Needs (1 + (cutLabels (n.bytes.splitOn dot)).length) (· = none) (splitDomainLabels n) := by
  have hsplit := splitLoop_needs n.bytes n.bytes.length [] (Nat.le_refl _) (by simpa using h)
  rw [List.take_length] at hsplit
  have hslots := hsplit.map (q := (· = none)) (fun r => r.map fun ls =>
    ls.map some ++ List.replicate (n.bytes.count dot + 1 - ls.length) none) (fun _ => rfl) (by
      rintro _ rfl
      rfl)
  refine hslots.request (fun a ha => ?_) fun a ha => ?_
  · simp only [splitDomainLabels, malloc, ha]
    rcases (splitLoop n.bytes).run ⟨n.bytes.length, [], a.tail⟩ with ⟨_ | ls, a'⟩ <;> rfl
  · simp only [splitDomainLabels, malloc, ha]

/-- The allocations of a lookup of this name. -/
def lookupAllocs (q : CStr) : Nat :=
  match normalName q with
  | none => 0
  | some n => 1 + (cutLabels (n.bytes.splitOn dot)).length

/-- **A lookup** comes to its verdict when its allocations succeed and to "not blocked"
otherwise. -/
theorem isDomainBlocked_needs (root : FilterNode) (q : CStr) :
    Needs (lookupAllocs q) (· = false) (isDomainBlocked root q) := by
  unfold lookupAllocs
  cases hn : normalName q with
  | none =>
    have hnone : isDomainBlocked root q = fun a => (false, a) := by
      funext a
      rw [isDomainBlocked, ← normalName, hn]
    rw [hnone]
    exact .pure _ _
  | some n =>
    refine (splitDomainLabels_needs (normalizeDomain_noEmptyPiece hn)).map
      (fun r => r.elim false fun ls => walkLabels ls root) (fun a => ?_) (by
        rintro _ rfl
        rfl)
    rw [isDomainBlocked, ← normalName, hn]
    dsimp only
    rcases splitDomainLabels n a with ⟨_ | ls, a'⟩ <;> rfl

/-! ## Answering -/

/-- The outcome of `forward_query` apart from the allocations it leaves. -/
def ForwardResult.outcome (f : ForwardResult) : Ret × Out × List (SockAddr × Bytes) :=
  (f.ret, f.out, f.sent)

/-- **Forwarding** needs one allocation at most, the buffer for the reply, and sends nothing
without it. -/
theorem forwardQuery_needs (host : Host) (query : DnsMessage) (upstream : CStr) (out : Out) :
    ∃ n ≤ 1, Needs n (· = (Ret.failure, out, [])) fun a =>
      ((forwardQuery host query upstream out a).outcome,
        (forwardQuery host query upstream out a).allocs) := by
  by_cases hno : ∀ raw, query.raw = some raw → raw.len ≠ 0 → host.upstreamIp upstream = none
  · refine ⟨0, Nat.zero_le 1, ?_⟩
    have heq (a : Allocs) := forwardQuery_unsent host upstream out a hno
    simp only [heq]
    exact .pure _ (Ret.failure, out, [])
  · push Not at hno
    obtain ⟨raw, hraw, hlen, hip⟩ := hno
    refine ⟨1, Nat.le_refl 1, ?_⟩
    unfold Host.upstreamIp at hip
    split at hip <;> [exact absurd rfl hip; skip]
    next text htext =>
    split at hip <;> [exact absurd rfl hip; skip]
    next hsock =>
    obtain ⟨ip, hip⟩ := Option.ne_none_iff_exists'.1 hip
    refine (Needs.pure _ (forwardQuery host query upstream out .ok).outcome).request
      (fun a ha => ?_) fun a ha => ?_
    · simp only [forwardQuery, hraw, hlen, if_false, htext, hsock, hip, malloc, ha]
      cases (retryLoop host raw upstreamRetries 0 ⟨none, ⟨ip, upstreamPort⟩, []⟩).received with
      | none => rfl
      | some reply =>
        dsimp only
        split <;> rfl
    · simp only [forwardQuery, hraw, hlen, if_false, htext, hsock, hip, malloc, ha]
      rfl

theorem forwardQuery_outcome (host : Host) (query : DnsMessage) (upstream : CStr) (out : Out)
    (a : Allocs) :
    let f := forwardQuery host query upstream out a
    let full := forwardQuery host query upstream out .ok
    (f.ret = full.ret ∧ f.out = full.out ∧ f.sent = full.sent) ∨
      (f.ret = .failure ∧ f.out = out ∧ f.sent = []) := by
  intro f full
  obtain ⟨n, -, hneeds⟩ := forwardQuery_needs host query upstream out
  rcases hneeds.eq_or_bad a with heq | hbad
  · exact .inl ⟨congrArg (·.1) heq, congrArg (·.2.1) heq, congrArg (·.2.2) heq⟩
  · exact .inr ⟨congrArg (·.1) hbad, congrArg (·.2.1) hbad, congrArg (·.2.2) hbad⟩

/-- The outcome of a query apart from the allocations it leaves. -/
def QueryResult.outcome (r : QueryResult) :
    Ret × Out × Option DnsMessage × List (SockAddr × Bytes) :=
  (r.ret, r.out, r.forwarded, r.sent)

/-- **An error response** needs one allocation at most, its own octets, and there is no response
without it. -/
theorem replyError_needs (query : DnsMessage) (rcode : UInt8) (out : Out)
    (forwarded : Option DnsMessage) (sent : List (SockAddr × Bytes)) :
    ∃ n ≤ 1, Needs n (fun x => x.1 = Ret.failure ∧ x.2.1.response = none)
      fun a => ((replyError query rcode out a forwarded sent).outcome,
        (replyError query rcode out a forwarded sent).allocs) := by
  by_cases hbuilt : ∃ respLen response, ∀ a, buildErrorResponse query rcode out a =
      if a.head then (.success, ⟨some response, respLen⟩, a.tail)
      else (.failure, ⟨none, respLen⟩, a.tail)
  · obtain ⟨respLen, response, heq⟩ := hbuilt
    refine ⟨1, Nat.le_refl 1, (Needs.pure _ (Ret.success, (⟨some response, respLen⟩ : Out),
      forwarded, sent)).request (fun a ha => ?_) fun a ha => ?_⟩
    · rw [replyError, heq, if_pos ha]
      rfl
    · rw [replyError, heq, ha]
      exact ⟨rfl, rfl⟩
  · have heq (a : Allocs) : buildErrorResponse query rcode out a = (.failure, out, a) := by
      unfold buildErrorResponse
      split <;> [rfl; skip]
      next hrcode =>
      split <;> [rfl; skip]
      next raw hraw =>
      split <;> [rfl; skip]
      next hlen =>
      split <;> [rfl; skip]
      next size hsize =>
      refine absurd ⟨dnsHeaderSize + size, buildDnsHeader (errorHeader query.header rcode) ++
        raw.slice dnsHeaderSize size, fun a => ?_⟩ hbuilt
      simp only [buildErrorResponse, if_neg hrcode, hraw, if_neg hlen, hsize, malloc]
      cases a.head <;> rfl
    refine ⟨0, Nat.zero_le 1, ?_⟩
    simp only [replyError, heq]
    exact .pure _ (Ret.failure, out, forwarded, sent)

theorem replyError_outcome (m : DnsMessage) (rcode : UInt8) (out : Out) (a : Allocs)
    (forwarded : Option DnsMessage) (sent : List (SockAddr × Bytes)) :
    let r := replyError m rcode out a forwarded sent
    r.outcome = (replyError m rcode out .ok forwarded sent).outcome ∨
      (r.ret = .failure ∧ r.out.response = none) := by
  intro r
  obtain ⟨n, -, hneeds⟩ := replyError_needs m rcode out forwarded sent
  rcases hneeds.eq_or_bad a with heq | ⟨hret, hnone⟩
  · exact .inl heq
  · exact .inr ⟨hret, hnone⟩

/-- A verdict is given only with its allocations. -/
theorem isDomainBlocked_all {root : FilterNode} {q : CStr} {a : Allocs}
    (h : (isDomainBlocked root q a).1 = true) : (isDomainBlocked root q .ok).1 = true := by
  rcases (isDomainBlocked_needs root q).eq_or_bad a with heq | hfalse
  · exact heq.symm.trans h
  · exact absurd (h.symm.trans hfalse) (by decide)

theorem Asked.ok {b : Buffer} {a a' : Allocs} {m : DnsMessage} {q : DnsQuestion}
    (asked : Asked b a m q a') : Asked b .ok m q .ok :=
  ⟨(parseDnsMessage_parsed asked.parse).parse_ok, asked.nonzero, asked.first⟩

section

variable (config : ServerConfig) {b : Buffer} (out : Out) (host : Host) {m : DnsMessage}
  {q : DnsQuestion}

/-- With memory, a blocked name is answered with NXDOMAIN. -/
theorem processDnsQuery_blocked (asked : Asked b .ok m q .ok) (htype : q.qtype = dnsTypeA)
    (hblocked : (isDomainBlocked config.filterRoot q.qname .ok).1 = true) :
    processDnsQuery config b out host .ok = replyError m dnsRcodeNxdomain out .ok none [] := by
  obtain ⟨rest, hfirst⟩ := asked.first
  rw [processDnsQuery_address config out host asked.parse asked.nonzero hfirst htype]
  rcases hv : isDomainBlocked config.filterRoot q.qname .ok with ⟨v, a⟩
  obtain rfl := isDomainBlocked_ok hv
  rw [hv] at hblocked
  obtain rfl : v = true := hblocked
  rfl

/-- With memory, any other name is asked of the upstream. -/
theorem processDnsQuery_allowed_ok (asked : Asked b .ok m q .ok) (htype : q.qtype = dnsTypeA)
    (hallowed : (isDomainBlocked config.filterRoot q.qname .ok).1 = false) :
    processDnsQuery config b out host .ok =
      let f := forwardQuery host m config.upstreamServer out .ok
      if f.ret ≠ .success then replyError m dnsRcodeServfail f.out .ok (some m) f.sent
      else ⟨.success, f.out, some m, f.sent, .ok⟩ := by
  obtain ⟨rest, hfirst⟩ := asked.first
  rw [processDnsQuery_address config out host asked.parse asked.nonzero hfirst htype]
  rcases hv : isDomainBlocked config.filterRoot q.qname .ok with ⟨v, a⟩
  obtain rfl := isDomainBlocked_ok hv
  rw [hv] at hallowed
  obtain rfl : v = false := hallowed
  dsimp only
  rw [forwardQuery_ok rfl]

end

/-- What can become of a query when memory is short: the same as with all the memory there is; no
response; without a buffer for the upstream's reply, SERVFAIL with nothing sent; and without memory
for the lookup, a blocked name that is asked of the upstream. -/
inductive Degraded (config : ServerConfig) (b : Buffer) (out : Out) (host : Host)
    (r : QueryResult) : Prop where
  | same (eq : r.outcome = (processDnsQuery config b out host .ok).outcome)
  | dropped (ret : r.ret = .failure) (silent : r.out = out ∨ r.out.response = none)
  | servfail {m : DnsMessage} (forwarded : r.forwarded = some m)
      (forwarded_ok : (processDnsQuery config b out host .ok).forwarded = some m)
      (eq : r.outcome = (replyError m dnsRcodeServfail out .ok (some m) []).outcome)
  | leaked {m : DnsMessage} {q : DnsQuestion} (asked : Asked b .ok m q .ok)
      (blocked : (isDomainBlocked config.filterRoot q.qname .ok).1 = true)
      (eq_ok : processDnsQuery config b out host .ok =
        replyError m dnsRcodeNxdomain out .ok none [])
      (forwarded : r.forwarded = some m)

/-- An error response is the same with less memory, or there is none. -/
theorem Degraded.replyError {config : ServerConfig} {b : Buffer} {out : Out} {host : Host}
    {m : DnsMessage} {rcode : UInt8} {a : Allocs}
    (h : processDnsQuery config b out host .ok = replyError m rcode out .ok none []) :
    Degraded config b out host (replyError m rcode out a none []) := by
  rcases replyError_outcome m rcode out a none [] with heq | ⟨hret, hnone⟩
  · exact .same (heq.trans (congrArg QueryResult.outcome h.symm))
  · exact .dropped hret (.inr hnone)

/-- **No query is answered wrongly for want of memory**, except that a blocked name may be asked
of the upstream. -/
theorem processDnsQuery_degraded (config : ServerConfig) (b : Buffer) (out : Out) (host : Host)
    (a : Allocs) : Degraded config b out host (processDnsQuery config b out host a) := by
  have hproc := processDnsQuery_processed config b out host a
  generalize processDnsQuery config b out host a = r at hproc
  cases hproc with
  | unparsed => exact .dropped rfl (.inl rfl)
  | @noQuestion m a' parse zero =>
    refine .replyError ?_
    rw [processDnsQuery, (parseDnsMessage_parsed parse).parse_ok]
    exact if_pos zero
  | @otherType m q a' asked type =>
    exact .replyError (processDnsQuery_otherType config out host asked.ok type)
  | @blocked m q a' a'' asked type verdict =>
    refine .replyError (processDnsQuery_blocked config out host asked.ok type ?_)
    exact isDomainBlocked_all (congrArg Prod.fst verdict)
  | @relayed m q a' a'' f asked type verdict forward ok =>
    cases hv : (isDomainBlocked config.filterRoot q.qname .ok).1 with
    | true =>
      exact .leaked asked.ok hv (processDnsQuery_blocked config out host asked.ok type hv) rfl
    | false =>
      subst forward
      rcases forwardQuery_outcome host m config.upstreamServer out a'' with
        ⟨hret, hout, hsent⟩ | ⟨hret, -⟩
      · refine .same ?_
        rw [processDnsQuery_allowed_ok config out host asked.ok type hv]
        dsimp only
        rw [if_neg (not_not.2 (hret ▸ ok)), hout, hsent]
        rfl
      · exact absurd (ok.symm.trans hret) (by decide)
  | @unanswered m q a' a'' f asked type verdict forward ok =>
    cases hv : (isDomainBlocked config.filterRoot q.qname .ok).1 with
    | true =>
      exact .leaked asked.ok hv (processDnsQuery_blocked config out host asked.ok type hv)
        (replyError_forwarded ..)
    | false =>
      subst forward
      have hfull := processDnsQuery_allowed_ok config out host asked.ok type hv
      rcases replyError_outcome m dnsRcodeServfail
        (forwardQuery host m config.upstreamServer out a'').out
        (forwardQuery host m config.upstreamServer out a'').allocs (some m)
        (forwardQuery host m config.upstreamServer out a'').sent with heq | ⟨hret, hnone⟩
      · rcases forwardQuery_outcome host m config.upstreamServer out a'' with
          ⟨hret, hout, hsent⟩ | ⟨-, hout, hsent⟩
        · refine .same (heq.trans ?_)
          rw [hfull]
          dsimp only
          rw [if_pos (hret ▸ ok), hout, hsent]
        · rw [hout, hsent] at heq ⊢
          refine .servfail (replyError_forwarded ..) ?_ heq
          rw [hfull]
          dsimp only
          split
          · exact replyError_forwarded ..
          · rfl
      · exact .dropped hret (.inr hnone)

/-! ## How much memory is enough -/

theorem Parsed.parse_granted {b : Buffer} {m : DnsMessage} (h : Parsed b m) {a : Allocs}
    (ha : Grants (messageAllocs m.header) a) :
    parseDnsMessage b a = (.success, m, a.drop (messageAllocs m.header)) := by
  have hgranted := h.needs.granted ha
  have hok : parseDnsMessage b all = (.success, m, .ok) := h.parse_ok
  rw [hok] at hgranted
  exact Prod.ext (congrArg (·.1.1) hgranted)
    (Prod.ext (congrArg (·.1.2) hgranted) (congrArg (·.2) hgranted))

theorem Asked.granted {b : Buffer} {m : DnsMessage} {q : DnsQuestion} (asked : Asked b .ok m q .ok)
    {a : Allocs} (ha : Grants (messageAllocs m.header) a) :
    Asked b a m q (a.drop (messageAllocs m.header)) :=
  ⟨(parseDnsMessage_parsed asked.parse).parse_granted ha, asked.nonzero, asked.first⟩

/-- **The filter fails open**: a query for a blocked name is asked of the upstream exactly when
there is memory to parse it and none for one of the allocations of the lookup. -/
theorem processDnsQuery_leaked_iff (config : ServerConfig) (out : Out) (host : Host) {b : Buffer}
    {m : DnsMessage} {q : DnsQuestion} (asked : Asked b .ok m q .ok) (htype : q.qtype = dnsTypeA)
    (hblocked : (isDomainBlocked config.filterRoot q.qname .ok).1 = true) (a : Allocs) :
    let k := messageAllocs m.header
    (processDnsQuery config b out host a).forwarded = some m ↔
      (∀ i < k, a.get i = true) ∧ ∃ i < lookupAllocs q.qname, a.get (k + i) = false := by
  intro k
  have hneeds := isDomainBlocked_needs config.filterRoot q.qname
  constructor
  · intro h
    obtain ⟨q', a', a'', asked', -, verdict⟩ := forwarded_asked h
    have hparsed : Grants k a := by
      refine (parseDnsMessage_parsed asked.parse).needs.grants_of_not_bad ?_
      rw [asked'.parse]
      exact Ret.noConfusion
    obtain ⟨rest, hfirst⟩ := asked.first
    obtain ⟨-, rfl, rfl⟩ := Asked.eq_of_parse (asked.granted hparsed).parse hfirst asked'
    refine ⟨hparsed, ?_⟩
    have hrefused : ¬ Grants (lookupAllocs q.qname) (a.drop k) := by
      intro hlookup
      have hgranted := hneeds.granted hlookup
      rw [verdict] at hgranted
      exact Bool.noConfusion ((congrArg Prod.fst hgranted).trans hblocked)
    obtain ⟨i, hi, hfalse⟩ := not_grants_iff.1 hrefused
    exact ⟨i, hi, by rwa [Stream'.get_drop] at hfalse⟩
  · rintro ⟨hparsed, i, hi, hfalse⟩
    have asked' := asked.granted hparsed
    obtain ⟨rest, hfirst⟩ := asked.first
    rw [processDnsQuery_address config out host asked'.parse asked'.nonzero hfirst htype]
    have hrefused := hneeds.refused (a := a.drop k)
      (not_grants_iff.2 ⟨i, hi, by rwa [Stream'.get_drop]⟩)
    rcases hv : isDomainBlocked config.filterRoot q.qname (a.drop k) with ⟨v, a'⟩
    rw [hv] at hrefused
    obtain rfl : v = false := hrefused
    dsimp only
    split
    · exact replyError_forwarded ..
    · rfl

/-- The second allocation of the lookup of `a` fails, and the query for `a` leaves. -/
theorem processDnsQuery_leaked_lookup :
    let b := Buffer.ofBytes [0x12, 0x34, 1, 0, 0, 1, 0, 0, 0, 0, 0, 0, 1, 97, 0, 0, 1, 0, 1]
    let root := buildFilter [(.ofBuffer [97], .ok)]
    let a : Allocs := fun i => i != 4
    (processDnsQuery ⟨.ofBuffer [56], root⟩ b ⟨none, 0⟩ deafHost a).forwarded =
      some (parseDnsMessage b .ok).2.1 := by
  intro b root a
  have asked : Asked b .ok (parseDnsMessage b .ok).2.1 ⟨.ofBuffer [97], 1, 1⟩ .ok :=
    ⟨(parseDnsMessage_parsed (Prod.ext (by decide) rfl)).parse_ok, by decide, [], by decide⟩
  exact (processDnsQuery_leaked_iff ⟨.ofBuffer [56], root⟩ ⟨none, 0⟩ deafHost asked rfl (by decide)
    a).2 ⟨by decide, 1, by decide, by decide⟩

/-- No lookup makes more than 129 allocations. -/
theorem lookupAllocs_le (q : CStr) : lookupAllocs q ≤ 129 := by
  unfold lookupAllocs
  split
  · exact Nat.zero_le _
  · next n hn =>
    have hlabels := length_labels_le hn
    rw [labels, List.length_map] at hlabels
    have hcut := (List.takeWhile_prefix (l := (n.bytes.splitOn dot).reverse)
      (fun l : Bytes => decide (l.length ≤ dnsMaxLabelLen))).length_le
    rw [List.length_reverse] at hcut
    exact Nat.add_le_add_left (Nat.le_trans hcut hlabels) 1

/-- A datagram of 512 octets has no more than a hundred questions. -/
theorem messageAllocs_le {b : Buffer} {m : DnsMessage} (h : Parsed b m)
    (hlen : b.len ≤ dnsUdpMaxSize) : messageAllocs m.header ≤ 102 := by
  unfold messageAllocs
  split
  · exact by decide
  · next hne =>
    cases h with
    | headerOnly _ zero => exact absurd zero hne
    | @questions header qs last _ _ row length_eq =>
      obtain ⟨hfive, hend⟩ := row.length_le
      have hqs : qs ≠ [] := by
        rintro rfl
        exact hne (UInt16.toNat.inj length_eq.symm)
      have hlast := hend hqs
      have hcount : (DnsMessage.ofParts header (some qs) b).header.qdcount.toNat = qs.length :=
        length_eq.symm
      simp only [dnsHeaderSize, dnsUdpMaxSize] at hfive hlen
      omega

theorem replyError_granted (m : DnsMessage) (rcode : UInt8) (out : Out) {a : Allocs}
    (ha : Grants 1 a) (forwarded : Option DnsMessage) (sent : List (SockAddr × Bytes)) :
    (replyError m rcode out a forwarded sent).outcome =
      (replyError m rcode out .ok forwarded sent).outcome := by
  obtain ⟨n, hn, hneeds⟩ := replyError_needs m rcode out forwarded sent
  exact congrArg Prod.fst (hneeds.granted (ha.mono hn))

theorem forwardQuery_granted (host : Host) (query : DnsMessage) (upstream : CStr) (out : Out)
    {a : Allocs} (ha : Grants 2 a) :
    let f := forwardQuery host query upstream out a
    let full := forwardQuery host query upstream out .ok
    f.ret = full.ret ∧ f.out = full.out ∧ f.sent = full.sent ∧ Grants 1 f.allocs := by
  intro f full
  obtain ⟨n, hn, hneeds⟩ := forwardQuery_needs host query upstream out
  have hgranted := hneeds.granted (ha.mono (Nat.le_succ_of_le hn))
  have hrest : Grants 1 (a.drop n) := (grants_add.1 (ha.mono (Nat.add_le_add_right hn 1))).2
  have hallocs : f.allocs = a.drop n := congrArg (·.2) hgranted
  exact ⟨congrArg (·.1.1) hgranted, congrArg (·.1.2.1) hgranted, congrArg (·.1.2.2) hgranted,
    hallocs ▸ hrest⟩

/-- With its lookup and two blocks more, a query for an address ends as with all the memory. -/
theorem processDnsQuery_granted (config : ServerConfig) (out : Out) (host : Host) {b : Buffer}
    {m : DnsMessage} {q : DnsQuestion} (asked : Asked b .ok m q .ok) (htype : q.qtype = dnsTypeA)
    {a : Allocs} (ha : Grants (messageAllocs m.header + (lookupAllocs q.qname + 2)) a) :
    (processDnsQuery config b out host a).outcome =
      (processDnsQuery config b out host .ok).outcome := by
  obtain ⟨hparse, hrest⟩ := grants_add.1 ha
  obtain ⟨hlookup, htwo⟩ := grants_add.1 hrest
  have asked' := asked.granted hparse
  obtain ⟨rest, hfirst⟩ := asked.first
  have hverdict := (isDomainBlocked_needs config.filterRoot q.qname).granted hlookup
  generalize (a.drop (messageAllocs m.header)).drop (lookupAllocs q.qname) = a' at hverdict htwo
  rw [processDnsQuery_address config out host asked'.parse asked'.nonzero hfirst htype, hverdict]
  cases hv : (isDomainBlocked config.filterRoot q.qname all).1 with
  | true =>
    rw [processDnsQuery_blocked config out host asked htype hv]
    exact replyError_granted m dnsRcodeNxdomain out (htwo.mono (by decide)) none []
  | false =>
    rw [processDnsQuery_allowed_ok config out host asked htype hv]
    obtain ⟨hret, hout, hsent, hone⟩ := forwardQuery_granted host m config.upstreamServer out htwo
    dsimp only
    rw [hret, hout, hsent]
    split
    · exact replyError_granted m dnsRcodeServfail _ hone (some m) _
    · rfl

/-- **With 233 allocations** every datagram of 512 octets is served as with all the memory there
is: at most one hundred questions, one hundred and twenty-eight labels and five blocks. -/
theorem processDnsQuery_enough (config : ServerConfig) (out : Out) (host : Host) {b : Buffer}
    (hlen : b.len ≤ dnsUdpMaxSize) {a : Allocs} (ha : ∀ i < 233, a.get i = true) :
    (processDnsQuery config b out host a).outcome =
      (processDnsQuery config b out host .ok).outcome := by
  rcases hp : parseDnsMessage b .ok with ⟨ret, m, a'⟩
  by_cases hret : ret = .success
  · subst hret
    obtain rfl := parseDnsMessage_ok hp
    have hparsed := parseDnsMessage_parsed hp
    have hmessage := messageAllocs_le hparsed hlen
    by_cases hzero : m.header.qdcount = 0
    · obtain ⟨hgranted, hrest⟩ := grants_add.1 (Grants.mono ha
        (show messageAllocs m.header + 1 ≤ 233 by omega))
      rw [processDnsQuery, hparsed.parse_granted hgranted, processDnsQuery, hp]
      dsimp only
      rw [if_pos hzero, if_pos hzero]
      exact replyError_granted m dnsRcodeFormerr out hrest none []
    · obtain ⟨ls, _, fin, rest, -, hquestions, -⟩ := hparsed.first hzero
      have asked : Asked b .ok m (questionOf b ls fin) .ok := ⟨hp, hzero, rest, hquestions⟩
      by_cases htype : (questionOf b ls fin).qtype = dnsTypeA
      · have hlookup := lookupAllocs_le (questionOf b ls fin).qname
        exact processDnsQuery_granted config out host asked htype (Grants.mono ha (by omega))
      · obtain ⟨hgranted, hrest⟩ := grants_add.1 (Grants.mono ha
          (show messageAllocs m.header + 1 ≤ 233 by omega))
        rw [processDnsQuery_otherType config out host asked htype,
          processDnsQuery_otherType config out host (asked.granted hgranted) htype]
        exact replyError_granted m dnsRcodeNotimpl out hrest none []
  · have hnone (a : Allocs) : (processDnsQuery config b out host a).outcome =
        (.failure, out, none, []) := by
      rw [processDnsQuery]
      rcases hp' : parseDnsMessage b a with ⟨_ | _ | _, m', a''⟩
      · have hok := (parseDnsMessage_parsed hp').parse_ok
        rw [hp] at hok
        exact absurd (congrArg Prod.fst hok) hret
      · rfl
      · rfl
    rw [hnone, hnone]

/-! ## A whole run -/

theorem QueryResult.eq_of_outcome {r r' : QueryResult} (h : r.outcome = r'.outcome) :
    r = { r' with allocs := r.allocs } := by
  obtain ⟨ret, out, forwarded, sent, allocs⟩ := r
  cases h
  rfl

/-- What a pass leaves, but for the message it parsed and the allocations it has left over. -/
def PassResult.shown (r : PassResult) :
    ServerState × Bool × List (SockAddr × Bytes) × List (SockAddr × Bytes) :=
  (r.state, r.goesOn, r.sent, r.upstream)

/-- The pass with all the memory there is. -/
def Pass.withMemory (p : Pass) : Pass := { p with allocs := .ok }

theorem serverPass_enough (config : ServerConfig) (s : ServerState) {p : Pass}
    (hp : ∀ i < 233, p.allocs.get i = true) :
    (serverPass config s p).shown = (serverPass config s p.withMemory).shown := by
  unfold serverPass Pass.withMemory
  dsimp only
  split <;> [rfl; skip]
  cases p.recv with
  | eintr => rfl
  | timeout => rfl
  | error => rfl
  | datagram d =>
    have hlen : (s.queryBuffer.received d).len ≤ dnsUdpMaxSize := List.length_take_le _ _
    have heq := QueryResult.eq_of_outcome
      (processDnsQuery_enough config ⟨none, 0⟩ p.host hlen hp)
    dsimp only [serveDatagram]
    split <;> [rfl; skip]
    rw [heq]
    generalize processDnsQuery config (s.queryBuffer.received d) ⟨none, 0⟩ p.host .ok = r
    dsimp only
    split <;> rfl

/-- **A run whose passes find memory for 233 allocations** shows what it would show with all the
memory there is: the same states, and the same datagrams to the clients and upstream. -/
theorem runServer_enough (config : ServerConfig) (s : ServerState) (passes : List Pass)
    (h : ∀ p ∈ passes, ∀ i < 233, p.allocs.get i = true) :
    (runServer config s passes).map (·.2.shown) =
      (runServer config s (passes.map Pass.withMemory)).map (·.2.shown) := by
  induction passes generalizing s with
  | nil => rfl
  | cons p passes ih =>
    have hpass := serverPass_enough config s (h p List.mem_cons_self)
    have hstate := congrArg (·.1) hpass
    have hgoesOn := congrArg (·.2.1) hpass
    dsimp only [PassResult.shown] at hstate hgoesOn
    rw [List.map_cons, runServer, runServer, List.map_cons, List.map_cons]
    refine congrArg₂ List.cons hpass ?_
    rw [hstate, hgoesOn]
    split
    · exact ih _ fun p hp => h p (List.mem_cons_of_mem _ hp)
    · rfl

/-- Two queries for `a`, the second with memory for nothing more than 233 allocations. -/
theorem runServer_enough_scarce :
    let query : Bytes := [0x12, 0x34, 1, 0, 0, 1, 0, 0, 0, 0, 0, 0, 1, 97, 0, 0, 1, 0, 1]
    let pass (a : Allocs) : Pass :=
      ⟨true, true, .datagram ⟨⟨0x7F000001, 4242⟩, query⟩, deafHost, a, .sent 19⟩
    let config : ServerConfig := ⟨.ofBuffer [56], buildFilter [(.ofBuffer [97], .ok)]⟩
    let s : ServerState := ⟨⟨List.replicate 512 0, List.length_replicate⟩, 0, 0, 0, 0⟩
    let scarce : Allocs := fun i => decide (i < 233)
    (runServer config s [pass .ok, pass scarce]).map (·.2.shown) =
      (runServer config s [pass .ok, pass .ok]).map (·.2.shown) := by
  intro query pass config s scarce
  apply runServer_enough config s [pass .ok, pass scarce]
  intro p hp i hi
  rcases List.mem_pair.1 hp with rfl | rfl
  · rfl
  · exact decide_eq_true hi

end FilteringResolver
