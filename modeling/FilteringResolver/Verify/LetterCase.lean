import FilteringResolver.Verify.Counters
import FilteringResolver.Verify.NormalName

/-!
# Letter case

Two queries that spell one name with different letter cases are processed side by side. The lookup
computes the same from both names, since normalisation folds the case of every character it copies
(`isDomainBlocked_tolower`); the parser and the builder go by lengths and copy the octets as they
are. So both queries take one branch, and the answers built for them differ by the spelling of
their names only (`processDnsQuery_letterCase`).
-/

namespace FilteringResolver

open Separated

/-! ## Names up to case -/

section

variable {d d' : CStr} (h : d.bytes.map tolower = d'.bytes.map tolower)

theorem dropWhile_isspace_tolower (s : Bytes) :
    (s.map tolower).dropWhile isspace = (s.dropWhile isspace).map tolower := by
  have hspace : isspace ∘ tolower = isspace := funext isspace_tolower
  rw [List.dropWhile_map, hspace]

theorem clean_tolower (s : Bytes) : clean (s.map tolower) = clean s := by
  induction s with
  | nil => rfl
  | cons c s ih =>
    simp only [clean, List.map_cons, List.filter_cons, isspace_tolower] at ih ⊢
    split <;> simp [ih, tolower_tolower]

/-- The copy loop stops at the same character and has written the same. -/
theorem copyLower_tolower (cap : Nat) (s out : Bytes) :
    copyLower cap (s.map tolower) out =
      ((copyLower cap s out).1.map tolower, (copyLower cap s out).2) := by
  induction s generalizing out with
  | nil => rfl
  | cons c s ih =>
    simp only [List.map_cons, copyLower, isspace_tolower, tolower_tolower]
    split
    · split <;> exact ih _
    · rfl

include h

/-- **Normalisation folds case.** -/
theorem normalizeDomain_tolower (len : Nat) : normalizeDomain d len = normalizeDomain d' len := by
  by_cases hlen : len = 0
  · rw [normalizeDomain, normalizeDomain, if_pos hlen, if_pos hlen]
  · have hclean : clean d.bytes = clean d'.bytes := by
      rw [← clean_tolower, h, clean_tolower]
    have hfits : (copyLower (len - 1) (d.bytes.dropWhile isspace) []).1 = [] ↔
        (copyLower (len - 1) (d'.bytes.dropWhile isspace) []).1 = [] := by
      have hcopy : ∀ s : Bytes, (copyLower (len - 1) (s.dropWhile isspace) []).1 = [] ↔
          (copyLower (len - 1) ((s.map tolower).dropWhile isspace) []).1 = [] := by
        intro s
        rw [dropWhile_isspace_tolower, copyLower_tolower, List.map_eq_nil_iff]
      rw [hcopy, h, ← hcopy]
    ext n
    rw [normalizeDomain_iff hlen, normalizeDomain_iff hlen, hfits, hclean]

/-- **The verdict does not see letter case**, and neither do the allocations of a lookup. -/
theorem isDomainBlocked_tolower (root : FilterNode) (a : Allocs) :
    isDomainBlocked root d a = isDomainBlocked root d' a := by
  rw [isDomainBlocked, normalizeDomain_tolower h, ← isDomainBlocked]

end

/-! ## Labels up to case -/

/-- Labels in lower case. -/
def lowerLabels (ls : List Bytes) : List Bytes := ls.map fun l => l.map tolower

theorem labelOctets_lowerLabels (ls : List Bytes) :
    labelOctets (lowerLabels ls) = labelOctets ls := by
  induction ls with
  | nil => rfl
  | cons l ls ih =>
    rw [labelOctets_cons, ← ih, lowerLabels, List.map_cons, labelOctets_cons, List.length_map]
    rfl

theorem legalLabels_lowerLabels {ls : List Bytes} :
    LegalLabels (lowerLabels ls) ↔ LegalLabels ls := by
  simp [LegalLabels, lowerLabels]

/-- Folding case moves no NUL. -/
theorem ofBuffer_tolower (s : Bytes) :
    (CStr.ofBuffer (s.map tolower)).bytes = (CStr.ofBuffer s).bytes.map tolower := by
  have hnul : (fun c : UInt8 => c != 0) ∘ tolower = fun c => c != 0 := by
    funext c
    rw [Function.comp_apply, Bool.eq_iff_iff, bne_iff_ne, bne_iff_ne, ne_eq, tolower_eq_nul]
  change (s.map tolower).takeWhile (· != 0) = _
  rw [List.takeWhile_map, hnul]
  rfl

theorem dotted_lowerLabels (ls : List Bytes) :
    dotted (lowerLabels ls) = (dotted ls).map tolower := by
  rw [dotted, dotted, map_intercalate, tolower_eq_dot.2 rfl, lowerLabels]

/-- The labels agree but for the case of their letters. -/
def SameLetters (ls ls' : List Bytes) : Prop := lowerLabels ls = lowerLabels ls'

namespace SameLetters

variable {ls ls' : List Bytes}

theorem labelOctets_eq (h : SameLetters ls ls') : labelOctets ls = labelOctets ls' := by
  rw [← labelOctets_lowerLabels, h, labelOctets_lowerLabels]

theorem legal (h : SameLetters ls ls') (hlegal : LegalLabels ls) : LegalLabels ls' := by
  rwa [← legalLabels_lowerLabels, ← h, legalLabels_lowerLabels]

/-- The names that the parser copies agree but for the case of their letters. -/
theorem qname (h : SameLetters ls ls') :
    (CStr.ofBuffer (dotted ls ++ [0])).bytes.map tolower =
      (CStr.ofBuffer (dotted ls' ++ [0])).bytes.map tolower := by
  have hfold : (dotted ls ++ [0]).map tolower = (dotted ls' ++ [0]).map tolower := by
    rw [List.map_append, List.map_append, ← dotted_lowerLabels, h, dotted_lowerLabels]
  rw [← ofBuffer_tolower, hfold, ofBuffer_tolower]

end SameLetters

/-! ## Two spellings of a message -/

/-- The octets are a header, a name and a rest, and they differ in the labels of the name only:
`ls` in the first and `ls'` in the second. -/
def Respelled (ls ls' : List Bytes) (d d' : Bytes) : Prop :=
  ∃ head tail, head.length = dnsHeaderSize ∧ d = head ++ (wire ls ++ tail) ∧
    d' = head ++ (wire ls' ++ tail)

/-- What the parser and the builder read alike in two buffers that spell a name differently. -/
structure Twins (b b' : Buffer) (ls ls' : List Bytes) (fin : Nat) : Prop where
  letters : SameLetters ls ls'
  decodes : Decodes b dnsHeaderSize ls 0 fin
  decodes' : Decodes b' dnsHeaderSize ls' 0 fin
  len_eq : b.len = b'.len
  header_eq : parseDnsHeader b = parseDnsHeader b'
  behind : ∀ i n, fin ≤ i → i + n ≤ b.len → b.slice i n = b'.slice i n

theorem Respelled.twins {b b' : Buffer} {ls ls' : List Bytes} (h : Respelled ls ls' b.data b'.data)
    (hcase : SameLetters ls ls') (hlegal : LegalLabels ls) :
    Twins b b' ls ls' (dnsHeaderSize + labelOctets ls + 1) := by
  obtain ⟨head, tail, hhead, hd, hd'⟩ := h
  have hoctets := hcase.labelOctets_eq
  have hdecodes := decodes_behind hd hlegal
  have hdecodes' := decodes_behind hd' (hcase.legal hlegal)
  rw [hhead] at hdecodes hdecodes'
  rw [← hoctets] at hdecodes'
  have hlen : b.len = b'.len := by
    rw [← b.length_data, ← b'.length_data, hd, hd', List.length_append, List.length_append,
      List.length_append, List.length_append, length_wire, length_wire, hoctets]
  refine ⟨hcase, hdecodes, hdecodes', hlen, ?_, fun i n hi hn => ?_⟩
  · refine parseDnsHeader_eq (by rw [hlen]) fun hlong i hi => ?_
    rw [Buffer.get_eq (by omega), Buffer.get_eq (by omega), hd, hd',
      List.getD_append _ _ _ _ (by omega), List.getD_append _ _ _ _ (by omega)]
  · obtain ⟨k, rfl⟩ := Nat.exists_eq_add_of_le hi
    have hrest : ∀ ls : List Bytes, (head ++ (wire ls ++ tail)).drop
        (dnsHeaderSize + labelOctets ls + 1 + k) = tail.drop k := by
      intro ls
      have hfront : dnsHeaderSize + labelOctets ls + 1 = (head ++ wire ls).length := by
        rw [List.length_append, length_wire, hhead, Nat.add_assoc]
      rw [hfront, ← List.append_assoc, List.drop_length_add_append]
    have hrest' := hrest ls'
    rw [← hoctets] at hrest'
    rw [Buffer.slice_eq hn, Buffer.slice_eq (by omega), hd, hd', hrest, hrest']

/-! ## Parsing -/

/-- A question whose name has no pointers, with any allocations. -/
theorem parseDnsQuestion_plain {b : Buffer} {offset fin : Nat} {ls : List Bytes}
    (hd : Decodes b offset ls 0 fin) (a : Allocs) :
    parseDnsQuestion b offset a =
      if labelOctets ls ≤ dnsMaxNameLen ∧ fin + 4 ≤ b.len then
        (if a.head then some (questionOf b ls fin, fin + 4) else none, a.tail)
      else (none, a) := by
  have hlt := hd.pos_lt
  rw [parseDnsQuestion, if_neg (by omega)]
  by_cases hlong : labelOctets ls ≤ dnsMaxNameLen
  · rw [parseDnsName_complete (by omega) hd (Nat.zero_le _) (by simpa using hlong)]
    dsimp only
    by_cases hfits : fin + 4 ≤ b.len
    · rw [if_neg (by omega), if_pos ⟨hlong, hfits⟩]
      cases ha : a.head <;> simp [strdup, ha, questionOf]
    · rw [if_pos (by omega), if_neg (fun h => hfits h.2)]
  · have hnone : parseDnsName b offset (dnsMaxNameLen + 1) = none := by
      rw [Option.eq_none_iff_forall_ne_some]
      intro r hr
      obtain ⟨ls', jumps, hd', -, ho, -⟩ := parseDnsName_sound hr
      obtain ⟨rfl, -, -⟩ := hd.functional hd'
      exact hlong (Nat.le_trans ho (Nat.min_le_left _ _))
    rw [hnone, if_neg fun h => hlong h.1]

/-- A message with one question whose name has no pointers: the name is within the limit, the
question fits, and the three blocks are there. -/
theorem parseDnsMessage_one {b : Buffer} {header : DnsHeader} {ls : List Bytes} {fin : Nat}
    (hheader : parseDnsHeader b = some header) (hone : header.qdcount = 1)
    (hd : Decodes b dnsHeaderSize ls 0 fin) (a : Allocs) :
    ∃ a', parseDnsMessage b a =
      if (labelOctets ls ≤ dnsMaxNameLen ∧ fin + 4 ≤ b.len) ∧
          a.head = true ∧ a.tail.head = true ∧ a.tail.tail.head = true then
        (.success, .ofParts header (some [questionOf b ls fin]) b, a.tail.tail.tail)
      else (.failure, .ofHeader header, a') := by
  have hzero : header.qdcount ≠ 0 := by rw [hone]; decide
  have hcount : header.qdcount.toNat = 1 := by rw [hone]; rfl
  have hrow : parseQuestions b 1 dnsHeaderSize a.tail =
      ((parseDnsQuestion b dnsHeaderSize a.tail).1.map fun r => ([r.1], r.2),
        (parseDnsQuestion b dnsHeaderSize a.tail).2) := by
    rw [parseQuestions]
    rcases parseDnsQuestion b dnsHeaderSize a.tail with ⟨_ | ⟨q, next⟩, a'⟩ <;> rfl
  rw [parseDnsMessage, hheader]
  dsimp only [malloc]
  rw [if_neg hzero, hcount]
  cases h0 : a.head with
  | false => exact ⟨a.tail, (if_neg (by simp)).symm⟩
  | true =>
    dsimp only
    rw [hrow, parseDnsQuestion_plain hd]
    by_cases hfits : labelOctets ls ≤ dnsMaxNameLen ∧ fin + 4 ≤ b.len
    · rw [if_pos hfits]
      cases h1 : a.tail.head with
      | false => exact ⟨a.tail.tail, (if_neg (by simp)).symm⟩
      | true =>
        rw [if_pos rfl, Option.map_some]
        dsimp only
        cases h2 : a.tail.tail.head with
        | false => exact ⟨a.tail.tail.tail, (if_neg (by simp)).symm⟩
        | true => exact ⟨a, (if_pos ⟨hfits, rfl, rfl, rfl⟩).symm⟩
    · rw [if_neg hfits]
      exact ⟨a.tail, (if_neg fun h => hfits h.1).symm⟩

/-! ## Answers -/

namespace Twins

variable {b b' : Buffer} {ls ls' : List Bytes} {fin : Nat}

theorem get16_eq (t : Twins b b' ls ls' fin) {i : Nat} (hi : fin ≤ i) (hlen : i + 1 < b.len) :
    b.get16 i = b'.get16 i := by
  have hget : ∀ j, fin ≤ j → j < b.len → b.get j = b'.get j := by
    intro j hj hlt
    have hslice := t.behind j 1 hj hlt
    rw [Buffer.slice_one hlt, Buffer.slice_one (t.len_eq ▸ hlt)] at hslice
    exact (List.cons.inj hslice).1
  rw [Buffer.get16, Buffer.get16, hget i hi (Nat.lt_of_succ_lt hlen),
    hget (i + 1) (Nat.le_succ_of_le hi) hlen]

/-- Error responses echo both spellings, and are the same but for them. -/
theorem respelled_errorResponse (t : Twins b b' ls ls' fin) (hfits : fin + 4 ≤ b.len)
    (header : DnsHeader) (rcode : UInt8) :
    Respelled ls ls' (errorResponse b header rcode fin) (errorResponse b' header rcode fin) := by
  have hecho : ∀ (b : Buffer) (ls : List Bytes), Decodes b dnsHeaderSize ls 0 fin →
      b.slice dnsHeaderSize (fin + 4 - dnsHeaderSize) = wire ls ++ b.slice fin 4 := by
    intro b ls hd
    obtain ⟨hwire, hfin, -⟩ := hd.wire_slice rfl
    have hsize : fin + 4 - dnsHeaderSize = labelOctets ls + 1 + 4 := by omega
    rw [hsize, Buffer.slice_add, hwire, hfin, Nat.add_assoc]
  refine ⟨buildDnsHeader (errorHeader header rcode), b.slice fin 4, rfl, ?_, ?_⟩
  · rw [errorResponse, hecho b ls t.decodes]
  · rw [errorResponse, hecho b' ls' t.decodes', t.behind fin 4 (Nat.le_refl fin) hfits]

end Twins

/-- What `forward_query` returns does not depend on what the out variables held. -/
theorem forwardQuery_ret (host : Host) (query : DnsMessage) (upstream : CStr) (out out' : Out)
    (a : Allocs) : (forwardQuery host query upstream out a).ret =
      (forwardQuery host query upstream out' a).ret := by
  unfold forwardQuery
  split <;> [rfl; skip]
  split <;> [rfl; skip]
  split <;> [rfl; skip]
  split <;> [rfl; skip]
  split <;> [rfl; skip]
  split <;> [rfl; skip]
  dsimp only
  split <;> [rfl; skip]
  split <;> rfl

/-! ## Branches -/

/-- What becomes of a query: nothing, an answer of the server's own with an RCODE, or a query to
the upstream. -/
inductive Branch where
  | drop
  | answer (rcode : Option UInt16)
  | forward
  deriving DecidableEq

/-- The branch that a call took, read off what it left. -/
def QueryResult.branch (r : QueryResult) : Branch :=
  if r.forwarded.isSome then .forward
  else
    match r.ret, r.out.response with
    | .success, some response =>
      .answer ((parseDnsHeader (.ofBytes response)).map (·.flags &&& 0x0F))
    | _, _ => .drop

theorem replyError_branch {b : Buffer} {m : DnsMessage} {ls : List Bytes} {fin : Nat}
    {rcode : UInt8} (h : Parsed b m) (hq : QuestionAt b dnsHeaderSize ls 0 fin)
    (hr : rcode ≤ dnsRcodeRefused) (out : Out) (a : Allocs) (sent : List (SockAddr × Bytes)) :
    (replyError m rcode out a none sent).branch =
      if a.head then .answer (some rcode.toUInt16) else .drop := by
  rw [replyError_question h hq hr]
  cases a.head with
  | false => rfl
  | true =>
    have hheader := parseDnsHeader_errorResponse m.header rcode hq
    simp only [if_true, QueryResult.branch, Option.isSome_none, Bool.false_eq_true, if_false,
      hheader, Option.map_some, errorHeader_rcode _ hr]

/-- A query that was handed to `forward_query` is forwarded, whatever comes back. -/
theorem branch_forwarded (f : ForwardResult) (m : DnsMessage) :
    (if f.ret ≠ .success then replyError m dnsRcodeServfail f.out f.allocs (some m) f.sent
      else ⟨.success, f.out, some m, f.sent, f.allocs⟩ : QueryResult).branch = .forward := by
  split
  · rw [QueryResult.branch, replyError_forwarded]
    rfl
  · rfl

/-- The query is answered, and not with a reply of the upstream. -/
def BuiltLocally (config : ServerConfig) (b : Buffer) (out : Out) (host : Host) (a : Allocs) :
    Prop :=
  (processDnsQuery config b out host a).ret = .success ∧ answerSource config b host a ≠ .upstream

section

variable {b b' : Buffer} {ls ls' : List Bytes} {fin : Nat} {m m' : DnsMessage}

/-- Two answers of the server's own, with one RCODE. -/
theorem Twins.respelled_replyError (t : Twins b b' ls ls' fin) (hp : Parsed b m)
    (hp' : Parsed b' m') (hheader : m.header = m'.header)
    (hq : QuestionAt b dnsHeaderSize ls 0 fin) (hq' : QuestionAt b' dnsHeaderSize ls' 0 fin)
    {rcode : UInt8} (hr : rcode ≤ dnsRcodeRefused)
    {out out' : Out} {a a' : Allocs} {forwarded forwarded' : Option DnsMessage}
    {sent sent' : List (SockAddr × Bytes)}
    (hret : (replyError m rcode out a forwarded sent).ret = .success)
    (hret' : (replyError m' rcode out' a' forwarded' sent').ret = .success) :
    ∃ response response',
      (replyError m rcode out a forwarded sent).out = ⟨some response, response.length⟩ ∧
      (replyError m' rcode out' a' forwarded' sent').out = ⟨some response', response'.length⟩ ∧
      Respelled ls ls' response response' := by
  rw [replyError_question hp hq hr] at hret ⊢
  rw [replyError_question hp' hq' hr] at hret' ⊢
  cases ha : a.head <;> rw [ha] at hret <;> [cases hret; skip]
  cases ha' : a'.head <;> rw [ha'] at hret' <;> [cases hret'; skip]
  refine ⟨_, _, ?_, ?_, t.respelled_errorResponse hq.fits m.header rcode⟩
  · rw [if_pos rfl, length_errorResponse hq]
  · rw [if_pos rfl, ← hheader, length_errorResponse hq']

variable {config : ServerConfig} {out : Out} {host host' : Host} {a a₁ : Allocs}
  {q q' : DnsQuestion}

/-- Past the parser: the types of the questions agree and so do the verdicts, so the calls come to
one branch, and where they answer themselves they answer alike. -/
theorem Twins.sameBranch (t : Twins b b' ls ls' fin) (asked : Asked b a m q a₁)
    (asked' : Asked b' a m' q' a₁) (hheader : m.header = m'.header)
    (hq : QuestionAt b dnsHeaderSize ls 0 fin) (hq' : QuestionAt b' dnsHeaderSize ls' 0 fin)
    (htype : q.qtype = q'.qtype)
    (hname : q.qname.bytes.map tolower = q'.qname.bytes.map tolower) :
    (processDnsQuery config b out host a).branch =
      (processDnsQuery config b' out host' a).branch ∧
    (BuiltLocally config b out host a → BuiltLocally config b' out host' a →
      ∃ response response',
        (processDnsQuery config b out host a).out = ⟨some response, response.length⟩ ∧
        (processDnsQuery config b' out host' a).out = ⟨some response', response'.length⟩ ∧
        Respelled ls ls' response response') := by
  have hp := parseDnsMessage_parsed asked.parse
  have hp' := parseDnsMessage_parsed asked'.parse
  obtain ⟨rest, hfirst⟩ := asked.first
  obtain ⟨rest', hfirst'⟩ := asked'.first
  unfold BuiltLocally
  by_cases hA : q.qtype = dnsTypeA
  · have hA' : q'.qtype = dnsTypeA := htype ▸ hA
    have hverdict := isDomainBlocked_tolower hname config.filterRoot a₁
    rw [processDnsQuery_address config out host asked.parse asked.nonzero hfirst hA,
      processDnsQuery_address config out host' asked'.parse asked'.nonzero hfirst' hA', ← hverdict]
    rcases hv : isDomainBlocked config.filterRoot q.qname a₁ with ⟨_ | _, a₂⟩
    · rw [hv] at hverdict
      rw [asked.answerSource_allowed hA hv, asked'.answerSource_allowed hA' hverdict.symm,
        forwardQuery_ret host _ _ _ out, forwardQuery_ret host' m' _ ⟨none, 0⟩ out]
      dsimp only
      generalize forwardQuery host m config.upstreamServer out a₂ = f
      generalize forwardQuery host' m' config.upstreamServer out a₂ = f'
      refine ⟨by rw [branch_forwarded, branch_forwarded], fun h h' => ?_⟩
      have hf : f.ret ≠ .success := fun hok => h.2 (if_pos hok)
      have hf' : f'.ret ≠ .success := fun hok => h'.2 (if_pos hok)
      rw [if_pos hf] at h ⊢
      rw [if_pos hf'] at h' ⊢
      exact t.respelled_replyError hp hp' hheader hq hq' dnsRcodeServfail_le h.1 h'.1
    · dsimp only
      have hr := dnsRcodeNxdomain_le
      refine ⟨?_, fun h h' => t.respelled_replyError hp hp' hheader hq hq' hr h.1 h'.1⟩
      rw [replyError_branch hp hq hr, replyError_branch hp' hq' hr]
  · have hA' : q'.qtype ≠ dnsTypeA := htype ▸ hA
    rw [processDnsQuery_otherType config out host asked hA,
      processDnsQuery_otherType config out host' asked' hA']
    have hr := dnsRcodeNotimpl_le
    refine ⟨?_, fun h h' => t.respelled_replyError hp hp' hheader hq hq' hr h.1 h'.1⟩
    rw [replyError_branch hp hq hr, replyError_branch hp' hq' hr]

end

/-- **Letter case changes neither the verdict nor the answer**: two queries that spell one name
with different letter cases take one branch, whatever each of them meets on the network, and the
answers built for them differ by the spelling only. -/
theorem processDnsQuery_letterCase (config : ServerConfig) (out : Out) (host host' : Host)
    (a : Allocs) {b b' : Buffer} {header : DnsHeader} {ls ls' : List Bytes}
    (hheader : parseDnsHeader b = some header) (hone : header.qdcount = 1)
    (hlegal : LegalLabels ls) (hcase : SameLetters ls ls')
    (hdata : Respelled ls ls' b.data b'.data) :
    (processDnsQuery config b out host a).branch =
      (processDnsQuery config b' out host' a).branch ∧
    (BuiltLocally config b out host a → BuiltLocally config b' out host' a →
      ∃ response response',
        (processDnsQuery config b out host a).out = ⟨some response, response.length⟩ ∧
        (processDnsQuery config b' out host' a).out = ⟨some response', response'.length⟩ ∧
        Respelled ls ls' response response') := by
  have t := hdata.twins hcase hlegal
  generalize dnsHeaderSize + labelOctets ls + 1 = fin at t
  have hheader' : parseDnsHeader b' = some header := t.header_eq ▸ hheader
  obtain ⟨a₁, hparse⟩ := parseDnsMessage_one hheader hone t.decodes a
  obtain ⟨a₁', hparse'⟩ := parseDnsMessage_one hheader' hone t.decodes' a
  rw [← hcase.labelOctets_eq, ← t.len_eq] at hparse'
  by_cases hread : (labelOctets ls ≤ dnsMaxNameLen ∧ fin + 4 ≤ b.len) ∧
      a.head = true ∧ a.tail.head = true ∧ a.tail.tail.head = true
  · rw [if_pos hread] at hparse hparse'
    obtain ⟨⟨hoctets, hfits⟩, -⟩ := hread
    have hnonzero : header.qdcount ≠ 0 := by
      rw [hone]
      decide
    exact t.sameBranch ⟨hparse, hnonzero, [], rfl⟩ ⟨hparse', hnonzero, [], rfl⟩ rfl
      ⟨t.decodes, Nat.zero_le _, hoctets, hfits⟩
      ⟨t.decodes', Nat.zero_le _, hcase.labelOctets_eq ▸ hoctets, t.len_eq ▸ hfits⟩
      (t.get16_eq (Nat.le_refl fin) (by omega)) hcase.qname
  · -- neither is parsed
    rw [if_neg hread] at hparse hparse'
    have hdrop : processDnsQuery config b out host a = ⟨.failure, out, none, [], a₁⟩ := by
      rw [processDnsQuery, hparse]
    have hdrop' : processDnsQuery config b' out host' a = ⟨.failure, out, none, [], a₁'⟩ := by
      rw [processDnsQuery, hparse']
    rw [hdrop, hdrop']
    refine ⟨rfl, fun h => ?_⟩
    rw [BuiltLocally, hdrop] at h
    cases h.1

/-- The names `a` and `A`, below a filter that blocks `a`. -/
theorem processDnsQuery_letterCase_upper :
    let b := Buffer.ofBytes [0x12, 0x34, 1, 0, 0, 1, 0, 0, 0, 0, 0, 0, 1, 97, 0, 0, 1, 0, 1]
    let b' := Buffer.ofBytes [0x12, 0x34, 1, 0, 0, 1, 0, 0, 0, 0, 0, 0, 1, 65, 0, 0, 1, 0, 1]
    let config := ServerConfig.mk (.ofBuffer [56]) (buildFilter [(.ofBuffer [97], .ok)])
    (processDnsQuery config b ⟨none, 0⟩ deafHost .ok).branch =
      (processDnsQuery config b' ⟨none, 0⟩ deafHost .ok).branch := by
  intro b b' config
  have hheader : parseDnsHeader b = some ⟨0x1234, 0x0100, 1, 0, 0, 0⟩ := by decide
  have hlegal : LegalLabels [[97]] := by simp [LegalLabels]
  have hcase : SameLetters [[97]] [[65]] := rfl
  have hdata : Respelled [[97]] [[65]] b.data b'.data :=
    ⟨[0x12, 0x34, 1, 0, 0, 1, 0, 0, 0, 0, 0, 0], [0, 1, 0, 1], rfl, rfl, rfl⟩
  exact (processDnsQuery_letterCase config ⟨none, 0⟩ deafHost deafHost .ok hheader rfl hlegal hcase
    hdata).1

end FilteringResolver
