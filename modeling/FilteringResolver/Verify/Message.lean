import FilteringResolver.Verify.Uncompressed

/-!
# Questions and messages

`QuestionAt` is one complete question in place and `QuestionsAt` a row of them, each starting
where the one before it ended. `parse_dns_question` reads exactly the former and the question
loop of `parse_dns_message` exactly the latter, so an accepted message is its header with such a
row (`Parsed`).
-/

namespace FilteringResolver

/-! ## One question -/

/-- A complete question at `offset`: a name that ends in place at `fin`, and two words. -/
structure QuestionAt (b : Buffer) (offset : Nat) (ls : List Bytes) (jumps fin : Nat) : Prop where
  decodes : Decodes b offset ls jumps fin
  jumps_le : jumps ≤ maxCompressionJumps
  octets_le : labelOctets ls ≤ dnsMaxNameLen
  fits : fin + 4 ≤ b.len

/-- The question made of a name and the words behind it. -/
def questionOf (b : Buffer) (ls : List Bytes) (fin : Nat) : DnsQuestion where
  qname := .ofBuffer (dotted ls ++ [0])
  qtype := b.get16 fin
  qclass := b.get16 (fin + 2)

theorem parseDnsQuestion_sound {b : Buffer} {offset next : Nat} {a a' : Allocs} {q : DnsQuestion}
    (h : parseDnsQuestion b offset a = (some (q, next), a')) :
    ∃ ls jumps fin, QuestionAt b offset ls jumps fin ∧ q = questionOf b ls fin ∧
      next = fin + 4 := by
  unfold parseDnsQuestion at h
  split at h <;> [cases h; skip]
  cases hn : parseDnsName b offset (dnsMaxNameLen + 1) with
  | none => simp only [hn] at h; cases h
  | some r =>
    obtain ⟨name, fin⟩ := r
    obtain ⟨ls, jumps, hd, hj, ho, rfl⟩ := parseDnsName_sound hn
    simp only [hn, strdup] at h
    split at h <;> [cases h; skip]
    cases ha : a.head with
    | false =>
      simp only [ha, Bool.false_eq_true, ite_false] at h
      cases h
    | true =>
      simp only [ha, ite_true] at h
      cases h
      exact ⟨ls, jumps, fin, ⟨hd, hj, by simpa using ho, by omega⟩, rfl, rfl⟩

theorem parseDnsQuestion_complete {b : Buffer} {offset jumps fin : Nat} {ls : List Bytes}
    (h : QuestionAt b offset ls jumps fin) :
    parseDnsQuestion b offset .ok = (some (questionOf b ls fin, fin + 4), .ok) := by
  have hlt := h.decodes.pos_lt
  have hfits := h.fits
  rw [parseDnsQuestion, if_neg (by omega),
    parseDnsName_complete (by omega) h.decodes h.jumps_le (by simpa using h.octets_le)]
  dsimp only
  rw [if_neg (by omega)]
  rfl

theorem parseDnsQuestion_ok (b : Buffer) (offset : Nat) :
    (parseDnsQuestion b offset .ok).2 = .ok := by
  unfold parseDnsQuestion
  split <;> [rfl; skip]
  split <;> [rfl; skip]
  split <;> rfl

/-! ## A row of questions -/

/-- Complete questions in a row, from an offset to the end of the last one. -/
inductive QuestionsAt (b : Buffer) : Nat → List DnsQuestion → Nat → Prop where
  | nil {offset : Nat} : QuestionsAt b offset [] offset
  | cons {offset jumps fin last : Nat} {ls : List Bytes} {qs : List DnsQuestion}
      (first : QuestionAt b offset ls jumps fin) (rest : QuestionsAt b (fin + 4) qs last) :
      QuestionsAt b offset (questionOf b ls fin :: qs) last

theorem parseQuestions_sound {b : Buffer} {n offset last : Nat} {a a' : Allocs}
    {qs : List DnsQuestion} (h : parseQuestions b n offset a = (some (qs, last), a')) :
    QuestionsAt b offset qs last ∧ qs.length = n := by
  induction n generalizing offset a qs with
  | zero =>
    cases h
    exact ⟨.nil, rfl⟩
  | succ n ih =>
    rw [parseQuestions] at h
    rcases hq : parseDnsQuestion b offset a with ⟨_ | ⟨q, next⟩, a₁⟩
    · simp only [hq] at h
      cases h
    · rcases hqs : parseQuestions b n next a₁ with ⟨_ | ⟨qs', last'⟩, a₂⟩
      · simp only [hq, hqs] at h
        cases h
      · simp only [hq, hqs] at h
        cases h
        obtain ⟨ls, jumps, fin, hat, rfl, rfl⟩ := parseDnsQuestion_sound hq
        obtain ⟨hrest, hlen⟩ := ih hqs
        exact ⟨.cons hat hrest, by rw [List.length_cons, hlen]⟩

theorem parseQuestions_complete {b : Buffer} {offset last : Nat} {qs : List DnsQuestion}
    (h : QuestionsAt b offset qs last) :
    parseQuestions b qs.length offset .ok = (some (qs, last), .ok) := by
  induction h with
  | nil => rfl
  | cons first rest ih =>
    rw [List.length_cons, parseQuestions, parseDnsQuestion_complete first]
    simp only [ih]

theorem parseQuestions_ok (b : Buffer) (n offset : Nat) :
    (parseQuestions b n offset .ok).2 = .ok := by
  induction n generalizing offset with
  | zero => rfl
  | succ n ih =>
    rw [parseQuestions]
    have hok := parseDnsQuestion_ok b offset
    rcases hq : parseDnsQuestion b offset .ok with ⟨_ | ⟨q, next⟩, a₁⟩ <;> rw [hq] at hok <;>
      obtain rfl : a₁ = .ok := hok
    · rfl
    · have hok' := ih next
      rcases hqs : parseQuestions b n next .ok with ⟨_ | r, a₂⟩ <;> rw [hqs] at hok' <;>
        simpa only [hq, hqs] using hok'

namespace QuestionsAt

variable {b : Buffer} {offset last : Nat} {qs : List DnsQuestion}

/-- Every question takes five octets at least, and a row that is not empty ends in the buffer. -/
theorem length_le (h : QuestionsAt b offset qs last) :
    offset + 5 * qs.length ≤ last ∧ (qs ≠ [] → last ≤ b.len) := by
  induction h with
  | nil => exact ⟨Nat.le_refl _, fun hne => absurd rfl hne⟩
  | @cons offset jumps fin last ls qs first rest ih =>
    have hlt := first.decodes.lt_fin
    have hfits := first.fits
    rw [List.length_cons]
    refine ⟨by omega, fun _ => ?_⟩
    cases rest with
    | nil => exact hfits
    | cons second rest => exact ih.2 (List.cons_ne_nil _ _)

/-- Where a longer row goes on, there is a question. -/
theorem next (h : QuestionsAt b offset qs last) {qs' : List DnsQuestion} {last' : Nat}
    (h' : QuestionsAt b offset qs' last') (hlt : qs.length < qs'.length) :
    ∃ ls jumps fin, QuestionAt b last ls jumps fin := by
  induction h generalizing qs' with
  | nil =>
    cases h' with
    | nil => exact absurd hlt (Nat.lt_irrefl 0)
    | cons first _ => exact ⟨_, _, _, first⟩
  | cons first _ ih =>
    cases h' with
    | nil => exact absurd hlt (Nat.not_lt_zero _)
    | cons first' rest' =>
      obtain ⟨rfl, rfl, rfl⟩ := first.decodes.functional first'.decodes
      exact ih rest' (Nat.lt_of_succ_lt_succ hlt)

end QuestionsAt

/-! ## Messages -/

/-- What `parse_dns_message` makes of an accepted datagram. -/
inductive Parsed (b : Buffer) : DnsMessage → Prop where
  | headerOnly {header : DnsHeader} (parse : parseDnsHeader b = some header)
      (zero : header.qdcount = 0) : Parsed b (.ofParts header none b)
  | questions {header : DnsHeader} {qs : List DnsQuestion} {last : Nat}
      (parse : parseDnsHeader b = some header) (nonzero : header.qdcount ≠ 0)
      (row : QuestionsAt b dnsHeaderSize qs last) (length_eq : qs.length = header.qdcount.toNat) :
      Parsed b (.ofParts header (some qs) b)

theorem parseDnsMessage_parsed {b : Buffer} {a a' : Allocs} {m : DnsMessage}
    (h : parseDnsMessage b a = (.success, m, a')) : Parsed b m := by
  unfold parseDnsMessage at h
  cases hh : parseDnsHeader b with
  | none => simp only [hh] at h; cases h
  | some header =>
    simp only [hh, malloc] at h
    split at h
    · next hzero =>
      cases ha : a.head <;> simp only [ha] at h <;> cases h
      exact .headerOnly hh hzero
    · next hzero =>
      cases ha : a.head with
      | false => simp only [ha] at h; cases h
      | true =>
        simp only [ha] at h
        rcases hq : parseQuestions b header.qdcount.toNat dnsHeaderSize a.tail with
          ⟨_ | ⟨qs, last⟩, a₁⟩
        · simp only [hq] at h
          cases h
        · cases ha₁ : a₁.head <;> simp only [hq, ha₁] at h <;> cases h
          obtain ⟨hrow, hlen⟩ := parseQuestions_sound hq
          exact .questions hh hzero hrow hlen

theorem Parsed.parse_ok {b : Buffer} {m : DnsMessage} (h : Parsed b m) :
    parseDnsMessage b .ok = (.success, m, .ok) := by
  cases h with
  | headerOnly parse zero => simp only [parseDnsMessage, parse, zero, ite_true, malloc_ok]
  | questions parse nonzero row length_eq =>
    have hq := parseQuestions_complete row
    rw [length_eq] at hq
    simp only [parseDnsMessage, parse, nonzero, ite_false, malloc_ok, hq]

/-- Parsing uses up its allocations but leaves them succeeding. -/
theorem parseDnsMessage_ok {b : Buffer} {ret : Ret} {m : DnsMessage} {a : Allocs}
    (h : parseDnsMessage b .ok = (ret, m, a)) : a = .ok := by
  suffices hok : (parseDnsMessage b .ok).2.2 = .ok by rwa [h] at hok
  unfold parseDnsMessage
  cases parseDnsHeader b with
  | none => rfl
  | some header =>
    dsimp only
    split
    · rfl
    · have hok := parseQuestions_ok b header.qdcount.toNat dnsHeaderSize
      rcases hq : parseQuestions b header.qdcount.toNat dnsHeaderSize .ok with ⟨_ | r, a₁⟩ <;>
        rw [hq] at hok <;> obtain rfl : a₁ = .ok := hok <;> simp only [malloc_ok, hq]

namespace Parsed

variable {b : Buffer} {m : DnsMessage}

theorem header_eq (h : Parsed b m) : parseDnsHeader b = some m.header := by
  cases h <;> assumption

theorem raw_eq (h : Parsed b m) : m.raw = some (.ofBytes b.data) := by
  cases h <;> exact DnsMessage.raw_ofParts _ _ _

theorem rawData_eq (h : Parsed b m) : m.rawData = some b.data := by
  cases h <;> rfl

/-- A message with a question holds its first question in place. -/
theorem first (h : Parsed b m) (hq : m.header.qdcount ≠ 0) :
    ∃ ls jumps fin rest, QuestionAt b dnsHeaderSize ls jumps fin ∧
      m.questions = some (questionOf b ls fin :: rest) ∧
      rest.length + 1 = m.header.qdcount.toNat := by
  cases h with
  | headerOnly _ zero => exact absurd zero hq
  | questions parse nonzero row length_eq =>
    cases row with
    | nil => exact absurd (UInt16.toNat.inj length_eq.symm) nonzero
    | cons first rest => exact ⟨_, _, _, _, first, rfl, length_eq⟩

/-- The only question of a message, read in place at a derivation of its name. -/
theorem one_question (h : Parsed b m) {q : DnsQuestion} (hone : m.questions = some [q])
    {ls : List Bytes} {jumps fin : Nat} (hd : Decodes b dnsHeaderSize ls jumps fin) :
    QuestionAt b dnsHeaderSize ls jumps fin ∧ q = questionOf b ls fin ∧ m.header.qdcount = 1 := by
  cases h with
  | headerOnly => cases hone
  | questions parse nonzero row length_eq =>
    cases hone
    cases row with
    | cons first rest =>
      obtain ⟨rfl, rfl, rfl⟩ := first.decodes.functional hd
      exact ⟨first, rfl, UInt16.toNat.inj length_eq.symm⟩

end Parsed

/-! ## Exactly the question section -/

/-- A call that fails leaves a message without questions and without raw data. -/
theorem parseDnsMessage_cases (b : Buffer) (a : Allocs) :
    (parseDnsMessage b a).1 = .success ∨
      ∃ header a', parseDnsMessage b a = (.failure, .ofHeader header, a') := by
  unfold parseDnsMessage
  split <;> [exact .inr ⟨_, _, rfl⟩; skip]
  split
  · split
    · exact .inr ⟨_, _, rfl⟩
    · exact .inl rfl
  · split <;> [exact .inr ⟨_, _, rfl⟩; skip]
    split <;> [exact .inr ⟨_, _, rfl⟩; skip]
    split
    · exact .inr ⟨_, _, rfl⟩
    · exact .inl rfl

theorem parseDnsHeader_length {b : Buffer} {header : DnsHeader}
    (h : parseDnsHeader b = some header) : dnsHeaderSize ≤ b.len := by
  unfold parseDnsHeader at h
  split at h <;> [cases h; skip]
  omega

/-- The word at octet 4 counts the questions. -/
theorem parseDnsHeader_qdcount {b : Buffer} {header : DnsHeader}
    (h : parseDnsHeader b = some header) : header.qdcount = b.get16 4 := by
  unfold parseDnsHeader at h
  split at h <;> cases h
  rfl

/-- Header and questions are there to be parsed. -/
theorem parsed_of_row {b : Buffer} (hlen : dnsHeaderSize ≤ b.len) {qs : List DnsQuestion}
    {last : Nat} (row : QuestionsAt b dnsHeaderSize qs last)
    (length_eq : qs.length = (b.get16 4).toNat) : ∃ m, Parsed b m := by
  obtain ⟨header, hheader⟩ : ∃ header, parseDnsHeader b = some header :=
    ⟨_, if_neg (Nat.not_lt.2 hlen)⟩
  have hcount := parseDnsHeader_qdcount hheader
  by_cases hzero : header.qdcount = 0
  · exact ⟨_, .headerOnly hheader hzero⟩
  · exact ⟨_, .questions hheader hzero row (by rw [length_eq, hcount])⟩

theorem Parsed.rawLen_eq {b : Buffer} {m : DnsMessage} (h : Parsed b m) : m.rawLen = b.len := by
  cases h <;> rfl

/-- An accepted message holds the row of questions that its header counts. -/
theorem Parsed.row {b : Buffer} {m : DnsMessage} (h : Parsed b m) :
    ∃ qs last, QuestionsAt b dnsHeaderSize qs last ∧ qs.length = (b.get16 4).toNat ∧
      m.questions = if (b.get16 4).toNat = 0 then none else some qs := by
  have hcount := parseDnsHeader_qdcount h.header_eq
  cases h with
  | headerOnly parse zero =>
    have hzero : (b.get16 4).toNat = 0 := by
      rw [← hcount]
      exact congrArg UInt16.toNat zero
    exact ⟨[], _, .nil, hzero.symm, (if_pos hzero).symm⟩
  | questions parse nonzero row length_eq =>
    have hqdcount : (b.get16 4).toNat = _ := congrArg UInt16.toNat hcount.symm
    have hne : (b.get16 4).toNat ≠ 0 := fun h0 =>
      nonzero (UInt16.toNat.inj (hqdcount.symm.trans h0))
    exact ⟨_, _, row, length_eq.trans hqdcount.symm, (if_neg hne).symm⟩

/-- **The question section is decoded exactly**, with memory to spare: a message is accepted when
its header and a row of as many questions as this counts are there, and then holds them in wire
order with all octets of the datagram; where a question of the row fails, nothing is left. -/
theorem parseDnsMessage_exact (b : Buffer) :
    let qdcount := (b.get16 4).toNat
    let r := parseDnsMessage b .ok
    (r.1 = .success ↔ dnsHeaderSize ≤ b.len ∧
      ∃ qs last, QuestionsAt b dnsHeaderSize qs last ∧ qs.length = qdcount) ∧
    (r.1 = .success → ∃ qs last, QuestionsAt b dnsHeaderSize qs last ∧ qs.length = qdcount ∧
      parseDnsHeader b = some r.2.1.header ∧
      r.2.1.questions = (if qdcount = 0 then none else some qs) ∧
      r.2.1.rawData = some b.data ∧ r.2.1.rawLen = b.len ∧
      dnsHeaderSize + 5 * qdcount ≤ b.len) ∧
    (∀ qs last, QuestionsAt b dnsHeaderSize qs last → qs.length < qdcount →
      (parseDnsQuestion b last .ok).1 = none → r.1 = .failure) ∧
    (r.1 ≠ .success → r.1 = .failure ∧ r.2.1.questions = none ∧ r.2.1.rawData = none ∧
      r.2.1.rawLen = 0) := by
  intro qdcount r
  have hparsed : r.1 = .success → Parsed b r.2.1 := fun h => parseDnsMessage_parsed (Prod.ext h rfl)
  have hfailure : r.1 ≠ .success → ∃ header a', r = (.failure, .ofHeader header, a') :=
    (parseDnsMessage_cases b .ok).resolve_left
  refine ⟨⟨fun h => ?_, fun h => ?_⟩, fun h => ?_, fun qs last row hlt hnone => ?_, fun h => ?_⟩
  · obtain ⟨qs, last, row, hcount, -⟩ := (hparsed h).row
    exact ⟨parseDnsHeader_length (hparsed h).header_eq, qs, last, row, hcount⟩
  · obtain ⟨hlen, qs, last, row, hcount⟩ := h
    obtain ⟨m, hm⟩ := parsed_of_row hlen row hcount
    exact congrArg Prod.fst hm.parse_ok
  · have hp := hparsed h
    obtain ⟨qs, last, row, hcount, hquestions⟩ := hp.row
    obtain ⟨hfirst, hend⟩ := row.length_le
    refine ⟨qs, last, row, hcount, hp.header_eq, hquestions, hp.rawData_eq, hp.rawLen_eq, ?_⟩
    by_cases hqs : qs = []
    · subst hqs
      have hzero : qdcount = 0 := hcount.symm
      rw [hzero]
      exact parseDnsHeader_length hp.header_eq
    · have := hend hqs
      omega
  · have hret : r.1 ≠ .success := by
      intro h
      obtain ⟨qs', last', row', hcount, -⟩ := (hparsed h).row
      obtain ⟨ls, jumps, fin, hq⟩ := row.next row' (by omega)
      rw [parseDnsQuestion_complete hq] at hnone
      cases hnone
    obtain ⟨header, a', hr⟩ := hfailure hret
    rw [hr]
  · obtain ⟨header, a', hr⟩ := hfailure h
    rw [hr]
    exact ⟨rfl, rfl, rfl, rfl⟩

end FilteringResolver
