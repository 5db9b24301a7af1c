import FilteringResolver.Heap.Messages

/-!
# The memory of messages

Every function of `Heap.Messages` hands back what the function without memory hands back, and the
blocks it leaves are those of its result: a failed call leaves none, whichever allocation failed
(`parseDnsMessage_owning`, `buildErrorResponse_owning`), and `free_dns_message` releases what
`parse_dns_message` acquired (`freeDnsMessage_owning`).
-/

namespace FilteringResolver.Heap

open Ownership

/-! ## What a message owns -/

/-- A question whose name is stored at `addr`. -/
def DnsQuestion.storedAt (addr : Nat) (q : FilteringResolver.DnsQuestion) : DnsQuestion :=
  ⟨some ⟨addr, q.qname⟩, q.qtype, q.qclass⟩

/-- The names of the questions of an array. -/
def namesOf (questions : List DnsQuestion) : Resources :=
  (questions.map fun question => blockOf question.qname).sum

@[simp] theorem namesOf_nil : namesOf [] = 0 := rfl

@[simp] theorem namesOf_cons (question : DnsQuestion) (questions : List DnsQuestion) :
    namesOf (question :: questions) = blockOf question.qname + namesOf questions := by
  simp [namesOf]

@[simp] theorem namesOf_append (questions questions' : List DnsQuestion) :
    namesOf (questions ++ questions') = namesOf questions + namesOf questions' := by
  simp [namesOf]

/-- An array holds the values of a list of questions. -/
def Stored : List DnsQuestion → List FilteringResolver.DnsQuestion → Prop :=
  List.Forall₂ fun question q => ∃ addr, question = .storedAt addr q

/-- The blocks of the question array. -/
def questionBlocks : Option (Ptr (List DnsQuestion)) → Resources
  | none => 0
  | some questions => {questions.block} + namesOf questions.val

/-- The blocks of a message. -/
def DnsMessage.blocks (m : DnsMessage) : Resources := questionBlocks m.questions + blockOf m.raw

/-- A message holds the value `v`, and its array has room for all its questions. -/
structure DnsMessage.Holds (m : DnsMessage) (v : FilteringResolver.DnsMessage) : Prop where
  header : m.header = v.header
  raw : m.raw.map (·.val) = v.raw
  questions : Option.Rel (fun p qs => Stored p.val qs) m.questions v.questions
  length_eq : ∀ p, m.questions = some p → p.val.length = m.header.qdcount.toNat

variable {b : Buffer} {own rest : Resources} {a : Allocs}

/-! ## Questions -/

theorem parseDnsQuestion_owning {offset : Nat}
    {post : Option (DnsQuestion × Nat) → Allocs → Resources → Prop}
    (failed : ∀ a', FilteringResolver.parseDnsQuestion b offset a = (none, a') → post none a' own)
    (parsed : ∀ a' q offset' addr,
      FilteringResolver.parseDnsQuestion b offset a = (some (q, offset'), a') →
      post (some (.storedAt addr q, offset')) a' (own + {(.block, addr)})) :
    Owning own a (parseDnsQuestion b offset) post := by
  unfold parseDnsQuestion
  split
  · next hoff => exact .pure (failed a (if_pos hoff))
  · next hoff =>
    have hq : FilteringResolver.parseDnsQuestion b offset a = _ := if_neg hoff
    cases hname : parseDnsName b offset (dnsMaxNameLen + 1) with
    | none => exact .pure (failed a (by rw [hq, hname]))
    | some r =>
      obtain ⟨qname, offset'⟩ := r
      rw [hname] at hq
      dsimp only at hq ⊢
      split
      · next hend => exact .pure (failed a (hq.trans (if_pos hend)))
      · next hend =>
        rw [if_neg hend] at hq
        refine .bind (mallocOf_owning (fun a' hm => ?_) fun a' addr hm => ?_)
        · exact .pure (failed a' (by rw [hq, strdup_of_malloc hm]; rfl))
        · rw [strdup_of_malloc hm] at hq
          exact .pure (parsed a' ⟨.ofBuffer qname, b.get16 offset', b.get16 (offset' + 2)⟩
            (offset' + 4) addr hq)

/-- The names of an array are freed when the loop runs over all of it. -/
theorem freeQnames_owning {array : Nat} {questions : List DnsQuestion}
    {post : Unit → Allocs → Resources → Prop} (hmem : (Kind.block, array) ∈ rest)
    (hown : own = rest + namesOf questions) (h : post () a rest) :
    Owning own a (freeQnames array questions.length questions) post := by
  induction questions generalizing own with
  | nil =>
    rw [namesOf_nil, add_zero] at hown
    exact .pure (hown ▸ h)
  | cons question questions ih =>
    rw [namesOf_cons, ← add_assoc, add_right_comm] at hown
    have hlive : (Kind.block, array) ∈ own := by
      rw [hown, add_assoc]
      exact Multiset.mem_add.2 (.inl hmem)
    exact .bind (.use hlive (.bind (free_owning hown (ih rfl))))

/-- The loop over the questions: a question that cannot be parsed leaves nothing of the array. -/
theorem parseQuestions_owning {array n offset : Nat} {done : List DnsQuestion}
    {post : Option (List DnsQuestion) → Allocs → Resources → Prop}
    (hown : own = rest + {(Kind.block, array)} + namesOf done)
    (failed : ∀ a', FilteringResolver.parseQuestions b n offset a = (none, a') → post none a' rest)
    (parsed : ∀ a' questions qs offset',
      FilteringResolver.parseQuestions b n offset a = (some (qs, offset'), a') →
      questions.length = n → Stored questions qs →
      post (some (done ++ questions)) a'
        (rest + {(Kind.block, array)} + namesOf (done ++ questions))) :
    Owning own a (parseQuestions b array n offset done) post := by
  induction n generalizing own offset done a with
  | zero =>
    have hp := parsed a [] [] offset rfl rfl .nil
    rw [List.append_nil, ← hown] at hp
    exact .pure hp
  | succ n ih =>
    have hlive : (Kind.block, array) ∈ own := by simp [hown]
    refine .bind (.use hlive (.bind (parseDnsQuestion_owning (fun a' hq => ?_)
      fun a' q offset' addr hq => ?_)))
    · refine .bind (freeQnames_owning (by simp) hown (.bind (.release rfl (.pure ?_))))
      exact failed a' (by rw [FilteringResolver.parseQuestions, hq])
    · refine ih ?_ (fun a'' hqs => ?_) fun a'' questions qs offset'' hqs hlen hst => ?_
      · simp only [hown, namesOf_append, namesOf_cons, namesOf_nil, DnsQuestion.storedAt,
          blockOf_some, Ptr.block]
        abel
      · exact failed a'' (by rw [FilteringResolver.parseQuestions, hq]; dsimp only; rw [hqs])
      · have hp := parsed a'' (.storedAt addr q :: questions) (q :: qs) offset''
          (by rw [FilteringResolver.parseQuestions, hq]; dsimp only; rw [hqs])
          (congrArg (· + 1) hlen) (.cons ⟨addr, rfl⟩ hst)
        rwa [List.append_assoc]

/-! ## Messages -/

/-- **`parse_dns_message` owns what it hands back**: the blocks of the message when it returns 0,
and nothing when it fails, whatever failed. -/
theorem parseDnsMessage_owning {post : Ret × DnsMessage → Allocs → Resources → Prop}
    (failed : ∀ a' header,
      FilteringResolver.parseDnsMessage b a = (.failure, .ofHeader header, a') →
      post (.failure, .ofHeader header) a' own)
    (parsed : ∀ a' m v, FilteringResolver.parseDnsMessage b a = (.success, v, a') → m.Holds v →
      post (.success, m) a' (own + m.blocks)) :
    Owning own a (parseDnsMessage b) post := by
  unfold parseDnsMessage
  have hpure : FilteringResolver.parseDnsMessage b a = _ :=
    FilteringResolver.parseDnsMessage.eq_1 b a
  cases hheader : parseDnsHeader b with
  | none =>
    rw [hheader] at hpure
    exact .pure (failed a _ hpure)
  | some header =>
    rw [hheader] at hpure
    dsimp only at hpure ⊢
    by_cases hzero : header.qdcount = 0
    · rw [if_pos hzero] at hpure ⊢
      refine .bind (mallocOf_owning (fun a' hm => ?_) fun a' addr hm => ?_)
      · exact .pure (failed a' header (by rw [hpure, hm]))
      · refine .pure ?_
        have hp := parsed a' ⟨header, none, some ⟨addr, .ofBytes b.data⟩⟩ (.ofParts header none b)
          (by rw [hpure, hm]) ⟨rfl, (DnsMessage.raw_ofParts _ _ _).symm, .none, by simp⟩
        simpa [DnsMessage.blocks, questionBlocks, Ptr.block] using hp
    · rw [if_neg hzero] at hpure ⊢
      refine .bind (mallocOf_owning (fun a' hm => ?_) fun a' array hm => ?_)
      · exact .pure (failed a' header (by rw [hpure, hm]))
      rw [hm] at hpure
      refine .bind (parseQuestions_owning (by rw [namesOf_nil, add_zero]) (fun a'' hqs => ?_)
        fun a'' questions qs offset hqs hlen hst => ?_)
      · exact .pure (failed a'' header (by rw [hpure]; dsimp only; rw [hqs]))
      rw [List.nil_append]
      refine .bind (mallocOf_owning (fun a₃ hm' => ?_) fun a₃ addr hm' => ?_)
      · rw [← hlen]
        refine .bind (freeQnames_owning (by simp) rfl (.bind (.release rfl (.pure ?_))))
        exact failed a₃ header (by rw [hpure]; dsimp only; rw [hqs]; dsimp only; rw [hm'])
      · refine .pure ?_
        have hp := parsed a₃ ⟨header, some ⟨array, questions⟩, some ⟨addr, .ofBytes b.data⟩⟩
          (.ofParts header (some qs) b)
          (by rw [hpure]; dsimp only; rw [hqs]; dsimp only; rw [hm'])
          ⟨rfl, (DnsMessage.raw_ofParts _ _ _).symm, .some hst, by rintro _ ⟨⟩; exact hlen⟩
        simpa [DnsMessage.blocks, questionBlocks, Ptr.block, add_assoc] using hp

/-- **`free_dns_message` releases the blocks of a message**, each once. -/
theorem freeDnsMessage_owning {m : DnsMessage} {post : DnsMessage → Allocs → Resources → Prop}
    (hlen : ∀ p, m.questions = some p → p.val.length = m.header.qdcount.toNat)
    (hown : own = rest + m.blocks) (h : post (.ofHeader m.header) a rest) :
    Owning own a (freeDnsMessage m) post := by
  have htail : ∀ own', own' = rest + blockOf m.raw →
      Owning own' a (do free m.raw; pure (DnsMessage.ofHeader m.header)) post :=
    fun own' hown' => .bind (free_owning hown' (.pure h))
  obtain ⟨header, questions, raw⟩ := m
  cases questions with
  | none => exact htail own (by rw [hown, DnsMessage.blocks, questionBlocks, zero_add])
  | some questions =>
    rw [DnsMessage.blocks, questionBlocks] at hown
    have hown' : own = rest + blockOf raw + {questions.block} + namesOf questions.val := by
      rw [hown]
      abel
    refine .bind ?_
    dsimp only
    rw [← hlen questions rfl]
    exact freeQnames_owning (by simp [Ptr.block]) hown' (.bind (.release rfl (htail _ rfl)))

theorem DnsMessage.Holds.ofHeader (header : DnsHeader) :
    DnsMessage.Holds (.ofHeader header) (.ofHeader header) :=
  ⟨rfl, rfl, .none, by rintro _ ⟨⟩⟩

/-- **Parsing and freeing**: whatever the datagram and whichever allocation fails, the message that
`parse_dns_message` leaves owns exactly the blocks it has added, none when the call failed;
`free_dns_message` releases them, after a failed call too, and a second call releases nothing. -/
theorem parseDnsMessage_freed (b : Buffer) (a : Allocs) (l : Ledger Kind) :
    ∃ ret m v a' l₁ l₂, parseDnsMessage b a l = some (((ret, m), a'), l₁) ∧
      FilteringResolver.parseDnsMessage b a = (ret, v, a') ∧ m.Holds v ∧
      l₁.live = l.live + m.blocks ∧ (ret ≠ .success → l₁.live = l.live) ∧
      freeDnsMessage m a' l₁ = some ((.ofHeader m.header, a'), l₂) ∧ l₂.live = l.live ∧
      freeDnsMessage (.ofHeader m.header) a' l₂ = some ((.ofHeader m.header, a'), l₂) := by
  have hparse : Owning l.live a (parseDnsMessage b) fun r a' own' =>
      ∃ v, FilteringResolver.parseDnsMessage b a = (r.1, v, a') ∧ r.2.Holds v ∧
        own' = l.live + r.2.blocks ∧ (r.1 ≠ .success → own' = l.live) :=
    parseDnsMessage_owning
      (fun a' header h => ⟨_, h, .ofHeader header, (add_zero _).symm, fun _ => rfl⟩)
      fun a' m v h hv => ⟨v, h, hv, rfl, fun hne => absurd rfl hne⟩
  obtain ⟨⟨ret, m⟩, a', l₁, hrun, v, hpure, hv, hlive, hfailed⟩ := hparse.run
  have hfree : Owning l₁.live a' (freeDnsMessage m) fun m' a'' own' =>
      m' = .ofHeader m.header ∧ a'' = a' ∧ own' = l.live :=
    freeDnsMessage_owning hv.length_eq hlive ⟨rfl, rfl, rfl⟩
  obtain ⟨m', a'', l₂, hrun', hm', ha', hlive'⟩ := hfree.run
  rw [hm', ha'] at hrun'
  exact ⟨ret, m, v, a', l₁, l₂, hrun, hpure, hv, hlive, hfailed, hrun', hlive', rfl⟩

/-! ## Error responses -/

theorem DnsMessage.raw_block_mem {m : DnsMessage} {raw : Ptr Buffer} (h : m.raw = some raw) :
    raw.block ∈ m.blocks := by
  simp [blocks, h]

/-- The first question of a message: its array and its name are blocks of the message. -/
theorem DnsMessage.Holds.first {m : DnsMessage} {v : FilteringResolver.DnsMessage} (h : m.Holds v)
    {q : FilteringResolver.DnsQuestion} {qs : List FilteringResolver.DnsQuestion}
    (hq : v.questions = some (q :: qs)) :
    ∃ array addr questions, m.questions = some array ∧
      array.val = DnsQuestion.storedAt addr q :: questions ∧
      array.block ∈ m.blocks ∧ (Kind.block, addr) ∈ m.blocks := by
  have hrel := h.questions
  rw [hq] at hrel
  cases harray : m.questions with
  | none =>
    rw [harray] at hrel
    cases hrel
  | some array =>
    rw [harray] at hrel
    cases hrel with
    | some hstored =>
      obtain ⟨_, questions, ⟨addr, rfl⟩, -, hval⟩ := List.forall₂_cons_right_iff.1 hstored
      refine ⟨array, addr, questions, rfl, hval, ?_, ?_⟩
      · simp [blocks, harray, questionBlocks]
      · simp [blocks, harray, questionBlocks, hval, DnsQuestion.storedAt, Ptr.block]

/-- **`build_error_response` owns what it hands back**: its response, or nothing. -/
theorem buildErrorResponse_owning {m : DnsMessage} {v : FilteringResolver.DnsMessage}
    (hv : m.Holds v) (hown : own = rest + m.blocks) {rcode : UInt8} {len : Nat}
    {post : Ret × Out → Allocs → Resources → Prop}
    (failed : ∀ a' len',
      FilteringResolver.buildErrorResponse v rcode ⟨none, len⟩ a = (.failure, ⟨none, len'⟩, a') →
      post (.failure, ⟨none, len'⟩) a' own)
    (built : ∀ a' addr reply len',
      FilteringResolver.buildErrorResponse v rcode ⟨none, len⟩ a =
        (.success, ⟨some reply, len'⟩, a') →
      post (.success, ⟨some ⟨addr, reply⟩, len'⟩) a' (own + {(.block, addr)})) :
    Owning own a (buildErrorResponse m rcode ⟨none, len⟩) post := by
  unfold buildErrorResponse
  have hpure := FilteringResolver.buildErrorResponse.eq_1 v rcode ⟨none, len⟩ a
  split
  · next hr => exact .pure (failed a len (hpure.trans (if_pos hr)))
  rw [if_neg ‹_›, ← hv.raw] at hpure
  cases hraw : m.raw with
  | none =>
    rw [hraw] at hpure
    exact .pure (failed a len hpure)
  | some raw =>
    have hlive : raw.block ∈ own := by
      rw [hown]
      exact Multiset.mem_add.2 (.inr (DnsMessage.raw_block_mem hraw))
    rw [hraw] at hpure
    dsimp only [Option.map_some] at hpure ⊢
    refine .bind (load_owning hlive ?_)
    split
    · next hshort => exact .pure (failed a len (hpure.trans (if_pos hshort)))
    rw [if_neg ‹_›] at hpure
    cases hsize : questionSize raw.val with
    | none =>
      rw [hsize] at hpure
      exact .pure (failed a len hpure)
    | some size =>
      rw [hsize] at hpure
      dsimp only at hpure ⊢
      refine .bind (mallocOf_owning (fun a' hm => ?_) fun a' addr hm => ?_)
      · exact .pure (failed a' _ (by rw [hpure, hm]))
      · rw [hv.header]
        exact .pure (built a' addr _ _ (by rw [hpure, hm]))

end FilteringResolver.Heap
