import FilteringResolver.DnsBuilder
import FilteringResolver.Verify.Message

/-!
# Error responses

The QNAME walk of `build_error_response` ends a question without pointers where the parser does
and rejects every other question the parser accepts (`questionSize_eq`). So an error response
holds the first question in place behind its header (`questionAt_errorResponse`), and reads back
as the query when this is the only question.
-/

namespace FilteringResolver

open Loops

/-! ## The copy of the datagram -/

/-- `raw_data` spells the names of the datagram it was copied from. -/
theorem Decodes.data {b : Buffer} {pos : Nat} {ls : List Bytes} {jumps fin : Nat}
    (h : Decodes b pos ls jumps fin) : Decodes (.ofBytes b.data) pos ls jumps fin :=
  h.congr (Buffer.data_ofBytes b.data).symm

/-! ## The walk over the QNAME -/

/-- **The two walks agree** on names without pointers, and the builder rejects the others. -/
theorem qnameLoop_decodes {b : Buffer} {pos : Nat} {ls : List Bytes} {jumps fin : Nat}
    (h : Decodes b pos ls jumps fin) :
    (qnameLoop b).run pos = if jumps = 0 then some (fin - 1) else none := by
  induction h with
  | root lt zero => exact Loop.run_exit _ (by simp [qnameLoop, qnameStep, zero])
  | label one_le le fits rest ih =>
    rename_i pos ls jumps fin
    simp only [dnsMaxLabelLen] at le
    have hne : b.get pos ≠ 0 := by
      intro h0
      simp [h0] at one_le
    have hstep : (qnameLoop b).step pos = .inl (pos + (b.get pos).toNat + 1) := by
      have hsmall : ¬ 64 ≤ b.get pos := by
        rw [UInt8.le_iff_toNat_le]
        simp
        omega
      simp only [qnameLoop, qnameStep]
      rw [if_pos ⟨by omega, hne⟩, if_neg hsmall]
    have hnext : pos + (b.get pos).toNat + 1 = pos + 1 + (b.get pos).toNat := by omega
    rw [Loop.run_next _ hstep, hnext, ih]
  | pointer tag fits back rest ih =>
    rename_i pos ls jumps fin
    have hne : b.get pos ≠ 0 := by
      intro h0
      simp [h0] at tag
    have hbig : 64 ≤ b.get pos := by
      rw [UInt8.le_iff_toNat_le]
      simp
      omega
    refine Loop.run_exit _ ?_
    simp only [qnameLoop, qnameStep]
    rw [if_pos ⟨by omega, hne⟩, if_pos hbig, if_neg (by omega)]

theorem questionSize_eq {b : Buffer} {ls : List Bytes} {jumps fin : Nat}
    (h : QuestionAt b dnsHeaderSize ls jumps fin) :
    questionSize b = if jumps = 0 then some (fin + 4 - dnsHeaderSize) else none := by
  have hfin := h.decodes.lt_fin
  have hfits := h.fits
  rw [questionSize, qnameLoop_decodes h.decodes]
  by_cases hj : jumps = 0
  · simp only [hj, ite_true]
    rw [if_neg (by omega), if_neg (by omega), show fin - 1 + 5 = fin + 4 by omega]
  · simp only [hj, ite_false]

theorem QuestionAt.data {b : Buffer} {offset : Nat} {ls : List Bytes} {jumps fin : Nat}
    (h : QuestionAt b offset ls jumps fin) :
    QuestionAt (.ofBytes b.data) offset ls jumps fin where
  decodes := h.decodes.data
  jumps_le := h.jumps_le
  octets_le := h.octets_le
  fits := by
    have := h.fits
    simpa [Buffer.ofBytes] using this

/-- The walk only moves forward. -/
theorem qnameLoop_ge {raw : Buffer} {p q : Nat} (h : (qnameLoop raw).run p = some q) : p ≤ q := by
  have hinv : ∀ q, (qnameLoop raw).run p = some q → p ≤ q := by
    refine (qnameLoop raw).invariant (P := fun s => p ≤ s) (Q := fun r => ∀ q, r = some q → p ≤ q)
      ?_ ?_ (Nat.le_refl p)
    · intro s t hs hstep
      simp only [qnameLoop, qnameStep] at hstep
      split at hstep <;> [skip; cases hstep]
      split at hstep <;> cases hstep
      omega
    · intro s r hs hstep q hq
      simp only [qnameLoop, qnameStep] at hstep
      split at hstep
      · split at hstep <;> cases hstep
        cases hq
      · cases hstep
        cases hq
        exact hs
  exact hinv q h

/-- A question section that was sized lies within the raw data. -/
theorem questionSize_le {raw : Buffer} {size : Nat} (h : questionSize raw = some size) :
    5 ≤ size ∧ dnsHeaderSize + size ≤ raw.len := by
  unfold questionSize at h
  split at h <;> [cases h; skip]
  next q hq =>
  have hge := qnameLoop_ge hq
  split at h <;> [cases h; skip]
  split at h <;> cases h
  omega

/-! ## Building -/

/-- **What an error response is made of**, for any message: its header and octets of the raw data
behind the header. -/
theorem buildErrorResponse_echo {m : DnsMessage} {raw : Buffer} (hraw : m.raw = some raw)
    {rcode : UInt8} {out out' : Out} {a a' : Allocs}
    (h : buildErrorResponse m rcode out a = (.success, out', a')) :
    ∃ size, questionSize raw = some size ∧ dnsHeaderSize + size ≤ raw.len ∧
      out' = ⟨some (buildDnsHeader (errorHeader m.header rcode) ++ raw.slice dnsHeaderSize size),
        dnsHeaderSize + size⟩ := by
  unfold buildErrorResponse at h
  split at h <;> [cases h; skip]
  rw [hraw] at h
  dsimp only at h
  split at h <;> [cases h; skip]
  split at h <;> [cases h; skip]
  next size hsize =>
  obtain ⟨-, hle⟩ := questionSize_le hsize
  cases ha : a.head <;> simp only [malloc, ha] at h <;> cases h
  exact ⟨size, hsize, hle, rfl⟩

/-- An error response is no longer than the raw data and reads back with its header. -/
theorem buildErrorResponse_header {m : DnsMessage} {raw : Buffer} (hraw : m.raw = some raw)
    {rcode : UInt8} {out out' : Out} {a a' : Allocs}
    (h : buildErrorResponse m rcode out a = (.success, out', a')) :
    ∃ response, out' = ⟨some response, response.length⟩ ∧ response.length ≤ raw.len ∧
      parseDnsHeader (.ofBytes response) = some (errorHeader m.header rcode) := by
  obtain ⟨size, -, hsize, rfl⟩ := buildErrorResponse_echo hraw h
  have hlength : (buildDnsHeader (errorHeader m.header rcode) ++
      raw.slice dnsHeaderSize size).length = dnsHeaderSize + size := by
    rw [List.length_append, length_buildDnsHeader, Buffer.length_slice hsize]
  refine ⟨_, by rw [hlength], by omega, ?_⟩
  exact parseDnsHeader_build rfl (Nat.le_trans (Nat.le_add_right _ size) hlength.ge)

/-- The header of an error response and the octets of the first question. -/
def errorResponse (b : Buffer) (header : DnsHeader) (rcode : UInt8) (fin : Nat) : Bytes :=
  buildDnsHeader (errorHeader header rcode) ++ b.slice dnsHeaderSize (fin + 4 - dnsHeaderSize)

section Build

variable {b : Buffer} {m : DnsMessage} {ls : List Bytes} {jumps fin : Nat}

theorem length_errorResponse (hq : QuestionAt b dnsHeaderSize ls jumps fin) (header : DnsHeader)
    (rcode : UInt8) : (errorResponse b header rcode fin).length = fin + 4 := by
  have hfin := hq.decodes.lt_fin
  have hfits := hq.fits
  rw [errorResponse, List.length_append, length_buildDnsHeader, Buffer.length_slice (by omega)]
  omega

/-- A question with a pointer is not echoed. -/
theorem buildErrorResponse_pointer (h : Parsed b m) (hq : QuestionAt b dnsHeaderSize ls jumps fin)
    (hj : jumps ≠ 0) (rcode : UInt8) (out : Out) (a : Allocs) :
    buildErrorResponse m rcode out a = (.failure, out, a) := by
  rw [buildErrorResponse, h.raw_eq]
  split
  · rfl
  · dsimp only
    split
    · rfl
    · rw [questionSize_eq hq.data, if_neg hj]

theorem buildErrorResponse_plain (h : Parsed b m) (hq : QuestionAt b dnsHeaderSize ls 0 fin)
    {rcode : UInt8} (hr : rcode ≤ dnsRcodeRefused) (out : Out) (a : Allocs) :
    buildErrorResponse m rcode out a =
      if a.head then
        (.success, ⟨some (errorResponse b m.header rcode fin), fin + 4⟩, a.tail)
      else (.failure, ⟨none, fin + 4⟩, a.tail) := by
  have hfin := hq.decodes.lt_fin
  have hfits := hq.fits
  have hlen : (Buffer.ofBytes b.data).len = b.len := b.length_data
  have hslice := Buffer.slice_data (b := b) (i := dnsHeaderSize) (n := fin + 4 - dnsHeaderSize)
    (by omega)
  rw [buildErrorResponse, if_neg (UInt8.not_lt.2 hr), h.raw_eq]
  dsimp only
  rw [if_neg (by omega), questionSize_eq hq.data, if_pos rfl]
  simp only [malloc, errorResponse, hslice,
    show dnsHeaderSize + (fin + 4 - dnsHeaderSize) = fin + 4 by omega]
  cases a.head <;> rfl

/-- A response is built for a legal code and a question without pointers, once there is memory. -/
theorem buildErrorResponse_success_iff (h : Parsed b m)
    (hq : QuestionAt b dnsHeaderSize ls jumps fin) {rcode : UInt8} (hr : rcode ≤ dnsRcodeRefused)
    (out : Out) (a : Allocs) :
    (buildErrorResponse m rcode out a).1 = .success ↔ jumps = 0 ∧ a.head = true := by
  by_cases hj : jumps = 0
  · subst hj
    rw [buildErrorResponse_plain h hq hr]
    cases a.head <;> simp
  · rw [buildErrorResponse_pointer h hq hj]
    simp [hj]

/-- What is known of a response that was built. -/
theorem buildErrorResponse_success {rcode : UInt8} {out out' : Out} {a a' : Allocs} (h : Parsed b m)
    (hq : QuestionAt b dnsHeaderSize ls jumps fin)
    (hb : buildErrorResponse m rcode out a = (.success, out', a')) :
    jumps = 0 ∧ out' = ⟨some (errorResponse b m.header rcode fin), fin + 4⟩ := by
  have hr : rcode ≤ dnsRcodeRefused := by
    by_contra hr
    rw [buildErrorResponse, if_pos (UInt8.not_le.1 hr)] at hb
    cases hb
  obtain ⟨rfl, ha⟩ := (buildErrorResponse_success_iff h hq hr out a).1 (by rw [hb])
  rw [buildErrorResponse_plain h hq hr, if_pos ha] at hb
  cases hb
  exact ⟨rfl, rfl⟩

end Build

/-! ## Reading the response -/

/-- A block that starts with `head` and goes on with the octets of `b` at the same place. -/
theorem slice_append_slice {b : Buffer} (head : Bytes) {m n : Nat} (hm : m ≤ n) :
    (Buffer.ofBytes (head ++ b.slice head.length n)).slice head.length m =
      b.slice head.length m := by
  simp [Buffer.slice, Buffer.ofBytes, List.take_take, Nat.min_eq_left hm]

theorem get_append_slice {b : Buffer} (head : Bytes) {i n : Nat} (hi : i < n) :
    (Buffer.ofBytes (head ++ b.slice head.length n)).get (head.length + i) =
      b.get (head.length + i) := by
  simp only [Buffer.get, Buffer.ofBytes, Buffer.slice, List.getD_eq_getElem?_getD]
  rw [List.getElem?_append_right (by omega), Nat.add_sub_cancel_left, List.getElem?_take_of_lt hi,
    List.getElem?_drop]

section Read

variable {b : Buffer} {m : DnsMessage} {ls : List Bytes} {fin : Nat} (header : DnsHeader)
  (rcode : UInt8)

theorem get_errorResponse {i : Nat} (hi : dnsHeaderSize ≤ i) (hfin : i < fin + 4) :
    (Buffer.ofBytes (errorResponse b header rcode fin)).get i = b.get i := by
  obtain ⟨k, rfl⟩ := Nat.exists_eq_add_of_le hi
  exact get_append_slice (buildDnsHeader (errorHeader header rcode)) (by
    simp only [dnsHeaderSize] at hfin ⊢
    omega)

/-- **The response holds the first question in place.** -/
theorem questionAt_errorResponse (hq : QuestionAt b dnsHeaderSize ls 0 fin) :
    QuestionAt (.ofBytes (errorResponse b header rcode fin)) dnsHeaderSize ls 0 fin := by
  have hlt := hq.decodes.lt_fin
  have hlen : (Buffer.ofBytes (errorResponse b header rcode fin)).len = fin + 4 :=
    length_errorResponse hq header rcode
  obtain ⟨hlegal, hslice, hfin, -⟩ := decodes_zero_iff.1 hq.decodes
  refine ⟨decodes_zero_iff.2 ⟨hlegal, ?_, hfin, by omega⟩, hq.jumps_le, hq.octets_le, by omega⟩
  rw [← hslice]
  exact slice_append_slice (buildDnsHeader (errorHeader header rcode)) (by omega)

theorem questionOf_errorResponse (hq : QuestionAt b dnsHeaderSize ls 0 fin) :
    questionOf (.ofBytes (errorResponse b header rcode fin)) ls fin = questionOf b ls fin := by
  have hlt := hq.decodes.lt_fin
  have hget : ∀ i, i < 4 →
      (Buffer.ofBytes (errorResponse b header rcode fin)).get (fin + i) = b.get (fin + i) :=
    fun i hi => get_errorResponse header rcode (by omega) (by omega)
  simp only [questionOf, Buffer.get16, DnsQuestion.mk.injEq, true_and]
  exact ⟨congrArg₂ be16 (hget 0 (by omega)) (hget 1 (by omega)),
    congrArg₂ be16 (hget 2 (by omega)) (hget 3 (by omega))⟩

theorem parseDnsHeader_errorResponse (hq : QuestionAt b dnsHeaderSize ls 0 fin) :
    parseDnsHeader (.ofBytes (errorResponse b header rcode fin)) =
      some (errorHeader header rcode) := by
  have hlt := hq.decodes.lt_fin
  refine parseDnsHeader_build rfl ?_
  have hlen : (Buffer.ofBytes (errorResponse b header rcode fin)).len = fin + 4 :=
    length_errorResponse hq header rcode
  omega

/-- The response to a query with one question is parsed to its header and that question. -/
theorem parsed_errorResponse (hq : QuestionAt b dnsHeaderSize ls 0 fin)
    (hone : header.qdcount = 1) :
    Parsed (.ofBytes (errorResponse b header rcode fin))
      (.ofParts (errorHeader header rcode) (some [questionOf b ls fin])
        (.ofBytes (errorResponse b header rcode fin))) := by
  have hcount : (errorHeader header rcode).qdcount = 1 := hone
  rw [← questionOf_errorResponse header rcode hq]
  apply Parsed.questions (parseDnsHeader_errorResponse header rcode hq)
  · rw [hcount]
    decide
  · exact .cons (questionAt_errorResponse header rcode hq) .nil
  · rw [hcount]
    rfl

end Read

/-- **An error response reads back as its query**: for a datagram with one question a response is
built exactly when the name has no pointer and there is memory for it, and then it ends with the
question and is parsed to the query's id, the flags of a response and the question itself. -/
theorem buildErrorResponse_readsBack {b : Buffer} {a a' : Allocs} {m : DnsMessage}
    (h : parseDnsMessage b a = (.success, m, a')) (hone : m.header.qdcount = 1) {rcode : UInt8}
    (hr : rcode ≤ dnsRcodeRefused) (out : Out) (mem : Allocs) :
    ∃ ls jumps fin q, Decodes b dnsHeaderSize ls jumps fin ∧ m.questions = some [q] ∧
      parseDnsQuestion b dnsHeaderSize .ok = (some (q, fin + 4), .ok) ∧
      ((buildErrorResponse m rcode out mem).1 = .success ↔ jumps = 0 ∧ mem.head = true) ∧
      ∀ out' mem', buildErrorResponse m rcode out mem = (.success, out', mem') →
        ∃ response, out' = ⟨some response, response.length⟩ ∧
          response.length = dnsHeaderSize + (fin + 4 - dnsHeaderSize) ∧
          parseDnsMessage (.ofBytes response) .ok = (.success, .ofParts
            { id := m.header.id
              flags := dnsFlagQR ||| (m.header.flags &&& dnsFlagRD) ||| rcode.toUInt16
              qdcount := 1, ancount := 0, nscount := 0, arcount := 0 }
            (some [q]) (.ofBytes response), .ok) := by
  have hp := parseDnsMessage_parsed h
  obtain ⟨ls, jumps, fin, rest, hq, hquestions, hlen⟩ := hp.first (by rw [hone]; decide)
  obtain rfl : rest = [] := by
    rw [hone] at hlen
    exact List.length_eq_zero_iff.1 (Nat.succ.inj hlen)
  refine ⟨ls, jumps, fin, _, hq.decodes, hquestions, parseDnsQuestion_complete hq,
    buildErrorResponse_success_iff hp hq hr out mem, fun out' mem' hb => ?_⟩
  obtain ⟨rfl, rfl⟩ := buildErrorResponse_success hp hq hb
  have hfin := hq.decodes.lt_fin
  have hlength := length_errorResponse hq m.header rcode
  refine ⟨errorResponse b m.header rcode fin, by rw [hlength], by omega, ?_⟩
  rw [(parsed_errorResponse m.header rcode hq hone).parse_ok, errorHeader, hone]

/-- The query for the address of `a`, with its response reading back. -/
theorem buildErrorResponse_readsBack_nxdomain :
    let b := Buffer.ofBytes [0x12, 0x34, 1, 0, 0, 1, 0, 0, 0, 0, 0, 0, 1, 97, 0, 0, 1, 0, 1]
    (buildErrorResponse (parseDnsMessage b .ok).2.1 dnsRcodeNxdomain ⟨none, 0⟩ .ok).1 =
      .success := by
  intro b
  have hparse : (parseDnsMessage b .ok).1 = .success := by decide
  obtain ⟨ls, jumps, fin, q, hd, -, -, hiff, -⟩ :=
    buildErrorResponse_readsBack (Prod.ext hparse rfl) (by decide) dnsRcodeNxdomain_le ⟨none, 0⟩ .ok
  obtain ⟨-, rfl, -⟩ := hd.functional
    (.label (by decide) (by decide) (by decide) (.root (by decide) (by decide)))
  exact hiff.2 ⟨rfl, rfl⟩

/-! ## The question count of the response -/

/-- Exactly `n` complete questions follow the header. -/
def HoldsQuestions (b : Buffer) (n : Nat) : Prop :=
  (parseQuestions b n dnsHeaderSize .ok).1.isSome ∧
    ¬ (parseQuestions b (n + 1) dnsHeaderSize .ok).1.isSome

/-- A message that holds as many complete questions as its header counts, and is parsed and
consumed exactly to its end. -/
def SelfConsistent (response : Bytes) : Prop :=
  ∃ header questions, parseDnsHeader (.ofBytes response) = some header ∧
    HoldsQuestions (.ofBytes response) header.qdcount.toNat ∧
    (parseDnsMessage (.ofBytes response) .ok).1 = .success ∧
    (parseQuestions (.ofBytes response) header.qdcount.toNat dnsHeaderSize .ok).1 =
      some (questions, response.length)

/-- Behind a question that ends the block no other one is found. -/
theorem parseQuestions_isSome_iff {b : Buffer} {offset : Nat} {ls : List Bytes} {jumps fin : Nat}
    (hq : QuestionAt b offset ls jumps fin) (hend : b.len = fin + 4) (n : Nat) :
    (parseQuestions b n offset .ok).1.isSome ↔ n ≤ 1 := by
  constructor
  · intro h
    obtain ⟨⟨qs, last⟩, hqs⟩ := Option.isSome_iff_exists.1 h
    obtain ⟨hrow, rfl⟩ := parseQuestions_sound (Prod.ext hqs rfl)
    cases hrow with
    | nil => exact Nat.zero_le 1
    | cons first rest =>
      obtain ⟨-, -, rfl⟩ := first.decodes.functional hq.decodes
      cases rest with
      | nil => exact Nat.le_refl 1
      | cons second _ =>
        have := second.decodes.pos_lt
        omega
  · intro hn
    rcases Nat.le_one_iff_eq_zero_or_eq_one.1 hn with rfl | rfl
    · rfl
    · have h := parseQuestions_complete (QuestionsAt.cons hq .nil)
      rw [List.length_singleton] at h
      rw [h]
      rfl

/-- **An error response is self-consistent exactly for one question**: its header repeats the
count of the query, its body always holds the first question only. -/
theorem errorResponse_selfConsistent_iff {b : Buffer} {a a' mem mem' : Allocs} {m : DnsMessage}
    (h : parseDnsMessage b a = (.success, m, a')) (hpos : m.header.qdcount ≠ 0) {rcode : UInt8}
    {out out' : Out} (hb : buildErrorResponse m rcode out mem = (.success, out', mem')) :
    ∃ response, out' = ⟨some response, response.length⟩ ∧
      (SelfConsistent response ↔ m.header.qdcount = 1) := by
  have hp := parseDnsMessage_parsed h
  obtain ⟨ls, jumps, fin, rest, hq, -, -⟩ := hp.first hpos
  obtain ⟨rfl, rfl⟩ := buildErrorResponse_success hp hq hb
  have hlength := length_errorResponse hq m.header rcode
  have hq' := questionAt_errorResponse m.header rcode hq
  have hheader := parseDnsHeader_errorResponse m.header rcode hq
  have hcount := parseQuestions_isSome_iff hq' hlength
  refine ⟨errorResponse b m.header rcode fin, by rw [hlength], ?_⟩
  have hpos' : m.header.qdcount.toNat ≠ 0 := fun h0 => hpos (UInt16.toNat.inj h0)
  constructor
  · rintro ⟨header, -, hh, ⟨hsome, -⟩, -, -⟩
    obtain rfl : errorHeader m.header rcode = header := Option.some.inj (hheader.symm.trans hh)
    have hle : m.header.qdcount.toNat ≤ 1 := (hcount _).1 hsome
    exact UInt16.toNat.inj (show m.header.qdcount.toNat = 1 by omega)
  · intro hone
    have hrow : QuestionsAt (.ofBytes (errorResponse b m.header rcode fin)) dnsHeaderSize _ _ :=
      .cons hq' .nil
    have hqd : (errorHeader m.header rcode).qdcount.toNat = 1 := by
      rw [errorHeader, hone]
      rfl
    have hread := parseQuestions_complete hrow
    rw [List.length_singleton] at hread
    refine ⟨errorHeader m.header rcode,
      [questionOf (.ofBytes (errorResponse b m.header rcode fin)) ls fin], hheader, ?_, ?_, ?_⟩
    · rw [hqd, HoldsQuestions, hcount, hcount]
      omega
    · have hne : (errorHeader m.header rcode).qdcount ≠ 0 := by
        intro h0
        simp [h0] at hqd
      rw [(Parsed.questions hheader hne hrow (by rw [hqd]; rfl)).parse_ok]
    · rw [hqd, hread, hlength]

/-- A query with two questions: the response counts both and holds the first. -/
theorem errorResponse_two_questions :
    let b := Buffer.ofBytes [0x12, 0x34, 1, 0, 0, 2, 0, 0, 0, 0, 0, 0,
      1, 97, 0, 0, 1, 0, 1, 1, 98, 0, 0, 1, 0, 1]
    let query := (parseDnsMessage b .ok).2.1
    let r := buildErrorResponse query dnsRcodeNxdomain ⟨none, 0⟩ .ok
    (parseDnsMessage b .ok).1 = .success ∧ query.header.qdcount = 2 ∧ r.1 = .success ∧
      ¬ ∃ response, r.2.1 = ⟨some response, response.length⟩ ∧ SelfConsistent response := by
  intro b query r
  refine ⟨by decide, by decide, by decide, ?_⟩
  rintro ⟨response, hr, -, -, -, -, hparse, -⟩
  obtain rfl : [0x12, 0x34, 0x81, 3, 0, 2, 0, 0, 0, 0, 0, 0, 1, 97, 0, 0, 1, 0, 1] = response := by
    have hout : r.2.1 = ⟨some [0x12, 0x34, 0x81, 3, 0, 2, 0, 0, 0, 0, 0, 0, 1, 97, 0, 0, 1, 0, 1],
      19⟩ := by decide
    exact Option.some.inj (congrArg Out.response (hout.symm.trans hr))
  exact absurd hparse (by decide)

/-- The query for the address of `a`, with one question. -/
theorem errorResponse_selfConsistent_oneQuestion :
    let b := Buffer.ofBytes [0x12, 0x34, 1, 0, 0, 1, 0, 0, 0, 0, 0, 0, 1, 97, 0, 0, 1, 0, 1]
    let query := (parseDnsMessage b .ok).2.1
    ∃ response, (buildErrorResponse query dnsRcodeNxdomain ⟨none, 0⟩ .ok).2.1 =
      ⟨some response, response.length⟩ ∧ SelfConsistent response := by
  intro b query
  have hparse : (parseDnsMessage b .ok).1 = .success := by decide
  have hbuild : (buildErrorResponse query dnsRcodeNxdomain ⟨none, 0⟩ .ok).1 = .success := by decide
  obtain ⟨response, hout, hiff⟩ := errorResponse_selfConsistent_iff (Prod.ext hparse rfl)
    (by decide) (Prod.ext hbuild rfl)
  exact ⟨response, hout, hiff.2 (by decide)⟩

end FilteringResolver
