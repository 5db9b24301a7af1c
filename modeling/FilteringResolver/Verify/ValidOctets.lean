import FilteringResolver.Verify.Query

/-!
# Only the valid octets count

Two buffers that agree on their valid octets may hold anything behind them. Every function of the
parser computes the same from both, one lemma per function from the header up to the message, so
a query in the reused receive buffer is processed as if nothing had been received before it
(`processDnsQuery_valid`).
-/

namespace FilteringResolver

open Loops

/-- The header is the first twelve octets, where there are so many. -/
theorem parseDnsHeader_eq {b b' : Buffer} (hlen : b.len < dnsHeaderSize ↔ b'.len < dnsHeaderSize)
    (hget : dnsHeaderSize ≤ b.len → ∀ i < dnsHeaderSize, b.get i = b'.get i) :
    parseDnsHeader b = parseDnsHeader b' := by
  by_cases hshort : b.len < dnsHeaderSize
  · rw [parseDnsHeader, parseDnsHeader, if_pos hshort, if_pos (hlen.1 hshort)]
  · have hword : ∀ i, i + 1 < dnsHeaderSize → b.get16 i = b'.get16 i := by
      intro i hi
      have hlong := Nat.le_of_not_lt hshort
      rw [Buffer.get16, Buffer.get16, hget hlong i (Nat.lt_of_succ_lt hi), hget hlong (i + 1) hi]
    rw [parseDnsHeader, parseDnsHeader, if_neg hshort, if_neg (mt hlen.2 hshort),
      hword 0 (by decide), hword 2 (by decide), hword 4 (by decide), hword 6 (by decide),
      hword 8 (by decide), hword 10 (by decide)]

section

variable {b b' : Buffer} (h : b.data = b'.data)
include h

/-! ## The parser -/

theorem parseDnsHeader_congr : parseDnsHeader b = parseDnsHeader b' := by
  have hlen := Buffer.len_congr h
  apply parseDnsHeader_eq
  · rw [hlen]
  · intro hlong i hi
    exact Buffer.get_congr h (Nat.lt_of_lt_of_le hi hlong)

/-- A pass reads the length octet behind the loop test, the second octet of a pointer behind its
own test, and copies a label only when it ends inside the buffer. -/
theorem nameStep_congr (nameLen : Nat) (s : NameState) :
    nameStep b nameLen s = nameStep b' nameLen s := by
  have hlen := Buffer.len_congr h
  unfold nameStep
  rw [← hlen]
  split <;> [skip; rfl]
  next hpos =>
  rw [← Buffer.get_congr h hpos]
  dsimp only
  split
  · split <;> [rfl; skip]
    next hnext =>
    rw [← Buffer.get_congr h (Nat.lt_of_not_le hnext)]
  · split <;> [rfl; skip]
    split <;> [rfl; skip]
    split <;> [rfl; skip]
    next hfits =>
    rw [← Buffer.slice_congr h (Nat.le_of_not_lt hfits)]

theorem parseDnsName_congr (offset nameLen : Nat) :
    parseDnsName b offset nameLen = parseDnsName b' offset nameLen := by
  unfold parseDnsName
  rw [Loop.run_congr (nameLoop b nameLen) (nameLoop b' nameLen) (nameStep_congr h nameLen)]

theorem parseDnsQuestion_congr (offset : Nat) (a : Allocs) :
    parseDnsQuestion b offset a = parseDnsQuestion b' offset a := by
  have hlen := Buffer.len_congr h
  unfold parseDnsQuestion
  rw [← hlen, ← parseDnsName_congr h]
  split <;> [rfl; skip]
  split <;> [rfl; skip]
  split <;> [rfl; skip]
  next hfits =>
  rw [← Buffer.get16_congr h (by omega), ← Buffer.get16_congr h (by omega)]

theorem parseQuestions_congr (n offset : Nat) (a : Allocs) :
    parseQuestions b n offset a = parseQuestions b' n offset a := by
  induction n generalizing offset a with
  | zero => rfl
  | succ n ih => simp only [parseQuestions, parseDnsQuestion_congr h, ih]

theorem DnsMessage.ofParts_congr (header : DnsHeader) (questions : Option (List DnsQuestion)) :
    ofParts header questions b = ofParts header questions b' := by
  simp only [ofParts, h, Buffer.len_congr h]

theorem parseDnsMessage_congr (a : Allocs) : parseDnsMessage b a = parseDnsMessage b' a := by
  unfold parseDnsMessage
  rw [parseDnsHeader_congr h]
  simp only [parseQuestions_congr h, DnsMessage.ofParts_congr h]

theorem processDnsQuery_congr (config : ServerConfig) (out : Out) (host : Host) (a : Allocs) :
    processDnsQuery config b out host a = processDnsQuery config b' out host a := by
  unfold processDnsQuery
  rw [parseDnsMessage_congr h]

end

/-! ## The reused receive buffer -/

/-- The first `n` octets of the receive buffer, as `process_dns_query` gets them. -/
def QueryBuffer.valid (q : QueryBuffer) (n : Nat) (hn : n ≤ dnsUdpMaxSize) : Buffer where
  bytes := q.bytes
  len := n
  len_le := q.length_eq ▸ hn

/-- **No leak from earlier datagrams**: what `process_dns_query` returns, answers and sends does
not depend on the octets of the receive buffer behind the ones that were just received. -/
theorem processDnsQuery_valid (config : ServerConfig) (out : Out) (host : Host) (a : Allocs)
    (q q' : QueryBuffer) (n : Nat) (hn : n ≤ dnsUdpMaxSize)
    (hagree : ∀ i < n, q.bytes[i]? = q'.bytes[i]?) :
    processDnsQuery config (q.valid n hn) out host a =
      processDnsQuery config (q'.valid n hn) out host a := by
  apply processDnsQuery_congr
  apply List.ext_getElem?
  intro i
  change (q.bytes.take n)[i]? = (q'.bytes.take n)[i]?
  rw [List.getElem?_take, List.getElem?_take]
  split
  · next hi => exact hagree i hi
  · rfl

/-- A query for `a` in a fresh buffer and in one that a datagram of ones has filled before. -/
theorem processDnsQuery_valid_stale :
    let query : Bytes := [0x12, 0x34, 1, 0, 0, 1, 0, 0, 0, 0, 0, 0, 1, 97, 0, 0, 1, 0, 1]
    let fresh : QueryBuffer := ⟨query ++ List.replicate 493 0, by
      rw [List.length_append, List.length_replicate]; rfl⟩
    let used : QueryBuffer := ⟨query ++ List.replicate 493 0xFF, by
      rw [List.length_append, List.length_replicate]; rfl⟩
    processDnsQuery ⟨.ofBuffer [56], .empty⟩ (fresh.valid 19 (by decide)) ⟨none, 0⟩ deafHost .ok =
      processDnsQuery ⟨.ofBuffer [56], .empty⟩ (used.valid 19 (by decide)) ⟨none, 0⟩ deafHost
        .ok := by
  intro query fresh used
  apply processDnsQuery_valid
  intro i hi
  change (query ++ _)[i]? = (query ++ _)[i]?
  rw [List.getElem?_append_left hi, List.getElem?_append_left hi]

end FilteringResolver
