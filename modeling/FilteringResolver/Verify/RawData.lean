import FilteringResolver.Verify.Server

/-!
# Error responses from raw data

`build_error_response` walks over octets that may never have been parsed. Whatever they are, the
walk reads none outside the raw data, and it ends exactly at the zero octet of a name without
pointers (`questionSize_iff`), so that a response is a header and a piece of the raw data
(`buildErrorResponse_safe`). A query that counts no question is answered only when such a piece
follows its header (`processDnsQuery_noQuestion_iff`).
-/

namespace FilteringResolver

open Loops

/-! ## The walk over any octets -/

/-- One pass of the walk with its read checked: `none` is a read outside the raw data. -/
def qnameStepChecked (raw : Buffer) (qnamePtr : Nat) : Option (Nat ⊕ Option Nat) :=
  if qnamePtr < raw.len then
    match raw.data[qnamePtr]? with
    | none => none
    | some labelLen =>
      some (if labelLen = 0 then .inr (some qnamePtr)
        else if 64 ≤ labelLen then .inr none
        else .inl (qnamePtr + labelLen.toNat + 1))
  else some (.inr (some qnamePtr))

section

variable {raw : Buffer}

theorem getElem?_data {i : Nat} (hi : i < raw.len) : raw.data[i]? = some (raw.get i) := by
  have hlen : i < raw.bytes.length := Nat.lt_of_lt_of_le hi raw.len_le
  rw [Buffer.data, List.getElem?_take_of_lt hi, List.getElem?_eq_getElem hlen,
    Buffer.get_eq_getElem hlen]

/-- A pass reads inside the raw data only. -/
theorem qnameStepChecked_eq (p : Nat) : qnameStepChecked raw p = some (qnameStep raw p) := by
  unfold qnameStepChecked qnameStep
  by_cases hp : p < raw.len
  · rw [if_pos hp, getElem?_data hp]
    by_cases hzero : raw.get p = 0
    · simp [hp, hzero]
    · simp [hp, hzero]
  · rw [if_neg hp, if_neg (fun h => hp h.1)]

/-- What the octets at the pointer were when a pass went on. -/
theorem qnameStep_next {p q : Nat} (h : qnameStep raw p = .inl q) :
    p < raw.len ∧ 1 ≤ (raw.get p).toNat ∧ (raw.get p).toNat ≤ dnsMaxLabelLen ∧
      q = p + 1 + (raw.get p).toNat := by
  unfold qnameStep at h
  dsimp only at h
  split at h <;> [skip; cases h]
  next hp =>
  split at h <;> cases h
  next hsmall =>
  rw [UInt8.le_iff_toNat_le] at hsmall
  have hpos : (raw.get p).toNat ≠ 0 := fun h0 => hp.2 (UInt8.toNat.inj h0)
  simp only [dnsMaxLabelLen]
  simp at hsmall
  omega

/-- A walk that ends inside the raw data has read a name without pointers. -/
theorem qnameLoop_sound {p q : Nat} (h : (qnameLoop raw).run p = some q) (hq : q < raw.len) :
    ∃ ls, Decodes raw p ls 0 (q + 1) := by
  induction p using (qnameLoop raw).induction with
  | exit p r hstep =>
    rw [Loop.run_exit _ hstep] at h
    subst h
    simp only [qnameLoop, qnameStep] at hstep
    split at hstep
    · split at hstep <;> cases hstep
    · next hexit =>
      cases hstep
      have hzero : raw.get q = 0 := by
        by_contra hne
        exact hexit ⟨hq, hne⟩
      exact ⟨[], .root hq hzero⟩
  | next p t hstep ih =>
    rw [Loop.run_next _ hstep] at h
    obtain ⟨-, one_le, le, rfl⟩ := qnameStep_next hstep
    obtain ⟨ls, hd⟩ := ih h
    have hlt := hd.pos_lt
    exact ⟨_, .label one_le le (Nat.le_of_lt hlt) hd⟩

/-- **The question section has a size** when a name without pointers and two words are there,
however long the name is. -/
theorem questionSize_iff {size : Nat} :
    questionSize raw = some size ↔ ∃ ls fin, Decodes raw dnsHeaderSize ls 0 fin ∧
      fin + 4 ≤ raw.len ∧ dnsHeaderSize + size = fin + 4 := by
  unfold questionSize
  constructor
  · intro h
    split at h <;> [cases h; skip]
    next q hq =>
    have hge := qnameLoop_ge hq
    split at h <;> [cases h; skip]
    split at h <;> cases h
    obtain ⟨ls, hd⟩ := qnameLoop_sound hq (by omega)
    exact ⟨ls, q + 1, hd, by omega, by omega⟩
  · rintro ⟨ls, fin, hd, hfits, hsize⟩
    have hlt := hd.lt_fin
    rw [qnameLoop_decodes hd, if_pos rfl]
    dsimp only
    rw [if_neg (by omega), if_neg (by omega), Option.some.injEq]
    omega

theorem questionSize_ne_none_iff :
    questionSize raw ≠ none ↔ ∃ ls fin, Decodes raw dnsHeaderSize ls 0 fin ∧ fin + 4 ≤ raw.len := by
  rw [Option.ne_none_iff_exists']
  constructor
  · rintro ⟨size, hsize⟩
    obtain ⟨ls, fin, hd, hfits, -⟩ := questionSize_iff.1 hsize
    exact ⟨ls, fin, hd, hfits⟩
  · rintro ⟨ls, fin, hd, hfits⟩
    have hlt := hd.lt_fin
    exact ⟨fin + 4 - dnsHeaderSize, questionSize_iff.2 ⟨ls, fin, hd, hfits, by omega⟩⟩

end

/-! ## Building -/

/-- A call succeeds, or rejects with nothing written, or finds no memory for the response. -/
theorem buildErrorResponse_cases (m : DnsMessage) (rcode : UInt8) (out : Out) (a : Allocs) :
    (buildErrorResponse m rcode out a).1 = .success ∨
      buildErrorResponse m rcode out a = (.failure, out, a) ∨
      a.head = false ∧ ∃ respLen,
        buildErrorResponse m rcode out a = (.failure, ⟨none, respLen⟩, a.tail) := by
  unfold buildErrorResponse malloc
  split <;> [exact .inr (.inl rfl); skip]
  split <;> [exact .inr (.inl rfl); skip]
  split <;> [exact .inr (.inl rfl); skip]
  split <;> [exact .inr (.inl rfl); skip]
  cases ha : a.head with
  | false => exact .inr (.inr ⟨rfl, _, rfl⟩)
  | true => exact .inl rfl

/-- **Error responses are safe on any raw data**: the walk ends, reads inside the raw data only,
and a response is at least a root question and at most as long as the raw data, whose octets it
repeats behind its header; a call that rejects leaves the out variables alone. -/
theorem buildErrorResponse_safe {m : DnsMessage} {raw : Buffer} (hraw : m.raw = some raw)
    (rcode : UInt8) (out : Out) (a : Allocs) :
    (∀ (f : Nat → Nat) (n : Nat), f 0 = dnsHeaderSize →
      (∀ i < n, qnameStep raw (f i) = .inl (f (i + 1))) →
      n ≤ raw.len - dnsHeaderSize ∧ (∀ i < n, f i < raw.len) ∧
        ∀ i ≤ n, qnameStepChecked raw (f i) = some (qnameStep raw (f i))) ∧
    (∀ out' a', buildErrorResponse m rcode out a = (.success, out', a') →
      ∃ response, out' = ⟨some response, response.length⟩ ∧ 17 ≤ response.length ∧
        response.length ≤ raw.len ∧
        ∀ i, dnsHeaderSize ≤ i → i < response.length → response[i]? = raw.data[i]?) ∧
    ((buildErrorResponse m rcode out a).1 ≠ .success →
      buildErrorResponse m rcode out a = (.failure, out, a) ∨
      a.head = false ∧ ∃ respLen,
        buildErrorResponse m rcode out a = (.failure, ⟨none, respLen⟩, a.tail)) := by
  refine ⟨fun f n h0 hpass => ⟨?_, fun i hi => (qnameStep_next (hpass i hi)).1,
    fun i _ => qnameStepChecked_eq _⟩, fun out' a' h => ?_,
    (buildErrorResponse_cases m rcode out a).resolve_left⟩
  · rw [← h0]
    exact (qnameLoop raw).passes_le hpass
  · obtain ⟨size, hsize, hle, rfl⟩ := buildErrorResponse_echo hraw h
    obtain ⟨hfive, -⟩ := questionSize_le hsize
    have hslice : (raw.slice dnsHeaderSize size).length = size := Buffer.length_slice hle
    have hlength : (buildDnsHeader (errorHeader m.header rcode) ++
        raw.slice dnsHeaderSize size).length = dnsHeaderSize + size := by
      rw [List.length_append, length_buildDnsHeader, hslice]
    refine ⟨_, by rw [hlength], ?_, by rwa [hlength], fun i hi hlt => ?_⟩
    · rw [hlength]
      simp only [dnsHeaderSize]
      omega
    · rw [hlength] at hlt
      have hlen : (buildDnsHeader (errorHeader m.header rcode)).length = dnsHeaderSize := rfl
      rw [List.getElem?_append_right (hlen ▸ hi), hlen, Buffer.slice, Buffer.data,
        List.getElem?_take_of_lt (by omega), List.getElem?_take_of_lt (by omega),
        List.getElem?_drop, Nat.add_sub_cancel' hi]

/-- A header that counts no question, with octets behind it that were never parsed. -/
theorem buildErrorResponse_safe_tail :
    let b := Buffer.ofBytes [0x12, 0x34, 1, 0, 0, 0, 0, 0, 0, 0, 0, 0, 2, 200, 0, 0, 9, 9, 9, 9, 9]
    let m := (parseDnsMessage b .ok).2.1
    ∃ response, (buildErrorResponse m dnsRcodeFormerr ⟨none, 0⟩ .ok).2.1 =
      ⟨some response, response.length⟩ ∧ 17 ≤ response.length ∧ response.length ≤ b.len := by
  intro b m
  have hraw : m.raw = some (.ofBytes b.data) :=
    (parseDnsMessage_parsed (Prod.ext (show (parseDnsMessage b .ok).1 = .success by decide)
      rfl)).raw_eq
  have hret : (buildErrorResponse m dnsRcodeFormerr ⟨none, 0⟩ .ok).1 = .success := by decide
  obtain ⟨-, hbuilt, -⟩ := buildErrorResponse_safe hraw dnsRcodeFormerr ⟨none, 0⟩ .ok
  obtain ⟨response, hout, hge, hle, -⟩ := hbuilt _ _ (Prod.ext hret rfl)
  exact ⟨response, hout, hge, hle⟩

/-- With memory to spare a response is built exactly when the question section has a size. -/
theorem replyError_ret_iff {m : DnsMessage} {raw : Buffer} (hraw : m.raw = some raw)
    {rcode : UInt8} (hr : rcode ≤ dnsRcodeRefused) (out : Out) (forwarded : Option DnsMessage)
    (sent : List (SockAddr × Bytes)) :
    (replyError m rcode out .ok forwarded sent).ret = .success ↔ questionSize raw ≠ none := by
  have hbuild : (buildErrorResponse m rcode out .ok).1 = .success ↔ questionSize raw ≠ none := by
    unfold buildErrorResponse
    rw [if_neg (UInt8.not_lt.2 hr), hraw]
    dsimp only
    cases hsize : questionSize raw with
    | none => split <;> simp
    | some size =>
      obtain ⟨hpos, hle⟩ := questionSize_le hsize
      rw [if_neg (by omega)]
      simp [malloc_ok]
  rw [← hbuild, replyError]
  rcases buildErrorResponse m rcode out .ok with ⟨_ | _, out', a'⟩ <;> simp

/-! ## Queries without a question -/

/-- **A query that counts no question is answered with FORMERR** exactly when a name without
pointers and two words follow its header all the same, and it is dropped otherwise. -/
theorem processDnsQuery_noQuestion_iff (config : ServerConfig) (out : Out) (host : Host)
    {b : Buffer} {header : DnsHeader} (h : parseDnsHeader b = some header)
    (hzero : header.qdcount = 0) :
    let r := processDnsQuery config b out host .ok
    let questionShaped := ∃ ls fin, Decodes b dnsHeaderSize ls 0 fin ∧ fin + 4 ≤ b.len
    ((r.ret = .success ∧ ∃ response, r.out = ⟨some response, response.length⟩ ∧
        parseDnsHeader (.ofBytes response) = some
          { id := header.id
            flags := dnsFlagQR ||| (header.flags &&& dnsFlagRD) ||| dnsRcodeFormerr.toUInt16
            qdcount := 0, ancount := 0, nscount := 0, arcount := 0 }) ↔ questionShaped) ∧
    (¬ questionShaped → r.ret = .failure) := by
  intro r questionShaped
  have hp : Parsed b (.ofParts header none b) := .headerOnly h hzero
  have hr : r = replyError (.ofParts header none b) dnsRcodeFormerr out .ok none [] := by
    change processDnsQuery config b out host .ok = _
    rw [processDnsQuery, hp.parse_ok]
    exact if_pos hzero
  have hshaped : r.ret = .success ↔ questionShaped := by
    rw [hr, replyError_ret_iff hp.raw_eq dnsRcodeFormerr_le, questionSize_ne_none_iff]
    have hdata : (Buffer.ofBytes b.data).data = b.data := Buffer.data_ofBytes _
    have hlen : (Buffer.ofBytes b.data).len = b.len := b.length_data
    constructor
    · rintro ⟨ls, fin, hd, hfits⟩
      exact ⟨ls, fin, hd.congr hdata, hlen ▸ hfits⟩
    · rintro ⟨ls, fin, hd, hfits⟩
      exact ⟨ls, fin, hd.data, hlen.symm ▸ hfits⟩
  refine ⟨⟨fun hret => hshaped.1 hret.1, fun hq => ⟨hshaped.2 hq, ?_⟩⟩, fun hq => ?_⟩
  · have hret := hshaped.2 hq
    rw [hr] at hret ⊢
    obtain ⟨response, hout, -, hheader⟩ := replyError_success hp hret
    refine ⟨response, hout, ?_⟩
    rw [hheader, errorHeader]
    change some (DnsHeader.mk _ _ header.qdcount _ _ _) = _
    rw [hzero]
    rfl
  · have hret : r.ret ≠ .success := mt hshaped.1 hq
    rw [hr, replyError] at hret ⊢
    split at hret
    · exact absurd rfl hret
    · rfl

/-- A header alone is dropped. -/
theorem processDnsQuery_headerOnly :
    let b := Buffer.ofBytes [0x12, 0x34, 1, 0, 0, 0, 0, 0, 0, 0, 0, 0]
    let r := processDnsQuery ⟨.ofBuffer [56], .empty⟩ b ⟨none, 0⟩ deafHost .ok
    (parseDnsHeader b).map (·.qdcount) = some 0 ∧ r.ret = .failure ∧ r.out.response = none := by
  decide

/-- A header that counts no question, with the root question behind it. -/
theorem processDnsQuery_noQuestion_root :
    let b := Buffer.ofBytes [0x12, 0x34, 1, 0, 0, 0, 0, 0, 0, 0, 0, 0, 0, 0, 1, 0, 1]
    (processDnsQuery ⟨.ofBuffer [56], .empty⟩ b ⟨none, 0⟩ deafHost .ok).ret = .success := by
  intro b
  have hheader : parseDnsHeader b = some ⟨0x1234, 0x0100, 0, 0, 0, 0⟩ := by decide
  exact ((processDnsQuery_noQuestion_iff ⟨.ofBuffer [56], .empty⟩ ⟨none, 0⟩ deafHost hheader
    rfl).1.2 ⟨[], 13, .root (by decide) (by decide), by decide⟩).1

end FilteringResolver
