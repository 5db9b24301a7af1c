import FilteringResolver.Dns
import FilteringResolver.Lib.Loop

/-!
# `dns_builder.c`

Error responses and the name encoder. `qnameStep` is one pass of the QNAME walk of
`build_error_response`, over indices into `raw_data` in place of pointers; `labelStep` is one
pass of the `strtok` loop of `encode_dns_name`.
-/

namespace FilteringResolver

open Loops

/-! ## Error responses -/

/-- The two octets of a word, high octet first. -/
def octets16 (w : UInt16) : Bytes := [((w >>> 8) &&& 0xFF).toUInt8, (w &&& 0xFF).toUInt8]

def buildDnsHeader (header : DnsHeader) : Bytes :=
  octets16 header.id ++ octets16 header.flags ++ octets16 header.qdcount ++
    octets16 header.ancount ++ octets16 header.nscount ++ octets16 header.arcount

/-- One pass of `while (qname_ptr < data_end && *qname_ptr != 0)`; `none` is the `return -1` on
a compressed label, `some` the pointer after the loop. -/
def qnameStep (raw : Buffer) (qnamePtr : Nat) : Nat ⊕ Option Nat :=
  if qnamePtr < raw.len ∧ raw.get qnamePtr ≠ 0 then
    let labelLen := raw.get qnamePtr
    if 64 ≤ labelLen then .inr none
    else .inl (qnamePtr + labelLen.toNat + 1)
  else .inr (some qnamePtr)

theorem qnameStep_decreases {raw : Buffer} {p q : Nat} (h : qnameStep raw p = .inl q) :
    raw.len - q < raw.len - p := by
  unfold qnameStep at h
  dsimp only at h
  split at h <;> [skip; cases h]
  next hp =>
    split at h <;> cases h
    omega

def qnameLoop (raw : Buffer) : Loop Nat (Option Nat) where
  step := qnameStep raw
  measure := fun p => raw.len - p
  decreases := qnameStep_decreases

/-- The size of the question section computed from `raw_data`. -/
def questionSize (raw : Buffer) : Option Nat :=
  match (qnameLoop raw).run dnsHeaderSize with
  | none => none
  | some qnamePtr =>
    if raw.len ≤ qnamePtr then none
    else if raw.len < qnamePtr + 5 then none
    else some (qnamePtr + 5 - dnsHeaderSize)

/-- The header of an error response. -/
def errorHeader (query : DnsHeader) (rcode : UInt8) : DnsHeader where
  id := query.id
  flags := dnsFlagQR ||| (query.flags &&& dnsFlagRD) ||| rcode.toUInt16
  qdcount := query.qdcount
  ancount := 0
  nscount := 0
  arcount := 0

def buildErrorResponse (query : DnsMessage) (rcode : UInt8) (out : Out) (a : Allocs) :
    Ret × Out × Allocs :=
  if dnsRcodeRefused < rcode then (.failure, out, a)
  else
    match query.raw with
    | none => (.failure, out, a)
    | some raw =>
      if raw.len ≤ dnsHeaderSize then (.failure, out, a)
      else
        match questionSize raw with
        | none => (.failure, out, a)
        | some size =>
          let respLen := dnsHeaderSize + size
          match malloc a with
          | (false, a) => (.failure, { response := none, respLen }, a)
          | (true, a) =>
            let response := buildDnsHeader (errorHeader query.header rcode) ++
              raw.slice dnsHeaderSize size
            (.success, { response := some response, respLen }, a)

/-! ## Names -/

/-- One call of `strtok(…, ".")`: the token and what is left for the next call. -/
def strtok (s : Bytes) : Option (Bytes × Bytes) :=
  let s := s.dropWhile (· == dot)
  if s = [] then none
  else some (s.takeWhile (· != dot), (s.dropWhile (· != dot)).tail)

/-- The locals of `encode_dns_name`: the rest of the domain to tokenise and the octets written
to `buffer` so far. -/
structure EncodeState where
  rest : Bytes
  written : Bytes

/-- The octets a call of `encode_dns_name` writes from `buffer[0]` on, also when it fails, and
what it returns. -/
structure Encoded where
  written : Bytes
  ret : Option Nat
  deriving DecidableEq

/-- One pass of `while (label != NULL)`, or the terminating zero after the loop. -/
def labelStep (bufLen : Nat) (s : EncodeState) : EncodeState ⊕ Encoded :=
  match strtok s.rest with
  | none =>
    if bufLen ≤ s.written.length then .inr ⟨s.written, none⟩
    else .inr ⟨s.written ++ [0], some (s.written.length + 1)⟩
  | some (label, rest) =>
    if label.length = 0 ∨ dnsMaxLabelLen < label.length then .inr ⟨s.written, none⟩
    else if bufLen ≤ s.written.length + label.length + 1 then .inr ⟨s.written, none⟩
    else .inl ⟨rest, s.written ++ label.length.toUInt8 :: label⟩

theorem strtok_length {s label rest : Bytes} (h : strtok s = some (label, rest)) :
    rest.length < s.length := by
  unfold strtok at h
  dsimp only at h
  split at h <;> [cases h; skip]
  next hne =>
    cases h
    have h1 : (s.dropWhile (· == dot)).length ≤ s.length :=
      (List.dropWhile_suffix _).length_le
    have h2 : ((s.dropWhile (· == dot)).dropWhile (· != dot)).length ≤
        (s.dropWhile (· == dot)).length := (List.dropWhile_suffix _).length_le
    have h3 := List.length_pos_iff.2 hne
    rw [List.length_tail]
    omega

theorem labelStep_decreases {bufLen : Nat} {s t : EncodeState}
    (h : labelStep bufLen s = .inl t) : t.rest.length < s.rest.length := by
  unfold labelStep at h
  split at h
  · split at h <;> cases h
  · next hs =>
    split at h <;> [cases h; skip]
    split at h <;> cases h
    exact strtok_length hs

def labelLoop (bufLen : Nat) : Loop EncodeState Encoded where
  step := labelStep bufLen
  measure := fun s => s.rest.length
  decreases := labelStep_decreases

def encodeDnsName (domain : CStr) (bufLen : Nat) (a : Allocs) : Encoded × Allocs :=
  if bufLen = 0 then (⟨[], none⟩, a)
  else if domain.bytes = [] then (⟨[0], some 1⟩, a)
  else if dnsMaxNameLen < domain.bytes.length then (⟨[], none⟩, a)
  else
    match strdup domain a with
    | (none, a) => (⟨[], none⟩, a)
    | (some domainCopy, a) => ((labelLoop bufLen).run ⟨domainCopy.bytes, []⟩, a)

end FilteringResolver
