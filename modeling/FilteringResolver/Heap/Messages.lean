import FilteringResolver.DnsBuilder
import FilteringResolver.DnsParser
import FilteringResolver.Heap.Memory

/-!
# `dns_parser.c` and `dns_builder.c` with their memory

The functions that allocate, over messages that hold pointers, with every `malloc` and `free` of
the source. What needs no memory (the header, the names, the size of a question section) is the
function of `DnsParser` and `DnsBuilder`.
-/

namespace FilteringResolver.Heap

open Ownership

/-- `dns_question_t`. -/
structure DnsQuestion where
  qname : Option (Ptr CStr)
  qtype : UInt16
  qclass : UInt16

/-- `dns_message_t`. `raw` is the pair `raw_data, raw_len`; the length of `NULL` is 0. -/
structure DnsMessage where
  header : DnsHeader
  questions : Option (Ptr (List DnsQuestion))
  raw : Option (Ptr Buffer)

/-- The message after `memset(message, 0, sizeof(dns_message_t))`, with its header parsed. -/
def DnsMessage.ofHeader (header : DnsHeader) : DnsMessage := ⟨header, none, none⟩

/-! ## The parser -/

def parseDnsQuestion (b : Buffer) (offset : Nat) : Mem (Option (DnsQuestion × Nat)) :=
  if b.len ≤ offset then pure none
  else
    match parseDnsName b offset (dnsMaxNameLen + 1) with
    | none => pure none
    | some (qname, offset) =>
      if b.len < offset + 4 then pure none
      else do
        let qtype := b.get16 offset
        let qclass := b.get16 (offset + 2)
        match ← mallocOf (CStr.ofBuffer qname) with
        | none => pure none
        | some qname => pure (some (⟨some qname, qtype, qclass⟩, offset + 4))

/-- The loop over the first `n` questions of an array that frees their names; the questions are
those from the loop index on. -/
def freeQnames (array : Nat) : Nat → List DnsQuestion → Mem Unit
  | 0, _ => pure ()
  | _ + 1, [] => stuck  -- a read behind the array
  | n + 1, question :: questions => do
    use (.block, array)
    free question.qname
    freeQnames array n questions

/-- The loop over `n` more questions, after the `done` ones; a question that cannot be parsed
frees what is there. -/
def parseQuestions (b : Buffer) (array : Nat) : Nat → Nat → List DnsQuestion →
    Mem (Option (List DnsQuestion))
  | 0, _, done => pure (some done)
  | n + 1, offset, done => do
    use (.block, array)
    match ← parseDnsQuestion b offset with
    | none =>
      freeQnames array done.length done
      release (.block, array)
      pure none
    | some (question, offset) => parseQuestions b array n offset (done ++ [question])

def parseDnsMessage (b : Buffer) : Mem (Ret × DnsMessage) :=
  match parseDnsHeader b with
  | none => pure (.failure, .ofHeader .zero)
  | some header =>
    if header.qdcount = 0 then do
      match ← mallocOf (Buffer.ofBytes b.data) with
      | none => pure (.failure, .ofHeader header)
      | some raw => pure (.success, ⟨header, none, some raw⟩)
    else do
      -- `calloc` of the question array
      match ← mallocOf () with
      | none => pure (.failure, .ofHeader header)
      | some array =>
        match ← parseQuestions b array.addr header.qdcount.toNat dnsHeaderSize [] with
        | none => pure (.failure, .ofHeader header)
        | some questions =>
          match ← mallocOf (Buffer.ofBytes b.data) with
          | none =>
            freeQnames array.addr header.qdcount.toNat questions
            release array.block
            pure (.failure, .ofHeader header)
          | some raw => pure (.success, ⟨header, some ⟨array.addr, questions⟩, some raw⟩)

/-- The message with its pointers set to `NULL`. -/
def freeDnsMessage (message : DnsMessage) : Mem DnsMessage := do
  match message.questions with
  | none => pure ()
  | some questions =>
    freeQnames questions.addr message.header.qdcount.toNat questions.val
    release questions.block
  free message.raw
  pure (.ofHeader message.header)

/-- `dns_query_t`. -/
structure DnsQuery where
  qname : CStr
  qtype : UInt16
  qclass : UInt16

/-- The query that `dns_parse_query` fills in, or `none` for `-1`. -/
def dnsParseQuery (b : Buffer) : Mem (Option DnsQuery) :=
  if b.len < dnsHeaderSize then pure none
  else do
    let (ret, message) ← parseDnsMessage b
    if ret ≠ .success then pure none
    else if message.header.qdcount = 0 then
      let _ ← freeDnsMessage message
      pure none
    else
      match message.questions with
      | none =>
        let _ ← freeDnsMessage message
        pure none
      | some questions =>
        match ← load questions with
        | [] => stuck  -- a read behind the array
        | question :: _ =>
          let qname ← match question.qname with
            | none => pure (CStr.ofBuffer [0])
            | some qname => do
              let qname ← load qname
              -- `strncpy` into the 256 characters of `query->qname`
              pure (CStr.ofBuffer (qname.bytes.take dnsMaxNameLen ++ [0]))
          let _ ← freeDnsMessage message
          pure (some ⟨qname, question.qtype, question.qclass⟩)

/-! ## The builder -/

/-- The two variables behind `uint8_t **response, size_t *resp_len`. -/
structure Out where
  response : Option (Ptr Bytes)
  respLen : Nat

def buildErrorResponse (query : DnsMessage) (rcode : UInt8) (out : Out) : Mem (Ret × Out) :=
  if dnsRcodeRefused < rcode then pure (.failure, out)
  else
    match query.raw with
    | none => pure (.failure, out)
    | some raw => do
      let raw ← load raw
      if raw.len ≤ dnsHeaderSize then pure (.failure, out)
      else
        match questionSize raw with
        | none => pure (.failure, out)
        | some size =>
          let respLen := dnsHeaderSize + size
          match ← mallocOf (buildDnsHeader (errorHeader query.header rcode) ++
              raw.slice dnsHeaderSize size) with
          | none => pure (.failure, { response := none, respLen })
          | some response => pure (.success, { response := some response, respLen })

/-- What `dns_build_error_response` returns, and the octets it writes to `response_buffer`. -/
def dnsBuildErrorResponse (b : Buffer) (responseMaxLen : Nat) (rcode : UInt8) :
    Mem (UInt16 × Bytes) :=
  if b.len = 0 ∨ responseMaxLen = 0 then pure (0, [])
  else do
    let (ret, query) ← parseDnsMessage b
    if ret ≠ .success then pure (0, [])
    else
      let (ret, out) ← buildErrorResponse query rcode ⟨none, 0⟩
      if ret ≠ .success then
        let _ ← freeDnsMessage query
        pure (0, [])
      else if responseMaxLen < out.respLen then
        free out.response
        let _ ← freeDnsMessage query
        pure (0, [])
      else
        match out.response with
        | none => stuck  -- `memcpy` from `NULL`
        | some response =>
          let octets ← load response
          free out.response
          let _ ← freeDnsMessage query
          pure (out.respLen.toUInt16, octets)

/-- Every way out of the `strtok` loop frees the copy of the domain. -/
def encodeDnsName (domain : CStr) (bufLen : Nat) : Mem Encoded :=
  if bufLen = 0 then pure ⟨[], none⟩
  else if domain.bytes = [] then pure ⟨[0], some 1⟩
  else if dnsMaxNameLen < domain.bytes.length then pure ⟨[], none⟩
  else do
    match ← mallocOf domain with
    | none => pure ⟨[], none⟩
    | some domainCopy =>
      let copy ← load domainCopy
      let encoded := (labelLoop bufLen).run ⟨copy.bytes, []⟩
      release domainCopy.block
      pure encoded

end FilteringResolver.Heap
