import Mathlib.Data.List.TakeWhile
import Mathlib.Data.Stream.Init

/-!
# The data of the resolver

The constants and structures of `dns.h`, C strings, buffers passed with a length, and the
allocator. Sizes, offsets and counters are natural numbers; octets and the 16-bit words of a
message are `UInt8` and `UInt16`.
-/

namespace FilteringResolver

abbrev Bytes := List UInt8

/-! ## Constants -/

@[simp] def dnsMaxLabelLen : Nat := 63
@[simp] def dnsMaxNameLen : Nat := 255
@[simp] def dnsUdpMaxSize : Nat := 512
@[simp] def dnsHeaderSize : Nat := 12

def dnsDefaultPort : UInt16 := 53

def dnsTypeA : UInt16 := 1

def dnsRcodeNoerror : UInt8 := 0
def dnsRcodeFormerr : UInt8 := 1
def dnsRcodeServfail : UInt8 := 2
def dnsRcodeNxdomain : UInt8 := 3
def dnsRcodeNotimpl : UInt8 := 4
def dnsRcodeRefused : UInt8 := 5

def dnsFlagQR : UInt16 := 0x8000
def dnsFlagTC : UInt16 := 0x0200
def dnsFlagRD : UInt16 := 0x0100

def dnsCompressionMask : UInt8 := 0xC0

/-- The character `'.'`. -/
def dot : UInt8 := 0x2E

/-! ## C strings -/

/-- The bytes of a C string before its terminating NUL: none of them is NUL. -/
structure CStr where
  bytes : Bytes
  nul_free : 0 ∉ bytes
  deriving DecidableEq

namespace CStr

theorem ext_bytes {s t : CStr} (h : s.bytes = t.bytes) : s = t := by
  cases s; cases t; cases h; rfl

/-- What a function that takes a `char *` sees of a buffer: everything before the first NUL. -/
def ofBuffer (buf : Bytes) : CStr where
  bytes := buf.takeWhile (· != 0)
  nul_free h := by simpa using List.mem_takeWhile_imp h

/-- A buffer that holds a string and its NUL reads back as the string. -/
theorem ofBuffer_append_nul {s : Bytes} (h : 0 ∉ s) (rest : Bytes) :
    (ofBuffer (s ++ 0 :: rest)).bytes = s := by
  have hs : ∀ c ∈ s, (c != 0) = true := fun c hc => bne_iff_ne.2 (ne_of_mem_of_not_mem hc h)
  simp [ofBuffer, List.takeWhile_append_of_pos hs]

theorem ofBuffer_of_nul_free {s : Bytes} (h : 0 ∉ s) : (ofBuffer s).bytes = s :=
  List.takeWhile_eq_self_iff.2 fun _ hc => bne_iff_ne.2 (ne_of_mem_of_not_mem hc h)

end CStr

/-! ## Buffers -/

/-- Two octets in network byte order. -/
def be16 (hi lo : UInt8) : UInt16 := hi.toUInt16 <<< 8 ||| lo.toUInt16

/-- A `const uint8_t *buffer, size_t len` pair: the block the pointer points to and how many of
its octets are valid. -/
structure Buffer where
  bytes : Bytes
  len : Nat
  len_le : len ≤ bytes.length

namespace Buffer

/-- `buffer[i]`. -/
def get (b : Buffer) (i : Nat) : UInt8 := b.bytes.getD i 0

/-- `ntohs(*(uint16_t *)(buffer + i))`. -/
def get16 (b : Buffer) (i : Nat) : UInt16 := be16 (b.get i) (b.get (i + 1))

/-- The `n` octets copied from `buffer + i`. -/
def slice (b : Buffer) (i n : Nat) : Bytes := (b.bytes.drop i).take n

/-- The valid octets. -/
def data (b : Buffer) : Bytes := b.bytes.take b.len

@[simp] theorem length_data (b : Buffer) : b.data.length = b.len := by
  simp [data, b.len_le]

/-- A block that is valid to its end. -/
def ofBytes (d : Bytes) : Buffer := ⟨d, d.length, Nat.le_refl _⟩

end Buffer

/-! ## Allocations -/

/-- What the allocations still to come answer: `true` for a block, `false` for `NULL`. -/
abbrev Allocs := Stream' Bool

/-- Every allocation succeeds. -/
def Allocs.ok : Allocs := Stream'.const true

def malloc (a : Allocs) : Bool × Allocs := (a.head, a.tail)

def strdup (s : CStr) (a : Allocs) : Option CStr × Allocs :=
  (if a.head then some s else none, a.tail)

@[simp] theorem malloc_ok : malloc .ok = (true, .ok) := rfl

/-! ## Messages -/

/-- What a call returns: `0`, `-1`, or nothing C defines (a `NULL` pointer was read). -/
inductive Ret where
  | success
  | failure
  | undefined
  deriving DecidableEq

structure DnsHeader where
  id : UInt16
  flags : UInt16
  qdcount : UInt16
  ancount : UInt16
  nscount : UInt16
  arcount : UInt16
  deriving DecidableEq

/-- All header fields zero, as `memset` leaves them. -/
def DnsHeader.zero : DnsHeader := ⟨0, 0, 0, 0, 0, 0⟩

structure DnsQuestion where
  qname : CStr
  qtype : UInt16
  qclass : UInt16
  deriving DecidableEq

/-- A parsed message; `none` is the `NULL` pointer. -/
structure DnsMessage where
  header : DnsHeader
  questions : Option (List DnsQuestion)
  rawData : Option Bytes
  rawLen : Nat
  rawLen_le : ∀ d, rawData = some d → rawLen ≤ d.length
  deriving DecidableEq

namespace DnsMessage

/-- The message after `memset(message, 0, sizeof(dns_message_t))`, with its header parsed. -/
def ofHeader (header : DnsHeader) : DnsMessage := ⟨header, none, none, 0, nofun⟩

/-- The message with its questions and a copy of the received octets. -/
def ofParts (header : DnsHeader) (questions : Option (List DnsQuestion)) (b : Buffer) :
    DnsMessage where
  header := header
  questions := questions
  rawData := some b.data
  rawLen := b.len
  rawLen_le _ h := by cases h; exact b.length_data.ge

/-- The pair `raw_data, raw_len`. -/
def raw (m : DnsMessage) : Option Buffer :=
  match h : m.rawData with
  | none => none
  | some d => some ⟨d, m.rawLen, m.rawLen_le d h⟩

@[simp] theorem raw_ofParts (header : DnsHeader) (questions : Option (List DnsQuestion))
    (b : Buffer) : (ofParts header questions b).raw = some (.ofBytes b.data) := by
  simp [raw, ofParts, Buffer.ofBytes, b.length_data]

end DnsMessage

/-- The two variables behind `uint8_t **response, size_t *resp_len`. -/
structure Out where
  response : Option Bytes
  respLen : Nat
  deriving DecidableEq

end FilteringResolver
