import FilteringResolver.Dns
import FilteringResolver.Lib.Loop

/-!
# `dns_parser.c`

The header, the compressed names, the questions and the message. `nameStep` is one pass of the
`while (pos < len)` loop of `parse_dns_name`.
-/

namespace FilteringResolver

open Loops

/-- The bound on followed compression pointers. -/
@[simp] def maxCompressionJumps : Nat := 10

def parseDnsHeader (b : Buffer) : Option DnsHeader :=
  if b.len < dnsHeaderSize then none
  else some {
    id := b.get16 0
    flags := b.get16 2
    qdcount := b.get16 4
    ancount := b.get16 6
    nscount := b.get16 8
    arcount := b.get16 10 }

/-! ## Names -/

/-- The locals of `parse_dns_name`: `name` holds `name[0 .. name_pos)`, `offset` is `*offset`. -/
structure NameState where
  pos : Nat
  name : Bytes
  jumpCount : Nat
  jumped : Bool
  offset : Nat

/-- The 14-bit target of a compression pointer. -/
def pointerOffset (hi lo : UInt8) : Nat := (be16 (hi &&& 0x3F) lo).toNat

/-- `if (name_pos > 0 && name[name_pos - 1] == '.') name_pos--;` -/
def trimDot (name : Bytes) : Bytes := if name.getLast? = some dot then name.dropLast else name

/-- One pass of the loop. A result is the written part of `name`, its NUL included, and
`*offset`. -/
def nameStep (b : Buffer) (nameLen : Nat) (s : NameState) : NameState ⊕ Option (Bytes × Nat) :=
  if s.pos < b.len then
    let labelLen := b.get s.pos
    if labelLen &&& dnsCompressionMask = dnsCompressionMask then
      if b.len ≤ s.pos + 1 then .inr none
      else
        let target := pointerOffset labelLen (b.get (s.pos + 1))
        if s.pos ≤ target then .inr none
        else if maxCompressionJumps < s.jumpCount + 1 then .inr none
        else .inl { s with
          pos := target
          jumpCount := s.jumpCount + 1
          jumped := true
          offset := if s.jumped then s.offset else s.pos + 2 }
    else if dnsMaxLabelLen < labelLen.toNat then .inr none
    else if labelLen = 0 then
      .inr (some (trimDot s.name ++ [0], if s.jumped then s.offset else s.pos + 1))
    else
      let pos := s.pos + 1
      if b.len < pos + labelLen.toNat then .inr none
      else if nameLen ≤ s.name.length + labelLen.toNat + 1 then .inr none
      else
        let name := s.name ++ b.slice pos labelLen.toNat ++ [dot]
        if dnsMaxNameLen < name.length then .inr none
        else .inl { s with pos := pos + labelLen.toNat, name }
  else .inr none

/-- Labels move forward inside the buffer, and a pointer uses up one of the ten jumps. -/
def nameMeasure (b : Buffer) (s : NameState) : Nat :=
  (maxCompressionJumps - s.jumpCount) * (b.len + 1) + (b.len - s.pos)

theorem nameStep_decreases {b : Buffer} {nameLen : Nat} {s t : NameState}
    (h : nameStep b nameLen s = .inl t) : nameMeasure b t < nameMeasure b s := by
  unfold nameStep at h
  dsimp only at h
  split at h <;> [skip; cases h]
  split at h
  · split at h <;> [cases h; skip]
    split at h <;> [cases h; skip]
    split at h <;> [cases h; skip]
    next hj =>
      cases h
      simp only [nameMeasure, maxCompressionJumps] at hj ⊢
      obtain ⟨k, hk⟩ : ∃ k, 10 - s.jumpCount = k + 1 := ⟨9 - s.jumpCount, by omega⟩
      rw [hk, show 10 - (s.jumpCount + 1) = k by omega, Nat.succ_mul]
      omega
  · split at h <;> [cases h; skip]
    split at h <;> [cases h; skip]
    split at h <;> [cases h; skip]
    split at h <;> [cases h; skip]
    split at h <;> [cases h; skip]
    cases h
    simp only [nameMeasure]
    omega

def nameLoop (b : Buffer) (nameLen : Nat) : Loop NameState (Option (Bytes × Nat)) where
  step := nameStep b nameLen
  measure := nameMeasure b
  decreases := nameStep_decreases

/-- The buffer `name` up to its NUL and the updated `*offset`, or `none` for `-1`. -/
def parseDnsName (b : Buffer) (offset nameLen : Nat) : Option (Bytes × Nat) :=
  if nameLen = 0 then none
  else (nameLoop b nameLen).run
    { pos := offset, name := [], jumpCount := 0, jumped := false, offset }

/-! ## Questions -/

/-- The parsed question and the updated `*offset`. -/
def parseDnsQuestion (b : Buffer) (offset : Nat) (a : Allocs) :
    Option (DnsQuestion × Nat) × Allocs :=
  if b.len ≤ offset then (none, a)
  else
    match parseDnsName b offset (dnsMaxNameLen + 1) with
    | none => (none, a)
    | some (qname, offset) =>
      if b.len < offset + 4 then (none, a)
      else
        let qtype := b.get16 offset
        let qclass := b.get16 (offset + 2)
        match strdup (.ofBuffer qname) a with
        | (none, a) => (none, a)
        | (some qname, a) => (some ({ qname, qtype, qclass }, offset + 4), a)

/-- The loop over `n` questions from `offset` on. -/
def parseQuestions (b : Buffer) : Nat → Nat → Allocs → Option (List DnsQuestion × Nat) × Allocs
  | 0, offset, a => (some ([], offset), a)
  | n + 1, offset, a =>
    match parseDnsQuestion b offset a with
    | (none, a) => (none, a)
    | (some (question, offset), a) =>
      match parseQuestions b n offset a with
      | (none, a) => (none, a)
      | (some (questions, offset), a) => (some (question :: questions, offset), a)

/-! ## Messages -/

def parseDnsMessage (b : Buffer) (a : Allocs) : Ret × DnsMessage × Allocs :=
  match parseDnsHeader b with
  | none => (.failure, .ofHeader .zero, a)
  | some header =>
    if header.qdcount = 0 then
      match malloc a with
      | (false, a) => (.failure, .ofHeader header, a)
      | (true, a) => (.success, .ofParts header none b, a)
    else
      -- `calloc` of the question array
      match malloc a with
      | (false, a) => (.failure, .ofHeader header, a)
      | (true, a) =>
        match parseQuestions b header.qdcount.toNat dnsHeaderSize a with
        | (none, a) => (.failure, .ofHeader header, a)
        | (some (questions, _), a) =>
          match malloc a with
          | (false, a) => (.failure, .ofHeader header, a)
          | (true, a) => (.success, .ofParts header (some questions) b, a)

end FilteringResolver
