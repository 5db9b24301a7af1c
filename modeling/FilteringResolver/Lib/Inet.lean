import FilteringResolver.Lib.Separated
import Mathlib.Algebra.Order.BigOperators.Group.List
import Mathlib.Algebra.Order.Group.Nat

/-!
# Dotted addresses

The text form of IPv4 addresses: four decimal octets of up to three digits, without leading zeros,
separated by dots. `pton` reads a text as an address and `ntop` writes an address; what is written
is read back (`pton_ntop`), and a text that is read has fifteen characters at most
(`length_le_of_pton`).
-/

namespace Inet

open Separated

/-- The character `'.'`. -/
def point : UInt8 := 0x2E

def isDigit (c : UInt8) : Bool := 0x30 ≤ c && c ≤ 0x39

/-- The character of a digit. -/
def digit (n : Nat) : UInt8 := (0x30 + n).toUInt8

/-- The number that digits are. -/
def value (s : List UInt8) : Nat := s.foldl (fun n c => 10 * n + (c.toNat - 0x30)) 0

def readOctet (s : List UInt8) : Option Nat :=
  if 1 ≤ s.length ∧ s.length ≤ 3 ∧ s.all isDigit ∧ (s.length = 1 ∨ s.head? ≠ some 0x30) ∧
      value s ≤ 255 then some (value s)
  else none

/-- The digits of an octet, the highest first. -/
def digits (n : Nat) : List Nat :=
  if n < 10 then [n] else if n < 100 then [n / 10, n % 10] else [n / 100, n / 10 % 10, n % 10]

def writeOctet (n : Nat) : List UInt8 := (digits n).map digit

/-- The address that a text stands for. -/
def pton (s : List UInt8) : Option UInt32 :=
  match (s.splitOn point).map readOctet with
  | [some a, some b, some c, some d] => some (((a * 256 + b) * 256 + c) * 256 + d).toUInt32
  | _ => none

/-- The octets of an address, the highest first. -/
def octets (ip : UInt32) : List Nat :=
  [ip.toNat / 16777216, ip.toNat / 65536 % 256, ip.toNat / 256 % 256, ip.toNat % 256]

/-- The text of an address. -/
def ntop (ip : UInt32) : List UInt8 := [point].intercalate ((octets ip).map writeOctet)

/-! ## Octets -/

theorem toNat_digit {n : Nat} (h : n < 10) : (digit n).toNat = 0x30 + n := by
  rw [digit, Nat.toUInt8, UInt8.toNat_ofNat_of_lt' (by simp [UInt8.size]; omega)]

theorem isDigit_digit {n : Nat} (h : n < 10) : isDigit (digit n) = true := by
  have hn := toNat_digit h
  simp only [isDigit, Bool.and_eq_true, decide_eq_true_eq, UInt8.le_iff_toNat_le, hn]
  exact ⟨Nat.le_add_right _ _, Nat.add_le_add_left (Nat.le_of_lt_succ h) _⟩

theorem digit_ne_zero {n : Nat} (h : n < 10) (hn : n ≠ 0) : digit n ≠ 0x30 := by
  intro heq
  have hval := congrArg UInt8.toNat heq
  rw [toNat_digit h] at hval
  exact hn (Nat.add_left_cancel hval)

theorem value_map_digit {ds : List Nat} (h : ∀ d ∈ ds, d < 10) :
    value (ds.map digit) = ds.foldl (fun n d => 10 * n + d) 0 := by
  rw [value, List.foldl_map]
  apply List.foldl_ext
  intro n d hd
  rw [toNat_digit (h d hd), Nat.add_sub_cancel_left]

theorem digits_lt {n : Nat} (h : n < 256) : ∀ d ∈ digits n, d < 10 := by
  unfold digits
  split
  · simpa
  split
  · simp only [List.mem_cons, List.not_mem_nil, or_false, forall_eq_or_imp, forall_eq]
    omega
  · simp only [List.mem_cons, List.not_mem_nil, or_false, forall_eq_or_imp, forall_eq]
    omega

theorem foldl_digits {n : Nat} : (digits n).foldl (fun n d => 10 * n + d) 0 = n := by
  unfold digits
  split
  · simp
  split
  · simp only [List.foldl_cons, List.foldl_nil]
    omega
  · simp only [List.foldl_cons, List.foldl_nil]
    omega

theorem length_digits (n : Nat) : 1 ≤ (digits n).length ∧ (digits n).length ≤ 3 := by
  unfold digits
  split
  · exact ⟨by simp, by simp⟩
  split
  · exact ⟨by simp, by simp⟩
  · exact ⟨by simp, by simp⟩

/-- A number of several digits does not start with a zero. -/
theorem head?_digits {n : Nat} (h : n < 256) :
    (digits n).length = 1 ∨ ∃ d, (digits n).head? = some d ∧ d < 10 ∧ d ≠ 0 := by
  unfold digits
  split
  · exact .inl rfl
  split
  · exact .inr ⟨n / 10, rfl, by omega, by omega⟩
  · exact .inr ⟨n / 100, rfl, by omega, by omega⟩

/-- **An octet is read back as it was written.** -/
theorem readOctet_writeOctet {n : Nat} (h : n < 256) : readOctet (writeOctet n) = some n := by
  have hlt := digits_lt h
  have hvalue : value (writeOctet n) = n := (value_map_digit hlt).trans foldl_digits
  obtain ⟨hone, hthree⟩ := length_digits n
  rw [readOctet, if_pos, hvalue]
  rw [hvalue, writeOctet, List.length_map]
  refine ⟨hone, hthree, ?_, ?_, Nat.le_of_lt_succ h⟩
  · rw [List.all_map, List.all_eq_true]
    exact fun d hd => isDigit_digit (hlt d hd)
  · rcases head?_digits h with hlen | ⟨d, hhead, hd, hne⟩
    · exact .inl hlen
    · rw [List.head?_map, hhead]
      exact .inr fun heq => digit_ne_zero hd hne (Option.some.inj heq)

theorem mem_writeOctet {n : Nat} (h : n < 256) {c : UInt8} (hc : c ∈ writeOctet n) :
    isDigit c = true := by
  obtain ⟨d, hd, rfl⟩ := List.mem_map.1 hc
  exact isDigit_digit (digits_lt h d hd)

/-! ## Addresses -/

theorem octets_lt (ip : UInt32) : ∀ n ∈ octets ip, n < 256 := by
  have hip := ip.toNat_lt
  simp only [octets, List.mem_cons, List.not_mem_nil, or_false, forall_eq_or_imp, forall_eq]
  omega

theorem point_not_mem_writeOctet {n : Nat} (h : n < 256) : point ∉ writeOctet n := fun hmem =>
  absurd (mem_writeOctet h hmem) (by decide)

/-- **An address is read back as it was written.** -/
theorem pton_ntop (ip : UInt32) : pton (ntop ip) = some ip := by
  have hlt := octets_lt ip
  have hsplit : (ntop ip).splitOn point = (octets ip).map writeOctet := by
    apply List.splitOn_intercalate
    · intro l hl
      obtain ⟨n, hn, rfl⟩ := List.mem_map.1 hl
      exact point_not_mem_writeOctet (hlt n hn)
    · simp [octets]
  have hread : ((octets ip).map writeOctet).map readOctet = (octets ip).map some := by
    rw [List.map_map]
    exact List.map_congr_left fun n hn => readOctet_writeOctet (hlt n hn)
  rw [pton, hsplit, hread]
  refine congrArg some ?_
  apply UInt32.toNat.inj
  have hip := ip.toNat_lt
  rw [Nat.toUInt32, UInt32.toNat_ofNat_of_lt' (by simp [UInt32.size]; omega)]
  omega

theorem length_le_of_readOctet {s : List UInt8} {n : Nat} (h : readOctet s = some n) :
    s.length ≤ 3 := by
  unfold readOctet at h
  split at h <;> [skip; cases h]
  next hs => exact hs.2.1

/-- **A text that is an address is short.** -/
theorem length_le_of_pton {s : List UInt8} {ip : UInt32} (h : pton s = some ip) :
    s.length ≤ 15 := by
  unfold pton at h
  split at h <;> [skip; cases h]
  next a b c d hread =>
    have hlen : (s.splitOn point).length = 4 := by simpa using congrArg List.length hread
    have hshort : ∀ l ∈ s.splitOn point, l.length ≤ 3 := by
      intro l hl
      have hsome : readOctet l ∈ [some a, some b, some c, some d] :=
        hread ▸ List.mem_map_of_mem hl
      obtain ⟨n, hn⟩ : ∃ n, readOctet l = some n := by
        simp only [List.mem_cons, List.not_mem_nil, or_false] at hsome
        rcases hsome with h | h | h | h <;> exact ⟨_, h⟩
      exact length_le_of_readOctet hn
    have hs : [point].intercalate (s.splitOn point) = s := List.intercalate_splitOn point
    have hsum : (s.splitOn point).flatMap (fun l => l ++ [point]) = s ++ [point] := by
      rw [flatMap_append_sep, hs]
      exact List.ne_nil_of_length_eq_add_one hlen
    have hle : ((s.splitOn point).map fun l => (l ++ [point]).length).sum ≤
        ((s.splitOn point).map fun l => (l ++ [point]).length).length • 4 := by
      apply List.sum_le_card_nsmul
      intro k hk
      obtain ⟨l, hl, rfl⟩ := List.mem_map.1 hk
      rw [List.length_append]
      exact Nat.add_le_add_right (hshort l hl) 1
    rw [← List.length_flatMap, hsum, List.length_map, hlen, List.length_append] at hle
    exact Nat.le_of_add_le_add_right hle

/-- Digits and dots. -/
theorem zero_not_mem_ntop (ip : UInt32) : 0 ∉ ntop ip := by
  intro hmem
  rcases mem_intercalate hmem with h | ⟨l, hl, h⟩
  · exact absurd h (by decide)
  · obtain ⟨n, hn, rfl⟩ := List.mem_map.1 hl
    exact absurd (mem_writeOctet (octets_lt ip n hn) h) (by decide)

end Inet
