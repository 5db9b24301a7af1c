import FilteringResolver.DnsParser
import FilteringResolver.Lib.Separated
import FilteringResolver.Verify.Octets

/-!
# Compressed names

`Decodes b pos ls jumps fin` is the compressed-name format: from `pos` on the buffer spells the
labels `ls`, through `jumps` pointers, and the name ends in place at `fin`. `parse_dns_name`
accepts exactly the derivations within its bounds and returns the labels joined by dots
(`nameLoop_sound`, `nameLoop_complete`).
-/

namespace FilteringResolver

open Loops Separated

/-! ## The format -/

/-- The octets of labels, each with its length octet. -/
def labelOctets : List Bytes → Nat
  | [] => 0
  | l :: ls => l.length + 1 + labelOctets ls

@[simp] theorem labelOctets_nil : labelOctets [] = 0 := rfl

@[simp] theorem labelOctets_cons (l : Bytes) (ls : List Bytes) :
    labelOctets (l :: ls) = l.length + 1 + labelOctets ls := rfl

/-- Where the pointer at `pos` points to. -/
def pointerTarget (b : Buffer) (pos : Nat) : Nat :=
  (b.get pos).toNat % 64 * 256 + (b.get (pos + 1)).toNat

/-- The name that starts at `pos`. -/
inductive Decodes (b : Buffer) : Nat → List Bytes → Nat → Nat → Prop where
  | root {pos : Nat} (lt : pos < b.len) (zero : b.get pos = 0) : Decodes b pos [] 0 (pos + 1)
  | label {pos : Nat} {ls : List Bytes} {jumps fin : Nat} (one_le : 1 ≤ (b.get pos).toNat)
      (le : (b.get pos).toNat ≤ dnsMaxLabelLen) (fits : pos + 1 + (b.get pos).toNat ≤ b.len)
      (rest : Decodes b (pos + 1 + (b.get pos).toNat) ls jumps fin) :
      Decodes b pos (b.slice (pos + 1) (b.get pos).toNat :: ls) jumps fin
  | pointer {pos : Nat} {ls : List Bytes} {jumps fin : Nat} (tag : 192 ≤ (b.get pos).toNat)
      (fits : pos + 1 < b.len) (back : pointerTarget b pos < pos)
      (rest : Decodes b (pointerTarget b pos) ls jumps fin) :
      Decodes b pos ls (jumps + 1) (pos + 2)

/-- The labels joined by dots. -/
def dotted (ls : List Bytes) : Bytes := [dot].intercalate ls

theorem Buffer.length_slice {b : Buffer} {i n : Nat} (h : i + n ≤ b.len) :
    (b.slice i n).length = n := by
  have := b.len_le
  simp only [Buffer.slice, List.length_take, List.length_drop]
  omega

theorem Decodes.pos_lt {b : Buffer} {pos : Nat} {ls : List Bytes} {jumps fin : Nat}
    (h : Decodes b pos ls jumps fin) : pos < b.len := by
  cases h with
  | root lt => exact lt
  | label one_le le fits => omega
  | pointer tag fits => omega

theorem Decodes.lt_fin {b : Buffer} {pos : Nat} {ls : List Bytes} {jumps fin : Nat}
    (h : Decodes b pos ls jumps fin) : pos < fin := by
  induction h with
  | root => omega
  | label _ _ _ _ ih => omega
  | pointer => omega

theorem Decodes.labels_length {b : Buffer} {pos : Nat} {ls : List Bytes} {jumps fin : Nat}
    (h : Decodes b pos ls jumps fin) : ∀ l ∈ ls, 1 ≤ l.length ∧ l.length ≤ dnsMaxLabelLen := by
  induction h with
  | root => simp
  | label one_le le fits _ ih =>
    intro l hl
    rcases List.mem_cons.1 hl with rfl | hl
    · rw [Buffer.length_slice fits]
      exact ⟨one_le, le⟩
    · exact ih l hl
  | pointer _ _ _ _ ih => exact ih

/-- A name spells one list of labels, with one number of pointers and one end. -/
theorem Decodes.functional {b : Buffer} {pos : Nat} {ls ls' : List Bytes}
    {jumps jumps' fin fin' : Nat} (h : Decodes b pos ls jumps fin)
    (h' : Decodes b pos ls' jumps' fin') : ls = ls' ∧ jumps = jumps' ∧ fin = fin' := by
  induction h generalizing ls' jumps' fin' with
  | root _ zero =>
    cases h' with
    | root => exact ⟨rfl, rfl, rfl⟩
    | label one_le => simp [zero] at one_le
    | pointer tag => simp [zero] at tag
  | label one_le le _ _ ih =>
    cases h' with
    | root _ zero => simp [zero] at one_le
    | label _ _ _ rest =>
      obtain ⟨rfl, rfl, rfl⟩ := ih rest
      exact ⟨rfl, rfl, rfl⟩
    | pointer tag => simp only [dnsMaxLabelLen] at le; omega
  | pointer tag _ _ _ ih =>
    cases h' with
    | root _ zero => simp [zero] at tag
    | label _ le => simp only [dnsMaxLabelLen] at le; omega
    | pointer _ _ _ rest =>
      obtain ⟨rfl, rfl, -⟩ := ih rest
      exact ⟨rfl, rfl, rfl⟩

/-! ## One pass of the loop -/

section Step

variable {b : Buffer} {nameLen : Nat} {s : NameState}

theorem nameStep_root (lt : s.pos < b.len) (zero : b.get s.pos = 0) :
    nameStep b nameLen s =
      .inr (some (trimDot s.name ++ [0], if s.jumped then s.offset else s.pos + 1)) := by
  simp [nameStep, lt, zero, dnsCompressionMask]

theorem nameStep_label (one_le : 1 ≤ (b.get s.pos).toNat)
    (le : (b.get s.pos).toNat ≤ dnsMaxLabelLen) (fits : s.pos + 1 + (b.get s.pos).toNat ≤ b.len)
    (room : s.name.length + (b.get s.pos).toNat + 1 < nameLen)
    (short : s.name.length + (b.get s.pos).toNat + 1 ≤ dnsMaxNameLen) :
    nameStep b nameLen s = .inl { s with
      pos := s.pos + 1 + (b.get s.pos).toNat
      name := s.name ++ b.slice (s.pos + 1) (b.get s.pos).toNat ++ [dot] } := by
  have hmask : ¬ b.get s.pos &&& dnsCompressionMask = dnsCompressionMask := by
    rw [compressionMask_iff]
    simp only [dnsMaxLabelLen] at le
    omega
  have hzero : b.get s.pos ≠ 0 := by
    intro h
    simp [h] at one_le
  have hlen : (s.name ++ b.slice (s.pos + 1) (b.get s.pos).toNat ++ [dot]).length =
      s.name.length + (b.get s.pos).toNat + 1 := by
    rw [List.length_append, List.length_append, Buffer.length_slice fits, List.length_singleton]
  rw [nameStep, if_pos (by omega), if_neg hmask, if_neg (by omega), if_neg hzero]
  dsimp only
  rw [if_neg (by omega), if_neg (by omega), hlen, if_neg (by omega)]

theorem nameStep_pointer (tag : 192 ≤ (b.get s.pos).toNat) (fits : s.pos + 1 < b.len)
    (back : pointerTarget b s.pos < s.pos) (jumps : s.jumpCount + 1 ≤ maxCompressionJumps) :
    nameStep b nameLen s = .inl { s with
      pos := pointerTarget b s.pos
      jumpCount := s.jumpCount + 1
      jumped := true
      offset := if s.jumped then s.offset else s.pos + 2 } := by
  have htarget : pointerOffset (b.get s.pos) (b.get (s.pos + 1)) = pointerTarget b s.pos :=
    pointerOffset_eq _ _
  rw [nameStep, if_pos (by omega), if_pos ((compressionMask_iff _).2 tag), if_neg (by omega)]
  dsimp only
  rw [htarget, if_neg (by omega), if_neg (by omega)]

/-- A pass that goes on has read a label or followed a pointer. -/
theorem nameStep_next {t : NameState} (h : nameStep b nameLen s = .inl t) :
    (1 ≤ (b.get s.pos).toNat ∧ (b.get s.pos).toNat ≤ dnsMaxLabelLen ∧
      s.pos + 1 + (b.get s.pos).toNat ≤ b.len ∧
      s.name.length + (b.get s.pos).toNat + 1 < nameLen ∧
      s.name.length + (b.get s.pos).toNat + 1 ≤ dnsMaxNameLen ∧
      t = { s with
        pos := s.pos + 1 + (b.get s.pos).toNat
        name := s.name ++ b.slice (s.pos + 1) (b.get s.pos).toNat ++ [dot] }) ∨
    (192 ≤ (b.get s.pos).toNat ∧ s.pos + 1 < b.len ∧ pointerTarget b s.pos < s.pos ∧
      s.jumpCount + 1 ≤ maxCompressionJumps ∧
      t = { s with
        pos := pointerTarget b s.pos
        jumpCount := s.jumpCount + 1
        jumped := true
        offset := if s.jumped then s.offset else s.pos + 2 }) := by
  have htarget : pointerOffset (b.get s.pos) (b.get (s.pos + 1)) = pointerTarget b s.pos :=
    pointerOffset_eq _ _
  unfold nameStep at h
  dsimp only at h
  split at h <;> [skip; cases h]
  split at h
  · next hmask =>
    split at h <;> [cases h; skip]
    split at h <;> [cases h; skip]
    split at h <;> cases h
    rw [htarget] at *
    exact Or.inr ⟨(compressionMask_iff _).1 hmask, by omega, by omega, by omega, rfl⟩
  · split at h <;> [cases h; skip]
    split at h <;> [cases h; skip]
    next hzero =>
    split at h <;> [cases h; skip]
    next hfits =>
    split at h <;> [cases h; skip]
    split at h <;> cases h
    next hshort =>
    have hpos : 1 ≤ (b.get s.pos).toNat := by
      rcases Nat.eq_zero_or_pos (b.get s.pos).toNat with h0 | h0
      · exact absurd (UInt8.toNat.inj h0) hzero
      · exact h0
    rw [List.length_append, List.length_append, Buffer.length_slice (by omega),
      List.length_singleton] at hshort
    exact Or.inl ⟨hpos, by omega, by omega, by omega, by omega, rfl⟩

/-- A pass that accepts has read the final zero. -/
theorem nameStep_accept {r : Bytes × Nat} (h : nameStep b nameLen s = .inr (some r)) :
    s.pos < b.len ∧ b.get s.pos = 0 ∧
      r = (trimDot s.name ++ [0], if s.jumped then s.offset else s.pos + 1) := by
  unfold nameStep at h
  dsimp only at h
  split at h <;> [skip; cases h]
  split at h
  · split at h <;> [cases h; skip]
    split at h <;> [cases h; skip]
    split at h <;> cases h
  · split at h <;> [cases h; skip]
    split at h
    · next hlt _ _ hzero =>
      cases h
      exact ⟨hlt, hzero, rfl⟩
    · split at h <;> [cases h; skip]
      split at h <;> [cases h; skip]
      split at h <;> cases h

end Step

/-! ## The whole loop -/

/-- What the loop accepts from a state on: a derivation that stays within the jumps and the
octets the state has left. -/
structure Accepts (b : Buffer) (nameLen : Nat) (s : NameState) (ls : List Bytes)
    (jumps fin : Nat) : Prop where
  decodes : Decodes b s.pos ls jumps fin
  jumps_le : s.jumpCount + jumps ≤ maxCompressionJumps
  octets_le : s.name.length + labelOctets ls ≤ min dnsMaxNameLen (nameLen - 1)

/-- The result of accepting a derivation from a state on. -/
def acceptResult (s : NameState) (ls : List Bytes) (fin : Nat) : Bytes × Nat :=
  (trimDot (s.name ++ ls.flatMap fun l => l ++ [dot]) ++ [0],
    if s.jumped then s.offset else fin)

theorem nameLoop_complete {b : Buffer} {nameLen : Nat} {pos : Nat} {ls : List Bytes}
    {jumps fin : Nat} (h : Decodes b pos ls jumps fin) (s : NameState) (hpos : s.pos = pos)
    (hj : s.jumpCount + jumps ≤ maxCompressionJumps)
    (ho : s.name.length + labelOctets ls ≤ min dnsMaxNameLen (nameLen - 1)) :
    (nameLoop b nameLen).run s = some (acceptResult s ls fin) := by
  induction h generalizing s with
  | root lt zero =>
    subst hpos
    rw [Loop.run_exit _ (nameStep_root lt zero)]
    simp [acceptResult]
  | label one_le le fits rest ih =>
    subst hpos
    rw [labelOctets_cons, Buffer.length_slice fits] at ho
    have hstep : (nameLoop b nameLen).step s = .inl _ :=
      nameStep_label one_le le fits (by omega) (by omega)
    refine (Loop.run_next _ hstep).trans ((ih _ rfl ?_ ?_).trans ?_)
    · exact hj
    · simp only [List.length_append, Buffer.length_slice fits, List.length_singleton]
      omega
    · simp [acceptResult]
  | pointer tag fits back rest ih =>
    subst hpos
    have hstep : (nameLoop b nameLen).step s = .inl _ :=
      nameStep_pointer tag fits back (by omega)
    refine (Loop.run_next _ hstep).trans ((ih _ rfl ?_ ?_).trans ?_)
    · dsimp only
      omega
    · exact ho
    · simp [acceptResult]

theorem nameLoop_sound {b : Buffer} {nameLen : Nat} (s : NameState) {r : Bytes × Nat}
    (hj : s.jumpCount ≤ maxCompressionJumps)
    (ho : s.name.length ≤ min dnsMaxNameLen (nameLen - 1))
    (h : (nameLoop b nameLen).run s = some r) :
    ∃ ls jumps fin, Accepts b nameLen s ls jumps fin ∧ r = acceptResult s ls fin := by
  induction s using (nameLoop b nameLen).induction with
  | exit s r' hstep =>
    rw [Loop.run_exit _ hstep] at h
    subst h
    obtain ⟨lt, zero, rfl⟩ := nameStep_accept hstep
    exact ⟨[], 0, _, ⟨.root lt zero, hj, ho⟩, by simp [acceptResult]⟩
  | next s t hstep ih =>
    rw [Loop.run_next _ hstep] at h
    rcases nameStep_next hstep with ⟨one_le, le, fits, room, short, rfl⟩ |
      ⟨tag, fits, back, jumps, rfl⟩
    · obtain ⟨ls, j, fin, ⟨hd, hj', ho'⟩, rfl⟩ :=
        ih hj (by simp [Buffer.length_slice fits]; simp at short; omega) h
      refine ⟨_ :: ls, j, fin, ⟨.label one_le le fits hd, hj', ?_⟩, by simp [acceptResult]⟩
      rw [labelOctets_cons, Buffer.length_slice fits]
      simp only [List.length_append, Buffer.length_slice fits, List.length_singleton] at ho'
      omega
    · obtain ⟨ls, j, fin, ⟨hd, hj', ho'⟩, rfl⟩ := ih jumps ho h
      refine ⟨ls, j + 1, _, ⟨.pointer tag fits back hd, ?_, ho'⟩, by simp [acceptResult]⟩
      dsimp only at hj'
      omega

/-! ## `parse_dns_name` -/

theorem trimDot_flatMap (ls : List Bytes) :
    trimDot (ls.flatMap fun l => l ++ [dot]) = dotted ls := by
  by_cases h : ls = []
  · subst h
    rfl
  · rw [flatMap_append_sep h]
    simp [trimDot, dotted]

theorem length_flatMap_dot (ls : List Bytes) :
    (ls.flatMap fun l => l ++ [dot]).length = labelOctets ls := by
  induction ls with
  | nil => rfl
  | cons l ls ih => rw [List.flatMap_cons, List.length_append, ih]; simp

theorem length_dotted (ls : List Bytes) : (dotted ls).length = labelOctets ls - 1 := by
  rw [dotted, length_intercalate, length_flatMap_dot]

theorem parseDnsName_complete {b : Buffer} {offset nameLen : Nat} {ls : List Bytes}
    {jumps fin : Nat} (hn : 1 ≤ nameLen) (h : Decodes b offset ls jumps fin)
    (hj : jumps ≤ maxCompressionJumps) (ho : labelOctets ls ≤ min dnsMaxNameLen (nameLen - 1)) :
    parseDnsName b offset nameLen = some (dotted ls ++ [0], fin) := by
  rw [parseDnsName, if_neg (by omega),
    nameLoop_complete h _ rfl (by simpa using hj) (by simpa using ho)]
  simp [acceptResult, trimDot_flatMap]

theorem parseDnsName_sound {b : Buffer} {offset nameLen : Nat} {name : Bytes} {fin : Nat}
    (h : parseDnsName b offset nameLen = some (name, fin)) :
    ∃ ls jumps, Decodes b offset ls jumps fin ∧ jumps ≤ maxCompressionJumps ∧
      labelOctets ls ≤ min dnsMaxNameLen (nameLen - 1) ∧ name = dotted ls ++ [0] := by
  unfold parseDnsName at h
  split at h <;> [cases h; skip]
  obtain ⟨ls, jumps, fin', ⟨hd, hj, ho⟩, hr⟩ := nameLoop_sound _ (by simp) (by simp) h
  simp only [acceptResult, List.nil_append, Bool.false_eq_true, ite_false, trimDot_flatMap,
    Prod.mk.injEq] at hr
  obtain ⟨rfl, rfl⟩ := hr
  exact ⟨ls, jumps, hd, by simpa using hj, by simpa using ho, rfl⟩

/-- **`parse_dns_name` accepts exactly the compressed-name format**, within ten pointers and the
bounds on the octets, and then writes the labels joined by dots and the NUL inside `name` and
moves the offset to the end of the name in place. -/
theorem parseDnsName_format (b : Buffer) (offset nameLen : Nat) (hn : 1 ≤ nameLen) :
    ((parseDnsName b offset nameLen).isSome ↔
      ∃ ls jumps fin, Decodes b offset ls jumps fin ∧ jumps ≤ maxCompressionJumps ∧
        labelOctets ls ≤ min dnsMaxNameLen (nameLen - 1)) ∧
    ∀ ls jumps fin, Decodes b offset ls jumps fin → jumps ≤ maxCompressionJumps →
      labelOctets ls ≤ min dnsMaxNameLen (nameLen - 1) →
      parseDnsName b offset nameLen = some (dotted ls ++ [0], fin) ∧
        (dotted ls ++ [0]).length ≤ nameLen := by
  refine ⟨⟨fun h => ?_, ?_⟩, fun ls jumps fin hd hj ho => ⟨parseDnsName_complete hn hd hj ho, ?_⟩⟩
  · obtain ⟨⟨name, fin⟩, hr⟩ := Option.isSome_iff_exists.1 h
    obtain ⟨ls, jumps, hd, hj, ho, -⟩ := parseDnsName_sound hr
    exact ⟨ls, jumps, fin, hd, hj, ho⟩
  · rintro ⟨ls, jumps, fin, hd, hj, ho⟩
    rw [parseDnsName_complete hn hd hj ho]
    rfl
  · rw [List.length_append, length_dotted, List.length_singleton]
    omega

/-- The name `b.a` whose second label is reached through a pointer. -/
theorem parseDnsName_format_pointer :
    parseDnsName (.ofBytes [1, 97, 0, 1, 98, 0xC0, 0]) 3 256 = some ([98, 46, 97, 0], 7) :=
  ((parseDnsName_format (.ofBytes [1, 97, 0, 1, 98, 0xC0, 0]) 3 256 (by decide)).2 [[98], [97]] 1 7
    (.label (by decide) (by decide) (by decide)
      (.pointer (by decide) (by decide) (by decide)
        (.label (by decide) (by decide) (by decide) (.root (by decide) (by decide)))))
    (by decide) (by decide)).1

end FilteringResolver
