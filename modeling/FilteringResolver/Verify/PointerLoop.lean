import FilteringResolver.Verify.WireName

/-!
# Pointer loops

The walk of `parse_dns_name` without its limits (`NameWalk`): labels carry it forward, pointers
anywhere. A name that decodes has less left to read after every step, so its walk never comes back
to a position where it has read a length octet, and it follows the pointers of the name and no
others. Hence no walk with a loop and none with more than ten pointers is accepted
(`parseDnsName_pointer_loop`).
-/

namespace FilteringResolver

open Loops

/-! ## The walk -/

/-- The walk from `start`: the positions of the length octets it has come to, the last one first,
and the number of pointers it has followed. -/
inductive NameWalk (b : Buffer) (start : Nat) : List Nat → Nat → Prop where
  | start : NameWalk b start [start] 0
  | label {pos jumps : Nat} {visited : List Nat} (walk : NameWalk b start (pos :: visited) jumps)
      (lt : pos < b.len) (one_le : 1 ≤ (b.get pos).toNat)
      (le : (b.get pos).toNat ≤ dnsMaxLabelLen) :
      NameWalk b start ((pos + 1 + (b.get pos).toNat) :: pos :: visited) jumps
  | pointer {pos jumps : Nat} {visited : List Nat} (walk : NameWalk b start (pos :: visited) jumps)
      (fits : pos + 1 < b.len) (tag : 192 ≤ (b.get pos).toNat) :
      NameWalk b start (pointerTarget b pos :: pos :: visited) (jumps + 1)

/-- Names are read from both positions, and from `pos` less is left to read than from `pos'`. -/
def Closer (b : Buffer) (pos pos' : Nat) : Prop :=
  ∃ ls jumps fin ls' jumps' fin', Decodes b pos ls jumps fin ∧ Decodes b pos' ls' jumps' fin' ∧
    ls.length + jumps < ls'.length + jumps'

section

variable {b : Buffer} {pos : Nat}

theorem Closer.irrefl : ¬ Closer b pos pos := by
  rintro ⟨ls, jumps, fin, ls', jumps', fin', h, h', hlt⟩
  obtain ⟨rfl, rfl, -⟩ := h.functional h'
  exact Nat.lt_irrefl _ hlt

theorem Closer.trans {pos' pos'' : Nat} (h : Closer b pos pos') (h' : Closer b pos' pos'') :
    Closer b pos pos'' := by
  obtain ⟨ls, jumps, fin, ls₁, jumps₁, fin₁, hd, hd₁, hlt⟩ := h
  obtain ⟨ls₂, jumps₂, fin₂, ls', jumps', fin', hd₂, hd', hlt'⟩ := h'
  obtain ⟨rfl, rfl, -⟩ := hd₁.functional hd₂
  exact ⟨ls, jumps, fin, ls', jumps', fin', hd, hd', Nat.lt_trans hlt hlt'⟩

/-- A label step of a name that decodes. -/
theorem Decodes.label_step {ls : List Bytes} {jumps fin : Nat} (h : Decodes b pos ls jumps fin)
    (one_le : 1 ≤ (b.get pos).toNat) (le : (b.get pos).toNat ≤ dnsMaxLabelLen) :
    ∃ ls', Decodes b (pos + 1 + (b.get pos).toNat) ls' jumps fin ∧ ls.length = ls'.length + 1 := by
  cases h with
  | root _ zero => simp [zero] at one_le
  | label _ _ _ rest => exact ⟨_, rest, rfl⟩
  | pointer tag =>
    simp only [dnsMaxLabelLen] at le
    omega

/-- A pointer step of a name that decodes. -/
theorem Decodes.pointer_step {ls : List Bytes} {jumps fin : Nat} (h : Decodes b pos ls jumps fin)
    (tag : 192 ≤ (b.get pos).toNat) :
    ∃ jumps' fin', Decodes b (pointerTarget b pos) ls jumps' fin' ∧ jumps = jumps' + 1 := by
  cases h with
  | root _ zero => simp [zero] at tag
  | label _ le =>
    simp only [dnsMaxLabelLen] at le
    omega
  | pointer _ _ _ rest => exact ⟨_, _, rest, rfl⟩

/-- **The walk over a name that decodes** reads on with less and less left of it. -/
theorem NameWalk.decodes {start : Nat} {visited : List Nat} {jumps : Nat}
    (walk : NameWalk b start visited jumps) {ls : List Bytes} {total fin : Nat}
    (h : Decodes b start ls total fin) :
    ∃ pos rest ls' jumps' fin', visited = pos :: rest ∧ Decodes b pos ls' jumps' fin' ∧
      jumps + jumps' = total ∧ visited.Pairwise (Closer b) := by
  -- a step to `next` with less left to read
  have extend : ∀ {next pos : Nat} {rest : List Nat}, Closer b next pos →
      (pos :: rest).Pairwise (Closer b) → (next :: pos :: rest).Pairwise (Closer b) := by
    intro next pos rest hnext hrest
    refine List.pairwise_cons.2 ⟨fun p hp => ?_, hrest⟩
    rcases List.mem_cons.1 hp with rfl | hp
    · exact hnext
    · exact hnext.trans ((List.pairwise_cons.1 hrest).1 p hp)
  induction walk with
  | start => exact ⟨start, [], ls, total, fin, rfl, h, Nat.zero_add _, List.pairwise_singleton _ _⟩
  | label walk lt one_le le ih =>
    obtain ⟨pos, rest, ls', jumps', fin', hvisited, hd, htotal, hpair⟩ := ih
    obtain ⟨rfl, rfl⟩ := List.cons.inj hvisited
    obtain ⟨ls'', hd', hlen⟩ := hd.label_step one_le le
    exact ⟨_, _, ls'', jumps', fin', rfl, hd', htotal,
      extend ⟨_, _, _, _, _, _, hd', hd, by omega⟩ hpair⟩
  | pointer walk fits tag ih =>
    obtain ⟨pos, rest, ls', jumps', fin', hvisited, hd, htotal, hpair⟩ := ih
    obtain ⟨rfl, rfl⟩ := List.cons.inj hvisited
    obtain ⟨jumps'', fin'', hd', hjumps⟩ := hd.pointer_step tag
    exact ⟨_, _, ls', jumps'', fin'', rfl, hd', by omega,
      extend ⟨_, _, _, _, _, _, hd', hd, by omega⟩ hpair⟩

end

/-! ## `parse_dns_name` -/

/-- The positions of the states `f 0` to `f n`, the last one first. -/
def positions (f : Nat → NameState) : Nat → List Nat
  | 0 => [(f 0).pos]
  | n + 1 => (f (n + 1)).pos :: positions f n

theorem positions_eq_cons (f : Nat → NameState) (n : Nat) :
    ∃ rest, positions f n = (f n).pos :: rest := by
  cases n with
  | zero => exact ⟨[], rfl⟩
  | succ n => exact ⟨positions f n, rfl⟩

/-- The passes of the loop make the walk, as far as they go. -/
theorem nameStep_walk {b : Buffer} {offset nameLen : Nat} {f : Nat → NameState} {n : Nat}
    (hstart : f 0 = ⟨offset, [], 0, false, offset⟩)
    (hpasses : ∀ i < n, nameStep b nameLen (f i) = .inl (f (i + 1))) :
    NameWalk b offset (positions f n) (f n).jumpCount := by
  induction n with
  | zero =>
    rw [positions, hstart]
    exact .start
  | succ n ih =>
    have walk := ih fun i hi => hpasses i (Nat.lt_succ_of_lt hi)
    obtain ⟨rest, hrest⟩ := positions_eq_cons f n
    rw [positions, hrest]
    rw [hrest] at walk
    rcases nameStep_next (hpasses n (Nat.lt_succ_self n)) with ⟨one_le, le, fits, -, -, ht⟩ |
      ⟨tag, fits, -, -, ht⟩
    · rw [ht]
      exact .label walk (by omega) one_le le
    · rw [ht]
      exact .pointer walk fits tag

/-- **Pointer loops end in -1**: the loop makes a bounded number of passes along the walk whatever
the buffer holds, and a walk that comes to a position twice or follows more than ten pointers is
rejected. -/
theorem parseDnsName_pointer_loop (b : Buffer) (offset nameLen : Nat) :
    (∀ (f : Nat → NameState) (n : Nat), f 0 = ⟨offset, [], 0, false, offset⟩ →
      (∀ i < n, nameStep b nameLen (f i) = .inl (f (i + 1))) →
      NameWalk b offset (positions f n) (f n).jumpCount ∧
        n ≤ maxCompressionJumps * (b.len + 1) + (b.len - offset)) ∧
    ∀ visited jumps, NameWalk b offset visited jumps →
      ¬ visited.Nodup ∨ maxCompressionJumps < jumps → parseDnsName b offset nameLen = none := by
  constructor
  · intro f n hstart hpasses
    have hbound := (nameLoop b nameLen).passes_le hpasses
    rw [hstart] at hbound
    exact ⟨nameStep_walk hstart hpasses, hbound⟩
  · intro visited jumps walk hbad
    rw [← Option.not_isSome_iff_eq_none]
    intro hsome
    obtain ⟨⟨name, fin⟩, hr⟩ := Option.isSome_iff_exists.1 hsome
    obtain ⟨ls, total, hd, hle, -, -⟩ := parseDnsName_sound hr
    obtain ⟨pos, rest, ls', jumps', fin', -, -, htotal, hpair⟩ := walk.decodes hd
    rcases hbad with hdup | hmany
    · apply hdup
      apply hpair.imp
      rintro p q hcloser rfl
      exact hcloser.irrefl
    · omega

/-- The label `a` and a pointer back to it. -/
theorem parseDnsName_pointer_loop_back :
    NameWalk (.ofBytes [1, 97, 0xC0, 0]) 0 [0, 2, 0] 1 ∧
      parseDnsName (.ofBytes [1, 97, 0xC0, 0]) 0 256 = none := by
  have walk : NameWalk (.ofBytes [1, 97, 0xC0, 0]) 0 [0, 2, 0] 1 :=
    .pointer (.label .start (by decide) (by decide) (by decide)) (by decide) (by decide)
  exact ⟨walk, (parseDnsName_pointer_loop _ 0 256).2 _ _ walk (.inl (by decide))⟩

end FilteringResolver
