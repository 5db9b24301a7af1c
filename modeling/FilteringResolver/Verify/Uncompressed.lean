import Mathlib.Data.List.GetD
import FilteringResolver.Verify.WireName

/-!
# Names without pointers

The wire form of a list of labels, and the derivations without pointers: they are exactly the
buffers that hold the wire form in place (`decodes_zero_iff`). So such a name keeps its reading
wherever its octets are copied.
-/

namespace FilteringResolver

/-! ## Slices -/

namespace Buffer

theorem get_eq_getElem {b : Buffer} {i : Nat} (h : i < b.bytes.length) :
    b.get i = b.bytes[i] :=
  List.getD_eq_getElem b.bytes 0 h

theorem slice_add (b : Buffer) (i m n : Nat) :
    b.slice i (m + n) = b.slice i m ++ b.slice (i + m) n := by
  simp only [slice, List.take_add, List.drop_drop]

theorem slice_one {b : Buffer} {i : Nat} (h : i < b.len) : b.slice i 1 = [b.get i] := by
  have hi : i < b.bytes.length := Nat.lt_of_lt_of_le h b.len_le
  rw [slice, List.drop_eq_getElem_cons hi, get_eq_getElem hi]
  rfl

theorem slice_succ {b : Buffer} {i : Nat} (n : Nat) (h : i < b.len) :
    b.slice i (n + 1) = b.get i :: b.slice (i + 1) n := by
  rw [Nat.add_comm n 1, slice_add, slice_one h]
  rfl

theorem slice_data {b : Buffer} {i n : Nat} (h : i + n ≤ b.len) :
    (ofBytes b.data).slice i n = b.slice i n := by
  simp only [slice, ofBytes, data, List.drop_take, List.take_take]
  rw [Nat.min_eq_left (by omega)]

theorem get_data {b : Buffer} {i : Nat} (h : i < b.len) : (ofBytes b.data).get i = b.get i := by
  simp only [get, ofBytes, data, List.getD_eq_getElem?_getD, List.getElem?_take_of_lt h]

theorem slice_eq {b : Buffer} {i n : Nat} (h : i + n ≤ b.len) :
    b.slice i n = (b.data.drop i).take n := (slice_data h).symm

theorem get_eq {b : Buffer} {i : Nat} (h : i < b.len) : b.get i = b.data.getD i 0 :=
  (get_data h).symm

theorem data_ofBytes (d : Bytes) : (ofBytes d).data = d := List.take_length

/-! ## Buffers with the same octets -/

section

variable {b b' : Buffer} (h : b.data = b'.data)
include h

theorem len_congr : b.len = b'.len := by
  rw [← b.length_data, h, b'.length_data]

theorem get_congr {i : Nat} (hi : i < b.len) : b.get i = b'.get i := by
  rw [← get_data hi, h, get_data (len_congr h ▸ hi)]

theorem get16_congr {i : Nat} (hi : i + 1 < b.len) : b.get16 i = b'.get16 i := by
  rw [get16, get16, get_congr h (Nat.lt_of_succ_lt hi), get_congr h hi]

theorem slice_congr {i n : Nat} (hi : i + n ≤ b.len) : b.slice i n = b'.slice i n := by
  rw [← slice_data hi, h, slice_data (len_congr h ▸ hi)]

end

end Buffer

/-- The octets of a buffer spell its names. -/
theorem Decodes.congr {b b' : Buffer} (h : b.data = b'.data) {pos : Nat} {ls : List Bytes}
    {jumps fin : Nat} (hd : Decodes b pos ls jumps fin) : Decodes b' pos ls jumps fin := by
  have hlen := Buffer.len_congr h
  induction hd with
  | root lt zero => exact .root (by omega) (by rw [← Buffer.get_congr h lt, zero])
  | @label pos ls jumps fin one_le le fits rest ih =>
    have hget : b.get pos = b'.get pos := Buffer.get_congr h (by omega)
    rw [hget] at one_le le fits ih
    rw [Buffer.slice_congr h (by rwa [hget]), hget]
    exact .label one_le le (by omega) ih
  | @pointer pos ls jumps fin tag fits back rest ih =>
    have hget : b.get pos = b'.get pos := Buffer.get_congr h (Nat.lt_of_succ_lt fits)
    have htarget : pointerTarget b pos = pointerTarget b' pos := by
      rw [pointerTarget, hget, Buffer.get_congr h fits, pointerTarget]
    rw [hget] at tag
    rw [htarget] at back ih
    exact .pointer tag (by omega) back ih

/-! ## The wire form -/

/-- The wire form of labels: each with its length octet, and the final zero. -/
def wire (ls : List Bytes) : Bytes := (ls.flatMap fun l => l.length.toUInt8 :: l) ++ [0]

@[simp] theorem wire_nil : wire [] = [0] := rfl

@[simp] theorem wire_cons (l : Bytes) (ls : List Bytes) :
    wire (l :: ls) = l.length.toUInt8 :: (l ++ wire ls) := by
  simp [wire]

theorem length_wire (ls : List Bytes) : (wire ls).length = labelOctets ls + 1 := by
  induction ls with
  | nil => rfl
  | cons l ls ih =>
    rw [wire_cons, List.length_cons, List.length_append, ih, labelOctets_cons]
    omega

/-- The labels a name may have. -/
def LegalLabels (ls : List Bytes) : Prop := ∀ l ∈ ls, 1 ≤ l.length ∧ l.length ≤ dnsMaxLabelLen

theorem LegalLabels.tail {l : Bytes} {ls : List Bytes} (h : LegalLabels (l :: ls)) :
    LegalLabels ls := fun m hm => h m (List.mem_cons_of_mem _ hm)

theorem toNat_length_octet {l : Bytes} (h : l.length ≤ dnsMaxLabelLen) :
    l.length.toUInt8.toNat = l.length := by
  simp only [dnsMaxLabelLen] at h
  simp only [Nat.toUInt8, UInt8.toNat_ofNat']
  omega

theorem Decodes.wire_slice {b : Buffer} {pos : Nat} {ls : List Bytes} {jumps fin : Nat}
    (h : Decodes b pos ls jumps fin) (hj : jumps = 0) :
    b.slice pos (labelOctets ls + 1) = wire ls ∧ fin = pos + labelOctets ls + 1 ∧ fin ≤ b.len := by
  induction h with
  | root lt zero =>
    rw [labelOctets_nil, Buffer.slice_one lt, zero]
    exact ⟨rfl, rfl, lt⟩
  | label one_le le fits rest ih =>
    obtain ⟨hs, hfin, hlen⟩ := ih hj
    rw [labelOctets_cons, Buffer.length_slice fits, wire_cons, Buffer.length_slice fits]
    refine ⟨?_, by omega, hlen⟩
    rw [show ∀ n m : Nat, n + 1 + m + 1 = n + (m + 1) + 1 by omega, Buffer.slice_succ _ (by omega),
      Buffer.slice_add, hs]
    simp
  | pointer => cases hj

theorem decodes_of_wire {b : Buffer} {pos : Nat} {ls : List Bytes} (hl : LegalLabels ls)
    (hs : b.slice pos (labelOctets ls + 1) = wire ls) (hfit : pos + labelOctets ls + 1 ≤ b.len) :
    Decodes b pos ls 0 (pos + labelOctets ls + 1) := by
  induction ls generalizing pos with
  | nil =>
    have hlt : pos < b.len := hfit
    rw [labelOctets_nil, Buffer.slice_one hlt] at hs
    exact .root hlt (by simpa using hs)
  | cons l ls ih =>
    obtain ⟨hone, hmax⟩ := hl l List.mem_cons_self
    rw [labelOctets_cons] at hs hfit
    rw [show l.length + 1 + labelOctets ls + 1 = l.length + (labelOctets ls + 1) + 1 by omega,
      Buffer.slice_succ _ (by omega), Buffer.slice_add, wire_cons, List.cons.injEq] at hs
    obtain ⟨hget, hs⟩ := hs
    obtain ⟨hslice, hs⟩ := List.append_inj hs (Buffer.length_slice (by omega))
    have hn : (b.get pos).toNat = l.length := by rw [hget, toNat_length_octet hmax]
    have hrest : Decodes b (pos + 1 + l.length) ls 0 (pos + 1 + l.length + labelOctets ls + 1) :=
      ih hl.tail hs (by omega)
    rw [labelOctets_cons, show pos + (l.length + 1 + labelOctets ls) + 1 =
      pos + 1 + l.length + labelOctets ls + 1 by omega]
    have h : Decodes b pos (b.slice (pos + 1) (b.get pos).toNat :: ls) 0
        (pos + 1 + l.length + labelOctets ls + 1) :=
      .label (by omega) (by omega) (by omega) (hn ▸ hrest)
    rwa [hn, hslice] at h

/-- **Names without pointers** are the wire forms in place. -/
theorem decodes_zero_iff {b : Buffer} {pos : Nat} {ls : List Bytes} {fin : Nat} :
    Decodes b pos ls 0 fin ↔ LegalLabels ls ∧ b.slice pos (labelOctets ls + 1) = wire ls ∧
      fin = pos + labelOctets ls + 1 ∧ fin ≤ b.len := by
  constructor
  · intro h
    exact ⟨h.labels_length, h.wire_slice rfl⟩
  · rintro ⟨hl, hs, rfl, hfin⟩
    exact decodes_of_wire hl hs hfin

/-- A name in wire form behind a header is decoded there. -/
theorem decodes_behind {b : Buffer} {head tail : Bytes} {ls : List Bytes}
    (h : b.data = head ++ (wire ls ++ tail)) (hlegal : LegalLabels ls) :
    Decodes b head.length ls 0 (head.length + labelOctets ls + 1) := by
  have hlen : b.len = head.length + (labelOctets ls + 1 + tail.length) := by
    rw [← b.length_data, h, List.length_append, List.length_append, length_wire]
  refine decodes_zero_iff.2 ⟨hlegal, ?_, rfl, by omega⟩
  rw [Buffer.slice_eq (by omega), h, List.drop_left, ← length_wire, List.take_left]

end FilteringResolver
