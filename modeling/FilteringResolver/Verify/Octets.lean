import FilteringResolver.DnsParser
import FilteringResolver.DnsBuilder

/-!
# Words and headers

Writing a 16-bit word octet by octet and reading it back as a network-order word agree
(`be16_octets16`), so the header a response is built with is the header that is parsed from it
(`parseDnsHeader_build`). Bit masks of octets are read as arithmetic.
-/

namespace FilteringResolver

/-! ## Octets -/

/-- The two high bits of an octet are set. -/
theorem compressionMask_iff (c : UInt8) :
    c &&& dnsCompressionMask = dnsCompressionMask ↔ 192 ≤ c.toNat := by
  have h : ∀ n : Fin 256,
      (UInt8.ofNat n &&& dnsCompressionMask = dnsCompressionMask) ↔ 192 ≤ n.val := by
    decide +kernel
  simpa using h ⟨c.toNat, c.toNat_lt⟩

theorem toNat_be16 (hi lo : UInt8) : (be16 hi lo).toNat = hi.toNat * 256 + lo.toNat := by
  have hhi := hi.toNat_lt
  have hlo := lo.toNat_lt
  simp only [be16, UInt16.toNat_or, UInt16.toNat_shiftLeft, UInt8.toNat_toUInt16]
  rw [show UInt16.toNat 8 % 16 = 8 by decide,
    Nat.mod_eq_of_lt (by rw [Nat.shiftLeft_eq]; omega),
    ← Nat.shiftLeft_add_eq_or_of_lt (by simpa using hlo), Nat.shiftLeft_eq]

theorem be16_inj {a b c d : UInt8} (h : be16 a b = be16 c d) : a = c ∧ b = d := by
  have hn := congrArg UInt16.toNat h
  have hb := b.toNat_lt
  have hd := d.toNat_lt
  rw [toNat_be16, toNat_be16] at hn
  exact ⟨UInt8.toNat.inj (by omega), UInt8.toNat.inj (by omega)⟩

theorem pointerOffset_eq (hi lo : UInt8) :
    pointerOffset hi lo = hi.toNat % 64 * 256 + lo.toNat := by
  have h6 : (hi &&& 0x3F).toNat = hi.toNat % 64 := by
    rw [UInt8.toNat_and]
    exact Nat.and_two_pow_sub_one_eq_mod _ 6
  rw [pointerOffset, toNat_be16, h6]

/-! ## Words -/

theorem toNat_and_ff (w : UInt16) : (w &&& 0xFF).toUInt8.toNat = w.toNat % 256 := by
  have h8 : w.toNat &&& 255 = w.toNat % 256 := Nat.and_two_pow_sub_one_eq_mod _ 8
  rw [UInt16.toNat_toUInt8, UInt16.toNat_and, show UInt16.toNat 0xFF = 255 by decide, h8]
  omega

/-- **A word reads back as it was written.** -/
theorem be16_octets16 (w : UInt16) :
    be16 ((w >>> 8) &&& 0xFF).toUInt8 (w &&& 0xFF).toUInt8 = w := by
  apply UInt16.toNat.inj
  have hw := w.toNat_lt
  rw [toNat_be16, toNat_and_ff, toNat_and_ff, UInt16.toNat_shiftRight,
    show UInt16.toNat 8 % 16 = 8 by decide, Nat.shiftRight_eq_div_pow]
  omega

/-! ## Headers -/

theorem length_buildDnsHeader (h : DnsHeader) : (buildDnsHeader h).length = dnsHeaderSize := rfl

/-- **A header is parsed as it was built.** -/
theorem parseDnsHeader_build {b : Buffer} {h : DnsHeader} {rest : Bytes}
    (hb : b.bytes = buildDnsHeader h ++ rest) (hlen : dnsHeaderSize ≤ b.len) :
    parseDnsHeader b = some h := by
  have hnot : ¬ b.len < dnsHeaderSize := Nat.not_lt.2 hlen
  simp only [parseDnsHeader, if_neg hnot, Buffer.get16, Buffer.get, hb, buildDnsHeader, octets16,
    List.cons_append, List.nil_append, List.getD_cons_succ, List.getD_cons_zero, be16_octets16]

/-- The flags of an error response have the QR bit. -/
theorem errorHeader_flags (query : DnsHeader) (rcode : UInt8) :
    (errorHeader query rcode).flags &&& dnsFlagQR ≠ 0 := by
  intro h
  have hbit := congrArg (fun w : UInt16 => w.toBitVec.getLsbD 15) h
  simp [errorHeader, dnsFlagQR] at hbit

/-! The codes that the server answers with are codes that `build_error_response` takes. -/

theorem dnsRcodeFormerr_le : dnsRcodeFormerr ≤ dnsRcodeRefused := by decide
theorem dnsRcodeServfail_le : dnsRcodeServfail ≤ dnsRcodeRefused := by decide
theorem dnsRcodeNxdomain_le : dnsRcodeNxdomain ≤ dnsRcodeRefused := by decide
theorem dnsRcodeNotimpl_le : dnsRcodeNotimpl ≤ dnsRcodeRefused := by decide

/-- The low four bits of the flags of an error response are its code. -/
theorem errorHeader_rcode (query : DnsHeader) {rcode : UInt8} (h : rcode ≤ dnsRcodeRefused) :
    (errorHeader query rcode).flags &&& 0x0F = rcode.toUInt16 := by
  have hqr : dnsFlagQR.toNat &&& 15 = 0 := by decide
  have hrd : dnsFlagRD.toNat &&& 15 = 0 := by decide
  have hr : rcode.toNat &&& 15 = rcode.toNat := by
    rw [UInt8.le_iff_toNat_le] at h
    have h5 : rcode.toNat ≤ 5 := h
    rw [show 15 = 2 ^ 4 - 1 by decide, Nat.and_two_pow_sub_one_eq_mod]
    omega
  apply UInt16.toNat.inj
  simp only [errorHeader, UInt16.toNat_and, UInt16.toNat_or, UInt8.toNat_toUInt16]
  rw [show UInt16.toNat 15 = 15 by decide, Nat.and_or_distrib_right, Nat.and_or_distrib_right, hqr,
    hr, Nat.and_assoc, hrd, Nat.and_zero, Nat.or_zero, Nat.zero_or]

end FilteringResolver
