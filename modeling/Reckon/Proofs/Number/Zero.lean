/-!
# The zeros among the doubles

A double is compared with zero by its value, and two doubles have this value: zero and minus zero
(`beq_zero_iff`).  Seen from its bits, a zero is a double in which nothing but the sign may be set.
-/

namespace Reckon

open Float.Model (UnpackedFloat Format)

theorem unpack_of_beq_zero {x : Float} (h : (x == 0) = true) :
    ∃ s, x.toModel.unpack = UnpackedFloat.zero s := by
  have hzero : (0 : Float).toModel.unpack = .zero .positive := rfl
  have hbeq : UnpackedFloat.beq x.toModel.unpack (0 : Float).toModel.unpack = true := h
  rw [hzero] at hbeq
  cases hx : x.toModel.unpack with
  | zero s => exact ⟨s, rfl⟩
  | notANumber =>
    rw [hx] at hbeq
    cases hbeq
  | infinity s =>
    rw [hx] at hbeq
    cases s <;> cases hbeq
  | finite s m e =>
    rw [hx] at hbeq
    cases s <;> cases hbeq

/-- Zero is the double without a mantissa and with the least exponent. -/
theorem fields_of_unpack_zero {bits : BitVec Format.binary64.numBits} {s : UnpackedFloat.Sign}
    (h : UnpackedFloat.unpack Format.binary64 bits = .zero s) :
    UnpackedFloat.unpackExponent bits = BitVec.ofNat _ 0 ∧
      UnpackedFloat.unpackMantissa bits = BitVec.ofNat _ 0 := by
  unfold UnpackedFloat.unpack at h
  dsimp only at h
  by_cases hones : UnpackedFloat.unpackExponent bits = -BitVec.ofNat _ 1
  · rw [if_pos hones] at h
    by_cases hmantissa : UnpackedFloat.unpackMantissa bits = BitVec.ofNat _ 0
    · rw [if_pos hmantissa] at h
      cases h
    · rw [if_neg hmantissa] at h
      cases h
  · rw [if_neg hones] at h
    by_cases hexponent : UnpackedFloat.unpackExponent bits = BitVec.ofNat _ 0
    · rw [if_pos hexponent] at h
      by_cases hmantissa : UnpackedFloat.unpackMantissa bits = BitVec.ofNat _ 0
      · exact ⟨hexponent, hmantissa⟩
      · rw [dif_neg hmantissa] at h
        cases h
    · rw [if_neg hexponent] at h
      cases h

theorem bits_of_unpack_zero {bits : BitVec 64} {s : UnpackedFloat.Sign}
    (h : UnpackedFloat.unpack Format.binary64 bits = .zero s) :
    bits = 0#64 ∨ bits = 1#64 <<< 63 := by
  obtain ⟨hexponent, hmantissa⟩ := fields_of_unpack_zero h
  -- Both fields are zero, so only the first bit is left.
  have hhigh : bits.toNat / 2 ^ 52 % 2 ^ 11 = 0 := by
    simpa [UnpackedFloat.unpackExponent, BitVec.extractLsb, BitVec.extractLsb',
      Nat.shiftRight_eq_div_pow] using congrArg BitVec.toNat hexponent
  have hlow : bits.toNat % 2 ^ 52 = 0 := by
    simpa [UnpackedFloat.unpackMantissa, BitVec.extractLsb, BitVec.extractLsb'] using
      congrArg BitVec.toNat hmantissa
  have hlt := bits.isLt
  obtain hbits | hbits : bits.toNat = 0 ∨ bits.toNat = 2 ^ 63 := by omega
  · exact .inl (BitVec.eq_of_toNat_eq (by simpa using hbits))
  · exact .inr (BitVec.eq_of_toNat_eq (by simpa using hbits))

/-- Zero is equal to zero, with either sign, and nothing else is. -/
theorem beq_zero_iff {x : Float} : (x == 0) = true ↔ x = 0.0 ∨ x = -0.0 := by
  constructor
  · intro h
    obtain ⟨s, hs⟩ := unpack_of_beq_zero h
    obtain ⟨⟨⟨bits⟩, valid⟩⟩ := x
    rcases bits_of_unpack_zero hs with rfl | rfl
    · exact .inl rfl
    · exact .inr rfl
  · rintro (rfl | rfl) <;> decide +kernel

end Reckon
