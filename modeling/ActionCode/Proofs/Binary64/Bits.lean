import ActionCode.Binary64.Basic

namespace ActionCode.Binary64

def IsNan (bits : UInt64) : Prop :=
  0x7ff0000000000000 < bits.toNat % 0x8000000000000000

instance (bits : UInt64) : Decidable (IsNan bits) :=
  inferInstanceAs (Decidable (_ < _))

theorem ofBits_of_isNan {bits : UInt64} (h : IsNan bits) : ofBits bits = .nan := by
  have hlt : 0x7ff0000000000000 < bits.toNat % 0x8000000000000000 := h
  rw [ofBits, dif_neg (Nat.not_lt.mpr (Nat.le_of_lt hlt)), if_neg (Nat.ne_of_gt hlt)]

theorem signBit_add (bits : UInt64) :
    toBits.signBit (decide (0x8000000000000000 ≤ bits.toNat)) +
      UInt64.ofNat (bits.toNat % 0x8000000000000000) = bits := by
  have hlt := bits.toNat_lt
  rw [← UInt64.toNat_inj, UInt64.toNat_add, UInt64.toNat_ofNat']
  by_cases hneg : 0x8000000000000000 ≤ bits.toNat
  · have hsign : (toBits.signBit (decide (0x8000000000000000 ≤ bits.toNat))).toNat =
        0x8000000000000000 := by
      rw [decide_eq_true hneg]
      rfl
    omega
  · have hsign : (toBits.signBit (decide (0x8000000000000000 ≤ bits.toNat))).toNat = 0 := by
      rw [decide_eq_false hneg]
      rfl
    omega

theorem toBits_ofBits {bits : UInt64} (h : ¬IsNan bits) : (ofBits bits).toBits = bits := by
  have hle : bits.toNat % 0x8000000000000000 ≤ 0x7ff0000000000000 := Nat.not_lt.mp h
  by_cases hfinite : bits.toNat % 0x8000000000000000 < 0x7ff0000000000000
  · rw [ofBits, dif_pos hfinite]
    exact signBit_add bits
  · have hinfinite : bits.toNat % 0x8000000000000000 = 0x7ff0000000000000 := by omega
    have hbits := signBit_add bits
    rw [hinfinite] at hbits
    rw [ofBits, dif_neg hfinite, if_pos hinfinite]
    exact hbits

end ActionCode.Binary64
