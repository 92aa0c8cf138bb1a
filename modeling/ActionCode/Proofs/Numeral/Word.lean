import ActionCode.Opcode

namespace ActionCode

namespace Numeral

def pushDigit? (n : UInt32) (digit : Char) : Option UInt32 :=
  let next := 10 * n.toNat + (digit.toNat - '0'.toNat)
  if next < UInt32.size then some (UInt32.ofNat next) else none

def readUInt32? (digits : List Char) : Option UInt32 :=
  digits.foldlM pushDigit? 0

def saturated (digits : List Char) : UInt32 :=
  (readUInt32? digits).getD 0xffffffff

theorem le_ofDigitChars (digits : List Char) (n : Nat) : n ≤ Nat.ofDigitChars 10 digits n := by
  induction digits generalizing n with
  | nil => exact Nat.le_refl n
  | cons c digits ih =>
    have hnext := ih (10 * n + (c.toNat - '0'.toNat))
    rw [Nat.ofDigitChars_cons]
    omega

/-- A number once too great for a word does not get smaller with more digits. -/
theorem foldlM_pushDigit? (digits : List Char) (n : UInt32) :
    digits.foldlM pushDigit? n =
      if Nat.ofDigitChars 10 digits n.toNat < UInt32.size then
        some (UInt32.ofNat (Nat.ofDigitChars 10 digits n.toNat))
      else none := by
  induction digits generalizing n with
  | nil =>
    rw [Nat.ofDigitChars_nil, if_pos n.toNat_lt, UInt32.ofNat_toNat]
    rfl
  | cons c digits ih =>
    rw [List.foldlM_cons, Nat.ofDigitChars_cons, pushDigit?]
    by_cases hnext : 10 * n.toNat + (c.toNat - '0'.toNat) < UInt32.size
    · have htoNat : (UInt32.ofNat (10 * n.toNat + (c.toNat - '0'.toNat))).toNat =
          10 * n.toNat + (c.toNat - '0'.toNat) := UInt32.toNat_ofNat_of_lt' hnext
      rw [if_pos hnext, Option.bind_eq_bind, Option.bind_some, ih, htoNat]
    · have hle := le_ofDigitChars digits (10 * n.toNat + (c.toNat - '0'.toNat))
      rw [if_neg hnext, if_neg (by omega)]
      rfl

theorem toNat_saturated (digits : List Char) :
    (saturated digits).toNat = min (Nat.ofDigitChars 10 digits 0) (UInt32.size - 1) := by
  have hread : readUInt32? digits = _ := foldlM_pushDigit? digits 0
  rw [saturated, hread, UInt32.toNat_zero]
  split
  · rename_i hlt
    rw [Option.getD_some, UInt32.toNat_ofNat_of_lt' hlt]
    omega
  · have hmax : (0xffffffff : UInt32).toNat = UInt32.size - 1 := rfl
    rw [Option.getD_none, hmax]
    omega

end Numeral

namespace Opcode

theorem ofCode?_eq_none_iff {code : Nat} : ofCode? code = none ↔ 16 < code := by
  rw [ofCode?, List.getElem?_eq_none_iff]
  exact Nat.succ_le_iff

/-- The opcode whose code fits into a byte and is the number in this word. -/
def ofWord? (code : UInt32) : Option Opcode :=
  if code < 256 then ofCode? code.toUInt8.toNat else none

theorem ofWord?_eq (code : UInt32) : ofWord? code = ofCode? code.toNat := by
  unfold ofWord?
  split
  · rename_i hlt
    rw [UInt32.lt_iff_toNat_lt] at hlt
    have hmax : (256 : UInt32).toNat = 2 ^ 8 := rfl
    rw [UInt32.toNat_toUInt8, Nat.mod_eq_of_lt (hmax ▸ hlt)]
  · rename_i hle
    rw [UInt32.lt_iff_toNat_lt, Nat.not_lt] at hle
    have hmax : (256 : UInt32).toNat = 256 := rfl
    exact (ofCode?_eq_none_iff.mpr (by omega)).symm

/-- No number that is cut off becomes that of an opcode. -/
theorem ofWord?_saturated (digits : List Char) :
    ofWord? (Numeral.saturated digits) = ofCode? (Nat.ofDigitChars 10 digits 0) := by
  rw [ofWord?_eq, Numeral.toNat_saturated]
  by_cases hcode : Nat.ofDigitChars 10 digits 0 ≤ UInt32.size - 1
  · rw [Nat.min_eq_left hcode]
  · have hsize : UInt32.size = 4294967296 := rfl
    rw [ofCode?_eq_none_iff.mpr (by omega), ofCode?_eq_none_iff.mpr (by omega)]

end Opcode

end ActionCode
