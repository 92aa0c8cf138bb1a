import ActionCode.Binary64.Text
import ActionCode.Proofs.Decimal.Text

namespace ActionCode.Binary64

-- Powers are the core library's, also beside a library that brings its own.
attribute [local instance (10000)] instPowNat

theorem roundQuotient_mul {k : Nat} (hk : 0 < k) (a b : Nat) :
    roundQuotient (k * a) (k * b) = roundQuotient a b := by
  have hcmp : 2 * (k * (a % b)) < k * b ↔ 2 * (a % b) < b := by
    rw [Nat.mul_left_comm, Nat.mul_lt_mul_left hk]
  have hcmp' : k * b < 2 * (k * (a % b)) ↔ b < 2 * (a % b) := by
    rw [Nat.mul_left_comm, Nat.mul_lt_mul_left hk]
  simp only [roundQuotient, Nat.mul_div_mul_left _ _ hk, Nat.mul_mod_mul_left, hcmp, hcmp']

theorem roundRank_mul {k : Nat} (hk : 0 < k) (a b : Nat) :
    roundRank (k * a) (k * b) = roundRank a b := by
  simp only [roundRank, Nat.mul_div_mul_left _ _ hk, Nat.mul_assoc, roundQuotient_mul hk]

theorem roundRank_eq_of_cross {a b c d : Nat} (hb : 0 < b) (hd : 0 < d) (h : a * d = c * b) :
    roundRank a b = roundRank c d := by
  calc
    roundRank a b = roundRank (d * a) (d * b) := (roundRank_mul hd a b).symm
    _ = roundRank (b * c) (b * d) := by rw [Nat.mul_comm d a, h, Nat.mul_comm c b, Nat.mul_comm d b]
    _ = roundRank c d := roundRank_mul hb c d

theorem size_mul_pow {c : Nat} (hc : c ≠ 0) (k : Nat) :
    (Nat.toDigits 10 (c * 10 ^ k)).length = (Nat.toDigits 10 c).length + k := by
  induction k with
  | zero => simp
  | succ k ih =>
    have hpos : 0 < c * 10 ^ k := Nat.mul_pos (Nat.pos_of_ne_zero hc) (Nat.pow_pos (by decide))
    have hdigits := Nat.toDigits_append_toDigits (b := 10) (d := 0) (by decide) hpos (by decide)
    have hlen := congrArg List.length hdigits
    rw [List.length_append, ih, Nat.toDigits_zero, Nat.add_zero] at hlen
    rw [Nat.pow_succ, ← Nat.mul_assoc, Nat.mul_comm _ 10, ← hlen]
    rfl

theorem widen_cross (c unit k : Nat) (e : Int) :
    c * 10 ^ k * 10 ^ (e - k).toNat * unit * 10 ^ (-e).toNat =
      c * 10 ^ e.toNat * unit * 10 ^ (-(e - k)).toNat := by
  have hexp : k + (e - k).toNat + (-e).toNat = e.toNat + (-(e - k)).toNat := by omega
  calc
    _ = c * unit * 10 ^ (k + (e - k).toNat + (-e).toNat) := by
      rw [Nat.pow_add, Nat.pow_add]
      ac_rfl
    _ = c * unit * 10 ^ (e.toNat + (-(e - k)).toNat) := by rw [hexp]
    _ = _ := by
      rw [Nat.pow_add]
      ac_rfl

theorem ofDecimal_widen (negative : Bool) (d : Decimal) (k : Nat) :
    ofDecimal negative (d.widen k) = ofDecimal negative d := by
  by_cases hc : d.coefficient = 0
  · simp [ofDecimal, Decimal.widen, hc]
  · have hpoint : (d.widen k).point = d.point := by
      have := size_mul_pow hc k
      simp only [Decimal.point, Decimal.size, Decimal.widen, this]
      omega
    have hround := roundRank_eq_of_cross (Nat.pow_pos (by decide)) (Nat.pow_pos (by decide))
      (widen_cross d.coefficient (2 ^ (1074 : Nat)) k d.exponent)
    have hc' : d.coefficient * 10 ^ k ≠ 0 :=
      Nat.mul_ne_zero hc (by simp)
    unfold ofDecimal
    rw [hpoint]
    simp only [Decimal.widen, hround, hc, hc', false_or]

theorem significand_lt {rank : Nat} (h : rank < 0x10000000000000) : significand rank = rank :=
  if_pos h

theorem significand_ge {rank : Nat} (h : 0x10000000000000 ≤ rank) :
    0x10000000000000 ≤ significand rank ∧ significand rank < 0x20000000000000 ∧
      scale rank * 0x10000000000000 + significand rank = rank := by
  have hmod := Nat.mod_lt rank (show 0 < 0x10000000000000 by decide)
  have hdiv := Nat.div_add_mod rank 0x10000000000000
  simp only [significand, scale, Nat.not_lt.mpr h, if_false]
  omega

theorem significand_lt_pow (rank : Nat) : significand rank < 0x20000000000000 := by
  obtain h | h := Nat.lt_or_ge rank 0x10000000000000
  · rw [significand_lt h]
    omega
  · exact (significand_ge h).2.1

theorem significand_eq_zero_iff {rank : Nat} : significand rank = 0 ↔ rank = 0 := by
  obtain h | h := Nat.lt_or_ge rank 0x10000000000000
  · rw [significand_lt h]
  · have := significand_ge h
    omega

theorem roundQuotient_mul_self (a : Nat) {b : Nat} (hb : 0 < b) : roundQuotient (a * b) b = a := by
  simp [roundQuotient, Nat.mul_div_cancel _ hb, hb]

theorem roundRank_magnitude (rank : Nat) : roundRank (magnitude rank) 1 = rank := by
  obtain h | h := Nat.lt_or_ge rank 0x10000000000000
  · have hscale : scale rank = 0 := by rw [scale, Nat.div_eq_of_lt h]
    have hlog : Nat.log2 rank - 52 = 0 := by
      obtain rfl | hpos := Nat.eq_zero_or_pos rank
      · rfl
      · have := (Nat.log2_lt (k := 52) (by omega)).mpr h
        omega
    have hround := roundQuotient_mul_self rank (b := 1) (by decide)
    simp only [Nat.mul_one] at hround
    simp [roundRank, magnitude, significand_lt h, hscale, hlog, hround]
  · obtain ⟨hlo, hhi, hrank⟩ := significand_ge h
    have hpos : 0 < 2 ^ scale rank := Nat.pow_pos (by decide)
    have hlog : Nat.log2 (magnitude rank) = 52 + scale rank := by
      refine (Nat.log2_eq_iff ?_).mpr ⟨?_, ?_⟩
      · exact Nat.mul_ne_zero (by omega) (by simp)
      · rw [Nat.pow_add]
        exact Nat.mul_le_mul_right _ hlo
      · rw [Nat.add_right_comm, Nat.pow_add]
        exact Nat.mul_lt_mul_of_pos_right hhi hpos
    have hround := roundQuotient_mul_self (significand rank) hpos
    simp only [roundRank, Nat.div_one, hlog, Nat.add_sub_cancel_left, Nat.one_mul]
    rw [magnitude, hround, hrank]

theorem exact_cross (m s n : Nat) :
    m * 2 ^ (s - n) * 5 ^ (n - s) * 2 ^ n = m * 2 ^ s * 10 ^ (n - s) := by
  have hexp : s - n + n = s + (n - s) := by omega
  calc
    _ = m * 5 ^ (n - s) * 2 ^ (s - n + n) := by
      rw [Nat.pow_add, Nat.mul_right_comm m, Nat.mul_assoc]
    _ = m * 5 ^ (n - s) * 2 ^ (s + (n - s)) := by rw [hexp]
    _ = m * 2 ^ s * (2 ^ (n - s) * 5 ^ (n - s)) := by
      rw [Nat.pow_add, Nat.mul_right_comm, ← Nat.mul_assoc, ← Nat.mul_assoc]
    _ = m * 2 ^ s * 10 ^ (n - s) := by rw [← Nat.mul_pow]

theorem scale_le {rank : Nat} (h : rank < 0x7ff0000000000000) : scale rank ≤ 2045 := by
  have hdiv := Nat.div_lt_of_lt_mul (show rank < 0x10000000000000 * 2047 by omega)
  simp only [scale]
  omega

theorem two_pow_le {k n : Nat} (h : k ≤ n) : 2 ^ k ≤ 2 ^ n :=
  Nat.pow_le_pow_right (by decide) h

theorem product_lt {m a b u v p q : Nat} (hm : m < u) (ha : a ≤ v) (hb : b ≤ 10 ^ q) (ha' : 0 < a)
    (hb' : 0 < b) (ht : u * v ≤ 10 ^ p) : m * a * b < 10 ^ (p + q) := by
  calc
    m * a * b < u * a * b := Nat.mul_lt_mul_of_pos_right (Nat.mul_lt_mul_of_pos_right hm ha') hb'
    _ ≤ u * v * 10 ^ q := Nat.mul_le_mul (Nat.mul_le_mul_left u ha) hb
    _ ≤ 10 ^ p * 10 ^ q := Nat.mul_le_mul_right _ ht
    _ = 10 ^ (p + q) := (Nat.pow_add 10 p q).symm

/-- Below `10 ^ 310`, the bound from which on no decimal is in range. -/
theorem point_exactDecimal_le {rank : Nat} (h : rank < 0x7ff0000000000000) :
    (exactDecimal rank).point ≤ 310 := by
  have hsig := significand_lt_pow rank
  have hscale := scale_le h
  have hlt : (exactDecimal rank).coefficient < 10 ^ (310 + (1074 - scale rank)) := by
    have hgap := two_pow_le (k := scale rank - 1074) (n := 971) (by omega)
    have hfive : 5 ^ (1074 - scale rank) ≤ 10 ^ (1074 - scale rank) :=
      Nat.pow_le_pow_left (by decide) _
    exact product_lt (p := 310) hsig hgap hfive (Nat.pow_pos (by decide)) (Nat.pow_pos (by decide))
      (by decide +kernel)
  have hsize := (Nat.length_toDigits_le_iff (b := 10) (by decide) (by omega)).mpr hlt
  have hpoint : (exactDecimal rank).point =
      (Nat.toDigits 10 (exactDecimal rank).coefficient).length + -(1074 - scale rank : Nat) := rfl
  omega

/-- Not below `10 ^ -330`, the bound under which all decimals round to zero. -/
theorem le_point_exactDecimal {rank : Nat} (h : rank ≠ 0) : -330 ≤ (exactDecimal rank).point := by
  have hpoint : (exactDecimal rank).point =
      (Nat.toDigits 10 (exactDecimal rank).coefficient).length + -(1074 - scale rank : Nat) := rfl
  have hpos := Nat.length_toDigits_pos (b := 10) (n := (exactDecimal rank).coefficient)
  apply Int.not_lt.mp
  intro hlow
  obtain ⟨k, hk⟩ : ∃ k, 1074 - scale rank = k + 331 := ⟨1074 - scale rank - 331, by omega⟩
  have hlt := (Nat.length_toDigits_le_iff (b := 10) (k := k) (by decide) (by omega)).mp
    (show (Nat.toDigits 10 (exactDecimal rank).coefficient).length ≤ k by omega)
  have hpow : 2 ^ k ≤ 5 ^ 331 := by
    calc
      2 ^ k ≤ 2 ^ 743 := two_pow_le (n := 743) (by omega)
      _ ≤ 5 ^ 331 := by decide +kernel
  have hone : 1 ≤ significand rank * 2 ^ (scale rank - 1074) :=
    Nat.mul_pos (Nat.pos_of_ne_zero (mt significand_eq_zero_iff.mp h)) (Nat.pow_pos (by decide))
  have hge : 10 ^ k ≤ (exactDecimal rank).coefficient := by
    calc
      10 ^ k = 5 ^ k * 2 ^ k := by rw [← Nat.mul_pow]
      _ ≤ 5 ^ k * 5 ^ 331 := Nat.mul_le_mul_left _ hpow
      _ = 1 * 5 ^ (1074 - scale rank) := by rw [hk, Nat.pow_add, Nat.one_mul]
      _ ≤ significand rank * 2 ^ (scale rank - 1074) * 5 ^ (1074 - scale rank) :=
        Nat.mul_le_mul_right _ hone
      _ = (exactDecimal rank).coefficient := rfl
  omega

theorem ofDecimal_exactDecimal {rank : Nat} (h : rank < 0x7ff0000000000000) :
    ofDecimal false (exactDecimal rank) = ofRank false rank := by
  by_cases hrank : rank = 0
  · have hcoefficient : (exactDecimal rank).coefficient = 0 := by
      simp only [exactDecimal, significand_eq_zero_iff.mpr hrank, Nat.zero_mul]
    rw [ofDecimal, if_pos (Or.inl hcoefficient), hrank]
  · have hcoefficient : (exactDecimal rank).coefficient ≠ 0 :=
      Nat.mul_ne_zero (Nat.mul_ne_zero (mt significand_eq_zero_iff.mp hrank) (by simp)) (by simp)
    have hlo := le_point_exactDecimal hrank
    have hhi := point_exactDecimal_le h
    have hround := roundRank_eq_of_cross (b := 10 ^ (1074 - scale rank)) (d := 1)
      (Nat.pow_pos (by decide)) (by decide)
      ((Nat.mul_one _).trans (exact_cross (significand rank) (scale rank) 1074))
    rw [ofDecimal]
    rw [if_neg (by omega), if_neg (by omega)]
    have hnonneg : (exactDecimal rank).exponent.toNat = 0 := by
      simp only [exactDecimal]
      omega
    have hplaces : (-(exactDecimal rank).exponent).toNat = 1074 - scale rank := by
      simp only [exactDecimal]
      omega
    simp only [hnonneg, hplaces, Nat.pow_zero, Nat.mul_one]
    refine congrArg (ofRank false) (Eq.trans ?_ (hround.trans (roundRank_magnitude rank)))
    rfl

end ActionCode.Binary64
