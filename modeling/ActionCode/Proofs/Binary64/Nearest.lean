import ActionCode.Proofs.Binary64.Rounding

namespace ActionCode.Binary64

-- Powers are the core library's, also beside a library that brings its own.
attribute [local instance (10000)] instPowNat

/-- A significand may also be the next power of two, whose magnitude is that of a rank
with a greater scale. -/
theorem magnitude_eq {s m : Nat} (hle : m ≤ 0x20000000000000)
    (hscale : s = 0 ∨ 0x10000000000000 ≤ m) :
    magnitude (s * 0x10000000000000 + m) = m * 2 ^ s := by
  by_cases hlt : m < 0x20000000000000
  · have hscale' : scale (s * 0x10000000000000 + m) = s := by
      rw [scale]
      omega
    have hsignificand : significand (s * 0x10000000000000 + m) = m := by
      rw [significand]
      split <;> omega
    rw [magnitude, hscale', hsignificand]
  · have htop : m = 0x20000000000000 := by omega
    have hscale' : scale (s * 0x10000000000000 + m) = s + 1 := by
      rw [scale]
      omega
    have hsignificand :
        significand (s * 0x10000000000000 + m) = 0x10000000000000 := by
      rw [significand]
      split <;> omega
    rw [magnitude, hscale', hsignificand, htop, Nat.pow_succ]
    omega

theorem scale_significand (rank : Nat) :
    scale rank * 0x10000000000000 + significand rank = rank ∧
      (scale rank = 0 ∨ 0x10000000000000 ≤ significand rank) := by
  obtain h | h := Nat.lt_or_ge rank 0x10000000000000
  · have hscale : scale rank = 0 := by
      rw [scale]
      omega
    rw [significand_lt h, hscale]
    omega
  · obtain ⟨hle, -, hrank⟩ := significand_ge h
    exact ⟨hrank, .inr hle⟩

theorem magnitude_succ (rank : Nat) : magnitude (rank + 1) = magnitude rank + 2 ^ scale rank := by
  obtain ⟨hrank, hscale⟩ := scale_significand rank
  have hlt := significand_lt_pow rank
  have hnext := magnitude_eq (s := scale rank) (m := significand rank + 1)
    (by omega) (by omega)
  rw [← Nat.add_assoc, hrank, Nat.succ_mul] at hnext
  exact hnext

theorem magnitude_lt_succ (rank : Nat) : magnitude rank < magnitude (rank + 1) := by
  have hpos : 0 < 2 ^ scale rank := Nat.pow_pos (by decide)
  rw [magnitude_succ]
  omega

theorem magnitude_lt {rank other : Nat} (h : rank < other) : magnitude rank < magnitude other := by
  induction h with
  | refl => exact magnitude_lt_succ rank
  | step h ih => exact Nat.lt_trans ih (magnitude_lt_succ _)

/-- How far a magnitude is from `a / b` times the least one, in parts of `1 / b`. -/
def distance (a b rank : Nat) : Nat :=
  (magnitude rank * b - a) + (a - magnitude rank * b)

/-- No magnitude is nearer to `a / b` times the least one, and where another is as near,
the rank is even. -/
structure Nearest (a b rank : Nat) : Prop where
  le : ∀ other, distance a b rank ≤ distance a b other
  even_of_eq : ∀ other, distance a b other = distance a b rank → other ≠ rank → rank % 2 = 0

theorem Nearest.not_lt {a b rank other : Nat} (hb : 0 < b) (h : Nearest a b rank)
    (h' : Nearest a b other) : ¬rank < other := by
  intro hlt
  have hnext := Nat.mul_lt_mul_of_pos_right (magnitude_lt_succ rank) hb
  have heq : distance a b rank = distance a b other := Nat.le_antisymm (h.le other) (h'.le rank)
  have hle := h.le (rank + 1)
  have heven := h.even_of_eq other heq.symm (by omega)
  have heven' := h'.even_of_eq rank heq (by omega)
  have hgap : rank + 1 < other := by omega
  have hlast := Nat.mul_lt_mul_of_pos_right (magnitude_lt hgap) hb
  rw [distance, distance] at heq hle
  omega

theorem Nearest.unique {a b rank other : Nat} (hb : 0 < b) (h : Nearest a b rank)
    (h' : Nearest a b other) : rank = other :=
  Nat.le_antisymm (Nat.not_lt.mp (h'.not_lt hb h)) (Nat.not_lt.mp (h.not_lt hb h'))

theorem roundQuotient_cases (a b : Nat) :
    (roundQuotient a b = a / b ∧ 2 * (a % b) ≤ b ∨
      roundQuotient a b = a / b + 1 ∧ b ≤ 2 * (a % b)) ∧
    (2 * (a % b) = b → roundQuotient a b % 2 = 0) := by
  rw [roundQuotient]
  split
  · omega
  · split <;> omega

theorem roundQuotient_nearest {b : Nat} (hb : 0 < b) (a n : Nat) :
    let q := roundQuotient a b
    (q * b - a) + (a - q * b) ≤ (n * b - a) + (a - n * b) ∧
      ((n * b - a) + (a - n * b) = (q * b - a) + (a - q * b) → n ≠ q → q % 2 = 0) := by
  intro q
  have hdiv := Nat.div_add_mod' a b
  have hmod := Nat.mod_lt a hb
  have hsucc : (a / b + 1) * b = a / b * b + b := Nat.succ_mul (a / b) b
  obtain ⟨hcases, heven⟩ := roundQuotient_cases a b
  obtain hlt | rfl | rfl | hgt : n < a / b ∨ n = a / b ∨ n = a / b + 1 ∨ a / b + 1 < n := by omega
  · have hn : n * b + b ≤ a / b * b := Nat.succ_mul n b ▸ Nat.mul_le_mul_right b hlt
    obtain ⟨hq, hle⟩ | ⟨hq, hle⟩ := hcases <;> simp only [q, hq] <;> omega
  · obtain ⟨hq, hle⟩ | ⟨hq, hle⟩ := hcases <;> simp only [q, hq] at heven ⊢ <;> omega
  · obtain ⟨hq, hle⟩ | ⟨hq, hle⟩ := hcases <;> simp only [q, hq] at heven ⊢ <;> omega
  · have hn : (a / b + 1) * b + b ≤ n * b :=
      Nat.succ_mul (a / b + 1) b ▸ Nat.mul_le_mul_right b hgt
    obtain ⟨hq, hle⟩ | ⟨hq, hle⟩ := hcases <;> simp only [q, hq] <;> omega

/-- The scale by which `roundRank` rounds is the least one, or leaves a quotient of 53
bits. -/
theorem quotient_bounds {b : Nat} (hb : 0 < b) (a : Nat) :
    ∃ s, Nat.log2 (a / b) - 52 = s ∧ a < 0x20000000000000 * (b * 2 ^ s) ∧
      (s = 0 ∨ 0x10000000000000 * (b * 2 ^ s) ≤ a) := by
  refine ⟨_, rfl, ?_⟩
  have hlt : a / b < 2 ^ (Nat.log2 (a / b) + 1) := Nat.lt_log2_self
  obtain hsmall | ⟨s, hs⟩ : Nat.log2 (a / b) < 52 ∨ ∃ s, Nat.log2 (a / b) = 52 + s := by
    by_cases h : Nat.log2 (a / b) < 52
    · exact .inl h
    · exact .inr ⟨Nat.log2 (a / b) - 52, by omega⟩
  · have hscale : Nat.log2 (a / b) - 52 = 0 := by omega
    have hle : 2 ^ (Nat.log2 (a / b) + 1) ≤ 2 ^ (52 : Nat) := two_pow_le hsmall
    have hquotient : a / b < 0x20000000000000 := by omega
    rw [hscale, Nat.pow_zero, Nat.mul_one]
    exact ⟨(Nat.div_lt_iff_lt_mul hb).mp hquotient, .inl rfl⟩
  · have hscale : Nat.log2 (a / b) - 52 = s := by omega
    have hge := Nat.log2_self_le (n := a / b) (by
      intro hzero
      rw [hzero, Nat.log2_zero] at hs
      omega)
    rw [hs, Nat.pow_add] at hge
    rw [hs, Nat.add_right_comm, Nat.pow_add] at hlt
    rw [hscale, Nat.mul_comm b, ← Nat.mul_assoc, ← Nat.mul_assoc]
    exact ⟨(Nat.div_lt_iff_lt_mul hb).mp hlt, .inr ((Nat.le_div_iff_mul_le hb).mp hge)⟩

theorem distance_eq {rank n s : Nat} (h : magnitude rank = n * 2 ^ s) (a b : Nat) :
    distance a b rank = (n * (b * 2 ^ s) - a) + (a - n * (b * 2 ^ s)) := by
  rw [distance, h, Nat.mul_assoc, Nat.mul_comm (2 ^ s)]

theorem magnitude_lt_of_scale_lt {rank s : Nat} (h : scale rank < s) :
    magnitude rank < 0x10000000000000 * 2 ^ s := by
  have hpos : 0 < 2 ^ scale rank := Nat.pow_pos (by decide)
  calc
    magnitude rank < 0x20000000000000 * 2 ^ scale rank :=
      Nat.mul_lt_mul_of_pos_right (significand_lt_pow rank) hpos
    _ = 0x10000000000000 * 2 ^ (scale rank + 1) := by
      rw [Nat.pow_succ]
      omega
    _ ≤ 0x10000000000000 * 2 ^ s := Nat.mul_le_mul_left _ (two_pow_le h)

theorem magnitude_inj {rank other : Nat} (h : magnitude rank = magnitude other) : rank = other := by
  obtain hlt | heq | hlt := Nat.lt_trichotomy rank other
  · exact absurd h (Nat.ne_of_lt (magnitude_lt hlt))
  · exact heq
  · exact absurd h (Nat.ne_of_gt (magnitude_lt hlt))

theorem nearest_roundRank {b : Nat} (hb : 0 < b) (a : Nat) : Nearest a b (roundRank a b) := by
  obtain ⟨s, hs, hlt, hge⟩ := quotient_bounds hb a
  have hunit : 0 < b * 2 ^ s := Nat.mul_pos hb (Nat.pow_pos (by decide))
  obtain ⟨q, hq⟩ : ∃ q, roundQuotient a (b * 2 ^ s) = q := ⟨_, rfl⟩
  have hrank : roundRank a b = s * 0x10000000000000 + q := by
    rw [roundRank, hs]
    exact congrArg _ hq
  have hnearest := roundQuotient_nearest hunit a
  have hmagnitude : magnitude (roundRank a b) = q * 2 ^ s := by
    have hquotient := (Nat.div_lt_iff_lt_mul hunit).mpr hlt
    have hcases := (roundQuotient_cases a (b * 2 ^ s)).1
    rw [hq] at hcases
    rw [hrank]
    refine magnitude_eq (by omega) (hge.imp_right fun hle => ?_)
    have hquotient' := (Nat.le_div_iff_mul_le hunit).mpr hle
    omega
  rw [hq] at hnearest
  have hdistance := distance_eq hmagnitude a b
  have hall : ∀ other, distance a b (roundRank a b) ≤ distance a b other ∧
      (distance a b other = distance a b (roundRank a b) → other ≠ roundRank a b → q % 2 = 0) := by
    intro other
    obtain hgt | hle := Nat.lt_or_ge (scale other) s
    · have hlow := Nat.mul_lt_mul_of_pos_right (magnitude_lt_of_scale_lt hgt) hb
      rw [Nat.mul_assoc, Nat.mul_comm (2 ^ s)] at hlow
      have hfirst := (hnearest 0x10000000000000).1
      rw [hdistance, distance]
      omega
    · have hother : magnitude other = significand other * 2 ^ (scale other - s) * 2 ^ s := by
        rw [Nat.mul_assoc, ← Nat.pow_add, Nat.sub_add_cancel hle]
        rfl
      rw [hdistance, distance_eq hother]
      refine ⟨(hnearest _).1, fun heq hne => (hnearest _).2 heq ?_⟩
      rintro rfl
      exact hne (magnitude_inj (hother.trans hmagnitude.symm))
  refine ⟨fun other => (hall other).1, fun other heq hne => ?_⟩
  have heven := (hall other).2 heq hne
  omega

theorem nearest_zero {a b : Nat} (h : 2 * a ≤ b) : Nearest a b 0 := by
  have hzero : magnitude 0 = 0 := rfl
  refine ⟨fun other => ?_, fun other heq hne => rfl⟩
  obtain rfl | hpos := Nat.eq_zero_or_pos other
  · exact Nat.le_refl _
  · have hle := Nat.mul_le_mul_right b (Nat.succ_le_of_lt (magnitude_lt hpos))
    rw [hzero] at hle
    rw [distance, distance, hzero]
    omega

/-- What is beyond the first power of two that is out of range is nearest to a rank out
of range. -/
theorem Nearest.overflow {a b rank : Nat} (hb : 0 < b) (h : Nearest a b rank)
    (ha : 10 ^ (310 : Nat) * 2 ^ (1074 : Nat) * b ≤ a) : 0x7ff0000000000000 ≤ rank := by
  have hmagnitude := magnitude_eq (s := 2046) (m := 0x10000000000000) (by decide) (by omega)
  have hrange : 0x10000000000000 * 2 ^ (2046 : Nat) ≤ 10 ^ (310 : Nat) * 2 ^ (1074 : Nat) := by
    decide +kernel
  have hrank : 2046 * 0x10000000000000 + 0x10000000000000 = 0x7ff0000000000000 := rfl
  rw [← hmagnitude, hrank] at hrange
  apply Nat.not_lt.mp
  intro hlt
  have hlow := Nat.mul_lt_mul_of_pos_right (magnitude_lt hlt) hb
  have hhigh := Nat.le_trans (Nat.mul_le_mul_right b hrange) ha
  have hle := h.le 0x7ff0000000000000
  rw [distance, distance] at hle
  omega

/-- A decimal is this fraction of the least magnitude. -/
def numerator (d : Decimal) : Nat :=
  d.coefficient * 10 ^ d.exponent.toNat * 2 ^ (1074 : Nat)

def denominator (d : Decimal) : Nat :=
  10 ^ (-d.exponent).toNat

theorem denominator_pos (d : Decimal) : 0 < denominator d :=
  Nat.pow_pos (by decide)

theorem coefficient_lt (d : Decimal) : d.coefficient < 10 ^ d.size :=
  (Nat.length_toDigits_le_iff (by decide) Nat.length_toDigits_pos).mp (Nat.le_refl _)

theorem pow_le_coefficient {d : Decimal} (hc : d.coefficient ≠ 0) {n : Nat} (hn : n < d.size) :
    10 ^ n ≤ d.coefficient := by
  obtain rfl | hpos := Nat.eq_zero_or_pos n
  · exact Nat.pos_of_ne_zero hc
  · apply Nat.not_lt.mp
    intro hlt
    exact absurd ((Nat.length_toDigits_le_iff (by decide) hpos).mpr hlt) (Nat.not_le.mpr hn)

theorem numerator_small {d : Decimal} (h : d.point < -330) : 2 * numerator d ≤ denominator d := by
  have hpoint : d.point = d.size + d.exponent := rfl
  have hwhole : d.exponent.toNat = 0 := by omega
  have hplaces : d.size + 331 ≤ (-d.exponent).toNat := by omega
  have hpow : 2 * 2 ^ (1074 : Nat) ≤ 10 ^ (331 : Nat) := by decide +kernel
  calc
    2 * numerator d = d.coefficient * (2 * 2 ^ (1074 : Nat)) := by
      rw [numerator, hwhole, Nat.pow_zero, Nat.mul_one, Nat.mul_left_comm]
    _ ≤ 10 ^ d.size * 10 ^ (331 : Nat) := Nat.mul_le_mul (Nat.le_of_lt (coefficient_lt d)) hpow
    _ = 10 ^ (d.size + 331) := (Nat.pow_add 10 d.size 331).symm
    _ ≤ denominator d := Nat.pow_le_pow_right (by decide) hplaces

theorem numerator_large {d : Decimal} (hc : d.coefficient ≠ 0) {n : Nat} (h : n < d.point) :
    10 ^ n * 2 ^ (1074 : Nat) * denominator d ≤ numerator d := by
  have hpoint : d.point = d.size + d.exponent := rfl
  have hsize : 0 < d.size := Nat.length_toDigits_pos
  have hplaces : n + (-d.exponent).toNat ≤ d.size - 1 + d.exponent.toNat := by omega
  calc
    10 ^ n * 2 ^ (1074 : Nat) * denominator d =
        10 ^ (n + (-d.exponent).toNat) * 2 ^ (1074 : Nat) := by
      rw [denominator, Nat.pow_add 10 n, Nat.mul_right_comm]
    _ ≤ 10 ^ (d.size - 1 + d.exponent.toNat) * 2 ^ (1074 : Nat) :=
      Nat.mul_le_mul_right _ (Nat.pow_le_pow_right (by decide) hplaces)
    _ = 10 ^ (d.size - 1) * 10 ^ d.exponent.toNat * 2 ^ (1074 : Nat) := by
      rw [Nat.pow_add 10 (d.size - 1)]
    _ ≤ numerator d :=
      Nat.mul_le_mul_right _ (Nat.mul_le_mul_right _ (pow_le_coefficient hc (by omega)))

/-- A decimal is read as the nearest number, on either side of zero. -/
theorem exists_nearest (d : Decimal) :
    ∃ rank, Nearest (numerator d) (denominator d) rank ∧
      ∀ negative, ofDecimal negative d = ofRank negative rank := by
  by_cases hsmall : d.coefficient = 0 ∨ d.point < -330
  · refine ⟨0, nearest_zero ?_, fun negative => if_pos hsmall⟩
    obtain hzero | hpoint := hsmall
    · have hnumerator : numerator d = 0 :=
        Nat.mul_eq_zero.mpr (.inl (Nat.mul_eq_zero.mpr (.inl hzero)))
      rw [hnumerator]
      exact Nat.zero_le _
    · exact numerator_small hpoint
  · obtain ⟨hc, -⟩ := not_or.mp hsmall
    have hnearest := nearest_roundRank (denominator_pos d) (numerator d)
    refine ⟨_, hnearest, fun negative => ?_⟩
    by_cases hlarge : 310 < d.point
    · have hle := hnearest.overflow (denominator_pos d) (numerator_large hc (n := 310) hlarge)
      rw [ofDecimal, if_neg hsmall, if_pos hlarge, ofRank, dif_neg (Nat.not_lt.mpr hle)]
    · exact (if_neg hsmall).trans (if_neg hlarge)

theorem ofDecimal_of_nearest {d : Decimal} {rank : Nat}
    (h : Nearest (numerator d) (denominator d) rank) (negative : Bool) :
    ofDecimal negative d = ofRank negative rank := by
  obtain ⟨other, hother, hvalue⟩ := exists_nearest d
  obtain rfl := h.unique (denominator_pos d) hother
  exact hvalue negative

end ActionCode.Binary64
