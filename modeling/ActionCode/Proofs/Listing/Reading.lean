import ActionCode.Listing.Reader
import ActionCode.Proofs.Listing.Trivia
import ActionCode.Proofs.Listing.Unit

namespace ActionCode.Listing

theorem readUnits_of_skip_nil {text : List Char} (h : skipTrivia false text = []) :
    readUnits text = .ok [] := by
  rw [readUnits]
  split
  · rfl
  · simp_all

theorem readUnits_nil : readUnits [] = .ok [] :=
  readUnits_of_skip_nil (by simp [skipTrivia])

theorem readUnits_of_ok {text rest : List Char} {i : Instruction}
    (h : readUnit (skipTrivia false text) = .ok (i, rest)) :
    readUnits text = (readUnits rest).map (i :: ·) := by
  rw [readUnits]
  split
  · rename_i hs
    rw [hs] at h
    contradiction
  · rename_i hs
    rw [hs] at h
    split
    · simp_all
    · simp_all

theorem readUnits_of_error {text : List Char} {error : ReadError}
    (hne : skipTrivia false text ≠ []) (h : readUnit (skipTrivia false text) = .error error) :
    readUnits text = .error ⟨skipTrivia false text, error⟩ := by
  rw [readUnits]
  split
  · contradiction
  · rename_i hs
    rw [hs] at h
    split
    · simp_all
    · simp_all

theorem exists_unit_of_readUnits {text : List Char} {q : Program}
    (hskip : skipTrivia false text = text) (hne : text ≠ []) (h : readUnits text = .ok q) :
    ∃ j rest tail, readUnit text = .ok (j, rest) ∧ q = j :: tail := by
  cases hread : readUnit text with
  | error error =>
    rw [readUnits_of_error (hskip.symm ▸ hne) (hskip.symm ▸ hread)] at h
    contradiction
  | ok unit =>
    obtain ⟨j, rest⟩ := unit
    rw [readUnits_of_ok (hskip.symm ▸ hread)] at h
    cases hrest : readUnits rest with
    | error stop => simp [hrest, Except.map] at h
    | ok tail =>
      rw [hrest] at h
      exact ⟨j, rest, tail, rfl, (Except.ok.inj h).symm⟩

theorem readUnits_skip {text text' : List Char}
    (h : skipTrivia false text = skipTrivia false text') : readUnits text = readUnits text' := by
  rw [readUnits, readUnits, h]

theorem Trivia.readUnits {skipped rest : List Char} (h : Trivia skipped rest) :
    readUnits (skipped ++ rest) = Listing.readUnits rest :=
  readUnits_skip h.skip

theorem skipTrivia_of_isDigit {digits : List Char} (hne : digits ≠ [])
    (h : ∀ c ∈ digits, c.isDigit = true) (rest : List Char) :
    skipTrivia false (digits ++ rest) = digits ++ rest := by
  obtain ⟨c, digits, rfl⟩ := List.exists_cons_of_ne_nil hne
  have hc := h c (by simp)
  refine skipTrivia_eq_self_iff.mpr ⟨(isBare_eq_true_iff.mp (isBare_of_isDigit hc).1).2, ?_⟩
  rintro ⟨line, hline⟩
  obtain ⟨rfl, -⟩ := List.cons.inj hline
  contradiction

theorem Code.skip {digits : List Char} {opcode : Opcode} (h : Code digits opcode)
    (rest : List Char) : skipTrivia false (digits ++ rest) = digits ++ rest :=
  skipTrivia_of_isDigit h.ne_nil h.isDigit rest

theorem Spelled.skip_append {unit rest : List Char} {opcode : Opcode}
    {parameter : WrittenParameter} (h : Spelled unit opcode parameter rest) (more : List Char) :
    skipTrivia false (unit ++ more) = unit ++ more := by
  cases h with
  | mk hcode hparameter hends =>
    rw [List.append_assoc]
    exact hcode.skip _

theorem Spelled.skip {unit rest : List Char} {opcode : Opcode} {parameter : WrittenParameter}
    (h : Spelled unit opcode parameter rest) : skipTrivia false (unit ++ rest) = unit ++ rest :=
  h.skip_append rest

theorem IsUnit.spelled {unit rest : List Char} {i : Instruction} (h : IsUnit unit i rest) :
    ∃ parameter, Spelled unit i.opcode parameter rest := by
  cases h with
  | mk h hoperand => exact ⟨_, h⟩

theorem IsUnit.skip {unit rest : List Char} {i : Instruction} (h : IsUnit unit i rest) :
    skipTrivia false (unit ++ rest) = unit ++ rest := by
  obtain ⟨parameter, hspelled⟩ := h.spelled
  exact hspelled.skip

theorem IsUnit.ne_nil {unit rest : List Char} {i : Instruction} (h : IsUnit unit i rest) :
    unit ++ rest ≠ [] := by
  obtain ⟨parameter, hspelled⟩ := h.spelled
  cases hspelled
  simp

theorem readUnits_of_units {text : List Char} {units : List (List Char × Instruction)}
    (h : Units text units) : readUnits text = .ok (units.map Prod.snd) := by
  induction h with
  | done h =>
    apply readUnits_of_skip_nil
    simpa [skipTrivia] using h.skip
  | cons hskipped hunit h ih =>
    have hread := readUnit_eq_ok_iff.mpr ⟨_, rfl, hunit⟩
    rw [hskipped.readUnits, readUnits_of_ok (hunit.skip ▸ hread), ih]
    rfl

theorem Units.of_readUnit {text unit rest : List Char} {i : Instruction}
    {units : List (List Char × Instruction)} (hskip : skipTrivia false text = unit ++ rest)
    (hread : readUnit (unit ++ rest) = .ok (i, rest)) (h : Units rest units) :
    Units text ((unit, i) :: units) := by
  obtain ⟨skipped, htext, htrivia⟩ := exists_trivia_skipTrivia text
  obtain ⟨unit', heq, hunit⟩ := readUnit_eq_ok_iff.mp hread
  obtain rfl := List.append_cancel_right heq
  rw [hskip] at htext htrivia
  rw [htext]
  exact .cons htrivia hunit h

theorem exists_units {text : List Char} {p : Program} (h : readUnits text = .ok p) :
    ∃ units, Units text units ∧ units.map Prod.snd = p := by
  fun_induction readUnits text generalizing p with
  | case1 text hs =>
    obtain ⟨skipped, htext, htrivia⟩ := exists_trivia_skipTrivia text
    rw [hs, List.append_nil] at htext
    rw [hs, ← htext] at htrivia
    exact ⟨[], .done htrivia, Except.ok.inj h⟩
  | case2 => contradiction
  | case3 text c cs hs i rest hu ih =>
    obtain ⟨unit, hunit, -⟩ := readUnit_eq_ok_iff.mp hu
    rw [hunit] at hs hu
    cases hrest : readUnits rest with
    | error stop => simp [hrest, Except.map] at h
    | ok tail =>
      obtain ⟨units, hunits, rfl⟩ := ih hrest
      rw [hrest] at h
      exact ⟨(unit, i) :: units, .of_readUnit hs hu hunits, Except.ok.inj h⟩

theorem readUnits_eq_ok_iff {text : List Char} {p : Program} :
    readUnits text = .ok p ↔ ∃ units, Units text units ∧ units.map Prod.snd = p :=
  ⟨exists_units, fun ⟨_, h, hp⟩ => hp ▸ readUnits_of_units h⟩

theorem Units.inversion {text : List Char} {units : List (List Char × Instruction)}
    (h : Units text units) :
    (units = [] ∧ skipTrivia false text = []) ∨
      ∃ unit i rest tail, units = (unit, i) :: tail ∧ skipTrivia false text = unit ++ rest ∧
        IsUnit unit i rest ∧ Units rest tail := by
  cases h with
  | done h => exact .inl ⟨rfl, by simpa [skipTrivia] using h.skip⟩
  | cons hskipped hunit h =>
    exact .inr ⟨_, _, _, _, rfl, hskipped.skip.trans hunit.skip, hunit, h⟩

theorem Units.unique {text : List Char} {units units' : List (List Char × Instruction)}
    (h : Units text units) (h' : Units text units') : units = units' := by
  induction units generalizing text units' with
  | nil =>
    obtain ⟨-, hskip⟩ | ⟨_, _, _, _, hnil, -⟩ := h.inversion
    · obtain ⟨rfl, -⟩ | ⟨unit, i, rest, tail, -, hskip', hunit, -⟩ := h'.inversion
      · rfl
      · exact absurd (hskip'.symm.trans hskip) hunit.ne_nil
    · contradiction
  | cons head tail ih =>
    obtain ⟨hnil, -⟩ | ⟨unit, i, rest, _, hcons, hskip, hunit, htail⟩ := h.inversion
    · contradiction
    · obtain ⟨rfl, rfl⟩ := List.cons.inj hcons
      obtain ⟨-, hskip'⟩ | ⟨unit', i', rest', tail', rfl, hskip', hunit', htail'⟩ := h'.inversion
      · exact absurd (hskip.symm.trans hskip') hunit.ne_nil
      · have htext : unit ++ rest = unit' ++ rest' := hskip.symm.trans hskip'
        have hread := readUnit_eq_ok_iff.mpr ⟨unit, rfl, hunit⟩
        have hread' := readUnit_eq_ok_iff.mpr ⟨unit', rfl, hunit'⟩
        rw [htext, hread'] at hread
        obtain ⟨rfl, rfl⟩ := Prod.mk.inj (Except.ok.inj hread)
        rw [List.append_cancel_right htext, ih htail htail']

theorem read_eq_ok_iff {text : String} {p : Program} :
    read text = .ok p ↔ readUnits text.toList = .ok p := by
  rw [read]
  split <;> simp_all

/-- The reader accepts the texts that are units among trivia, for the instructions
of the units in their order. Which units these are is certain, and every other
text is an error. -/
theorem read_accepts_units (text : String) :
    (∀ p, read text = .ok p ↔ ∃ units, Units text.toList units ∧ units.map Prod.snd = p) ∧
      (∀ units units', Units text.toList units → Units text.toList units' → units = units') ∧
      ((∃ error, read text = .error error) ↔ ∀ units, ¬Units text.toList units) := by
  have hread : ∀ p, read text = .ok p ↔
      ∃ units, Units text.toList units ∧ units.map Prod.snd = p := fun p =>
    read_eq_ok_iff.trans readUnits_eq_ok_iff
  refine ⟨hread, fun _ _ h h' => h.unique h', ?_⟩
  refine ⟨?_, ?_⟩
  · rintro ⟨error, herror⟩ units hunits
    rw [(hread _).mpr ⟨units, hunits, rfl⟩] at herror
    contradiction
  · intro hnone
    cases hr : read text with
    | error error => exact ⟨error, rfl⟩
    | ok p =>
      obtain ⟨units, hunits, -⟩ := (hread p).mp hr
      exact absurd hunits (hnone units)

end ActionCode.Listing
