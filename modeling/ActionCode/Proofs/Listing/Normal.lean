import ActionCode.Proofs.Listing.Faithful

namespace ActionCode.Listing

/-- The parameter of a unit is written as a literal: behind the digits come the
space and a quote. -/
def InQuotes (unit : List Char) : Prop :=
  [' ', '"'] <+: unit.dropWhile Char.isDigit

instance : DecidablePred InQuotes := fun unit =>
  inferInstanceAs (Decidable ([' ', '"'] <+: unit.dropWhile Char.isDigit))

theorem Spelled.inQuotes {unit text rest : List Char} {opcode : Opcode}
    (h : Spelled unit opcode (.quoted text) rest) : InQuotes unit := by
  cases h with
  | @mk digits spelling stop _ _ _ hcode hparameter hends =>
    cases hparameter with
    | @quoted written _ hliteral =>
      have hgap : ∀ c ∈ (' ' :: ('"' :: (written ++ ['"']) ++ stop)).head?, c.isDigit = false := by
        simp
      rw [InQuotes, (Text.span_append hcode.isDigit hgap).2]
      exact ⟨written ++ ['"'] ++ stop, rfl⟩

/-- What a unit is read for is faithful. Only a literal may hold a text that would
be read for something else without its quotes. -/
theorem Spelled.faithful {unit rest : List Char} {opcode : Opcode} {parameter : WrittenParameter}
    {operand? : Option Operand} (h : Spelled unit opcode parameter rest)
    (hoperand : Denotes opcode.kind parameter operand?)
    (hquotes : opcode = .pushUnchecked → ¬InQuotes unit) :
    Instruction.Faithful ⟨opcode, operand?⟩ := by
  cases parameter with
  | bare token =>
    cases h with
    | mk hcode hparameter hends =>
      cases hparameter with
      | bare hbare hne => exact faithful_of_bare hbare hoperand
  | quoted text =>
    obtain hfaithful | ⟨hkind, -⟩ := faithful_of_quoted hoperand
    · exact hfaithful
    · exact absurd h.inQuotes (hquotes (kind_eq_any_iff.mp hkind))

theorem IsUnit.faithful {unit rest : List Char} {i : Instruction} (h : IsUnit unit i rest)
    (hquotes : i.opcode = .pushUnchecked → ¬InQuotes unit) : i.Faithful := by
  cases h with
  | mk hspelled hoperand => exact hspelled.faithful hoperand hquotes

theorem Units.faithful {text : List Char} {units : List (List Char × Instruction)}
    (h : Units text units)
    (hquotes : ∀ unit i, (unit, i) ∈ units → i.opcode = .pushUnchecked → ¬InQuotes unit) :
    ∀ i ∈ units.map Prod.snd, i.Faithful := by
  induction h with
  | done h => simp
  | @cons _ unit _ i units hskipped hunit h ih =>
    rw [List.map_cons, List.forall_mem_cons]
    constructor
    · apply hunit.faithful
      exact hquotes unit i (by simp)
    · apply ih
      exact fun unit i hmem => hquotes unit i (by simp [hmem])

def relisted (text : String) : Except ReadError String :=
  (read text).map fun p => (emitted .compact (some p)).1

theorem read_emitted_of_faithful {p : Program} (h : ∀ i ∈ p, i.Faithful) :
    read (emitted .compact (some p)).1 = .ok p := by
  rw [read_eq_ok_iff, readUnits_emitted, Option.getD_some, readUnits_of_faithful h]

/-- Whatever way a text is written, the listing of what it is read for is read for
the same and listed the same, unless the text puts an operand of any kind between
quotes, which the listing leaves out. -/
theorem relisted_fixed (text : String) (p : Program) (hread : read text = .ok p)
    (hquotes : ∀ units, Units text.toList units →
      ∀ unit i, (unit, i) ∈ units → i.opcode = .pushUnchecked → ¬InQuotes unit) :
    let listing := (emitted .compact (some p)).1
    relisted text = .ok listing ∧ read listing = .ok p ∧ relisted listing = .ok listing := by
  intro listing
  obtain ⟨units, hunits, rfl⟩ := readUnits_eq_ok_iff.mp (read_eq_ok_iff.mp hread)
  have hback : read listing = .ok (units.map Prod.snd) :=
    read_emitted_of_faithful (hunits.faithful (hquotes units hunits))
  refine ⟨?_, hback, ?_⟩
  · rw [relisted, hread]
    rfl
  · rw [relisted, hback]
    rfl

theorem relisted_fixed_spellings :
    let text := "// x\n013 +5,10 1e0\t11 \"\\a\""
    let p : Program := [.pushUnchecked (.int 5), .pushDouble (.ofBits 0x3ff0000000000000),
      .pushString "a"]
    let listing := (emitted .compact (some p)).1
    read text = .ok p ∧ relisted text = .ok listing ∧
      read listing = .ok p ∧ relisted listing = .ok listing := by
  intro text p listing
  have hstring : Units ['\t', '1', '1', ' ', '"', '\\', 'a', '"']
      [(['1', '1', ' ', '"', '\\', 'a', '"'], .pushString "a")] :=
    .of_readUnit rfl rfl (.done .none)
  have hdouble : Units ['1', '0', ' ', '1', 'e', '0', '\t', '1', '1', ' ', '"', '\\', 'a', '"']
      [(['1', '0', ' ', '1', 'e', '0'], .pushDouble (.ofBits 0x3ff0000000000000)),
        (['1', '1', ' ', '"', '\\', 'a', '"'], .pushString "a")] :=
    .of_readUnit rfl (by decide +kernel) hstring
  let units : List (List Char × Instruction) :=
    [(['0', '1', '3', ' ', '+', '5', ','], .pushUnchecked (.int 5)),
      (['1', '0', ' ', '1', 'e', '0'], .pushDouble (.ofBits 0x3ff0000000000000)),
      (['1', '1', ' ', '"', '\\', 'a', '"'], .pushString "a")]
  have hunits : Units text.toList units := by
    have htoList : text.toList = ['/', '/', ' ', 'x', '\n', '0', '1', '3', ' ', '+', '5', ',', '1',
      '0', ' ', '1', 'e', '0', '\t', '1', '1', ' ', '"', '\\', 'a', '"'] := by decide
    rw [htoList]
    exact .of_readUnit rfl (by rfl) hdouble
  have hread : read text = .ok p := read_eq_ok_iff.mpr (readUnits_of_units hunits)
  have hplain : ∀ u ∈ units, u.2.opcode = .pushUnchecked → ¬InQuotes u.1 := by decide
  have hquotes : ∀ others, Units text.toList others →
      ∀ unit i, (unit, i) ∈ others → i.opcode = .pushUnchecked → ¬InQuotes unit := by
    intro others h unit i hmem
    exact hplain (unit, i) (h.unique hunits ▸ hmem)
  obtain ⟨hrelisted, hback, hfixed⟩ := relisted_fixed text p hread hquotes
  exact ⟨hread, hrelisted, hback, hfixed⟩

end ActionCode.Listing
