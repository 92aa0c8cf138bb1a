import ActionCode.Listing.Unit
import ActionCode.Proofs.Operand.Inference

namespace ActionCode.Listing

inductive Blank : Char → Prop where
  | space : Blank ' '
  | tab : Blank '\t'
  | lineFeed : Blank '\n'
  | formFeed : Blank '\x0c'
  | carriageReturn : Blank '\r'

theorem isBlank_iff {c : Char} : isBlank c = true ↔ Blank c := by
  simp only [isBlank, Bool.or_eq_true, decide_eq_true_eq]
  constructor
  · rintro ((((rfl | rfl) | rfl) | rfl) | rfl)
    · exact .space
    · exact .tab
    · exact .lineFeed
    · exact .formFeed
    · exact .carriageReturn
  · intro h
    cases h <;> simp

theorem isBlank_eq_false_iff {c : Char} : isBlank c = false ↔ ¬Blank c := by
  rw [← isBlank_iff, Bool.not_eq_true]

instance : DecidablePred Blank := fun _ =>
  decidable_of_iff _ isBlank_iff

/-- A text that stands in a listing without quotes: no comma, no blank, and no
quote at its start. -/
structure Bare (text : List Char) : Prop where
  no_comma : ',' ∉ text
  no_blank : ∀ c ∈ text, ¬Blank c
  no_quote : text.head? ≠ some '"'

theorem isBare_eq_true_iff {c : Char} : isBare c = true ↔ c ≠ ',' ∧ ¬Blank c := by
  simp [isBare, ← isBlank_eq_false_iff]

theorem isBare_eq_false_iff {c : Char} : isBare c = false ↔ c = ',' ∨ Blank c := by
  rw [← isBlank_iff]
  cases h : isBlank c <;> simp [isBare, h]

theorem Bare.isBare {text : List Char} (h : Bare text) {c : Char} (hc : c ∈ text) :
    isBare c = true :=
  isBare_eq_true_iff.mpr ⟨fun he => h.no_comma (he ▸ hc), h.no_blank c hc⟩

theorem bare_of_isBare {text : List Char} (h : ∀ c ∈ text, isBare c = true)
    (hquote : text.head? ≠ some '"') : Bare text where
  no_comma hc := (isBare_eq_true_iff.mp (h ',' hc)).1 rfl
  no_blank c hc := (isBare_eq_true_iff.mp (h c hc)).2
  no_quote := hquote

theorem bare_iff {text : List Char} :
    Bare text ↔ text.all isBare = true ∧ text.head? ≠ some '"' :=
  ⟨fun h => ⟨List.all_eq_true.mpr fun _ hc => h.isBare hc, h.no_quote⟩,
    fun h => bare_of_isBare (List.all_eq_true.mp h.1) h.2⟩

instance (text : List Char) : Decidable (Bare text) :=
  decidable_of_iff _ bare_iff.symm

theorem bare_of_forall {text : List Char} (h : ∀ c ∈ text, isBare c = true ∧ c ≠ '"') :
    Bare text :=
  bare_of_isBare (fun c hc => (h c hc).1) fun hq =>
    (h '"' (List.mem_of_mem_head? (by simp [hq]))).2 rfl

theorem isBare_of_isDigit {c : Char} (h : c.isDigit = true) : isBare c = true ∧ c ≠ '"' := by
  refine ⟨?_, ?_⟩
  · cases hc : isBare c with
    | true => rfl
    | false =>
      obtain rfl | hb := isBare_eq_false_iff.mp hc
      · contradiction
      · cases hb <;> contradiction
  · rintro rfl
    contradiction

theorem bare_int (n : Int64) : Bare (Operand.int n).text.toList := by
  rw [Operand.toList_int]
  apply bare_of_forall
  intro c hc
  obtain h | rfl := Decimal.mem_intText hc
  · exact isBare_of_isDigit h
  · decide

theorem bare_float (x : Binary64) : Bare (Operand.float x).text.toList := by
  have hothers : ∀ c ∈ ['.', 'e', '-', 'i', 'n', 'f', 'N', 'a'], isBare c = true ∧ c ≠ '"' := by
    simp [isBare, isBlank]
  rw [Operand.toList_float]
  exact bare_of_forall fun c hc => (Binary64.mem_text hc).elim isBare_of_isDigit (hothers c)

theorem bare_bool (b : Bool) : Bare (Operand.bool b).text.toList := by
  cases b <;> decide

end ActionCode.Listing
