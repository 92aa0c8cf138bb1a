import ActionCode.Proofs.Listing.Faithful

namespace ActionCode

namespace Name

/-- A name of the grammar `get type::member`, `set type::member`, `new type`, in
which no part is empty and a member holds no `::`. -/
def Grammatical (n : Name) : Prop :=
  n.WellFormed ∧ ∀ member ∈ n.member?, ¬[':', ':'] <:+: member.toList

instance (n : Name) : Decidable n.Grammatical :=
  inferInstanceAs (Decidable (_ ∧ ∀ member ∈ n.member?, _))

/-- A name whose target shows by itself where it ends and where it parts, and
does not look like the text for no operand. -/
structure Listable (n : Name) : Prop where
  bare : Listing.Bare n.target.toList
  no_colon : ∀ member ∈ n.member?, member.toList.head? ≠ some ':'
  no_placeholder : n ≠ .constructor "0"

theorem listable_iff {n : Name} : n.Listable ↔ Listing.Bare n.target.toList ∧
    (∀ member ∈ n.member?, member.toList.head? ≠ some ':') ∧ n ≠ .constructor "0" :=
  ⟨fun h => ⟨h.bare, h.no_colon, h.no_placeholder⟩, fun ⟨hb, hc, hp⟩ => ⟨hb, hc, hp⟩⟩

instance (n : Name) : Decidable n.Listable :=
  decidable_of_iff _ listable_iff.symm

theorem Grammatical.separable_iff {n : Name} (h : n.Grammatical) :
    n.Separable ↔ ∀ member ∈ n.member?, member.toList.head? ≠ some ':' :=
  ⟨fun hs member hm => (hs member hm).2, fun hc member hm => ⟨h.2 member hm, hc member hm⟩⟩

end Name

namespace Instruction

/-- An instruction as the constructor of its opcode makes it, with a name of the
grammar and its opcode's verb, or without quotes only what has a type. -/
inductive Constructed : Instruction → Prop where
  | nop : Constructed .nop
  | comment (text : String) : Constructed (.comment text)
  | reserveStack (count : Int64) : Constructed (.reserveStack count)
  | reserveRegister (count : Int64) : Constructed (.reserveRegister count)
  | set (type member : String) (h : (Name.setter type member).Grammatical) :
    Constructed (.set (.setter type member))
  | dup (count : Int64) : Constructed (.dup count)
  | register (index : Int64) : Constructed (.register index)
  | unregister (index : Int64) : Constructed (.unregister index)
  | pushRegister (index : Int64) : Constructed (.pushRegister index)
  | pushLong (value : Int64) : Constructed (.pushLong value)
  | pushDouble (value : Binary64) : Constructed (.pushDouble value)
  | pushString (value : String) : Constructed (.pushString value)
  | pushBool (value : Bool) : Constructed (.pushBool value)
  | pushUncheckedInt (value : Int64) : Constructed (.pushUnchecked (.int value))
  | pushUncheckedFloat (value : Binary64) : Constructed (.pushUnchecked (.float value))
  | pushUncheckedBool (value : Bool) : Constructed (.pushUnchecked (.bool value))
  | call (type member : String) (h : (Name.getter type member).Grammatical) :
    Constructed (.call (.getter type member))
  | construct (type : String) (h : (Name.constructor type).Grammatical) :
    Constructed (.construct (.constructor type))
  | pop (count : Int64) : Constructed (.pop count)

def Listable (i : Instruction) : Prop :=
  ∀ name ∈ i.operand?.bind Operand.name?, name.Listable

instance : DecidablePred Listable := fun i =>
  inferInstanceAs (Decidable (∀ name ∈ i.operand?.bind Operand.name?, name.Listable))

theorem faithful_of_name_iff {opcode : Opcode} {name : Name} (hkind : opcode.kind = .name name.verb)
    (h : name.Grammatical) :
    Faithful ⟨opcode, some (.name name)⟩ ↔ Listable ⟨opcode, some (.name name)⟩ := by
  have hlistable : Listable ⟨opcode, some (.name name)⟩ ↔ name.Listable := by
    simp [Listable, Operand.name?]
  rw [hlistable]
  constructor
  · rintro ⟨-, -, hseparable, hbare, hzero⟩
    exact ⟨hbare, h.separable_iff.mp hseparable, hzero⟩
  · rintro ⟨hbare, hcolon, hzero⟩
    exact ⟨hkind, h.1, h.separable_iff.mpr hcolon, hbare, hzero⟩

theorem Constructed.faithful_iff {i : Instruction} (h : i.Constructed) :
    i.Faithful ↔ i.Listable := by
  cases h with
  | set type member h | call type member h => exact faithful_of_name_iff rfl h
  | construct type h => exact faithful_of_name_iff rfl h
  | nop => exact iff_of_true (by decide) fun _ hname => nomatch hname
  | pushUncheckedInt | pushUncheckedFloat | pushUncheckedBool =>
    exact iff_of_true (.inr rfl) fun _ hname => nomatch hname
  | _ => exact iff_of_true (.inl rfl) fun _ hname => nomatch hname

end Instruction

namespace Listing

/-- A program from the constructors comes back from its listing if and only if
every name in it can stand in a listing. -/
theorem read_constructed_iff (p : Program) (h : ∀ i ∈ p, i.Constructed) :
    (read (emitted .compact (some p)).1 = .ok p ↔ ∀ i ∈ p, i.Listable) ∧
      ((∃ q, read (emitted .compact (some p)).1 = .ok q ∧ Program.same q p = true) ↔
        ∀ i ∈ p, i.Listable) := by
  have hread : ∀ q, read (emitted .compact (some p)).1 = .ok q ↔ readUnits (stream p) = .ok q := by
    intro q
    rw [read_eq_ok_iff, readUnits_emitted, Option.getD_some]
  have hlistable : (∀ i ∈ p, i.Listable) ↔ ∀ i ∈ p, i.Faithful :=
    forall₂_congr fun i hi => (h i hi).faithful_iff.symm
  simp only [hread, hlistable]
  constructor
  · exact ⟨fun hp => faithful_of_readUnits hp (same_self p), readUnits_of_faithful⟩
  · exact ⟨fun ⟨q, hq, hsame⟩ => faithful_of_readUnits hq hsame,
      fun hp => ⟨p, readUnits_of_faithful hp, same_self p⟩⟩

theorem read_constructed_names :
    let p : Program := [.construct (.constructor "Game::Vector<T>"), .pushDouble .nan,
      .set (.setter "Game::Vector<T>" "0"), .pushUnchecked (.bool true)]
    let q : Program := [.call (.getter "A" ":b"), .nop]
    (∀ i ∈ p ++ q, i.Constructed) ∧ read (emitted .compact (some p)).1 = .ok p ∧
      read (emitted .compact (some q)).1 ≠ .ok q := by
  intro p q
  have hp : ∀ i ∈ p, i.Constructed := by
    simp only [p, List.forall_mem_cons]
    exact ⟨.construct _ (by decide), .pushDouble _, .set _ _ (by decide), .pushUncheckedBool _,
      by simp⟩
  have hq : ∀ i ∈ q, i.Constructed := by
    simp only [q, List.forall_mem_cons]
    exact ⟨.call _ _ (by decide), .nop, by simp⟩
  refine ⟨List.forall_mem_append.mpr ⟨hp, hq⟩, ?_, ?_⟩
  · exact (read_constructed_iff p hp).1.mpr (by decide)
  · exact mt (read_constructed_iff q hq).1.mp (by decide)

/-- Names that are written like other names, like none, or not in one piece. -/
theorem read_constructed_misread :
    let generic : Program := [.construct (.constructor "Map<K, V>")]
    let zero : Program := [.construct (.constructor "0")]
    let colon : Program := [.call (.getter "A" ":b")]
    (∀ i ∈ generic ++ zero ++ colon, i.Constructed) ∧
      (∃ offset, read (emitted .compact (some generic)).1 = .error (.expectedOpcode offset)) ∧
      read (emitted .compact (some zero)).1 = .ok [⟨.new, none⟩] ∧
      read (emitted .compact (some colon)).1 = .ok [.call (.getter "A:" "b")] := by
  intro generic zero colon
  refine ⟨?_, ?_, ?_, ?_⟩
  · simp only [generic, zero, colon, List.cons_append, List.nil_append, List.forall_mem_cons]
    exact ⟨.construct _ (by decide), .construct _ (by decide), .call _ _ (by decide), by simp⟩
  · -- The comma ends the parameter, and the type goes on where an opcode should stand.
    have hspelled := spelled_unitText (i := .construct (.constructor "Map<K")) (by decide)
      (show Ends [','] " V> ".toList from .comma)
    have hunit := readUnit_of_spelled hspelled
    rw [Instruction.operand_written, ← hspelled.skip] at hunit
    have hrest : readUnits " V> ".toList = .error ⟨"V> ".toList, .expectedOpcode 0⟩ :=
      readUnits_of_error (by decide) rfl
    have hunits := readUnits_of_ok hunit
    rw [hrest] at hunits
    have hgeneric : stream generic = unitText (.construct (.constructor "Map<K")) ++ [','] ++
        " V> ".toList := by decide
    rw [read, readUnits_emitted, Option.getD_some, hgeneric, hunits]
    exact ⟨_, rfl⟩
  · rw [read_eq_ok_iff, readUnits_emitted]
    exact readUnits_stream_end (by decide) rfl
  · rw [read_eq_ok_iff, readUnits_emitted]
    exact readUnits_stream_end (by decide) rfl

end Listing

end ActionCode
