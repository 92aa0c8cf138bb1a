import ActionCode.Proofs.Listing.Position
import ActionCode.Proofs.Listing.Stream

namespace ActionCode.Listing

def leading (p : Program) : List Char :=
  p.flatMap fun i => unitText i ++ [',', ' ']

theorem stream_append {tail : Program} (hne : tail ≠ []) (p : Program) :
    stream (p ++ tail) = leading p ++ stream tail := by
  induction p with
  | nil => rfl
  | cons i p ih => simp [stream_cons_eq, ending, hne, ih, leading]

def quoted (s : String) : List Char :=
  Text.Quoted.encode s.toList

def literal (c : Opcode) (s : String) : Instruction :=
  ⟨c, some (.str s)⟩

section Literal

variable {c : Opcode} (hc : c = .pushString ∨ c = .comment)
include hc

theorem unitText_literal (s : String) :
    unitText (literal c s) = Nat.toDigits 10 c.code ++ ' ' :: quoted s := by
  have hkind : c.kind = .str := Instruction.kind_eq_str_iff.mpr hc.symm
  rw [unitText_eq, Instruction.parameter_of_str hkind rfl]
  rfl

theorem delimited_literal (s : String) : (literal c s).Delimited :=
  .inl hc.symm

theorem readBack_literal (s : String) : (literal c s).readBack = .ok (literal c s) := by
  obtain rfl | rfl := hc <;> rfl

theorem readUnits_literal (s : String) (q : Program) :
    readUnits (stream (literal c s :: q)) = (readUnits (stream q)).map (literal c s :: ·) := by
  have hread := readUnits_stream_cons (delimited_literal hc s) q []
  rwa [readBack_literal hc, List.append_nil, List.append_nil] at hread

def textBefore (c : Opcode) (p : Program) : List Char :=
  header ++ (leading p ++ (Nat.toDigits 10 c.code ++ [' ']))

def textAfter (q : Program) : List Char :=
  ending q ++ stream q

theorem toList_emitted_literal (p q : Program) (s : String) :
    (emitted .compact (some (p ++ literal c s :: q))).1.toList =
      textBefore c p ++ quoted s ++ textAfter q := by
  rw [emitted_eq, toList_text_compact, Option.getD_some,
    stream_append (List.cons_ne_nil _ q), stream_cons_eq, unitText_literal hc]
  simp [textBefore, textAfter]

end Literal

theorem read_emitted_of_error {p : Program} (hp : ∀ i ∈ p, i.Delimited) {error : ReadError}
    (hback : p.mapM Instruction.readBack = .error error) (tail : Program) (n : Nat) :
    read (emitted .compact (some (p ++ tail))).1 = .error (error.shift n) := by
  obtain ⟨front, i, back, done, rfl, hdone, hi⟩ := exists_front_of_mapM_error hback
  have hstream := readUnits_stream_append (fun j hj => hp j (by simp [hj])) hdone
    (i :: (back ++ tail)) []
  rw [readUnits_stream_cons (hp i (by simp)), hi, List.append_nil] at hstream
  have hunits := readUnits_emitted (some (front ++ i :: (back ++ tail)))
  rw [Option.getD_some, hstream] at hunits
  rw [List.append_assoc, List.cons_append, read_of_error hunits, shift_of_readBack hi,
    shift_of_readBack hi]

/-- Whatever string is put into a literal, the listing is read for the same
instructions in front of it and behind it, and for the string itself; or it is
read for the same error, which comes later by as many bytes as the literal takes.
Nothing in the string is read for anything else. -/
theorem read_literal_exchange (c : Opcode) (hc : c = .pushString ∨ c = .comment) (p : Program)
    (hp : ∀ i ∈ p, i.Delimited) (q : Program) :
    let listing (s : String) := (emitted .compact (some (p ++ literal c s :: q))).1
    ∃ before after : List Char,
      (∀ s, (listing s).toList = before ++ quoted s ++ after) ∧
      ((∃ front back, front.length = p.length ∧
          ∀ s, read (listing s) = .ok (front ++ literal c s :: back)) ∨
        ∃ error : ReadError, ∀ s,
          read (listing s) = .error (error.shift (Text.byteLength (before ++ quoted s)))) := by
  intro listing
  refine ⟨textBefore c p, textAfter q, toList_emitted_literal hc p q, ?_⟩
  cases hback : p.mapM Instruction.readBack with
  | error error => exact .inr ⟨error, fun s => read_emitted_of_error hp hback _ _⟩
  | ok front =>
    have hunits : ∀ s, readUnits (listing s).toList =
        ((readUnits (stream q)).map (literal c s :: ·)).map (front ++ ·) := by
      intro s
      have hstream := readUnits_stream_append hp hback (literal c s :: q) []
      rw [List.append_nil, List.append_nil, readUnits_literal hc] at hstream
      rw [readUnits_emitted, Option.getD_some, hstream]
    cases hq : readUnits (stream q) with
    | ok back =>
      refine .inl ⟨front, back, length_of_mapM_readBack hback, fun s => ?_⟩
      rw [read_eq_ok_iff, hunits s, hq]
      rfl
    | error stop =>
      have hstop : stop.rest <:+ textAfter q :=
        (suffix_of_readUnits hq).trans (List.suffix_append (ending q) (stream q))
      refine .inr ⟨stop.error.shift (offset (textAfter q) stop.rest), fun s => ?_⟩
      have hread := hunits s
      rw [hq] at hread
      exact read_of_error_append (toList_emitted_literal hc p q s) hstop hread

theorem read_literal_exchange_quotes :
    let p : Program := [.pushLong 1]
    let q : Program := [.pop 2]
    let s := "\\\", 16 9, // \"\n"
    (∀ i ∈ p, i.Delimited) ∧
      read (emitted .compact (some (p ++ literal .comment s :: q))).1 =
        .ok (p ++ literal .comment s :: q) := by
  intro p q s
  have hp : ∀ i ∈ p, i.Delimited := by decide
  have hplain : read (emitted .compact (some (p ++ literal .comment "x" :: q))).1 =
      .ok (p ++ literal .comment "x" :: q) :=
    (read_emitted _ (by decide)).1.trans rfl
  obtain ⟨_, _, -, ⟨front, back, hlength, hread⟩ | ⟨error, hread⟩⟩ :=
    read_literal_exchange .comment (.inr rfl) p hp q
  · have heq := Except.ok.inj ((hread "x").symm.trans hplain)
    obtain ⟨rfl, htail⟩ := List.append_inj heq hlength
    obtain ⟨-, rfl⟩ := List.cons.inj htail
    exact ⟨hp, hread s⟩
  · cases (hread "x").symm.trans hplain

end ActionCode.Listing
