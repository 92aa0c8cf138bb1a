import ActionCode.Proofs.Listing.Position

namespace ActionCode.Listing

inductive Front : List Char → Program → List Char → Prop where
  | trivia {skipped rest} (h : Trivia skipped rest) : Front skipped [] rest
  | cons {skipped unit front rest i p} (hskipped : Trivia skipped (unit ++ (front ++ rest)))
      (hunit : IsUnit unit i (front ++ rest)) (h : Front front p rest) :
      Front (skipped ++ (unit ++ front)) (i :: p) rest

theorem Front.nil (rest : List Char) : Front [] [] rest :=
  .trivia .none

theorem map_append_map (p : Program) (i : Instruction) (outcome : Except Stop Program) :
    (outcome.map (p ++ ·)).map (i :: ·) = outcome.map (i :: p ++ ·) := by
  cases outcome <;> rfl

theorem Front.readUnits {front rest : List Char} {p : Program} (h : Front front p rest) :
    readUnits (front ++ rest) = (Listing.readUnits rest).map (p ++ ·) := by
  induction h with
  | trivia h =>
    rw [h.readUnits]
    cases Listing.readUnits _ <;> rfl
  | @cons skipped unit front rest i p hskipped hunit h ih =>
    have hread := readUnit_eq_ok_iff.mpr ⟨unit, rfl, hunit⟩
    rw [← hunit.skip] at hread
    rw [List.append_assoc, List.append_assoc, hskipped.readUnits, readUnits_of_ok hread, ih,
      map_append_map]

theorem readUnits_eq_error_iff {text : List Char} {stop : Stop} :
    readUnits text = .error stop ↔
      (∃ front p, text = front ++ stop.rest ∧ Front front p stop.rest) ∧
        skipTrivia false stop.rest = stop.rest ∧ stop.rest ≠ [] ∧
          readUnit stop.rest = .error stop.error := by
  refine ⟨fun h => ?_, ?_⟩
  · fun_induction readUnits text with
    | case1 => contradiction
    | case2 text c cs hskip error hread =>
      obtain rfl := Except.error.inj h
      obtain ⟨skipped, htext, htrivia⟩ := exists_trivia_skipTrivia text
      rw [hskip] at htext htrivia
      have hagain : skipTrivia false (c :: cs) = c :: cs := by
        rw [← htrivia.skip, ← htext, hskip]
      exact ⟨⟨skipped, [], htext, .trivia htrivia⟩, hagain, List.cons_ne_nil c cs, hread⟩
    | case3 text c cs hskip i rest hread ih =>
      cases hrest : readUnits rest with
      | ok p => simp [hrest, Except.map] at h
      | error later =>
        rw [hrest] at h
        obtain rfl := Except.error.inj h
        obtain ⟨⟨front, p, rfl, hfront⟩, hstop⟩ := ih hrest
        obtain ⟨skipped, htext, htrivia⟩ := exists_trivia_skipTrivia text
        obtain ⟨unit, hsplit, hunit⟩ := readUnit_eq_ok_iff.mp hread
        rw [hskip, hsplit] at htext htrivia
        exact ⟨⟨skipped ++ (unit ++ front), i :: p, by simpa using htext,
          .cons htrivia hunit hfront⟩, hstop⟩
  · rintro ⟨⟨front, p, rfl, hfront⟩, hskip, hne, hread⟩
    rw [← hskip] at hread
    rw [hfront.readUnits, readUnits_of_error (hskip.symm ▸ hne) hread, hskip]
    rfl

end ActionCode.Listing
