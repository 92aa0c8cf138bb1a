import ActionCode.Proofs.Listing.Reading

namespace ActionCode

theorem ReadError.shift_shift (error : ReadError) (m n : Nat) :
    (error.shift n).shift m = error.shift (m + n) := by
  cases error <;> simp [shift, Nat.add_assoc]

namespace Listing

theorem offset_append_right (front rest : List Char) :
    offset (front ++ rest) rest = Text.byteLength front := by
  simp [offset]

theorem offset_append_append (text rest more : List Char) :
    offset (text ++ more) (rest ++ more) = offset text rest := by
  simp [offset, Nat.add_sub_add_right]

theorem offset_append {text rest : List Char} (h : rest <:+ text) (front : List Char) :
    offset (front ++ text) rest = Text.byteLength front + offset text rest := by
  obtain ⟨read, rfl⟩ := h
  rw [← List.append_assoc, offset_append_right, offset_append_right, Text.byteLength_append]

theorem skipTrivia_suffix (text : List Char) : skipTrivia false text <:+ text := by
  obtain ⟨skipped, htext, -⟩ := exists_trivia_skipTrivia text
  exact ⟨skipped, htext.symm⟩

theorem suffix_of_readUnit {text rest : List Char} {i : Instruction}
    (h : readUnit text = .ok (i, rest)) : rest <:+ text := by
  obtain ⟨unit, rfl, -⟩ := readUnit_eq_ok_iff.mp h
  exact List.suffix_append unit rest

theorem suffix_of_readUnits {text : List Char} {stop : Stop} (h : readUnits text = .error stop) :
    stop.rest <:+ text := by
  fun_induction readUnits text with
  | case1 => contradiction
  | case2 text c cs hskip error hread =>
    obtain rfl := Except.error.inj h
    exact hskip ▸ skipTrivia_suffix text
  | case3 text c cs hskip i rest hread ih =>
    cases hrest : readUnits rest with
    | ok p => simp [hrest, Except.map] at h
    | error stop' =>
      rw [hrest] at h
      obtain rfl := Except.error.inj h
      have hrest' := (ih hrest).trans (suffix_of_readUnit hread)
      exact hrest'.trans (hskip ▸ skipTrivia_suffix text)

theorem read_of_error {text : String} {stop : Stop} (h : readUnits text.toList = .error stop) :
    read text = .error (stop.error.shift (offset text.toList stop.rest)) := by
  rw [read, h]

theorem read_of_error_append {text : String} {front back : List Char} {stop : Stop}
    (htext : text.toList = front ++ back) (hstop : stop.rest <:+ back)
    (h : readUnits text.toList = .error stop) :
    read text =
      .error ((stop.error.shift (offset back stop.rest)).shift (Text.byteLength front)) := by
  rw [read_of_error h, ReadError.shift_shift, htext, offset_append hstop]

end Listing

end ActionCode
