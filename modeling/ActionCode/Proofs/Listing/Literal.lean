import ActionCode.Proofs.Listing.Grammar

namespace ActionCode.Listing

theorem decode_escape (c : Char) (rest : List Char) :
    Text.Quoted.decode ('\\' :: c :: rest) = (Text.Quoted.decode rest).map fun (text, after) =>
      (Text.Quoted.unescape c :: text, after) := by
  simp [Text.Quoted.decode]

theorem decode_plain {c : Char} (hquote : c ≠ '"') (hescape : c ≠ '\\') (rest : List Char) :
    Text.Quoted.decode (c :: rest) = (Text.Quoted.decode rest).map fun (text, after) =>
      (c :: text, after) := by
  rw [Text.Quoted.decode.eq_def]
  split <;> simp_all

theorem unescape_of_ne {c : Char} (hn : c ≠ 'n') (hr : c ≠ 'r') (ht : c ≠ 't') :
    Text.Quoted.unescape c = c := by
  unfold Text.Quoted.unescape
  split <;> first | contradiction | rfl

theorem Literal.decode {written text : List Char} (h : Literal written text) (rest : List Char) :
    Text.Quoted.decode (written ++ '"' :: rest) = some (text, rest) := by
  induction h with
  | nil => simp [Text.Quoted.decode]
  | plain hquote hescape h ih => rw [List.cons_append, decode_plain hquote hescape, ih]; rfl
  | lineFeed h ih | carriageReturn h ih | tab h ih =>
    rw [List.cons_append, List.cons_append, decode_escape, ih]
    rfl
  | escaped hn hr ht h ih =>
    rw [List.cons_append, List.cons_append, decode_escape, ih, unescape_of_ne hn hr ht]
    rfl

theorem literal_escape (c : Char) {written text : List Char} (h : Literal written text) :
    Literal ('\\' :: c :: written) (Text.Quoted.unescape c :: text) := by
  unfold Text.Quoted.unescape
  split
  · exact .lineFeed h
  · exact .carriageReturn h
  · exact .tab h
  · exact .escaped ‹_› ‹_› ‹_› h

theorem exists_literal {body text rest : List Char}
    (h : Text.Quoted.decode body = some (text, rest)) :
    ∃ written, body = written ++ '"' :: rest ∧ Literal written text := by
  fun_induction Text.Quoted.decode body generalizing text with
  | case1 => contradiction
  | case2 after =>
    obtain ⟨rfl, rfl⟩ := Prod.mk.inj (Option.some.inj h)
    exact ⟨[], rfl, .nil⟩
  | case3 => contradiction
  | case4 c after ih =>
    obtain ⟨⟨tail, last⟩, hd, heq⟩ := Option.map_eq_some_iff.mp h
    obtain ⟨rfl, rfl⟩ := Prod.mk.inj heq
    obtain ⟨written, hbody, hliteral⟩ := ih hd
    exact ⟨'\\' :: c :: written, by rw [hbody]; rfl, literal_escape c hliteral⟩
  | case5 c after hquote hlone hescape ih =>
    obtain ⟨⟨tail, last⟩, hd, heq⟩ := Option.map_eq_some_iff.mp h
    obtain ⟨rfl, rfl⟩ := Prod.mk.inj heq
    obtain ⟨written, hbody, hliteral⟩ := ih hd
    have hc : c ≠ '\\' := by
      rintro rfl
      cases after with
      | nil => exact hlone rfl rfl
      | cons c after => exact hescape c after rfl rfl
    exact ⟨c :: written, by rw [hbody]; rfl, .plain hquote hc hliteral⟩

end ActionCode.Listing
