import ActionCode.Proofs.Listing.ByteReading
import ActionCode.Proofs.Text.Quoted

namespace ActionCode.Listing

theorem readParameter_encode (opcode : Opcode) (text rest : List Char) :
    readParameter opcode (Text.Quoted.encode text ++ rest) = .ok (.quoted text, rest) := by
  obtain ⟨body, hbody, hdecode⟩ := Text.Quoted.decode_encode_append text rest
  rw [hbody, readParameter, hdecode]

theorem at_ofList_append (front rest : List Char) :
    Text.At (String.ofList (front ++ rest)) (Text.byteLength front) rest :=
  ⟨front, String.toList_ofList, rfl⟩

/-- Wherever a literal stands, reading it gives its text and stops at the first byte
behind it. No quote but its last character ends it early, so that no literal is
another's beginning. -/
theorem unquote_quote :
    (∀ (opcode : Opcode) (front text rest : List Char),
      let whole := String.ofList (front ++ (Text.Quoted.encode text ++ rest))
      let stop := Text.byteLength (front ++ Text.Quoted.encode text)
      readParameter opcode (Text.Quoted.encode text ++ rest) = .ok (.quoted text, rest) ∧
        ByteReader.parameter? whole opcode (Text.byteLength front) =
          some (.ok (.quoted text, stop)) ∧
        Text.rest? whole stop = some (String.ofList rest)) ∧
    (∀ text : List Char, (∃ body, Text.Quoted.encode text = '"' :: (body ++ ['"'])) ∧
      '\n' ∉ Text.Quoted.encode text ∧ '\r' ∉ Text.Quoted.encode text ∧
      '\t' ∉ Text.Quoted.encode text ∧
      ∀ before after, Text.Quoted.encode text = before ++ '"' :: after →
        (¬Text.Quoted.Escapes before ↔ before = [] ∨ after = [])) ∧
    Function.Injective Text.Quoted.encode ∧
    ∀ text other, Text.Quoted.encode text <+: Text.Quoted.encode other → text = other := by
  refine ⟨fun opcode front text rest => ?_, fun text => ⟨⟨_, rfl⟩, ?_, ?_, ?_, ?_⟩, ?_, ?_⟩
  · have hplace := at_ofList_append front (Text.Quoted.encode text ++ rest)
    have hstop := hplace.skip
    rw [← Text.byteLength_append] at hstop
    have hread := readParameter_encode opcode text rest
    refine ⟨hread, ?_, hstop.rest?⟩
    rw [ByteReader.parameter?_eq hplace, hread, ByteReader.eq_offset hstop]
    rfl
  · exact Text.Quoted.notMem_encode (.inl rfl) text
  · exact Text.Quoted.notMem_encode (.inr (.inl rfl)) text
  · exact Text.Quoted.notMem_encode (.inr (.inr rfl)) text
  · exact fun before after h => Text.Quoted.not_escapes_iff_of_encode h
  · intro text other h
    exact (Text.Quoted.eq_of_encode_append_eq (congrArg (· ++ []) h)).1
  · rintro text other ⟨more, hmore⟩
    exact (Text.Quoted.eq_of_encode_append_eq (hmore.trans (List.append_nil _).symm)).1

theorem unquote_quote_backslashes :
    let text := ['é', '\\', '"', '\\']
    (Text.Quoted.encode text = ['"', 'é', '\\', '\\', '\\'] ++ '"' :: ['\\', '\\', '"'] ∧
      Text.Quoted.Escapes ['"', 'é', '\\', '\\', '\\']) ∧
    (Text.Quoted.encode text = ['"', 'é', '\\', '\\', '\\', '"', '\\', '\\'] ++ '"' :: [] ∧
      ¬Text.Quoted.Escapes ['"', 'é', '\\', '\\', '\\', '"', '\\', '\\']) ∧
    (Text.Quoted.encode text <+: Text.Quoted.encode text ∧ text = text) ∧
    ByteReader.parameter? "12 \"é\\\\\\\"\\\\\"\"" .pushString 3 =
      some (.ok (.quoted text, 13)) := by
  obtain ⟨hread, hquotes, -, hprefix⟩ := unquote_quote
  have hinner : Text.Quoted.encode ['é', '\\', '"', '\\'] =
      ['"', 'é', '\\', '\\', '\\'] ++ '"' :: ['\\', '\\', '"'] := rfl
  have hlast : Text.Quoted.encode ['é', '\\', '"', '\\'] =
      ['"', 'é', '\\', '\\', '\\', '"', '\\', '\\'] ++ '"' :: [] := rfl
  obtain ⟨-, -, -, -, hescapes⟩ := hquotes ['é', '\\', '"', '\\']
  refine ⟨⟨hinner, ?_⟩, ⟨hlast, (hescapes _ _ hlast).mpr (.inr rfl)⟩,
    ⟨List.prefix_rfl, hprefix _ _ List.prefix_rfl⟩,
    (hread .pushString ['1', '2', ' '] ['é', '\\', '"', '\\'] ['"']).2.1⟩
  exact not_not.mp ((hescapes _ _ hinner).not.mpr (by decide))

end ActionCode.Listing
