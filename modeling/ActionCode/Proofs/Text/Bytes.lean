import ActionCode.Text.Bytes

namespace ActionCode.Text

theorem bytes_of_ofBytes? {raw : List UInt8} {text : String} (h : ofBytes? raw = some text) :
    bytes text = raw := by
  unfold ofBytes? String.fromUTF8? at h
  split at h
  · obtain rfl := Option.some.inj h
    rfl
  · contradiction

theorem toList_prefix_of_bytes {front text : String} (h : bytes front <+: bytes text) :
    front.toList <+: text.toList := by
  obtain ⟨more, hmore⟩ := h
  apply List.isPrefix_of_utf8Encode_append_eq_utf8Encode ⟨more.toArray⟩
  rw [String.utf8Encode_toList, String.utf8Encode_toList]
  apply ByteArray.ext
  simpa [bytes, String.toUTF8, ← Array.toList_inj] using hmore

theorem isValid_byteLength {text : String} {front rest : List Char}
    (h : text.toList = front ++ rest) :
    (⟨byteLength front⟩ : String.Pos.Raw).IsValid text := by
  rw [String.Pos.Raw.isValid_iff_exists_append]
  refine ⟨String.ofList front, String.ofList rest, ?_, ?_⟩
  · rw [← String.toList_inj, String.toList_append, String.toList_ofList, String.toList_ofList, h]
  · have hlength := length_bytes (String.ofList front)
    rw [String.toList_ofList] at hlength
    rw [← hlength]
    rfl

end ActionCode.Text
