namespace ActionCode.Text

def bytes (text : String) : List UInt8 :=
  text.toUTF8.data.toList

def ofBytes? (bytes : List UInt8) : Option String :=
  String.fromUTF8? ⟨bytes.toArray⟩

@[simp] theorem ofBytes?_bytes (text : String) : ofBytes? (bytes text) = some text := by
  have h : (⟨(bytes text).toArray⟩ : ByteArray) = text.toByteArray := by simp [bytes, String.toUTF8]
  rw [ofBytes?, h, String.fromUTF8?, dif_pos text.isValidUTF8]
  rfl

@[simp] theorem bytes_append (a b : String) : bytes (a ++ b) = bytes a ++ bytes b := by
  simp [bytes]

@[simp] theorem bytes_empty : bytes "" = [] := rfl

def byteLength (text : List Char) : Nat :=
  text.foldr (fun c n => c.utf8Size + n) 0

@[simp] theorem byteLength_nil : byteLength [] = 0 := rfl

@[simp] theorem byteLength_cons (c : Char) (text : List Char) :
    byteLength (c :: text) = c.utf8Size + byteLength text := rfl

@[simp] theorem byteLength_append (a b : List Char) :
    byteLength (a ++ b) = byteLength a + byteLength b := by
  induction a with
  | nil => simp
  | cons c a ih => simp [ih, Nat.add_assoc]

theorem length_bytes (text : String) : (bytes text).length = byteLength text.toList := by
  have h : text.toUTF8 = text.toList.utf8Encode := String.utf8Encode_toList.symm
  rw [bytes, h]
  induction text.toList with
  | nil => rfl
  | cons c rest ih => simpa [List.utf8Encode] using ih

end ActionCode.Text
