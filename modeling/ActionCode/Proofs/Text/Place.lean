import ActionCode.Proofs.Text.Bytes
import ActionCode.Proofs.Text.Span

namespace ActionCode.Text

/-- The byte at a place of a text, as the character of that number: a character of
ASCII, or one that stands for a part of a longer character. -/
def peek? (text : String) (place : Nat) : Option Char :=
  (bytes text)[place]?.map Char.ofUInt8

/-- What stands between two places of a text, which have to be in order, within the
text, and between two of its characters. -/
def slice? (text : String) (start stop : Nat) : Option String :=
  if start ≤ stop ∧ (⟨start⟩ : String.Pos.Raw).IsValid text ∧
      (⟨stop⟩ : String.Pos.Raw).IsValid text then
    ofBytes? (((bytes text).drop start).take (stop - start))
  else none

def rest? (text : String) (place : Nat) : Option String :=
  slice? text place (bytes text).length

def runEnd (p : Char → Bool) (text : String) (place : Nat) : Nat :=
  place + (((bytes text).drop place).takeWhile (p ∘ Char.ofUInt8)).length

def run? (p : Char → Bool) (text : String) (place : Nat) : Option (String × Nat) :=
  (slice? text place (runEnd p text place)).map (·, runEnd p text place)

def At (text : String) (place : Nat) (rest : List Char) : Prop :=
  ∃ front, text.toList = front ++ rest ∧ byteLength front = place

/-- A byte of a character is the character itself if that is one of ASCII, and else
it is no character of ASCII either. -/
def Shows (c byte : Char) : Prop :=
  (c.toNat < 128 ∧ byte = c) ∨ (128 ≤ c.toNat ∧ 128 ≤ byte.toNat)

def AsciiOnly (p : Char → Bool) : Prop :=
  ∀ c d : Char, 128 ≤ c.toNat → 128 ≤ d.toNat → p c = p d

section Bytes

theorem Shows.test {p : Char → Bool} (hp : AsciiOnly p) {c byte : Char} (h : Shows c byte) :
    p byte = p c := by
  obtain ⟨-, rfl⟩ | ⟨hc, hbyte⟩ := h
  · rfl
  · exact hp byte c hbyte hc

theorem Shows.eq_iff {c byte a : Char} (h : Shows c byte) (ha : a.toNat < 128) :
    byte = a ↔ c = a := by
  obtain ⟨-, rfl⟩ | ⟨hc, hbyte⟩ := h
  · rfl
  · have hne : ∀ d : Char, 128 ≤ d.toNat → d ≠ a := by
      rintro d hd rfl
      omega
    simp [hne c hc, hne byte hbyte]

theorem toNat_ofUInt8 (b : UInt8) : (Char.ofUInt8 b).toNat = b.toNat := by
  have hval : (Char.ofUInt8 b).toNat = b.toUInt32.toNat := rfl
  rw [hval, UInt8.toNat_toUInt32]

theorem shows_of_mem_utf8EncodeChar {c : Char} {b : UInt8} (hb : b ∈ String.utf8EncodeChar c) :
    Shows c (Char.ofUInt8 b) := by
  have hval : c.val.toNat = c.toNat := rfl
  unfold String.utf8EncodeChar at hb
  dsimp only at hb
  split at hb
  · rw [List.mem_singleton] at hb
    refine .inl ⟨by omega, ?_⟩
    rw [hb, ← Char.toNat_inj, toNat_ofUInt8, UInt8.toNat_ofNat']
    omega
  · refine .inr ⟨by omega, ?_⟩
    rw [toNat_ofUInt8]
    split at hb
    · simp only [List.mem_cons, List.not_mem_nil, or_false] at hb
      obtain rfl | rfl := hb <;> rw [UInt8.toNat_ofNat'] <;> omega
    · split at hb
      · simp only [List.mem_cons, List.not_mem_nil, or_false] at hb
        obtain rfl | rfl | rfl := hb <;> rw [UInt8.toNat_ofNat'] <;> omega
      · simp only [List.mem_cons, List.not_mem_nil, or_false] at hb
        obtain rfl | rfl | rfl | rfl := hb <;> rw [UInt8.toNat_ofNat'] <;> omega

theorem bytes_ofList_append (a b : List Char) :
    bytes (String.ofList (a ++ b)) = bytes (String.ofList a) ++ bytes (String.ofList b) := by
  rw [String.ofList_append, bytes_append]

theorem length_bytes_ofList (text : List Char) :
    (bytes (String.ofList text)).length = byteLength text := by
  rw [length_bytes, String.toList_ofList]

theorem bytes_ofList_cons (c : Char) (rest : List Char) :
    bytes (String.ofList (c :: rest)) = String.utf8EncodeChar c ++ bytes (String.ofList rest) := by
  have hc : bytes (String.ofList [c]) = String.utf8EncodeChar c := by
    simp [bytes, String.toUTF8, List.utf8Encode_singleton]
  rw [← List.singleton_append, bytes_ofList_append, hc]

theorem length_takeWhile_bytes {p : Char → Bool} (hp : AsciiOnly p) (text : List Char) :
    ((bytes (String.ofList text)).takeWhile (p ∘ Char.ofUInt8)).length =
      byteLength (text.takeWhile p) := by
  induction text with
  | nil => rfl
  | cons c text ih =>
    have hbytes : ∀ b ∈ String.utf8EncodeChar c, (p ∘ Char.ofUInt8) b = p c := fun b hb =>
      (shows_of_mem_utf8EncodeChar hb).test hp
    rw [bytes_ofList_cons]
    cases hc : p c with
    | true =>
      rw [List.takeWhile_append_of_pos fun b hb => (hbytes b hb).trans hc,
        List.takeWhile_cons_of_pos hc, List.length_append, ih, byteLength_cons,
        String.length_utf8EncodeChar]
    | false =>
      obtain ⟨b, more, hencode⟩ := List.exists_cons_of_ne_nil (@String.utf8EncodeChar_ne_nil c)
      have hb := (hbytes b (by simp [hencode])).trans hc
      rw [List.takeWhile_cons_of_neg (by simp [hc]), hencode, List.cons_append,
        List.takeWhile_cons_of_neg (Bool.eq_false_iff.mp hb)]
      rfl

end Bytes

namespace At

variable {text : String} {place : Nat} {rest : List Char}

theorem start (text : String) : At text 0 text.toList :=
  ⟨[], rfl, rfl⟩

theorem isValid (h : At text place rest) : (⟨place⟩ : String.Pos.Raw).IsValid text := by
  obtain ⟨front, htext, rfl⟩ := h
  exact isValid_byteLength htext

theorem of_isValid (h : (⟨place⟩ : String.Pos.Raw).IsValid text) : ∃ rest, At text place rest := by
  obtain ⟨front, back, rfl, hplace⟩ := String.Pos.Raw.isValid_iff_exists_append.mp h
  refine ⟨back.toList, front.toList, String.toList_append, ?_⟩
  rw [← length_bytes]
  exact (congrArg String.Pos.Raw.byteIdx hplace).symm

theorem add_byteLength (h : At text place rest) :
    place + byteLength rest = (bytes text).length := by
  obtain ⟨front, htext, rfl⟩ := h
  rw [length_bytes, htext, byteLength_append]

theorem skip {taken : List Char} (h : At text place (taken ++ rest)) :
    At text (place + byteLength taken) rest := by
  obtain ⟨front, htext, rfl⟩ := h
  exact ⟨front ++ taken, by rw [htext, List.append_assoc], byteLength_append front taken⟩

theorem drop_bytes (h : At text place rest) :
    (bytes text).drop place = bytes (String.ofList rest) := by
  obtain ⟨front, htext, rfl⟩ := h
  have hbytes : bytes text = bytes (String.ofList front) ++ bytes (String.ofList rest) := by
    rw [← bytes_ofList_append, ← htext, String.ofList_toList]
  rw [hbytes, ← length_bytes_ofList front, List.drop_left]

theorem unique {other : List Char} (h : At text place rest) (h' : At text place other) :
    rest = other := by
  have hbytes := congrArg ofBytes? (h.drop_bytes.symm.trans h'.drop_bytes)
  rw [ofBytes?_bytes, ofBytes?_bytes] at hbytes
  exact String.ofList_injective (Option.some.inj hbytes)

theorem peek?_nil (h : At text place []) : peek? text place = none := by
  rw [peek?, ← List.head?_drop, h.drop_bytes]
  rfl

theorem peek?_cons {c : Char} (h : At text place (c :: rest)) :
    ∃ byte, peek? text place = some byte ∧ Shows c byte := by
  obtain ⟨b, more, hencode⟩ := List.exists_cons_of_ne_nil (@String.utf8EncodeChar_ne_nil c)
  refine ⟨Char.ofUInt8 b, ?_, shows_of_mem_utf8EncodeChar (by simp [hencode])⟩
  rw [peek?, ← List.head?_drop, h.drop_bytes, bytes_ofList_cons, hencode]
  rfl

theorem peek?_eq_iff (h : At text place rest) {a : Char} (ha : a.toNat < 128) :
    peek? text place = some a ↔ rest.head? = some a := by
  cases rest with
  | nil => simp [h.peek?_nil]
  | cons c rest =>
    obtain ⟨byte, hpeek, hshows⟩ := h.peek?_cons
    simp [hpeek, hshows.eq_iff ha]

theorem slice? {taken : List Char} (h : At text place (taken ++ rest)) :
    slice? text place (place + byteLength taken) = some (String.ofList taken) := by
  have hbytes : ((bytes text).drop place).take (byteLength taken) =
      bytes (String.ofList taken) := by
    rw [h.drop_bytes, bytes_ofList_append, ← length_bytes_ofList taken, List.take_left]
  rw [Text.slice?, if_pos ⟨Nat.le_add_right .., h.isValid, h.skip.isValid⟩,
    Nat.add_sub_cancel_left, hbytes, ofBytes?_bytes]

theorem rest? (h : At text place rest) : rest? text place = some (String.ofList rest) := by
  have hslice := @slice? text place [] rest (by simpa using h)
  rwa [h.add_byteLength] at hslice

theorem run? {p : Char → Bool} (hp : AsciiOnly p) (h : At text place rest) :
    run? p text place = some (String.ofList (rest.takeWhile p),
      place + byteLength (rest.takeWhile p)) := by
  have hend : runEnd p text place = place + byteLength (rest.takeWhile p) := by
    rw [runEnd, h.drop_bytes, length_takeWhile_bytes hp]
  rw [← @List.takeWhile_append_dropWhile _ p rest] at h
  rw [Text.run?, hend, h.slice?]
  rfl

end At

theorem of_slice? {text part : String} {start stop : Nat} (h : slice? text start stop = some part) :
    start ≤ stop ∧ (⟨start⟩ : String.Pos.Raw).IsValid text ∧
      (⟨stop⟩ : String.Pos.Raw).IsValid text := by
  unfold slice? at h
  split at h
  · assumption
  · contradiction

theorem exists_at_of_slice? {text part : String} {start stop : Nat}
    (h : slice? text start stop = some part) : ∃ rest, At text start rest :=
  At.of_isValid (of_slice? h).2.1

end ActionCode.Text
