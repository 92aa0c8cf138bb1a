namespace ActionCode.Text.Quoted

def escape : Char → List Char
  | '"' => ['\\', '"']
  | '\\' => ['\\', '\\']
  | '\n' => ['\\', 'n']
  | '\r' => ['\\', 'r']
  | '\t' => ['\\', 't']
  | c => [c]

def unescape : Char → Char
  | 'n' => '\n'
  | 'r' => '\r'
  | 't' => '\t'
  | c => c

def encode (text : List Char) : List Char :=
  '"' :: (text.flatMap escape ++ ['"'])

/-- What a literal holds and what follows it, from behind its opening quote;
`none` if no closing quote comes. -/
def decode : List Char → Option (List Char × List Char)
  | [] => none
  | '"' :: rest => some ([], rest)
  | ['\\'] => none
  | '\\' :: c :: rest => (decode rest).map fun (text, after) => (unescape c :: text, after)
  | c :: rest => (decode rest).map fun (text, after) => (c :: text, after)

theorem decode_escape_append (c : Char) (rest : List Char) :
    decode (escape c ++ rest) = (decode rest).map fun (text, after) => (c :: text, after) := by
  unfold escape
  split <;> simp_all [decode, unescape]

theorem decode_flatMap_escape (text rest : List Char) :
    decode (text.flatMap escape ++ '"' :: rest) = some (text, rest) := by
  induction text with
  | nil => simp [decode]
  | cons c text ih =>
    rw [List.flatMap_cons, List.append_assoc, decode_escape_append, ih]
    rfl

theorem length_lt_of_decode {text body after : List Char} (h : decode text = some (body, after)) :
    after.length < text.length := by
  fun_induction decode text generalizing body with
  | case1 => simp at h
  | case2 rest =>
    simp only [Option.some.injEq, Prod.mk.injEq] at h
    simp [← h.2]
  | case3 => simp at h
  | case4 c rest ih =>
    simp only [Option.map_eq_some_iff, Prod.mk.injEq, Prod.exists] at h
    obtain ⟨left, right, hd, rfl, rfl⟩ := h
    have := ih hd
    simp only [List.length_cons]
    omega
  | case5 c rest _ _ _ ih =>
    simp only [Option.map_eq_some_iff, Prod.mk.injEq, Prod.exists] at h
    obtain ⟨left, right, hd, rfl, rfl⟩ := h
    have := ih hd
    simp only [List.length_cons]
    omega

end ActionCode.Text.Quoted
