namespace ActionCode

/-- A finite map: each key stands in one entry, the newest in front. -/
structure Table (κ ν : Type) where
  entries : List (κ × ν)
  nodup : (entries.map Prod.fst).Nodup

namespace Table

variable {κ ν : Type}

def empty : Table κ ν := ⟨[], List.nodup_nil⟩

def keys (t : Table κ ν) : List κ :=
  t.entries.map Prod.fst

def size (t : Table κ ν) : Nat :=
  t.entries.length

variable [DecidableEq κ]

def find? (t : Table κ ν) (k : κ) : Option ν :=
  (t.entries.find? fun e => e.1 = k).map Prod.snd

def contains (t : Table κ ν) (k : κ) : Bool :=
  (t.find? k).isSome

def erase (t : Table κ ν) (k : κ) : Table κ ν where
  entries := t.entries.filter fun e => e.1 ≠ k
  nodup := t.nodup.sublist (List.filter_sublist.map Prod.fst)

def insert (t : Table κ ν) (k : κ) (v : ν) : Table κ ν where
  entries := (k, v) :: (t.erase k).entries
  nodup := by
    refine List.nodup_cons.mpr ⟨?_, (t.erase k).nodup⟩
    simp [erase]

@[simp] theorem find?_empty (k : κ) : (empty : Table κ ν).find? k = none := rfl

@[simp] theorem find?_erase_self (t : Table κ ν) (k : κ) : (t.erase k).find? k = none := by
  simp [find?, erase, List.find?_filter]

theorem find?_erase_of_ne (t : Table κ ν) {k l : κ} (h : l ≠ k) :
    (t.erase k).find? l = t.find? l := by
  have hp : (fun e : κ × ν => decide (decide (e.1 ≠ k) = true ∧ decide (e.1 = l) = true)) =
      fun e => decide (e.1 = l) := by
    funext e
    by_cases he : e.1 = l <;> simp [he, h]
  simp only [find?, erase, List.find?_filter, hp]

@[simp] theorem find?_insert_self (t : Table κ ν) (k : κ) (v : ν) :
    (t.insert k v).find? k = some v := by
  simp [find?, insert]

theorem find?_insert_of_ne (t : Table κ ν) {k l : κ} (v : ν) (h : l ≠ k) :
    (t.insert k v).find? l = t.find? l := by
  rw [← find?_erase_of_ne t h]
  simp [find?, insert, Ne.symm h]

theorem mem_keys_iff (t : Table κ ν) (k : κ) : k ∈ t.keys ↔ (t.find? k).isSome := by
  simp [keys, find?]

end Table

end ActionCode
