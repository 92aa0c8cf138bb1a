import ActionCode.Folder

namespace ActionCode

def WriteMode.kept : WriteMode → List UInt8 → List UInt8
  | .truncate, _ => []
  | .append, old => old

namespace Folder

variable {folder : Folder} {file other : Place}

theorem follow_of_ok {toDirectory : Bool} {level : Nat} {parts : List PathPart}
    (h : folder.follow toDirectory level parts = .ok file) (folder' : Folder) :
    folder'.follow toDirectory level parts = .ok file := by
  induction parts generalizing level with
  | nil => contradiction
  | cons part rest ih =>
    cases part with
    | stay | up => exact ih h
    | name name =>
      cases rest with
      | nil => exact h
      | cons next rest =>
        rw [follow] at h
        cases hplace : Place.ofName level name with
        | error error => simp [hplace, bind, Except.bind] at h
        | ok place =>
          simp only [hplace, bind, Except.bind] at h
          split at h <;> contradiction

theorem locate_of_ok {path : String} (h : folder.locate path = .ok file) (folder' : Folder) :
    folder'.locate path = .ok file := by
  unfold locate at h ⊢
  cases hpath : Path.parse path with
  | error error => simp [hpath, bind, Except.bind] at h
  | ok parsed =>
    rw [hpath] at h
    exact follow_of_ok h folder'

theorem find?_prepare (folder : Folder) (file : Place) (mode : WriteMode) :
    (folder.prepare file mode).files.find? file = some (mode.kept (folder.contents file)) := by
  cases mode <;> exact Table.find?_insert_self ..

theorem find?_deposit {old : List UInt8} {mode : WriteMode}
    (h : folder.files.find? file = some old) (hmode : mode = .truncate → old = [])
    (bytes : List UInt8) :
    (folder.deposit file mode bytes).files.find? file = some (old ++ bytes) := by
  cases mode with
  | truncate =>
    obtain rfl := hmode rfl
    simp [deposit, contents, h]
  | append => simp [deposit, contents, h]

theorem find?_deposit_of_ne (h : file ≠ other) (mode : WriteMode) (bytes : List UInt8) :
    (folder.deposit other mode bytes).files.find? file = folder.files.find? file := by
  cases mode <;> exact Table.find?_insert_of_ne _ _ h

end Folder

end ActionCode
