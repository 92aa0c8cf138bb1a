import ActionCode.Options
import ActionCode.Path
import ActionCode.Table

namespace ActionCode

/-- The files of a directory and of those above it. Files and the way up are
all that these directories hold. -/
structure Folder where
  files : Table Place (List UInt8)

namespace Folder

def empty : Folder := ⟨Table.empty⟩

/-- The place that the parts of a path lead to, from a directory `level` levels
up. What they go through has to be a directory; what they end at need not
exist. -/
def follow (folder : Folder) (toDirectory : Bool) (level : Nat) :
    List PathPart → Except PathError Place
  | [] => .error .isDirectory
  | .stay :: rest => follow folder toDirectory level rest
  | .up :: rest => follow folder toDirectory (level + 1) rest
  | [.name name] => if toDirectory then .error .isDirectory else Place.ofName level name
  | .name name :: _ :: _ => do
    let place ← Place.ofName level name
    if folder.files.contains place then .error .notDirectory else .error .notFound

def locate (folder : Folder) (path : String) : Except PathError Place := do
  let path ← Path.parse path
  folder.follow path.toDirectory 0 path.parts

def contents (folder : Folder) (file : Place) : List UInt8 :=
  (folder.files.find? file).getD []

/-- Makes a file ready for writing. To truncate it empties it at once. -/
def prepare (folder : Folder) (file : Place) (mode : WriteMode) : Folder :=
  match mode with
  | .truncate => ⟨folder.files.insert file []⟩
  | .append => ⟨folder.files.insert file (folder.contents file)⟩

/-- Puts bytes into a file: at its end to append, and otherwise at its start,
over what has come there in the meantime. -/
def deposit (folder : Folder) (file : Place) (mode : WriteMode) (bytes : List UInt8) : Folder :=
  let old := folder.contents file
  match mode with
  | .truncate => ⟨folder.files.insert file (bytes ++ old.drop bytes.length)⟩
  | .append => ⟨folder.files.insert file (old ++ bytes)⟩

def text? (folder : Folder) (path : String) : Option String :=
  match folder.locate path with
  | .error _ => none
  | .ok file => (folder.files.find? file).bind Text.ofBytes?

end Folder

end ActionCode
