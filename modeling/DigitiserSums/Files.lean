import DigitiserSums.Text.Encoding

/-!
# Files

A program is given the files that it may read as a function from their names to their contents. A
folder is such a function: it holds named files side by side and has no folders in it.
-/

namespace DigitiserSums

inductive FileFault where
  | notFound
  | isDirectory
  /-- A file is named as if it were a folder. -/
  | notDirectory
  | notText
  /-- Any other cause, in the words of the system. -/
  | other (text : String)
deriving DecidableEq, Repr

def FileFault.message : FileFault → String
  | notFound => "No such file or directory (os error 2)"
  | isDirectory => "Is a directory (os error 21)"
  | notDirectory => "Not a directory (os error 20)"
  | notText => "stream did not contain valid UTF-8"
  | other text => text

abbrev Files := String → Except FileFault (List UInt8)

def Files.text (files : Files) (name : String) : Except FileFault String :=
  match files name with
  | .error fault => .error fault
  | .ok content => (Text.decode? content).elim (.error .notText) .ok

theorem Files.text_of_encode {files : Files} {name text : String}
    (h : files name = .ok (Text.encode text)) : files.text name = .ok text := by
  simp [Files.text, h]

/-- Files side by side. -/
structure Folder where
  entries : List (String × List UInt8)

namespace Folder

/-- A place that a name leads to. -/
inductive Place where
  /-- The folder itself. -/
  | inside
  /-- A folder that holds it. -/
  | outside
  | file (content : List UInt8)

/-- Goes one step on. Nothing is known to lie outside but the folders above. -/
def step (folder : Folder) : Place → String → Except FileFault Place
  | .file _, _ => .error .notDirectory
  | place, "" => .ok place
  | place, "." => .ok place
  | _, ".." => .ok .outside
  | .outside, _ => .error .notFound
  | .inside, name => (folder.entries.lookup name).elim (.error .notFound) fun c => .ok (.file c)

/-- The files of a folder. A name may have several steps with a slash between them; one that starts
with a slash starts outside. -/
def files (folder : Folder) : Files := fun name =>
  if name.isEmpty then .error .notFound
  else
    let start := if name.startsWith "/" then .outside else .inside
    match (name.splitOn "/").foldlM folder.step start with
    | .error fault => .error fault
    | .ok (.file content) => .ok content
    | .ok _ => .error .isDirectory

end Folder

end DigitiserSums
