/-!
# Files

What the program needs of a disk: to read a text, to write one and to make folders. Where the disk
is and what else it can do is not said, so the same program runs on the machine's disk and on one in
memory (`Console.MemoryDisk`).
-/

namespace Toolpath.Console

/-- Why a disk did not do what it was asked. `other` holds a failure in the disk's own words. -/
inductive DiskError where
  | notFound
  | isFolder
  | notFolder
  | taken
  | notText
  | other (failure : String)
deriving Repr, DecidableEq

/-- The wording of a failure, with the number that the system gives it. -/
def DiskError.message : DiskError → String
  | notFound => "No such file or directory (os error 2)"
  | isFolder => "Is a directory (os error 21)"
  | notFolder => "Not a directory (os error 20)"
  | taken => "File exists (os error 17)"
  | notText => "stream did not contain valid UTF-8"
  | other failure => failure

/-- The calls of a disk. Paths are texts, and names in them are set apart by slashes. -/
class Disk (m : Type → Type) where
  /-- The text of a file. -/
  read : String → m (Except DiskError String)
  /-- A folder, and the folders that it is in, are there afterwards. -/
  makeFolders : String → m (Except DiskError Unit)
  /-- The file holds this text and nothing else afterwards. -/
  write : String → String → m (Except DiskError Unit)

/-- Something is there if it can be read, or if reading fails for another reason than that nothing
is. -/
def Disk.holds {m : Type → Type} [Monad m] [Disk m] (path : String) : m Bool := do
  match ← Disk.read path with
  | .error .notFound | .error .notFolder => return false
  | _ => return true

/-! ## Paths -/

/-- The names in a path, between its slashes. -/
def pathNames (path : String) : List String := (path.toList.splitOn '/').map String.ofList

/-- The part of a path before its last name; slashes after that name do not count. -/
def folderOf (path : String) : String :=
  let fromEnd := path.toList.reverse.dropWhile (· == '/')
  String.ofList (fromEnd.dropWhile (· != '/')).reverse

end Toolpath.Console
