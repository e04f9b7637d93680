import Toolpath.Console.Disk

/-!
# A disk in memory

A tree of folders and texts below one folder, the working folder of the program. A place in it is
the list of names that leads there, and paths are walked name by name, as a disk does: a name can
only be followed from a folder.
-/

namespace Toolpath.Console

/-- Where a path leads: names from the working folder on. Names that lead out of it come first. -/
abbrev Place := List String

/-- Files and folders in memory. A folder is there if a file is in it or it has been made. -/
structure MemoryDisk where
  /-- The full path of the working folder. -/
  root : String
  files : List (Place × String)
  folders : List Place
deriving Repr

namespace MemoryDisk

/-- The name that leads to the folder around. -/
def upward : String := ".."

/-- The place lies in no folder of this disk: it is the working folder or one around it. -/
def isAround (place : Place) : Bool := place.all (· == upward)

/-- A folder is at the place. -/
def isFolder (disk : MemoryDisk) (place : Place) : Bool :=
  isAround place || place == ["/"] || disk.folders.contains place
    || disk.files.any fun file => place.length < file.1.length && place.isPrefixOf file.1

/-- The text of the file at a place. -/
def text? (disk : MemoryDisk) (place : Place) : Option String := List.lookup place disk.files

/-- Nothing can be followed from a place that is no folder. -/
def requireFolder (disk : MemoryDisk) (place : Place) : Except DiskError Unit :=
  if disk.isFolder place then .ok ()
  else if (disk.text? place).isSome then .error .notFolder
  else .error .notFound

/-- One name further. -/
def follow (place : Place) (name : String) : Place :=
  if name = "" ∨ name = "." then place
  else if name = upward then if isAround place then place ++ [upward] else place.dropLast
  else place ++ [name]

/-- The place where names lead, if each is followed from a folder. -/
def walk (disk : MemoryDisk) (place : Place) : List String → Except DiskError Place
  | [] => .ok place
  | name :: rest =>
    match disk.requireFolder place with
    | .error error => .error error
    | .ok () => walk disk (follow place name) rest

/-- Where a path starts, and the names in it. The full path of the working folder is known, and of
other full paths only the outermost folder. -/
def start (disk : MemoryDisk) (path : String) : Place × List String :=
  let names := pathNames path
  let root := pathNames disk.root
  if root.isPrefixOf names then ([], names.drop root.length)
  else if names.head? = some "" then (["/"], names.drop 1)
  else ([], names)

/-- The place where a path leads. -/
def locate (disk : MemoryDisk) (path : String) : Except DiskError Place :=
  let (place, names) := disk.start path
  if path = "" then .error .notFound else disk.walk place names

/-- The text at a path. -/
def read (disk : MemoryDisk) (path : String) : Except DiskError String :=
  match disk.locate path with
  | .error error => .error error
  | .ok place =>
    if disk.isFolder place then .error .isFolder
    else
      match disk.text? place with
      | none => .error .notFound
      | some text => .ok text

/-- Folders made one in another; those that are there stay as they are. -/
def makeEach (disk : MemoryDisk) (place : Place) : List String → Except DiskError MemoryDisk
  | [] => .ok disk
  | name :: rest =>
    let next := follow place name
    if disk.isFolder next then makeEach disk next rest
    else if (disk.text? next).isSome then .error (if rest = [] then .taken else .notFolder)
    else makeEach { disk with folders := disk.folders ++ [next] } next rest

/-- The folders on a path made. -/
def makeFolders (disk : MemoryDisk) (path : String) : Except DiskError MemoryDisk :=
  let (place, names) := disk.start path
  disk.makeEach place (names.filter (· ≠ ""))

/-- The file at a place set to a text. A new file comes after those that are there. -/
def setText (disk : MemoryDisk) (place : Place) (text : String) : MemoryDisk :=
  if (disk.text? place).isSome then
    { disk with files := disk.files.map fun file => if file.1 = place then (place, text) else file }
  else { disk with files := disk.files ++ [(place, text)] }

/-- A text written at a path. A path that ends with a slash can only be that of a folder. -/
def write (disk : MemoryDisk) (path text : String) : Except DiskError MemoryDisk :=
  let (place, names) := disk.start path
  match disk.walk place (if names.getLast? = some "" then names.dropLast else names) with
  | .error error => .error error
  | .ok place =>
    if disk.isFolder place || names.getLast? = some "" then .error .isFolder
    else .ok (disk.setText place text)

/-- A change that may fail, and then changes nothing. -/
def change (step : MemoryDisk → Except DiskError MemoryDisk) :
    StateM MemoryDisk (Except DiskError Unit) := fun disk =>
  match step disk with
  | .error error => (.error error, disk)
  | .ok disk => (.ok (), disk)

instance : Disk (StateM MemoryDisk) where
  read path := fun disk => (disk.read path, disk)
  makeFolders path := change (·.makeFolders path)
  write path text := change (·.write path text)

end MemoryDisk

end Toolpath.Console
