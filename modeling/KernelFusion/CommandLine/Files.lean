import KernelFusion.Data.Bytes

/-!
# Files

What the command line needs of a file system, and a directory of files in memory that gives it. The
directory is the working directory of the program. Around it there are the directories above it, the
root of the system with its usual directories, and the null device, which is empty and stays so.
-/

namespace KernelFusion.CommandLine

/-- Why a file cannot be read or written. -/
inductive FileError where
  /-- There is no such file. -/
  | notFound
  /-- A step of the path is a file and not a directory. -/
  | notDirectory
  /-- The path is that of a directory. -/
  | isDirectory
  /-- The path or one of its steps is too long. -/
  | nameTooLong
  /-- The file should be a text and is not. -/
  | notText
  /-- Anything else. -/
  | other (message : String)
deriving DecidableEq

/-- The message of a file error. -/
def FileError.message : FileError → String
  | notFound => "No such file or directory (os error 2)"
  | notDirectory => "Not a directory (os error 20)"
  | isDirectory => "Is a directory (os error 21)"
  | nameTooLong => "File name too long (os error 36)"
  | notText => "stream did not contain valid UTF-8"
  | other message => message

/-- Reading and writing files. -/
structure FileAccess (m : Type → Type) where
  /-- The content of a file. -/
  read : String → m (Except FileError Bytes)
  /-- Make a file with a content, or replace the content of the file. -/
  write : String → Bytes → m (Except FileError Unit)

/-- The steps that lead to a place. They start in the working directory, or with a slash in the root
of the system; steps upwards come first. -/
abbrev Place := List String

namespace Place

/-- The working directory. -/
def here : Place := []

/-- The root of the system. -/
def root : Place := ["/"]

/-- The null device. -/
def nullDevice : Place := ["/", "dev", "null"]

/-- The place one step further. A dot leads nowhere and two dots lead upwards, from the root to
itself. -/
def step (place : Place) (name : String) : Place :=
  if name = "." then place
  else if name = ".." then
    if place = root then root
    else if place.getLast?.getD ".." = ".." then place ++ [".."]
    else place.dropLast
  else place ++ [name]

/-- Where a path starts. -/
def start (path : String) : Place := if path.startsWith "/" then root else here

/-- The names between the slashes of a path. -/
def names (path : String) : List String := (path.splitOn "/").filter (· ≠ "")

/-- The place that a path leads to. -/
def ofPath (path : String) : Place := (names path).foldl step (start path)

/-- The names of the usual directories in the root of a system. -/
def systemDirectories : List String :=
  ["bin", "boot", "dev", "etc", "home", "lib", "media", "mnt", "opt", "proc", "root", "run", "sbin",
    "srv", "sys", "tmp", "usr", "var"]

/-- Whether a place is a directory in any case. -/
def isStanding (place : Place) : Bool :=
  place.all (· = "..") || place = root || systemDirectories.any (fun n => place = ["/", n])

end Place

/-- A directory: its files, each with its place. -/
abbrev Directory := List (Place × Bytes)

namespace Directory

/-- What is found at a place. -/
inductive Entry where
  /-- A directory. -/
  | directory
  /-- A file with its content. -/
  | file (content : Bytes)
deriving DecidableEq

/-- What is found at a place. A file has directories on the way to it. -/
def entry? (d : Directory) (place : Place) : Option Entry :=
  if place = Place.nullDevice then some (.file [])
  else
    match d.lookup place with
    | some content => some (.file content)
    | none =>
      if place.isStanding || d.any (fun e => place.isPrefixOf e.1) then some .directory else none

/-- The greatest number of bytes in a name. -/
def nameLimit : Nat := 255

/-- The number of bytes from which on a path is too long. -/
def pathLimit : Nat := 4096

/-- Check that a place is a directory. -/
def enter (d : Directory) (place : Place) : Except FileError Unit :=
  match d.entry? place with
  | some .directory => .ok ()
  | some (.file _) => .error .notDirectory
  | none => .error .notFound

/-- Go from one place to the next, which is possible in directories only. -/
def goOn (d : Directory) (place : Place) (name : String) : Except FileError Place := do
  d.enter place
  if nameLimit < name.utf8ByteSize then .error .nameTooLong
  else .ok (place.step name)

/-- Read a file. A path that ends with a slash can only be that of a directory. -/
def read (d : Directory) (path : String) : Except FileError Bytes := do
  if pathLimit ≤ path.utf8ByteSize then .error .nameTooLong
  else
    let place ← (Place.names path).foldlM d.goOn (Place.start path)
    match d.entry? place with
    | none => .error .notFound
    | some .directory => .error .isDirectory
    | some (.file content) => if path.endsWith "/" then .error .notDirectory else .ok content

/-- Give a file a content; the file may be a new one. The null device keeps nothing. -/
def put (d : Directory) (place : Place) (content : Bytes) : Directory :=
  if place = Place.nullDevice then d
  else if (d.lookup place).isSome then
    d.map (fun e => if e.1 = place then (place, content) else e)
  else d ++ [(place, content)]

/-- Write a file. For a path that ends with a slash it does not matter what is found there, only
that there is a directory for it. -/
def write (d : Directory) (path : String) (content : Bytes) : Except FileError Directory := do
  if pathLimit ≤ path.utf8ByteSize then .error .nameTooLong
  else if path.endsWith "/" then
    d.enter (← (Place.names path).dropLast.foldlM d.goOn (Place.start path))
    .error .isDirectory
  else
    let place ← (Place.names path).foldlM d.goOn (Place.start path)
    match d.entry? place with
    | some .directory => .error .isDirectory
    | some (.file _) | none => .ok (d.put place content)

/-- Access to the files of a directory in memory. -/
def access : FileAccess (StateM Directory) where
  read path := do return (← get).read path
  write path content := do
    match (← get).write path content with
    | .error e => return .error e
    | .ok d =>
      set d
      return .ok ()

end Directory

end KernelFusion.CommandLine
