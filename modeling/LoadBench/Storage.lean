/-
  LoadBench.Storage

  Files as a run meets them: directories and a few small files that are always
  there.  A path is walked part by part, and only a directory can be walked on
  from.  The way a path is refused tells where the walk ended: at a name that is
  not there, at a file with more of the path behind it, or at a name that is too
  long.
-/

import LoadBench.Fault
import LoadBench.Lines.Source
import LoadBench.Text.Utf8

namespace LoadBench

/-- Why a file cannot be used. -/
inductive StorageFault where
  /-- There is no such file, or no such directory on the way to it. -/
  | missing
  /-- The path goes on behind a file. -/
  | notDirectory
  | isDirectory
  /-- The path, or one of the names in it. -/
  | nameTooLong
  /-- No path has this text. -/
  | notPath
  /-- There is no room for what is to be written. -/
  | noSpace
  deriving DecidableEq, Repr

/-- What a user is told about a file that cannot be used. -/
def StorageFault.message : StorageFault → String
  | .missing => "No such file or directory (os error 2)"
  | .notDirectory => "Not a directory (os error 20)"
  | .isDirectory => "Is a directory (os error 21)"
  | .nameTooLong => "File name too long (os error 36)"
  | .notPath => "file name contained an unexpected NUL byte"
  | .noSpace => "No space left on device (os error 28)"

/-- A file that cannot be used, as a fault. -/
def StorageFault.fault (fault : StorageFault) : Fault := ⟨.io, fault.message⟩

namespace Storage

/-! ## What is there -/

/-- A place in the tree of directories: the names on the way to it from the root, the last one
first. -/
abbrev Place := List String

/-- The place from which relative paths are walked. -/
def workplace : Place := ["."]

/-- What is found at a place. -/
inductive Node where
  | directory
  | file (content : List UInt8)
  deriving DecidableEq, Repr

/-- The directories that are always there. -/
def directories : List Place :=
  [[], workplace, ["bin"], ["boot"], ["dev"], ["etc"], ["home"], ["lib"], ["lib64"], ["media"],
    ["mnt"], ["opt"], ["proc"], ["root"], ["run"], ["sbin"], ["srv"], ["sys"], ["tmp"], ["usr"],
    ["var"], ["shm", "dev"], ["pts", "dev"], ["ssl", "etc"], ["self", "proc"], ["bin", "usr"],
    ["lib", "usr"], ["local", "usr"], ["sbin", "usr"], ["share", "usr"], ["bin", "local", "usr"],
    ["lib", "var"], ["log", "var"], ["tmp", "var"]]

/-- The bytes that every executable file starts with, and one that is no text. -/
def executable : List UInt8 := [0x7F, 0x45, 0x4C, 0x46, 0x02, 0x01, 0x01, 0xFF]

/-- The file that is always full. -/
def fullFile : Place := ["full", "dev"]

/-- The directory of what is running. No file can be put there. -/
def running : Place := ["proc"]

/-- The files that are always there: one that is empty and stays so, one that takes nothing, the
tables of users and of hosts, and the shell. -/
def files : List (Place × List UInt8) :=
  [(["null", "dev"], []), (fullFile, []),
    (["passwd", "etc"], Utf8.ofString "root:x:0:0:root:/root:/bin/bash\n"),
    (["hosts", "etc"], Utf8.ofString "127.0.0.1\tlocalhost\n"),
    (["hostname", "etc"], Utf8.ofString "localhost\n"),
    (["sh", "bin"], executable), (["sh", "bin", "usr"], executable)]

/-- What is found at a place, if anything. -/
def node? (place : Place) : Option Node :=
  if directories.contains place then some .directory
  else (files.find? fun file => file.1 == place).map fun file => .file file.2

/-! ## Paths -/

/-- How many bytes a path has at most. -/
def longestPath : Nat := 4095

/-- How many bytes a name in a path has at most. -/
def longestName : Nat := 255

/-- A path: whether it starts at the root, its names, and whether a slash follows the last one. -/
structure Path where
  isAbsolute : Bool
  names : List String
  hasSlash : Bool
  deriving DecidableEq, Repr

/-- The path of a text. -/
def path (text : String) : Except StorageFault Path :=
  let chars := text.toList
  if chars.contains '\x00' then .error .notPath
  else if longestPath < text.utf8ByteSize then .error .nameTooLong
  else if chars.isEmpty then .error .missing
  else
    .ok
      { isAbsolute := chars.head? = some '/'
        names := ((chars.splitOn '/').filter fun name => !name.isEmpty).map String.ofList
        hasSlash := chars.getLast? = some '/' }

/-- Whether a name stands for a place seen from another: for it itself or for the one above. -/
def isRelative (name : String) : Bool := name = "." || name = ".."

/-- Goes from a place, which must be a directory, to a name in it. Nothing has to be there. -/
def enter (place : Place) (name : String) : Except StorageFault Place :=
  match node? place with
  | none => .error .missing
  | some (.file _) => .error .notDirectory
  | some .directory =>
    if name = "." then .ok place
    else if name = ".." then .ok (place.drop 1)
    else if longestName < name.utf8ByteSize then .error .nameTooLong
    else .ok (name :: place)

/-- Goes along names from a place. -/
def walk (place : Place) (names : List String) : Except StorageFault Place :=
  names.foldlM enter place

/-- The place from which a path is walked. -/
def Path.start (path : Path) : Place := if path.isAbsolute then [] else workplace

/-- What a path leads to. A slash at its end asks for a directory. -/
def Path.node (path : Path) : Except StorageFault Node :=
  match walk path.start path.names with
  | .error fault => .error fault
  | .ok place =>
    match node? place with
    | none => .error .missing
    | some .directory => .ok .directory
    | some (.file content) => if path.hasSlash then .error .notDirectory else .ok (.file content)

/-- What a text leads to as a path. -/
def find (text : String) : Except StorageFault Node :=
  match path text with
  | .error fault => .error fault
  | .ok path => path.node

/-! ## Use -/

/-- Opens a file for reading. A directory can be opened, but not read. -/
def open? (text : String) : Except StorageFault Source :=
  match find text with
  | .error fault => .error fault
  | .ok .directory => .ok [.failed StorageFault.isDirectory.message]
  | .ok (.file content) => .ok [.bytes content]

/-- The bytes of a file. -/
def read (text : String) : Except StorageFault (List UInt8) :=
  match find text with
  | .error fault => .error fault
  | .ok .directory => .error .isDirectory
  | .ok (.file content) => .ok content

/-- Whether a path can be written to as a file. It has to end with the name of one. -/
def Path.create (path : Path) : Except StorageFault Unit :=
  match walk path.start path.names.dropLast, path.names.getLast? with
  | .error fault, _ => .error fault
  | .ok _, none => .error .isDirectory
  | .ok place, some name =>
    match node? place with
    | none => .error .missing
    | some (.file _) => .error .notDirectory
    | some .directory =>
      -- A name with a slash behind it is refused before anyone looks for it.
      if path.hasSlash || isRelative name then .error .isDirectory
      else
        match enter place name with
        | .error fault => .error fault
        | .ok place =>
          match node? place with
          | some .directory => .error .isDirectory
          | some (.file _) => if place = fullFile then .error .noSpace else .ok ()
          | none => if running.isSuffixOf place then .error .missing else .ok ()

/-- Whether a file can be written. -/
def create (text : String) : Except StorageFault Unit :=
  match path text with
  | .error fault => .error fault
  | .ok path => path.create

end Storage

end LoadBench
