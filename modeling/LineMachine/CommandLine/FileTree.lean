/-!
# File trees

A file tree is what the command line sees of the file system: files and
directories below a root, and the directory that names are relative to.

**Input.**  A file name as it is given on the command line.

**Algorithm.**  The name is walked component by component, from the root if it
starts with a slash and from the current directory if not.  Every component, an
empty one at the end included, has to be looked up in a directory; a single dot
stays there and two dots go to the directory around it.  Where the last
component denotes nothing, a file may be made by writing, unless the name ends
in a slash, which asks for a directory.

**Results.**
* `FileTree.find`: the file that a name denotes, or why it denotes none.
* `FileTree.place`: the file that a name denotes or would denote.
* `FileTree.read`, `FileTree.write`: the bytes of that file.
-/

namespace LineMachine

/-- Why a name denotes no file. -/
inductive FileError where
  | missing
  | isDirectory
  | notDirectory
deriving DecidableEq, Repr

/-- The wording of a file error. -/
def FileError.message : FileError → String
  | missing => "No such file or directory"
  | isDirectory => "Is a directory"
  | notDirectory => "Not a directory"

/-- The components of a path from the root, outermost first. -/
abbrev Path := List String

/-- The files and directories, and where names start. -/
structure FileTree where
  files : List (Path × ByteArray)
  /-- The directories, besides those that hold a file or a directory. -/
  directories : List Path
  current : Path

/-- What there is at a path. -/
inductive Entry where
  | file
  | directory
  | nothing
deriving DecidableEq, Repr

namespace FileTree

/-- The components of a name: what stands between its slashes. -/
def components (name : String) : List String :=
  name.splitOn "/"

/-- Whether a path is a directory: one that is listed, the current one, or one
that holds something. -/
def isDirectory (t : FileTree) (path : Path) : Bool :=
  path.isPrefixOf t.current || t.directories.any (fun d => path.isPrefixOf d) ||
    t.files.any fun f => path.isPrefixOf f.1

/-- What there is at a path. -/
def entryAt (t : FileTree) (path : Path) : Entry :=
  if t.files.any fun f => f.1 == path then .file
  else if t.isDirectory path then .directory
  else .nothing

/-- The path that a component of a name leads to from a directory. -/
def enter (component : String) (path : Path) : Path :=
  if component = "" ∨ component = "." then path
  else if component = ".." then path.dropLast
  else path ++ [component]

/-- What a file is looked up for; for writing it may be missing. -/
inductive Access where
  | reading
  | writing
deriving DecidableEq, Repr

/-- The file at the path that a whole name leads to. -/
def arrive (t : FileTree) (access : Access) (path : Path) : Except FileError Path :=
  match t.entryAt path with
  | .file => .ok path
  | .directory => .error .isDirectory
  | .nothing => if access = .writing then .ok path else .error .missing

/-- The file that the rest of a name leads to from a path. -/
def walk (t : FileTree) (access : Access) (path : Path) : List String → Except FileError Path
  | [] => t.arrive access path
  | c :: cs =>
    if access = .writing ∧ (c :: cs).all String.isEmpty then .error .isDirectory
    else match t.entryAt path with
      | .file => .error .notDirectory
      | .directory => walk t access (enter c path) cs
      | .nothing => .error .missing

/-- The path that a name leads to if every component on the way is a directory. -/
def resolve (t : FileTree) (name : String) : Path :=
  match components name with
  | "" :: cs => cs.foldl (fun path c => enter c path) []
  | cs => cs.foldl (fun path c => enter c path) t.current

/-- The file that a name leads to; the empty name leads nowhere. -/
def locate (t : FileTree) (access : Access) (name : String) : Except FileError Path :=
  if name = "" then .error .missing
  else match components name with
    | "" :: cs => t.walk access [] cs
    | cs => t.walk access t.current cs

/-- The file that a name denotes. -/
def find (t : FileTree) (name : String) : Except FileError Path :=
  t.locate .reading name

/-- The file that a name denotes, or the one that can be made under this name. -/
def place (t : FileTree) (name : String) : Except FileError Path :=
  t.locate .writing name

/-- The bytes at a path. -/
def bytesAt (t : FileTree) (path : Path) : ByteArray :=
  (t.files.lookup path).getD .empty

/-- The bytes of the file that a name denotes. -/
def read (t : FileTree) (name : String) : Except FileError ByteArray :=
  (t.find name).map t.bytesAt

/-- The tree with other bytes at a path, where a file may be new. -/
def writeAt (t : FileTree) (path : Path) (bytes : ByteArray) : FileTree :=
  if t.files.any (fun f => f.1 == path) then
    { t with files := t.files.map fun f => if f.1 = path then (path, bytes) else f }
  else { t with files := t.files ++ [(path, bytes)] }

/-- The tree with other bytes in the file that a name denotes, which is made if it is
missing. -/
def write (t : FileTree) (name : String) (bytes : ByteArray) : Except FileError FileTree :=
  (t.place name).map fun path => t.writeAt path bytes

/-- The empty tree with a current directory. -/
def emptyAt (current : Path) : FileTree := ⟨[], [], current⟩

/-- The tree with one more directory, given by name. -/
def addDirectory (t : FileTree) (name : String) : FileTree :=
  { t with directories := t.resolve name :: t.directories }

/-- The tree with one more file, given by name. -/
def addFile (t : FileTree) (name : String) (bytes : ByteArray) : FileTree :=
  { t with files := t.files ++ [(t.resolve name, bytes)] }

end FileTree
end LineMachine
