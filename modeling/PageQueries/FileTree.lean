import PageQueries.Path
import PageQueries.Store.Disk

/-!
# File trees

The files and folders that a command sees.  A path is followed name by name from the root or from
the current folder, and neither it nor a name may be too long; whatever fails tells the path that
was asked for.
-/
namespace PageQueries

/-- What a name in a folder stands for. -/
inductive Node where
  | folder
  | file (content : Bytes)

/-- Why a path cannot be used. -/
inductive FileFault where
  | notFound
  | exists
  | notFolder
  | isFolder
  | nameTooLong
  deriving DecidableEq, Repr

namespace FileFault

def number : FileFault → Nat
  | notFound => 2
  | «exists» => 17
  | notFolder => 20
  | isFolder => 21
  | nameTooLong => 36

def words : FileFault → Text
  | notFound => "No such file or directory".toList
  | «exists» => "File exists".toList
  | notFolder => "Not a directory".toList
  | isFolder => "Is a directory".toList
  | nameTooLong => "File name too long".toList

end FileFault

/-- A fault with the path that was asked for. -/
structure FileError where
  fault : FileFault
  path : Path
  deriving DecidableEq, Repr

def FileError.message (e : FileError) : Text :=
  "[Errno ".toList ++ Text.ofNat e.fault.number ++ "] ".toList ++ e.fault.words ++ ": ".toList
    ++ Text.quoted e.path.text

/-- Files and folders by the names that lead to them from the root, and the current folder. -/
structure FileTree where
  nodes : OrderedMap (List Text) Node
  current : List Text

namespace FileTree

/-- What stands at a place.  The root is a folder. -/
def at? (t : FileTree) (place : List Text) : Option Node :=
  if place.isEmpty then some .folder else t.nodes.get? place

/-- The largest number of bytes of a name. -/
def nameLimit : Nat := 255

/-- The largest number of bytes of a path. -/
def pathLimit : Nat := 4095

/-- Follows names from a place.  Two dots lead to the folder above; the last name may be free. -/
def walk (t : FileTree) (place : List Text) : List Text → Except FileFault (List Text)
  | [] => .ok place
  | name :: names =>
    match t.at? place with
    | none => .error .notFound
    | some (.file _) => .error .notFolder
    | some .folder =>
      if nameLimit < (Utf8.encode name).length then .error .nameTooLong
      else walk t (if name = ['.', '.'] then place.dropLast else place ++ [name]) names

/-- The place that a path leads to. -/
def placeOf (t : FileTree) (p : Path) : Except FileFault (List Text) :=
  if pathLimit < (Utf8.encode p.text).length then .error .nameTooLong
  else t.walk (if p.root.isEmpty then t.current else []) p.parts

def find (t : FileTree) (p : Path) : Except FileFault Node := do
  let place ← t.placeOf p
  match t.at? place with
  | some node => .ok node
  | none => .error .notFound

def isFolder (t : FileTree) (p : Path) : Bool :=
  match t.find p with
  | .ok .folder => true
  | _ => false

def read (t : FileTree) (p : Path) : Except FileError Bytes :=
  match t.find p with
  | .ok (.file content) => .ok content
  | .ok .folder => .error ⟨.isFolder, p⟩
  | .error fault => .error ⟨fault, p⟩

def put (t : FileTree) (place : List Text) (node : Node) : FileTree :=
  { t with nodes := t.nodes.insert place node }

/-- Writes a file in a folder that exists. -/
def write (t : FileTree) (p : Path) (content : Bytes) : Except FileError FileTree :=
  match t.placeOf p with
  | .error fault => .error ⟨fault, p⟩
  | .ok place =>
    match t.at? place with
    | some .folder => .error ⟨.isFolder, p⟩
    | _ => .ok (t.put place (.file content))

def makeFolder (t : FileTree) (p : Path) : Except FileFault FileTree := do
  let place ← t.placeOf p
  match t.at? place with
  | some _ => .error .exists
  | none => .ok (t.put place .folder)

/-- Makes a folder, unless it exists. -/
def ensureFolder (t : FileTree) (p : Path) : Except FileError FileTree :=
  match t.makeFolder p with
  | .ok t => .ok t
  | .error fault =>
    if fault ≠ .notFound ∧ t.isFolder p then .ok t else .error ⟨fault, p⟩

/-- Makes a folder and the folders above it, unless they exist. -/
def ensureFolders (t : FileTree) (p : Path) : Except FileError FileTree :=
  match t.ensureFolder p with
  | .ok t => .ok t
  | .error e =>
    if _h : e.fault = .notFound ∧ p.parts ≠ [] then do
      let t ← ensureFolders t p.parent
      t.ensureFolder p
    else .error e
termination_by p.parts.length
decreasing_by
  simp only [Path.parent, List.length_dropLast]
  have := List.length_pos_iff.2 _h.2
  omega

/-- The files of the folder at a place. -/
def filesAt (t : FileTree) (place : List Text) : Directory :=
  .ofList (t.nodes.toList.filterMap fun e =>
    match e.1.reverse, e.2 with
    | name :: above, .file content =>
      if above.reverse = place then some (name, content) else none
    | _, _ => none)

/-- The files of a folder; none if the path leads to no folder. -/
def filesOf (t : FileTree) (p : Path) : Directory :=
  match t.placeOf p with
  | .ok place => t.filesAt place
  | .error _ => .empty

def remove (t : FileTree) (p : Path) : FileTree :=
  match t.placeOf p with
  | .ok place => { t with nodes := t.nodes.erase place }
  | .error _ => t

/-- Brings the files of a folder from one state to another: removes those that are gone and writes
those that are new or changed. -/
def update (t : FileTree) (p : Path) (before after : Directory) : Except FileError FileTree :=
  let t := (before.keys.filter (!after.contains ·)).foldl (fun t name => t.remove (p.child name)) t
  (after.toList.filter fun f => before.get? f.1 ≠ some f.2).foldlM
    (fun t f => t.write (p.child f.1) f.2) t

end FileTree

end PageQueries
