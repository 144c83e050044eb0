import PageQueries.Text.Basic

/-!
# Paths

A path is kept in its normal form: repeated separators and single dots are gone, two dots stay.
Reading the written form of a path gives the path back.
-/
namespace PageQueries

/-- A path of names, from the root or from the current folder. -/
structure Path where
  /-- Empty, one slash or two slashes. -/
  root : Text
  parts : List Text
  deriving DecidableEq, Repr

namespace Path

/-- The parts that normalisation drops. -/
def isVoid (part : Text) : Bool := part = [] || part = ['.']

/-- The root of a path: exactly two slashes are a root of their own, any other number is one. -/
def rootOf (t : Text) : Text :=
  match (t.takeWhile (· = '/')).length with
  | 0 => []
  | 2 => ['/', '/']
  | _ => ['/']

def ofText (t : Text) : Path := ⟨rootOf t, (Text.splitOn '/' t).filter (!isVoid ·)⟩

def text (p : Path) : Text :=
  if p.parts.isEmpty then if p.root.isEmpty then ['.'] else p.root
  else p.root ++ Text.join ['/'] p.parts

/-- The last name of a path, or nothing. -/
def name (p : Path) : Text := p.parts.getLastD []

def parent (p : Path) : Path := ⟨p.root, p.parts.dropLast⟩

def child (p : Path) (name : Text) : Path := ⟨p.root, p.parts ++ [name]⟩

/-- A name cut before its last point.  A point at either end of the name does not count. -/
def cutName (name : Text) : Text × Text :=
  let ending := name.reverse.takeWhile (· != '.')
  match name.reverse.dropWhile (· != '.') with
  | _ :: stem => if stem.isEmpty || ending.isEmpty then (name, []) else
      (stem.reverse, '.' :: ending.reverse)
  | [] => (name, [])

/-- The last name of a path without its suffix. -/
def stem (p : Path) : Text := (cutName p.name).1

/-- What the last name of a path has from its last point on. -/
def suffix (p : Path) : Text := (cutName p.name).2

end Path

end PageQueries
