import PageQueries.Digest

/-!
# Route keys

A page is identified by the digest of its path, whichever separators the path is written with.
Below a project's root the path is taken relative to the root.
-/
namespace PageQueries.RouteKey

/-- A path with forward slashes as separators. -/
def unifySeparators (path : Text) : Text := path.map fun c => if c = '\\' then '/' else c

/-- A path without separators at its end. -/
def dropSeparators (path : Text) : Text := (path.reverse.dropWhile (· = '/')).reverse

/-- The path that is digested (`normalize`): below a root that is not empty, what follows the
root. -/
def normalize (root : Option Text) (path : Text) : Text :=
  let path := unifySeparators path
  match root.map unifySeparators with
  | none | some [] => path
  | some root => (Text.after? (dropSeparators root ++ ['/']) path).getD path

/-- The route key of a page (`generate_key`). -/
def generate (root : Option Text) (path : Text) : Text := Digest.ofText (normalize root path)

end PageQueries.RouteKey
