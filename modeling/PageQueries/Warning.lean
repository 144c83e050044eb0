import PageQueries.Text.Quoted

/-!
# Warnings

What a run has to tell without failing.
-/
namespace PageQueries

/-- Something that went otherwise than the page's author may expect. -/
inductive Warning where
  /-- A query is not bound because its name is in use. -/
  | reservedName (id : Text)
  /-- The script of a page was asked for before its markup. -/
  | nothingStored (filename : Text)
  /-- A stored entry could not be read and was removed. -/
  | corruptEntry (file : Text)
  deriving DecidableEq, Repr

def Warning.message : Warning → Text
  | reservedName id =>
    "Skipping query ".toList ++ Text.quoted id
      ++ ": name is reserved in the generated script".toList
  | nothingStored filename =>
    "No stored queries for ".toList ++ filename
      ++ "; markup phase has not run for this page".toList
  | corruptEntry file => "Removing corrupted query store entry ".toList ++ file

end PageQueries
