import PageQueries.Digest
import PageQueries.Frame.Reader
import PageQueries.Store.Counters
import PageQueries.Store.Entry

/-!
# The disk store

Keeps the queries of each page in a file of its own, so that they outlive the store.  A file is
named by the digest of the page's route key.  A corrupt file is removed, with a warning, when it is
read; a file that exceeds a limit makes the request fail and stays.
-/
namespace PageQueries

abbrev Directory := OrderedMap Text Bytes

/-- A store that keeps queries in the files of a folder (`DiskQueryStore`). -/
structure DiskStore where
  files : Directory
  /-- How entries are compressed, if they are. -/
  codec : Option Codec
  counters : Counters

namespace DiskStore

/-- The ending of the names of entry files. -/
def entryEnding : Text := ".queries".toList

/-- A store over a folder. -/
def onFiles (files : Directory) (codec : Option Codec) : DiskStore := ⟨files, codec, .zero⟩

/-- A store over a folder whose entries are compressed into frames, if at all. -/
def ofFiles (files : Directory) (compressed : Bool) : DiskStore :=
  onFiles files (if compressed then some Frame.codec else none)

/-- The file of a route key (`_get_file_path`). -/
def fileOf (key : Text) : Text := Digest.ofText key ++ entryEnding

/-- The names of the entry files, in order. -/
def entryFiles (s : DiskStore) : List Text :=
  (s.files.keys.filter (Text.isEnding entryEnding)).mergeSort Text.le

def size (s : DiskStore) : Nat := s.entryFiles.length

def set (s : DiskStore) (key : Text) (queries : Queries) : DiskStore :=
  { s with files := s.files.insert (fileOf key) (Entry.write s.codec key queries) }

def removeCorrupt (s : DiskStore) (file : Text) : DiskStore × List Warning :=
  ({ s with files := s.files.erase file }, [.corruptEntry file])

/-- The queries of a page, if its file is an entry; counts the request. -/
def get (s : DiskStore) (key : Text) :
    Except Json.Limit (Option (OrderedMap Text Json)) × DiskStore × List Warning :=
  match s.files.get? (fileOf key) with
  | none => (.ok none, { s with counters := s.counters.miss }, [])
  | some content =>
    match Entry.read s.codec content with
    | .ok entry => (.ok (some entry.queries), { s with counters := s.counters.hit }, [])
    | .error .corrupt =>
      let (s, warnings) := s.removeCorrupt (fileOf key)
      (.ok none, { s with counters := s.counters.miss }, warnings)
    | .error (.limit l) => (.error l, { s with counters := s.counters.failure }, [])

/-- Removes the entry of a page; tells whether there was one. -/
def discard (s : DiskStore) (key : Text) : Bool × DiskStore :=
  (s.files.contains (fileOf key), { s with files := s.files.erase (fileOf key) })

def contains (s : DiskStore) (key : Text) : Bool := s.files.contains (fileOf key)

def clear (s : DiskStore) : DiskStore :=
  { s with files := s.entryFiles.foldl OrderedMap.erase s.files }

/-- Why the keys of a store cannot be listed. -/
inductive ListingError where
  /-- An entry does not tell its key. -/
  | keyMissing
  /-- An entry exceeds a limit. -/
  | limit (l : Json.Limit)
  deriving DecidableEq, Repr

/-- The keys that the given files tell, in order.  Corrupt files are removed; an entry without a
key, or beyond a limit, ends the listing. -/
def keysOf (s : DiskStore) :
    List Text → Except ListingError (List Json) × DiskStore × List Warning
  | [] => (.ok [], s, [])
  | file :: files =>
    match Entry.read s.codec ((s.files.get? file).getD []) with
    | .error .corrupt =>
      let (s, warnings) := s.removeCorrupt file
      let (keys, s, more) := s.keysOf files
      (keys, s, warnings ++ more)
    | .error (.limit l) => (.error (.limit l), s, [])
    | .ok entry =>
      match entry.key with
      | none => (.error .keyMissing, s, [])
      | some key =>
        let (keys, s, warnings) := s.keysOf files
        (keys.map (key :: ·), s, warnings)

/-- The keys that the entries tell, in the order of their files. -/
def keys (s : DiskStore) : Except ListingError (List Json) × DiskStore × List Warning :=
  s.keysOf s.entryFiles

end DiskStore

end PageQueries
