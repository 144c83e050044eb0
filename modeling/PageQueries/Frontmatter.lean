import PageQueries.Text.Blank
import PageQueries.Text.Line

/-!
# Frontmatter

A page may begin with a block of metadata between two lines of three dashes.  `find?` cuts a page
into that block and the rest; `endOffset?` finds the end of the block again from its inner text
alone, which is all that a detector has to give.
-/
namespace PageQueries

/-- A page cut behind its frontmatter. -/
structure Frontmatter where
  /-- The block with its two delimiters, without the line end of the second. -/
  block : Text
  /-- The text between the delimiting lines, without its final line end. -/
  inner : Text
  /-- What follows the block. -/
  rest : Text
  deriving DecidableEq, Repr

namespace Frontmatter

def delimiter : Text := ['-', '-', '-']

/-- Reads the first line of the block; the rest is what follows the line. -/
def opening? (t : Text) : Option Text := do
  let r ← Text.after? delimiter t
  match r.dropWhile Text.isInlineBlank with
  | '\n' :: r => some r
  | '\r' :: '\n' :: r => some r
  | _ => none

/-- Whether a line ends here, before an optional carriage return. -/
def atLineEnd : Text → Bool
  | [] => true
  | '\n' :: _ => true
  | ['\r'] => true
  | '\r' :: '\n' :: _ => true
  | _ => false

/-- Reads the last line of the block up to its line end: the line, and the rest. -/
def closing? (t : Text) : Option (Text × Text) := do
  let r ← Text.after? delimiter t
  let rest := r.dropWhile Text.isInlineBlank
  if atLineEnd rest then some (delimiter ++ r.takeWhile Text.isInlineBlank, rest) else none

/-- Cuts a page behind its frontmatter, if it begins with one (`FRONTMATTER_PATTERN`). -/
def find? (content : Text) : Option Frontmatter := do
  let body ← opening? content
  let (lines, (_, rest)) ← Text.splitAtLine? closing? body
  some ⟨content.take (content.length - rest.length), Text.dropFinalLineEnd lines, rest⟩

/-- The inner text of a page's frontmatter (`contains_frontmatter`). -/
def inner? (content : Text) : Option Text := (find? content).map inner

/-- The block of a page's frontmatter, if it begins with one, and the rest of the page
(`split_frontmatter`). -/
def split (content : Text) : Option Text × Text :=
  match find? content with
  | some f => (some f.block, f.rest)
  | none => (none, content)

/-- The offset behind the closing dashes of the frontmatter whose inner text is given
(`_frontmatter_end`): the first dashes after the first place where that text occurs behind the
opening dashes. -/
def endOffset? (inner content : Text) : Option Nat := do
  let start ←
    if inner.isEmpty then some delimiter.length
    else Text.indexFrom? inner delimiter.length content
  let close ← Text.indexFrom? delimiter (start + inner.length) content
  some (close + delimiter.length)

end Frontmatter

end PageQueries
