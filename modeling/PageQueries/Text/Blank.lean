import PageQueries.Text.Basic

/-!
# Blanks

Three classes of blank characters occur in the formats of this library.  *Inline blanks* are the
space and the tab: they may trail a fence or a delimiter.  *Blanks* are all characters that
separate words, the four information separators included: they end a query's name and are trimmed
from its text.  *White space* is the Unicode property of that name: it may surround a number.
-/
namespace PageQueries

/-- A range of code points, both ends included. -/
abbrev CodeRange := Nat × Nat

namespace Text

def inRanges (ranges : List CodeRange) (c : Char) : Bool :=
  ranges.any fun r => decide (r.1 ≤ c.toNat) && decide (c.toNat ≤ r.2)

/-- A space or a tab. -/
def isInlineBlank (c : Char) : Bool := c = ' ' || c = '\t'

/-- The characters that separate words. -/
def blankRanges : List CodeRange :=
  [(0x09, 0x0d), (0x1c, 0x20), (0x85, 0x85), (0xa0, 0xa0), (0x1680, 0x1680), (0x2000, 0x200a),
    (0x2028, 0x2029), (0x202f, 0x202f), (0x205f, 0x205f), (0x3000, 0x3000)]

/-- Whether a character separates words. -/
def isBlank (c : Char) : Bool := inRanges blankRanges c

/-- White space is blank without the four information separators U+001C to U+001F. -/
def isWhiteSpace (c : Char) : Bool :=
  isBlank c && !(decide (0x1c ≤ c.toNat) && decide (c.toNat ≤ 0x1f))

/-- The text without the characters of a class at its start. -/
def dropStart (p : Char → Bool) (t : Text) : Text := t.dropWhile p

/-- The text without the characters of a class at its end. -/
def dropEnd (p : Char → Bool) (t : Text) : Text := (t.reverse.dropWhile p).reverse

/-- The text without the characters of a class at either end. -/
def trimBy (p : Char → Bool) (t : Text) : Text := dropEnd p (dropStart p t)

/-- The text without surrounding blanks. -/
def trim (t : Text) : Text := trimBy isBlank t

end Text

end PageQueries
