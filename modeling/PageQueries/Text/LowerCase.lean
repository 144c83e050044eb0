import PageQueries.Text.LetterCase

/-!
# Lower-casing

Labels and truth words are compared and shown in lower case.  Every letter has one lower-case
form, with two exceptions: `İ` becomes `i` and a combining dot, and a capital sigma at the end of
a word becomes the final sigma.
-/
namespace PageQueries.Text

/-- The lower-case form of a character by itself. -/
def lowerChar (c : Char) : Text :=
  if c.toNat = 0x130 then ['i', Char.ofNat 0x307]
  else
    match caseRuns.find? (·.covers c.toNat) with
    | some r => [Char.ofNat (c.toNat + r.shift).toNat]
    | none => [c]

/-- Whether the nearest character that is not case-ignorable is cased. -/
def meetsCased (t : Text) : Bool :=
  match t.dropWhile (inRanges caseIgnorableRanges) with
  | [] => false
  | c :: _ => inRanges casedRanges c

/-- A sigma is final if it ends a word: a cased letter comes before it and none after it. -/
def lowerSigma (before after : Text) : Char :=
  if meetsCased before && !meetsCased after then Char.ofNat 0x3c2 else Char.ofNat 0x3c3

/-- Lower-cases the second text; `before` is what precedes it, last character first. -/
def lowerAfter (before : Text) : Text → Text
  | [] => []
  | c :: t =>
    (if c.toNat = 0x3a3 then [lowerSigma before t] else lowerChar c) ++ lowerAfter (c :: before) t

/-- The text in lower case. -/
def lower (t : Text) : Text := lowerAfter [] t

end PageQueries.Text
